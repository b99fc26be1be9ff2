import Polyphony.Session
import Polyphony.Transport
import Polyphony.Journal

namespace Polyphony

structure Event where
  voice : Nat
  entry : Entry

namespace Event

def key (e : Event) : Int :=
  if e.entry.startTime.isNaN then
    if e.entry.strayFirst then -Nat.pow 2 63 else Nat.pow 2 63
  else orderKey e.entry.startTime

/-- Sorts by start; events that start together keep their order. -/
def sort (events : List Event) : List Event :=
  events.mergeSort fun d e ↦ d.key ≤ e.key

def ofSession (s : Session) : List Event :=
  s.voices.zipIdx.flatMap fun (schedule, voice) ↦
    schedule.entries.toList.map fun entry ↦ ⟨voice, entry⟩

end Event

structure Oscillator where
  event : Nat
  phase : Float

/-- Plays a session sample by sample. Its clock counts the samples played. -/
structure Renderer where
  sampleRate : Float
  events : Array Event
  cursor : Nat
  active : List Oscillator
  frames : Nat
  transport : Transport
  /-- One part in as many as there are voices. -/
  gain : Float32
  voiceCount : Nat
  finishTime : Float

namespace Renderer

def ofSession (s : Session) (sampleRate : Float) : Renderer where
  sampleRate := sampleRate
  events := (Event.sort (Event.ofSession s)).toArray
  cursor := 0
  active := []
  frames := 0
  transport := .running
  gain := 1.0 / (Float32.ofNat (max s.voices.length 1))
  voiceCount := s.voices.length
  finishTime := s.finishTime

def record (r : Renderer) : Record :=
  ⟨.debug, s!"renderer: {r.events.size} entries over {r.voiceCount} voices at " ++
    Decimal.shortest r.sampleRate ++ " Hz"⟩

def clockAt (sampleRate : Float) (frames : Nat) : Float :=
  Float.ofNat frames / sampleRate

def time (r : Renderer) : Float := clockAt r.sampleRate r.frames

def isFinished (r : Renderer) : Bool := r.finishTime < r.time

def voiceOf? (r : Renderer) (o : Oscillator) : Option Nat :=
  r.events[o.event]?.map Event.voice

def isVoiceActive (r : Renderer) (voice : Nat) : Bool :=
  r.active.any fun o ↦ r.voiceOf? o = some voice

/-- Obeys a command; closing the transport silences everything. -/
def handle (r : Renderer) (c : Command) : Renderer :=
  let next := r.transport.apply c
  if next = r.transport then r
  else if next.isClosed then { r with transport := next, active := [] }
  else { r with transport := next }

def handleAll (r : Renderer) (commands : List Command) : Renderer :=
  commands.foldl handle r

def startDue (t : Float) : Nat → Renderer → Renderer
  | 0, r => r
  | n + 1, r =>
    match r.events[r.cursor]? with
    | none => r
    | some e =>
      if e.entry.startTime ≤ t then
        startDue t n { r with active := r.active ++ [⟨r.cursor, 0.0⟩], cursor := r.cursor + 1 }
      else r

variable [Elementary]

def contribution (e : Entry) (phase t : Float) : Float32 :=
  e.waveform.sample phase * e.envelope.levelAt t

def nextPhase (e : Entry) (step phase : Float) : Float :=
  fraction (phase + e.frequency * step)

/-- Mixes the oscillators from the left and moves each one on. Those that have finished are
dropped. -/
def mix (events : Array Event) (t step : Float) :
    List Oscillator → Float32 → Float32 × List Oscillator
  | [], sum => (sum, [])
  | o :: rest, sum =>
    match events[o.event]? with
    | none => mix events t step rest sum
    | some e =>
      if e.entry.finishTime < t then mix events t step rest sum
      else
        let (total, kept) := mix events t step rest (sum + contribution e.entry o.phase t)
        (total, { o with phase := nextPhase e.entry step o.phase } :: kept)

def frame (r : Renderer) : Float32 × Renderer :=
  let t := r.time
  let r := startDue t (r.events.size - r.cursor) r
  let (sum, active) := mix r.events t (1.0 / r.sampleRate) r.active 0.0
  (clip (sum * r.gain), { r with active, frames := r.frames + 1 })

def play : Nat → Renderer → Array Float32 → Array Float32 × Renderer
  | 0, r, out => (out, r)
  | n + 1, r, out =>
    let (sample, r) := r.frame
    play n r (out.push sample)

/-- The next block of `n` samples. Unless the transport runs it is silence, and nothing moves. -/
def block (r : Renderer) (n : Nat) : Array Float32 × Renderer :=
  if r.transport = .running then play n r #[] else (Array.replicate n 0.0, r)

end Renderer

end Polyphony
