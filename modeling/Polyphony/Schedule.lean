import Polyphony.Envelope
import Polyphony.Notation
import Polyphony.Waveform

namespace Polyphony

/-- One oscillation to be played: what, when, and how loud. Times are seconds from the start of
the voice. -/
structure Entry where
  frequency : Float
  startTime : Float
  stopTime : Float
  envelope : Envelope
  waveform : Waveform
  /-- Where a start that is not a number stands among the others: before them all, as one that
  comes out of arithmetic does, or after. -/
  strayFirst : Bool := true
  deriving DecidableEq

namespace Entry

def finishTime (e : Entry) : Float := e.envelope.finishTime

def isSounding (e : Entry) (t : Float) : Bool :=
  e.startTime ≤ t && t ≤ e.finishTime

end Entry

structure VoiceSchedule where
  entries : Array Entry
  /-- The latest finish of an entry; 0 where nothing sounds. -/
  finishTime : Float
  deriving DecidableEq

namespace VoiceSchedule

def isEmpty (s : VoiceSchedule) : Bool := s.entries.isEmpty

def soundingAt (s : VoiceSchedule) (t : Float) : List (Entry × Nat) :=
  s.entries.toList.zipIdx.filter fun e ↦ e.1.isSounding t

end VoiceSchedule

/-- How far a voice has come, in beats: exactly while the sum fits, and always as a running sum. -/
structure Cursor where
  exact : Option NoteValue
  running : Float

namespace Cursor

def start : Cursor := ⟨some .zero, 0.0⟩

def beats (c : Cursor) : Float :=
  match c.exact with
  | some v => v.beats
  | none => c.running

/-- Moves on by a note. An exact position that is lost does not come back. -/
def advance (c : Cursor) (v : NoteValue) : Except ArithmeticFault Cursor := do
  let exact ← match c.exact with
    | some position => position.add? v
    | none => pure none
  return ⟨exact, c.running + v.beats⟩

end Cursor

structure Builder where
  /-- Seconds per beat. -/
  beat : Float
  adsr : Adsr
  waveform : Waveform
  cursor : Cursor
  seen : Nat
  entries : Array Entry
  finishTime : Float

namespace Builder

/-- The tempo, in quarter notes per minute, has to be a positive finite number. -/
def start (bpm : Float) (adsr : Adsr) (waveform : Waveform) : Except Error Builder :=
  if bpm.isFinite && 0.0 < bpm then
    .ok ⟨60.0 / bpm, adsr, waveform, .start, 0, #[], 0.0⟩
  else .error (.tempo bpm)

def entry (b : Builder) (frequency : Float) (v : NoteValue) : Entry :=
  let start := b.cursor.beats * b.beat
  let stop := start + v.beats * b.beat
  { frequency := frequency
    startTime := start
    stopTime := stop
    envelope := .forNote start stop b.adsr
    waveform := b.waveform }

variable {α : Type} [Playable α]

def push (b : Builder) (note : α) : Except ArithmeticFault Builder := do
  let v := Playable.value note
  let cursor ← b.cursor.advance v
  match Playable.frequency note with
  | none => return { b with cursor, seen := b.seen + 1 }
  | some frequency =>
    let e := b.entry frequency v
    return { b with
      cursor
      seen := b.seen + 1
      entries := b.entries.push e
      finishTime := larger b.finishTime e.finishTime }

def finish (b : Builder) : VoiceSchedule := ⟨b.entries, b.finishTime⟩

end Builder

def VoiceSchedule.build {α : Type} [Playable α] (notes : List α) (bpm : Float) (adsr : Adsr)
    (waveform : Waveform) : Except Failure VoiceSchedule :=
  match Builder.start bpm adsr waveform with
  | .error e => .error (.refused e)
  | .ok b =>
    match notes.foldlM Builder.push b with
    | .error f => .error (.arithmetic f)
    | .ok b => .ok b.finish

end Polyphony
