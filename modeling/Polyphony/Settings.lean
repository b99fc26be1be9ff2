import Polyphony.Session

namespace Polyphony

structure VoiceSettings where
  melody : String := ""
  bpm : UInt32 := 100
  waveform : Waveform := .sine
  attack : Float := 0.01
  decay : Float := 0.01
  sustain : Float := 1.0
  release : Float := 0.01
  deriving DecidableEq

inductive Preset
  | piano
  | synthesizer
  | drums
  deriving DecidableEq, Repr

namespace Preset

def all : List Preset := [piano, synthesizer, drums]

def name : Preset → String
  | piano => "piano"
  | synthesizer => "synthesizer"
  | drums => "drums"

def ofName (s : String) : Except Error Preset :=
  match all.find? fun p ↦ p.name = s with
  | some p => .ok p
  | none => .error (.unknownPreset s)

def settings (p : Preset) (melody : String) : VoiceSettings :=
  match p with
  | piano =>
    { melody, bpm := 100, waveform := .sine, decay := 0.44, sustain := 0.01, release := 0.3 }
  | synthesizer => { melody, bpm := 200, waveform := .sawtooth }
  | drums => { melody, bpm := 144, waveform := .triangle, decay := 0.15, sustain := 0.01 }

end Preset

def Waveform.ofName (s : String) : Except Error Waveform :=
  match named? s with
  | some w => .ok w
  | none => .error (.unknownWaveform s)

namespace VoiceSettings

/-- A preset replaces everything but the melody. -/
def apply (s : VoiceSettings) (p : Preset) : VoiceSettings := p.settings s.melody

/-- Applies the preset of a name, which has to be spelled exactly. -/
def applyNamed (s : VoiceSettings) (name : String) : Except Error VoiceSettings :=
  (Preset.ofName name).map s.apply

def value (s : VoiceSettings) : Dial → Float
  | .bpm => s.bpm.toFloat
  | .attack => s.attack
  | .decay => s.decay
  | .sustain => s.sustain
  | .release => s.release

def inRange (s : VoiceSettings) (d : Dial) : Bool :=
  d.lowest ≤ s.value d && s.value d ≤ d.highest

/-- The dials in the order in which they are checked. -/
def dials : List Dial := [.bpm, .attack, .decay, .sustain, .release]

def misset? (s : VoiceSettings) : Option Dial :=
  dials.find? fun d ↦ !s.inRange d

def voice (s : VoiceSettings) : Voice where
  melody := s.melody
  bpm := s.bpm.toFloat
  adsr := .ofShares s.attack s.decay s.sustain s.release
  waveform := s.waveform

variable [Elementary]

/-- The voice of settings in range with a readable melody. A dial is reported before the melody. -/
def validate (s : VoiceSettings) : Except Error Voice :=
  match s.misset? with
  | some d => .error (.outOfRange d (s.value d))
  | none => (WrittenNote.parseAll s.melody).map fun _ ↦ s.voice

inductive Evaluation
  | valid (schedule : VoiceSchedule)
  | invalid (error : Error)

def evaluate (s : VoiceSettings) : Except ArithmeticFault Evaluation :=
  match s.validate with
  | .error e => .ok (.invalid e)
  | .ok v =>
    match v.schedule with
    | .ok schedule => .ok (.valid schedule)
    | .error (.refused e) => .ok (.invalid e)
    | .error (.arithmetic f) => .error f

end VoiceSettings

structure Composition where
  voices : List VoiceSettings := []
  deriving DecidableEq

namespace Composition

def add (c : Composition) (s : VoiceSettings) : Composition := ⟨c.voices ++ [s]⟩

def remove (c : Composition) (i : Nat) : Option VoiceSettings × Composition :=
  (c.voices[i]?, ⟨c.voices.eraseIdx i⟩)

variable [Elementary]

def isPlayable (c : Composition) : Bool :=
  c.voices.all fun s ↦ s.validate.isOk

/-- Validates the settings from `index` on; the first that fail are reported with their index. -/
def validated (index : Nat) : List VoiceSettings → Except Error (List Voice)
  | [] => .ok []
  | s :: rest =>
    match s.validate with
    | .error e => .error (.voice index e)
    | .ok v => (validated (index + 1) rest).map (v :: ·)

def session (c : Composition) : Except Failure Session :=
  match validated 0 c.voices with
  | .error e => .error (.refused e)
  | .ok voices => Session.build voices

end Composition

end Polyphony
