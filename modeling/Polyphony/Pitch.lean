import Polyphony.Error
import Polyphony.Number.Elementary
import Polyphony.Number.Whole

namespace Polyphony

inductive PitchClass
  | c
  | cSharp
  | d
  | dSharp
  | e
  | f
  | fSharp
  | g
  | gSharp
  | a
  | aSharp
  | b
  deriving DecidableEq, Repr

namespace PitchClass

def all : List PitchClass :=
  [c, cSharp, d, dSharp, e, f, fSharp, g, gSharp, a, aSharp, b]

def index : PitchClass → Nat
  | c => 0
  | cSharp => 1
  | d => 2
  | dSharp => 3
  | e => 4
  | f => 5
  | fSharp => 6
  | g => 7
  | gSharp => 8
  | a => 9
  | aSharp => 10
  | b => 11

def name : PitchClass → String
  | c => "C"
  | cSharp => "C#"
  | d => "D"
  | dSharp => "D#"
  | e => "E"
  | f => "F"
  | fSharp => "F#"
  | g => "G"
  | gSharp => "G#"
  | a => "A"
  | aSharp => "A#"
  | b => "B"

/-- The class of a name, up to the case of ASCII letters. -/
def named? (cs : List Char) : Option PitchClass :=
  all.find? fun p ↦ p.name.toList = cs.map Char.toUpper

def ofName (s : String) : Except Error PitchClass :=
  match named? s.toList with
  | some p => .ok p
  | none => .error (.unit s (.unknownPitch s))

end PitchClass

structure Pitch where
  pitchClass : PitchClass
  octave : Int32
  deriving DecidableEq

namespace Pitch

def name (p : Pitch) : String :=
  p.pitchClass.name ++ toString p.octave.toInt

/-- The distance from A4, in semitones. -/
def semitones (p : Pitch) : Int :=
  (p.pitchClass.index - 9) + (p.octave.toInt - 4) * 12

def toHundredths (x : Float) : Float :=
  nearestWhole (x * 100.0) / 100.0

/-- Equal temperament over A4 = 440 Hz, in hundredths of a hertz. -/
def frequency [Elementary] (p : Pitch) : Float :=
  toHundredths (440.0 * twoTo (Float.ofInt p.semitones / 12.0))

def resolve [Elementary] (name : String) (octave : Int32) : Except Error Float :=
  (PitchClass.ofName name).map fun p ↦ frequency ⟨p, octave⟩

end Pitch

end Polyphony
