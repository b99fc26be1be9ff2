import Polyphony.Pitch
import Polyphony.Text.Numeral

namespace Polyphony

structure WrittenNote where
  text : String
  /-- Nothing for a rest. -/
  pitch : Option Pitch
  value : NoteValue
  deriving DecidableEq

structure TunedNote where
  /-- Nothing for a rest, which is silence and no tone of 0 Hz. -/
  frequency : Option Float
  value : NoteValue
  deriving DecidableEq

class Playable (α : Type) where
  frequency : α → Option Float
  value : α → NoteValue

instance : Playable TunedNote where
  frequency := TunedNote.frequency
  value := TunedNote.value

instance [Elementary] : Playable WrittenNote where
  frequency n := n.pitch.map Pitch.frequency
  value := WrittenNote.value

def WrittenNote.tuned [Elementary] (n : WrittenNote) : TunedNote :=
  ⟨n.pitch.map Pitch.frequency, n.value⟩

namespace Notation

/-- A name is one character, and a sharp in second place belongs to it; the octave is the rest. -/
def splitPitch : List Char → Option (List Char × List Char)
  | [] => none
  | c :: '#' :: octave => some ([c, '#'], octave)
  | c :: octave => some ([c], octave)

def readPitch (part : List Char) : Except UnitFault (Option Pitch) :=
  if part = ['_'] then .ok none
  else
    match splitPitch part with
    | none => .error .pitch
    | some (name, octave) =>
      match Text.int32? octave with
      | none => .error .octave
      | some o =>
        match PitchClass.named? name with
        | none => .error (.unknownPitch (String.ofList name))
        | some p => .ok (some ⟨p, o⟩)

def splitDot (part : List Char) : List Char × Bool :=
  if part.getLast? = some '.' then (part.dropLast, true) else (part, false)

def readValue? (part : List Char) : Option NoteValue :=
  let (digits, dot) := splitDot part
  (Text.word64? digits).bind NoteValue.ofDivision? |>.bind fun v ↦
    if dot then v.dotted? else some v

/-- The pitch and the length that a unit stands for. Its parts are read from the left. -/
def readUnit (unit : List Char) : Except UnitFault (Option Pitch × NoteValue) :=
  match unit.splitOn '/' with
  | [left, right] =>
    match readPitch left with
    | .error fault => .error fault
    | .ok pitch =>
      match readValue? right with
      | none => .error .duration
      | some value => .ok (pitch, value)
  | _ => .error .split

end Notation

def WrittenNote.parse (unit : String) : Except Error WrittenNote :=
  match Notation.readUnit unit.toList with
  | .ok (pitch, value) => .ok ⟨unit, pitch, value⟩
  | .error fault => .error (.unit unit fault)

/-- The units of a melody: what stands between single blanks. -/
def Notation.units (melody : String) : List String :=
  (melody.toList.splitOn ' ').map String.ofList

def WrittenNote.parseAll (melody : String) : Except Error (List WrittenNote) :=
  (Notation.units melody).mapM WrittenNote.parse

def TunedNote.parseAll [Elementary] (melody : String) : Except Error (List TunedNote) :=
  (WrittenNote.parseAll melody).map fun notes ↦ notes.map WrittenNote.tuned

end Polyphony
