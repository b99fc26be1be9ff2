import Polyphony.Decimal.Shortest
import Polyphony.NoteValue

namespace Polyphony

inductive UnitFault
  | split
  | pitch
  | octave
  | unknownPitch (name : String)
  | duration
  deriving DecidableEq, Repr

/-- What a unit lacks, in words; an unknown name is reported by the unit's message. -/
def UnitFault.reason : UnitFault → String
  | split => "expected <pitch>/<duration>"
  | pitch => "missing pitch"
  | octave => "octave must be an integer"
  | unknownPitch _ => "unknown pitch"
  | duration => "duration must be a positive integer, optionally dotted"

inductive Dial
  | bpm
  | attack
  | decay
  | sustain
  | release
  deriving DecidableEq, Repr

namespace Dial

def name : Dial → String
  | bpm => "BPM"
  | attack => "attack"
  | decay => "decay"
  | sustain => "sustain"
  | release => "release"

def lowest : Dial → Float
  | bpm => 10.0
  | sustain => 0.0
  | attack | decay | release => 0.01

def highest : Dial → Float
  | bpm => 300.0
  | attack | decay | sustain | release => 1.0

end Dial

inductive Error
  | unit (text : String) (fault : UnitFault)
  | tempo (bpm : Float)
  | voice (index : Nat) (source : Error)
  | outOfRange (dial : Dial) (value : Float)
  | unknownPreset (name : String)
  | unknownWaveform (name : String)
  deriving DecidableEq

namespace Error

def message : Error → String
  | unit text (.unknownPitch name) => s!"invalid note `{name}` in unit `{text}`"
  | unit text fault => s!"invalid unit `{text}`: {fault.reason}"
  | tempo bpm =>
    "tempo must be a positive number of beats per minute, got " ++ Decimal.shortest bpm
  | voice index source => s!"voice {index}: " ++ source.message
  | outOfRange dial value =>
    dial.name ++ " must be between " ++ Decimal.shortest dial.lowest ++ " and " ++
      Decimal.shortest dial.highest ++ ", got " ++ Decimal.shortest value
  | unknownPreset name => s!"unknown preset `{name}`"
  | unknownWaveform name => s!"unknown waveform `{name}`"

def offendingUnit? : Error → Option String
  | unit text _ => some text
  | voice _ source => source.offendingUnit?
  | _ => none

end Error

inductive Failure
  | refused (e : Error)
  | arithmetic (f : ArithmeticFault)

end Polyphony
