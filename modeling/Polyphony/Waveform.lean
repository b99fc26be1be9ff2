import Polyphony.Number.Elementary
import Polyphony.Number.Single
import Polyphony.Number.Whole

namespace Polyphony

inductive Waveform
  | sine
  | sawtooth
  | square
  | triangle
  deriving DecidableEq, Repr

namespace Waveform

def all : List Waveform := [sine, sawtooth, square, triangle]

def name : Waveform → String
  | sine => "sine"
  | sawtooth => "sawtooth"
  | square => "square"
  | triangle => "triangle"

/-- The waveform of a name, up to the case of ASCII letters. -/
def named? (s : String) : Option Waveform :=
  all.find? fun w ↦ w.name.toList = s.toList.map Char.toLower

/-- One cycle in radians. -/
def turn : Float := 6.283185307179586

def shape [Elementary] (phase : Float) : Waveform → Float
  | sine => Elementary.sin (turn * phase)
  | sawtooth => if phase < 0.5 then 2.0 * phase else 2.0 * phase - 2.0
  | square => if phase < 0.5 then 1.0 else -1.0
  | triangle =>
    if phase < 0.25 then 4.0 * phase
    else if phase < 0.75 then 2.0 - 4.0 * phase
    else 4.0 * phase - 4.0

def sample [Elementary] (w : Waveform) (phase : Float) : Float32 :=
  narrow (w.shape (withinCycle phase))

end Waveform

end Polyphony
