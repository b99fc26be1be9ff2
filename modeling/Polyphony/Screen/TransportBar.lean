import Polyphony.Decimal.Places
import Polyphony.Number.Order
import Polyphony.Reading
import Polyphony.Score
import Polyphony.Screen.Pane
import Polyphony.Text.Align

namespace Polyphony.Screen.TransportBar

def symbol : Transport → String
  | .running => "▶"
  | .suspended => "⏸"
  | .closed => "■"

def colour : Transport → Colour
  | .running => .green
  | .suspended => .yellow
  | .closed => .red

/-- How much has been played, in percent; of nothing, all. -/
def progress (s : Score) (r : Reading) : Float :=
  if 0.0 < s.finishTime then smaller (r.time / s.finishTime * 100.0) 100.0 else 100.0

def line (s : Score) (r : Reading) : Line :=
  [⟨" " ++ symbol r.transport ++ " " ++ r.transport.name ++ "  ", colour r.transport⟩,
   ⟨Text.alignRight 6 (Decimal.fixed 2 r.time) ++ "s / " ++ Decimal.fixed 2 s.finishTime ++ "s  ",
     .white⟩,
   ⟨Text.alignRight 3 (Decimal.fixed 0 (progress s r)) ++ "%  ", .cyan⟩,
   ⟨s!"{s.tracks.length} voices  ", .darkGray⟩,
   ⟨Decimal.fixed 1 (s.sampleRate / 1000.0) ++ "kHz", .darkGray⟩]

def draw (s : Score) (r : Reading) : Nat → Nat → Except ArithmeticFault (List Row) :=
  framed " spn-play " (pane .plain [line s r])

end Polyphony.Screen.TransportBar
