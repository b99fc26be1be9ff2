import Polyphony.Journal
import Polyphony.Screen.Timeline
import Polyphony.Screen.TransportBar

namespace Polyphony.Screen

structure View where
  score : Score
  reading : Reading
  records : List Record

namespace View

def shownRecords : Nat := 5

def recordColour : Level → Colour
  | .error => .red
  | .warn => .yellow
  | .info => .white
  | .debug | .trace => .darkGray

def recordLine (r : Record) : Line := [⟨r.text, recordColour r.level⟩]

def help (r : Reading) : Line :=
  [⟨" [Q] Stop  [Space] " ++ (if r.transport.canResume then "Resume" else "Suspend"), .darkGray⟩]

/-- The transport, the voices in what is left of the height, the records and the keys. -/
def draw (v : View) (width height : Nat) : Except ArithmeticFault (List Row) := do
  let transport ← TransportBar.draw v.score v.reading width 3
  let voices ← framed " Voices " (Timeline.draw v.score v.reading) width (height - 11)
  let log ← framed " Log " (pane .plain (v.records.map recordLine)) width (shownRecords + 2)
  let keys ← pane .darkGray [help v.reading] width 1
  return transport ++ voices ++ log ++ keys

end View

end Polyphony.Screen
