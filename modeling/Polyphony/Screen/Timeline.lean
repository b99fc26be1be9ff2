import Polyphony.Number.Order
import Polyphony.Reading
import Polyphony.Score
import Polyphony.Screen.Pane
import Polyphony.Text.Align

namespace Polyphony.Screen.Timeline

def labelWidth : Nat := 14

/-- How many columns the axis has. The last column of the area stays free. -/
def axisWidth (width : Nat) : Nat := width - (labelWidth + 1)

/-- The smallest difference between 1 and a larger number; no session is shown as shorter. -/
def shortestTotal : Float := Float.ofBits 0x3cb0000000000000

def columnTime (s : Score) (axis : Nat) : Float :=
  larger s.finishTime shortestTotal / Float.ofNat axis

/-- The marks from a column on, given the time of the next one. A second is marked once, and a
column at most. -/
def marks (step : Float) (column : Nat) (next : Float) : Nat → List Char
  | 0 => []
  | n + 1 =>
    if next ≤ Float.ofNat column * step then
      '|' :: marks step (column + 1) (next + larger 1.0 step) n
    else ' ' :: marks step (column + 1) next n

def isPlayed (t : Track) (time : Float) : Bool :=
  t.spans.any fun (start, finish) ↦ start ≤ time && time < finish

def block (t : Track) (step : Float) (column : Nat) : Char :=
  if isPlayed t ((Float.ofNat column + 0.5) * step) then '▓' else '░'

def blocks (t : Track) (step : Float) (axis : Nat) : List Char :=
  (List.range axis).map (block t step)

/-- The column that a time falls into; one past the end falls into the last. -/
def playhead (time step : Float) (axis : Nat) : Nat :=
  min (time / step).toUInt64.toNat (axis - 1)

def margin : String := String.ofList (List.replicate labelWidth ' ')

def markLine (s : Score) (axis : Nat) : Line :=
  [⟨margin ++ String.ofList (marks (columnTime s axis) 0 0.0 axis), .darkGray⟩]

def trackLabel (index : Nat) (t : Track) : String :=
  Text.alignLeft labelWidth s!"{index + 1}:{t.label}"

def trackLine (s : Score) (r : Reading) (axis : Nat) (t : Track) (index : Nat) : Line :=
  let active := r.isActive index
  [⟨trackLabel index t, if active then .white else .darkGray⟩,
   ⟨String.ofList (blocks t (columnTime s axis) axis), if active then .cyan else .darkGray⟩]

def playheadLine (s : Score) (r : Reading) (axis : Nat) : Line :=
  let head := playhead r.time (columnTime s axis) axis
  [⟨margin ++ String.ofList ((List.range axis).map fun c ↦ if c = head then '▲' else ' '), .yellow⟩]

def lines (s : Score) (r : Reading) (width : Nat) : List Line :=
  let axis := axisWidth width
  markLine s axis ::
    (s.tracks.zipIdx.map fun (t, index) ↦ trackLine s r axis t index) ++
    [playheadLine s r axis]

/-- Nothing is drawn where there is not even room for a short axis. -/
def draw (s : Score) (r : Reading) (width height : Nat) : Except ArithmeticFault (List Row) :=
  if height < 2 || width < labelWidth + 10 then pane .plain [] width height
  else pane .plain (lines s r width) width height

end Polyphony.Screen.Timeline
