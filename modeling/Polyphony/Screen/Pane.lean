import Polyphony.NoteValue
import Polyphony.Text.Cluster
import Polyphony.Text.Columns

namespace Polyphony.Screen

inductive Colour
  | plain
  | darkGray
  | white
  | cyan
  | yellow
  | green
  | red
  deriving DecidableEq, Repr

structure Span where
  text : String
  colour : Colour
  deriving DecidableEq

abbrev Line := List Span

def Line.chars (l : Line) : List Char := l.flatMap fun s ↦ s.text.toList

structure Cell where
  symbol : String
  colour : Colour
  deriving DecidableEq

/-- How many columns the symbol of a cell takes, from this one on. -/
def Cell.columns (c : Cell) : Nat := Text.columns c.symbol.toList

abbrev Row := List Cell

namespace Row

def blank (base : Colour) (width : Nat) : Row := List.replicate width ⟨" ", base⟩

/-- Draws symbols over cells, of which so many are used. Columns are counted in 16 bits, and a sum
of them that does not fit is a fault. A symbol wider than the row is left out, and the first that
does not fit any more ends it. The cells that a wide symbol reaches into stay as they are. -/
def draw (cells : Array Cell) (used : Nat) :
    List (List Char × Colour) → Except ArithmeticFault (Array Cell)
  | [] => .ok cells
  | (symbol, colour) :: rest =>
    let columns := Text.columns symbol % UInt16.size
    if cells.size < columns then draw cells used rest
    else if UInt16.size ≤ used + columns then .error .sumOverflow
    else if cells.size < used + columns then .ok cells
    else if Text.columns symbol = 0 then draw cells used rest
    else draw (cells.setIfInBounds used ⟨String.ofList symbol, colour⟩) (used + columns) rest

theorem size_draw {cells row : Array Cell} {used : Nat} {symbols : List (List Char × Colour)}
    (h : draw cells used symbols = .ok row) : row.size = cells.size := by
  fun_induction draw cells used symbols with
  | case1 => simp_all
  | case2 _ _ _ _ _ _ _ ih => exact ih h
  | case3 => simp at h
  | case4 => simp_all
  | case5 _ _ _ _ _ _ _ _ _ _ ih => exact ih h
  | case6 _ _ _ _ _ _ _ _ _ _ ih => simpa using ih h

/-- A line as a row, in which line feeds are dropped. -/
def ofLine (base : Colour) (width : Nat) (l : Line) : Except ArithmeticFault Row := do
  let symbols := l.flatMap fun s ↦
    ((Text.clusters s.text.toList).filter (· ≠ ['\n'])).map fun symbol ↦ (symbol, s.colour)
  return (← draw (Array.replicate width ⟨" ", base⟩) 0 symbols).toList

def between (left right : Cell) (middle : Nat → Row) : Nat → Row
  | 0 => []
  | 1 => [left]
  | width + 2 => left :: middle width ++ [right]

end Row

def pane (base : Colour) (lines : List Line) (width height : Nat) :
    Except ArithmeticFault (List Row) := do
  let rows ← (lines.take height).mapM (Row.ofLine base width)
  return rows ++ List.replicate (height - lines.length) (Row.blank base width)

def rule (left right title : String) : Nat → Row :=
  Row.between ⟨left, .plain⟩ ⟨right, .plain⟩ fun width ↦
    let title := (title.toList.take width).map fun c ↦ ⟨c.toString, .plain⟩
    title ++ List.replicate (width - title.length) ⟨"─", .plain⟩

def framed (title : String) (inside : Nat → Nat → Except ArithmeticFault (List Row)) (width : Nat) :
    Nat → Except ArithmeticFault (List Row)
  | 0 => return []
  | 1 => return [rule "┌" "┐" title width]
  | height + 2 => do
    let side : Cell := ⟨"│", .plain⟩
    let rows ← inside (width - 2) height
    return rule "┌" "┐" title width ::
      rows.map (fun row ↦ Row.between side side (fun _ ↦ row) width) ++
      [rule "└" "┘" "" width]

end Polyphony.Screen
