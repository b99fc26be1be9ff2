import Polyphony.Screen.Pane

namespace Polyphony.Screen

structure Transfer where
  shown : Array Cell
  next : Nat := 0
  afterWide : Bool := false
  /-- How many cells from the next on are covered by the symbols in front of them. -/
  covered : Nat := 0

namespace Transfer

/-- Cells are numbered row after row in 16 bits. On a larger screen the numbers begin again. -/
def numberCount : Nat := UInt16.size

/-- Sends a cell if it differs from the one in the drawing before, or if a symbol of one of the
drawings covers it. A cell right after a wide symbol is not sent. -/
def step (t : Transfer) : Cell × Cell → Transfer
  | (new, old) =>
    let sent := !t.afterWide && (new ≠ old || 0 < t.covered)
    { shown := if sent then t.shown.setIfInBounds (t.next % numberCount) new else t.shown
      next := t.next + 1
      afterWide := 1 < new.columns
      covered := max (max new.columns old.columns) t.covered - 1 }

def IsPlain (t : Transfer) : Prop := t.afterWide = false ∧ t.covered = 0

theorem step_plain {t : Transfer} {c : Cell × Cell} (ht : t.IsPlain) (hn : c.1.columns ≤ 1)
    (ho : c.2.columns ≤ 1) : (t.step c).IsPlain := by
  simp only [IsPlain, step, ht.2, decide_eq_false_iff_not]
  omega

theorem getElem?_step {t : Transfer} {c : Cell × Cell} (ht : t.IsPlain)
    (h : t.next < numberCount) (i : Nat) :
    (t.step c).shown[i]? =
      t.shown[i]?.map fun s ↦ if i = t.next ∧ c.1 ≠ c.2 then c.1 else s := by
  simp only [step, ht.1, ht.2, Nat.mod_eq_of_lt h]
  by_cases hc : c.1 = c.2
  · simp [hc]
  · by_cases hi : i = t.next
    · subst hi
      by_cases hs : t.next < t.shown.size <;> simp [hc, hs]
    · simp [hc, hi, Ne.symm hi]

/-- Where no symbol is wide and every cell has a number of its own, each cell that differs from the
one in the drawing before shows the new one. -/
theorem getElem?_foldl_step {cells : List (Cell × Cell)} {t : Transfer} (ht : t.IsPlain)
    (hc : ∀ c ∈ cells, c.1.columns ≤ 1 ∧ c.2.columns ≤ 1)
    (h : t.next + cells.length ≤ numberCount) (i : Nat) :
    (cells.foldl step t).shown[i]? =
      t.shown[i]?.map fun s ↦ (if t.next ≤ i then cells[i - t.next]? else none).elim s
        fun c ↦ if c.1 ≠ c.2 then c.1 else s := by
  induction cells generalizing t with
  | nil => simp
  | cons c cells ih =>
    rw [List.length_cons] at h
    have hc0 := hc c List.mem_cons_self
    have hcs : ∀ d ∈ cells, d.1.columns ≤ 1 ∧ d.2.columns ≤ 1 :=
      fun d hd ↦ hc d (List.mem_cons_of_mem _ hd)
    rw [List.foldl_cons, ih (step_plain ht hc0.1 hc0.2) hcs (by simp only [step]; omega),
      getElem?_step ht (by omega), Option.map_map]
    congr 1
    funext s
    simp only [step, Function.comp_apply]
    rcases Nat.lt_trichotomy i t.next with hi | rfl | hi
    · simp [Nat.ne_of_lt hi, Nat.not_le_of_gt hi, show ¬ t.next + 1 ≤ i by omega]
    · simp [Nat.not_succ_le_self t.next]
    · obtain ⟨k, hk⟩ : ∃ k, i - t.next = k + 1 := ⟨i - t.next - 1, by omega⟩
      simp [Nat.ne_of_gt hi, Nat.le_of_lt hi, Nat.succ_le_of_lt hi, hk,
        show i - (t.next + 1) = k by omega]

end Transfer

/-- A terminal, which is sent only the cells that a drawing changes. -/
structure Terminal where
  width : Nat
  height : Nat
  drawn : List Row
  shown : Array Cell

namespace Terminal

def blank (width height : Nat) : Terminal where
  width := width
  height := height
  drawn := List.replicate height (Row.blank .plain width)
  shown := Array.replicate (width * height) ⟨" ", .plain⟩

def draw (t : Terminal) (next : List Row) : Terminal :=
  { t with
    drawn := next
    shown := ((next.flatten.zip t.drawn.flatten).foldl Transfer.step { shown := t.shown }).shown }

def rows (t : Terminal) : List Row :=
  (List.range t.height).map fun y ↦ (t.shown.extract (y * t.width) ((y + 1) * t.width)).toList

def screens (t : Terminal) : List (List Row) → List (List Row)
  | [] => []
  | next :: rest => (t.draw next).rows :: (t.draw next).screens rest

end Terminal

end Polyphony.Screen
