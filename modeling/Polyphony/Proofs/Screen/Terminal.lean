import Mathlib.Algebra.BigOperators.Group.List.Lemmas
import Polyphony.Proofs.Screen.Plain
import Polyphony.Screen.Terminal

namespace Polyphony.Screen

open Text

/-- Only the cells that differ are sent, and that is enough. -/
theorem Transfer.shown_foldl_step {new old : List Cell} (hlength : new.length = old.length)
    (hfit : old.length ≤ numberCount) (hnew : ∀ c ∈ new, c.columns ≤ 1)
    (hold : ∀ c ∈ old, c.columns ≤ 1) :
    ((new.zip old).foldl step { shown := old.toArray }).shown = new.toArray := by
  have hnarrow : ∀ c ∈ new.zip old, c.1.columns ≤ 1 ∧ c.2.columns ≤ 1 :=
    fun c hc ↦ ⟨hnew _ (List.of_mem_zip hc).1, hold _ (List.of_mem_zip hc).2⟩
  have hcount : 0 + (new.zip old).length ≤ numberCount := by
    rw [List.length_zip]
    omega
  refine Array.ext_getElem? fun i ↦ ?_
  rw [getElem?_foldl_step ⟨rfl, rfl⟩ hnarrow hcount, List.getElem?_toArray, List.getElem?_toArray]
  by_cases hi : i < old.length
  · have hi' : i < new.length := by omega
    have hcell : (new.zip old)[i]? = some (new[i], old[i]) := List.getElem?_zip_eq_some.mpr
      ⟨List.getElem?_eq_getElem hi', List.getElem?_eq_getElem hi⟩
    rw [List.getElem?_eq_getElem hi, List.getElem?_eq_getElem hi']
    by_cases hsame : new[i] = old[i]
    · simp [hcell, hsame]
    · simp [hcell, hsame]
  · have hold' : old[i]? = none := List.getElem?_eq_none (by omega)
    have hnew' : new[i]? = none := List.getElem?_eq_none (by omega)
    rw [hold', hnew', Option.map_none]

/-- Rows that fill an area, in which no symbol is wide. -/
structure Fills (width height : ℕ) (rows : List Row) : Prop where
  count : rows.length = height
  length : ∀ row ∈ rows, row.length = width
  narrow : ∀ row ∈ rows, ∀ c ∈ row, c.columns ≤ 1

namespace Fills

variable {width height y : ℕ} {rows : List Row}

theorem map_length (h : Fills width height rows) :
    rows.map List.length = List.replicate height width := by
  rw [← h.count, List.map_eq_replicate_iff]
  exact h.length

theorem length_flatten (h : Fills width height rows) :
    rows.flatten.length = width * height := by
  rw [List.length_flatten, h.map_length, List.sum_replicate_nat, Nat.mul_comm]

theorem narrow_of_mem_flatten (h : Fills width height rows) {c : Cell} (hc : c ∈ rows.flatten) :
    c.columns ≤ 1 := by
  obtain ⟨row, hrow, hcell⟩ := List.mem_flatten.mp hc
  exact h.narrow row hrow c hcell

theorem extract_flatten (h : Fills width height rows) (hy : y < rows.length) :
    rows.flatten.extract (y * width) ((y + 1) * width) = rows[y] := by
  have hsum {n : ℕ} (hn : n ≤ height) : ((rows.map List.length).take n).sum = n * width := by
    rw [h.map_length, List.take_replicate, Nat.min_eq_left hn, List.sum_replicate_nat]
  have hheight := h.count
  have hrow := List.drop_take_succ_flatten_eq_getElem rows y hy
  rw [hsum (by omega), hsum (by omega), List.drop_take] at hrow
  rw [List.extract_eq_take_drop, hrow]

theorem blank (width height : ℕ) :
    Fills width height (List.replicate height (Row.blank .plain width)) where
  count := List.length_replicate
  length row hrow := by
    obtain rfl := List.eq_of_mem_replicate hrow
    exact List.length_replicate
  narrow row hrow c hc := by
    obtain rfl := List.eq_of_mem_replicate hrow
    obtain rfl := List.eq_of_mem_replicate hc
    decide

end Fills

theorem narrow_written {base : Colour} {width : ℕ} {l : Line} (hplain : ∀ c ∈ l.chars, IsPlain c)
    {c : Cell} (hc : c ∈ Row.written base width l) : c.columns ≤ 1 := by
  rw [Row.written, List.mem_append] at hc
  obtain hc | hc := hc
  · obtain ⟨s, hs, rfl⟩ := List.mem_map.mp (List.mem_of_mem_take hc)
    have hs' : s.1 ∈ l.chars := l.map_painted ▸ List.mem_map_of_mem hs
    rw [Cell.columns, Row.cell, String.toList_ofList, (hplain s.1 hs').columns_singleton]
  · obtain rfl := List.eq_of_mem_replicate hc
    exact show Text.columns " ".toList ≤ 1 by decide

theorem fills_of_plain {ls : List Line} {width height : ℕ}
    (hplain : ∀ l ∈ ls, ∀ c ∈ l.chars, IsPlain c)
    (hfit : ∀ l ∈ ls, l.chars.length < UInt16.size ∨ width + 1 < UInt16.size) :
    Fills width height ((ls.take height).map (Row.written .plain width) ++
      List.replicate (height - ls.length) (Row.blank .plain width)) := by
  have hblank := Fills.blank width (height - ls.length)
  refine ⟨?_, fun row hrow ↦ ?_, fun row hrow ↦ ?_⟩
  · simp only [List.length_append, List.length_map, List.length_take, List.length_replicate]
    omega
  · obtain hrow | hrow := List.mem_append.mp hrow
    · obtain ⟨l, hl, rfl⟩ := List.mem_map.mp hrow
      have hl' := List.mem_of_mem_take hl
      exact Row.length_ofLine (Row.ofLine_of_plain (hplain l hl') (hfit l hl'))
    · exact hblank.length row hrow
  · obtain hrow | hrow := List.mem_append.mp hrow
    · obtain ⟨l, hl, rfl⟩ := List.mem_map.mp hrow
      exact fun c hc ↦ narrow_written (hplain l (List.mem_of_mem_take hl)) hc
    · exact hblank.narrow row hrow

namespace Terminal

structure Shows (t : Terminal) : Prop where
  fills : Fills t.width t.height t.drawn
  shown : t.shown = t.drawn.flatten.toArray

variable {t : Terminal} {next : List Row}

theorem shows_blank (width height : ℕ) : (blank width height).Shows where
  fills := .blank width height
  shown := by
    simp [blank, Row.blank, Nat.mul_comm]

theorem Shows.rows (h : t.Shows) : t.rows = t.drawn := by
  have hcount := h.fills.count
  rw [Terminal.rows]
  refine List.ext_getElem ?_ fun y hy hy' ↦ ?_
  · simp [hcount]
  · rw [List.getElem_map, List.getElem_range, h.shown, Array.toList_extract,
      h.fills.extract_flatten hy']

theorem Shows.draw (h : t.Shows) (hnext : Fills t.width t.height next)
    (hfit : t.width * t.height ≤ Transfer.numberCount) : (t.draw next).Shows where
  fills := hnext
  shown := by
    have hold := h.fills.length_flatten
    rw [Terminal.draw, h.shown]
    exact Transfer.shown_foldl_step (hnext.length_flatten.trans hold.symm) (hold.trans_le hfit)
      (fun c hc ↦ hnext.narrow_of_mem_flatten hc) (fun c hc ↦ h.fills.narrow_of_mem_flatten hc)

/-- Each of some drawings can be seen as it is. -/
theorem Shows.screens (h : t.Shows) (hfit : t.width * t.height ≤ Transfer.numberCount)
    {drawings : List (List Row)} (hdrawings : ∀ rows ∈ drawings, Fills t.width t.height rows) :
    t.screens drawings = drawings := by
  induction drawings generalizing t with
  | nil => rfl
  | cons next rest ih =>
    obtain ⟨hnext, hrest⟩ := List.forall_mem_cons.mp hdrawings
    have hshows := h.draw hnext hfit
    rw [Terminal.screens, hshows.rows, ih hshows hfit hrest]
    rfl

end Terminal

end Polyphony.Screen
