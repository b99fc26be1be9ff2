import Mathlib.Data.List.Basic
import Polyphony.Screen.Pane

namespace Polyphony.Text

/-- A character that joins none of its neighbours and takes one column. -/
structure IsPlain (c : Char) : Prop where
  bond : Bond.ofChar c = .none
  columns : charColumns c = 1

theorem isPlain_of_printable {c : Char} (h : ' ' ≤ c ∧ c ≤ '~') : IsPlain c where
  bond := if_pos h
  columns := if_pos (Nat.le_trans h.2 (by decide))

theorem CharSet.contains_eq_false {s : CharSet} {c : Char}
    (h : ∀ r ∈ s.ranges.toList, c.toNat < r.1 ∨ r.2 < c.toNat) : s.contains c = false := by
  rw [Bool.eq_false_iff, Ne, contains_iff]
  rintro ⟨r, hr, hfirst, hlast⟩
  have hapart := h r (Array.mem_toList_iff.mpr hr)
  omega

def special : List CharSet :=
  [controls, marks, followers, openers, consonants, pictures, flagLetters, leads, vowels, trails,
    blocks, hidden, wide]

/-- Code points behind all those that are looked for one by one, and outside of all ranges. -/
structure Ordinary (low high : ℕ) : Prop where
  behind : 0x2029 ≤ low
  apart : ∀ s ∈ special, ∀ r ∈ s.ranges.toList, high < r.1 ∨ r.2 < low

theorem Ordinary.isPlain {low high : ℕ} (h : Ordinary low high) {c : Char} (hlow : low ≤ c.toNat)
    (hhigh : c.toNat ≤ high) : IsPlain c := by
  have hbehind : 0x2029 ≤ c.toNat := Nat.le_trans h.behind hlow
  have hne {d : Char} (hd : d.toNat < 0x2029) : c ≠ d := by
    rintro rfl
    omega
  have hprintable : ¬ (' ' ≤ c ∧ c ≤ '~') := by
    rintro ⟨-, hle⟩
    have hle' : c.toNat ≤ 0x7E := hle
    omega
  have hcontains : ∀ s ∈ special, s.contains c = false := fun s hs ↦
    CharSet.contains_eq_false fun r hr ↦ by
      have hapart := h.apart s hs r hr
      omega
  simp only [special, List.forall_mem_cons] at hcontains
  obtain ⟨hcontrols, hmarks, hfollowers, hopeners, hconsonants, hpictures, hletters, hleads, hvowels,
    htrails, hblocks, hhidden, hwide, -⟩ := hcontains
  refine ⟨?_, ?_⟩
  · simp [Bond.ofChar, hprintable, hne (d := '\r') (by decide), hne (d := '\n') (by decide),
      hne (d := joiner) (by decide), hcontrols, hmarks, hfollowers, hopeners, hconsonants, hpictures,
      hletters, hleads, hvowels, htrails, hblocks]
  · have hsmall : ¬ c.toNat ≤ 0xA0 := by omega
    simp [charColumns, hsmall, hne (d := '\u17d8') (by decide), hne (d := '\u17a4') (by decide),
      hhidden, hmarks, hwide]

theorem isPlain_of_drawn {c : Char} (h : c ∈ ['▓', '░', '▲']) : IsPlain c := by
  have hblocks : Ordinary 0x2580 0x259F := ⟨by decide, by decide +kernel⟩
  have htriangles : Ordinary 0x25B2 0x25B5 := ⟨by decide, by decide +kernel⟩
  simp only [List.mem_cons, List.not_mem_nil, or_false] at h
  obtain rfl | rfl | rfl := h
  · exact hblocks.isPlain (by decide) (by decide)
  · exact hblocks.isPlain (by decide) (by decide)
  · exact htriangles.isPlain (by decide) (by decide)

namespace IsPlain

variable {c : Char} {cs : List Char}

theorem ne_lineFeed (h : IsPlain c) : c ≠ '\n' := by
  rintro rfl
  have hfeed : Bond.ofChar '\n' = .lineFeed := by decide
  cases hfeed.symm.trans h.bond

theorem columns_singleton (h : IsPlain c) : Text.columns [c] = 1 := by
  simp [Text.columns, Text.columns.read, Sequel.join?, h.columns]

end IsPlain

theorem mem_of_mem_clusters {cs cluster : List Char} {c : Char} (h : cluster ∈ clusters cs)
    (hc : c ∈ cluster) : c ∈ cs := by
  rw [← clusters_flatten cs]
  exact List.mem_flatten_of_mem h hc

theorem Place.split_of_plain {cs : List Char} (h : ∀ c ∈ cs, IsPlain c) :
    Place.split ⟨.none, .nothing⟩ cs = ([], cs.map fun c ↦ [c]) := by
  induction cs with
  | nil => rfl
  | cons c cs ih =>
    obtain ⟨hc, hcs⟩ := List.forall_mem_cons.mp h
    have hcontinues : Place.continues ⟨.none, .nothing⟩ c = false := by
      simp [continues, hc.bond]
    have hnext : Place.next ⟨.none, .nothing⟩ c = ⟨.none, .nothing⟩ := by
      simp [next, Pending.next, hc.bond]
    simp [split, hcontinues, hnext, ih hcs]

theorem clusters_of_plain {cs : List Char} (h : ∀ c ∈ cs, IsPlain c) :
    clusters cs = cs.map fun c ↦ [c] := by
  cases cs with
  | nil => rfl
  | cons c cs =>
    obtain ⟨hc, hcs⟩ := List.forall_mem_cons.mp h
    have hnext : Place.start.next c = ⟨.none, .nothing⟩ := by
      simp [Place.next, Pending.next, hc.bond]
    simp [clusters, Place.split, Place.start_continues, hnext, Place.split_of_plain hcs]

end Polyphony.Text

namespace Polyphony.Screen

open Text

namespace Line

def painted (l : Line) : List (Char × Colour) :=
  l.flatMap fun s ↦ s.text.toList.map fun c ↦ (c, s.colour)

theorem map_painted (l : Line) : l.painted.map Prod.fst = l.chars := by
  simp [painted, chars, List.map_flatMap, Function.comp_def]

theorem length_painted (l : Line) : l.painted.length = l.chars.length := by
  rw [← map_painted, List.length_map]

end Line

namespace Row

def cell (s : Char × Colour) : Cell := ⟨String.ofList [s.1], s.2⟩

def written (base : Colour) (width : ℕ) (l : Line) : Row :=
  (l.painted.map cell).take width ++ blank base (width - l.chars.length)

theorem symbol_written (base : Colour) {width x : ℕ} (l : Line) (hx : x < width) :
    ((written base width l)[x]?).map Cell.symbol =
      some (String.ofList [(l.chars[x]?).getD ' ']) := by
  rw [written, ← Line.map_painted, List.getElem?_append, List.length_take, List.length_map]
  by_cases hline : x < l.painted.length
  · rw [if_pos (Nat.lt_min.mpr ⟨hx, hline⟩)]
    simp [hline, hx, cell]
  · have hcut : min width l.painted.length = l.painted.length := by omega
    have hblank : x - l.painted.length < width - l.painted.length := by omega
    rw [hcut, if_neg hline]
    simp [hline, blank, hblank]

/-- Characters of one column each take the free cells from the left, as far as these reach. -/
theorem draw_of_plain {symbols : List (Char × Colour)} (done free : List Cell)
    (hplain : ∀ s ∈ symbols, IsPlain s.1)
    (hfit : done.length + symbols.length < UInt16.size ∨
      done.length + free.length + 1 < UInt16.size) :
    draw (done ++ free).toArray done.length (symbols.map fun s ↦ ([s.1], s.2)) =
      .ok (done ++ (symbols.map cell ++ free.drop symbols.length).take free.length).toArray := by
  induction symbols generalizing done free with
  | nil => simp [draw]
  | cons s symbols ih =>
    obtain ⟨hs, hsymbols⟩ := List.forall_mem_cons.mp hplain
    rw [List.length_cons] at hfit
    have hsum : ¬ UInt16.size ≤ done.length + 1 := by omega
    have hone : 1 % UInt16.size = 1 := by decide
    cases free with
    | nil =>
      -- a full row ends the drawing, one of no columns leaves out every character
      cases done with
      | nil =>
        have hrest := ih [] [] hsymbols (.inr (by decide))
        simpa [draw, hs.columns_singleton, hone] using hrest
      | cons d done =>
        simp [draw, hs.columns_singleton, hone] at hsum ⊢
        omega
    | cons old free =>
      have hrest := ih (done ++ [cell s]) free hsymbols (by
        simp only [List.length_append, List.length_cons, List.length_nil] at hfit ⊢
        omega)
      have hset : (done ++ old :: free).toArray.setIfInBounds done.length (cell s) =
          (done ++ [cell s] ++ free).toArray := by
        simp
      rw [List.map_cons, draw]
      simp only [hs.columns_singleton, hone]
      rw [if_neg (by simp), if_neg hsum, if_neg (by simp), if_neg Nat.one_ne_zero]
      change draw ((done ++ old :: free).toArray.setIfInBounds done.length (cell s)) _ _ = _
      rw [hset]
      simpa using hrest

theorem symbols_of_plain {l : Line} (hplain : ∀ c ∈ l.chars, IsPlain c) :
    (l.flatMap fun s ↦
      ((clusters s.text.toList).filter (· ≠ ['\n'])).map fun symbol ↦ (symbol, s.colour)) =
        l.painted.map fun s ↦ ([s.1], s.2) := by
  rw [Line.painted, List.map_flatMap]
  refine List.flatMap_congr fun s hs ↦ ?_
  have htext : ∀ c ∈ s.text.toList, IsPlain c :=
    fun c hc ↦ hplain c (List.mem_flatMap.mpr ⟨s, hs, hc⟩)
  have hkept : (clusters s.text.toList).filter (· ≠ ['\n']) = clusters s.text.toList := by
    refine List.filter_eq_self.mpr fun cluster hcluster ↦ decide_eq_true ?_
    rintro rfl
    have hfeed := mem_of_mem_clusters hcluster (List.mem_singleton_self '\n')
    exact (htext '\n' hfeed).ne_lineFeed rfl
  rw [hkept, clusters_of_plain htext]
  simp

/-- Plain text is drawn without a fault. On the widest row that there is, columns past its end
cannot be counted any more. -/
theorem ofLine_of_plain {base : Colour} {width : ℕ} {l : Line} (hplain : ∀ c ∈ l.chars, IsPlain c)
    (hfit : l.chars.length < UInt16.size ∨ width + 1 < UInt16.size) :
    ofLine base width l = .ok (written base width l) := by
  have hpainted : ∀ s ∈ l.painted, IsPlain s.1 :=
    fun s hs ↦ hplain s.1 (l.map_painted ▸ List.mem_map_of_mem hs)
  have hdraw := draw_of_plain [] (blank base width) hpainted
    (by simpa [blank, Line.length_painted] using hfit)
  have hrow : (l.painted.map cell ++ (blank base width).drop l.painted.length).take
      (blank base width).length = written base width l := by
    simp [written, blank, Line.length_painted, List.take_append]
  have hstart : Array.replicate width ⟨" ", base⟩ = ([] ++ blank base width).toArray := by
    simp [blank]
  rw [hrow] at hdraw
  rw [ofLine, symbols_of_plain hplain, hstart, ← List.length_nil (α := Cell), hdraw]
  rfl

end Row

theorem mapM_of_forall_ok {α β ε : Type} {f : α → Except ε β} {g : α → β} {l : List α}
    (h : ∀ a ∈ l, f a = .ok (g a)) : l.mapM f = .ok (l.map g) := by
  induction l with
  | nil => rfl
  | cons a l ih =>
    obtain ⟨ha, hl⟩ := List.forall_mem_cons.mp h
    rw [List.mapM_cons, ha, ih hl]
    rfl

theorem Row.length_ofLine {base : Colour} {width : ℕ} {l : Line} {row : Row}
    (h : Row.ofLine base width l = .ok row) : row.length = width := by
  rw [ofLine] at h
  cases hdraw : draw (Array.replicate width ⟨" ", base⟩) 0 (l.flatMap fun s ↦
      ((clusters s.text.toList).filter (· ≠ ['\n'])).map fun symbol ↦ (symbol, s.colour)) with
  | error fault =>
    rw [hdraw] at h
    cases h
  | ok cells =>
    rw [hdraw] at h
    cases h
    rw [Array.length_toList, size_draw hdraw, Array.size_replicate]

theorem pane_of_plain {base : Colour} {ls : List Line} {width height : ℕ}
    (hplain : ∀ l ∈ ls, ∀ c ∈ l.chars, IsPlain c)
    (hfit : ∀ l ∈ ls, l.chars.length < UInt16.size ∨ width + 1 < UInt16.size) :
    pane base ls width height =
      .ok ((ls.take height).map (Row.written base width) ++
        List.replicate (height - ls.length) (Row.blank base width)) := by
  have hrows : (ls.take height).mapM (Row.ofLine base width) =
      .ok ((ls.take height).map (Row.written base width)) := by
    refine mapM_of_forall_ok fun l hl ↦ ?_
    have hl' := List.mem_of_mem_take hl
    exact Row.ofLine_of_plain (hplain l hl') (hfit l hl')
  rw [pane, hrows]
  rfl

end Polyphony.Screen
