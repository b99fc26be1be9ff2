import Polyphony.Proofs.Notation.Melody

namespace Polyphony

inductive Divides : List Char → List Char → List Char → Prop
  | natural {c : Char} {octave : List Char} (h : octave.head? ≠ some '#') :
      Divides (c :: octave) [c] octave
  | sharp {c : Char} {octave : List Char} : Divides (c :: '#' :: octave) [c, '#'] octave

def WritesOctave (cs : List Char) : Prop :=
  ∃ o, SignedNumeral cs o ∧ -2 ^ 31 ≤ o ∧ o < 2 ^ 31

inductive FailsAsPitch : List Char → UnitFault → Prop
  | empty : FailsAsPitch [] .pitch
  | octave {part name octave : List Char} (hrest : part ≠ ['_']) (hpart : Divides part name octave)
      (ho : ¬ WritesOctave octave) : FailsAsPitch part .octave
  | name {part name octave : List Char} (hpart : Divides part name octave)
      (ho : WritesOctave octave) (hp : ∀ p, ¬ Spells name p) :
      FailsAsPitch part (.unknownPitch (String.ofList name))

structure Halves (cs left right : List Char) : Prop where
  joined : cs = left ++ '/' :: right
  left : '/' ∉ left
  right : '/' ∉ right

/-- What is wrong with a text that should be a note. What comes first counts. -/
inductive FailsAsNote : List Char → UnitFault → Prop
  | split {cs : List Char} (h : cs.count '/' ≠ 1) : FailsAsNote cs .split
  | pitch {cs left right : List Char} {fault : UnitFault} (h : Halves cs left right)
      (hleft : FailsAsPitch left fault) : FailsAsNote cs fault
  | duration {cs left right : List Char} {pitch : Option Pitch} (h : Halves cs left right)
      (hleft : WritesPitch left pitch) (hright : ∀ v, ¬ WritesValue right v) :
      FailsAsNote cs .duration

section Splitting

theorem length_splitOn (c : Char) (cs : List Char) : (cs.splitOn c).length = cs.count c + 1 := by
  induction cs with
  | nil => simp
  | cons d ds ih =>
    rw [List.splitOn_cons_eq_if_modifyHead, List.count_cons]
    split
    · rw [List.length_cons, ih]
    · rw [List.length_modifyHead, ih, Nat.add_zero]

theorem splitOn_slash_eq_iff {cs left right : List Char} :
    cs.splitOn '/' = [left, right] ↔ Halves cs left right := by
  rw [Notation.splitOn_eq_pair_iff]
  constructor
  · intro h
    exact ⟨h.1, h.2.1, h.2.2⟩
  · intro h
    exact ⟨h.joined, h.left, h.right⟩

theorem exists_halves_iff {cs : List Char} :
    (∃ left right, Halves cs left right) ↔ cs.count '/' = 1 := by
  have hlength := length_splitOn '/' cs
  constructor
  · intro h
    obtain ⟨left, right, h⟩ := h
    rw [splitOn_slash_eq_iff.mpr h] at hlength
    exact (Nat.succ.inj hlength).symm
  · intro h
    rw [h] at hlength
    obtain ⟨left, right, hsplit⟩ := List.length_eq_two.mp hlength
    exact ⟨left, right, splitOn_slash_eq_iff.mp hsplit⟩

end Splitting

theorem Text.int32?_eq_none_iff {cs : List Char} : int32? cs = none ↔ ¬ WritesOctave cs := by
  rw [← not_iff_not, not_not, ← Ne, Option.ne_none_iff_exists']
  simp only [int32?_eq_some_iff]
  constructor
  · intro h
    obtain ⟨_, o, ho, hl, hu, -⟩ := h
    exact ⟨o, ho, hl, hu⟩
  · intro h
    obtain ⟨o, ho, hl, hu⟩ := h
    exact ⟨_, o, ho, hl, hu, rfl⟩

theorem PitchClass.named?_eq_none_iff {cs : List Char} : named? cs = none ↔ ∀ p, ¬ Spells cs p := by
  simp only [Option.eq_none_iff_forall_ne_some, ne_eq, named?_eq_some_iff]

namespace Notation

variable {part name octave unit : List Char} {fault : UnitFault}

theorem readValue?_eq_none_iff : readValue? part = none ↔ ∀ v, ¬ WritesValue part v := by
  simp only [Option.eq_none_iff_forall_ne_some, ne_eq, readValue?_eq_some_iff]

theorem splitPitch_eq_none_iff : splitPitch part = none ↔ part = [] := by
  rw [splitPitch.eq_def]
  split <;> simp

theorem splitPitch_eq_some_iff : splitPitch part = some (name, octave) ↔
    Divides part name octave := by
  constructor
  · intro h
    rw [splitPitch.eq_def] at h
    split at h
    · cases h
    · cases h
      exact .sharp
    · next c octave hsharp =>
      cases h
      refine .natural fun hhead ↦ ?_
      obtain ⟨rest, rfl⟩ := List.head?_eq_some_iff.mp hhead
      exact hsharp rest rfl
  · intro h
    cases h with
    | sharp => rfl
    | natural hhead =>
      refine splitPitch.eq_3 _ _ fun rest heq ↦ hhead ?_
      rw [heq]
      rfl

theorem readPitch_eq_error_iff : readPitch part = .error fault ↔ FailsAsPitch part fault := by
  constructor
  · intro h
    rw [readPitch] at h
    split at h
    · cases h
    · next hrest =>
      split at h
      · next hsplit =>
        cases h
        rw [splitPitch_eq_none_iff.mp hsplit]
        exact .empty
      · next name octave hsplit =>
        have hpart := splitPitch_eq_some_iff.mp hsplit
        split at h
        · next ho =>
          cases h
          exact .octave hrest hpart (Text.int32?_eq_none_iff.mp ho)
        · next o ho =>
          split at h
          · next hp =>
            cases h
            have hoctave : WritesOctave octave := by
              by_contra hno
              simp [Text.int32?_eq_none_iff.mpr hno] at ho
            exact .name hpart hoctave (PitchClass.named?_eq_none_iff.mp hp)
          · cases h
  · intro h
    cases h with
    | empty => rfl
    | octave hrest hpart ho =>
      simp only [readPitch, if_neg hrest, splitPitch_eq_some_iff.mpr hpart,
        Text.int32?_eq_none_iff.mpr ho]
    | name hpart ho hp =>
      obtain ⟨o, ho, hl, hu⟩ := ho
      have hoctave := Text.int32?_eq_some_iff.mpr ⟨o, ho, hl, hu, rfl⟩
      have hrest : part ≠ ['_'] := by
        rintro rfl
        cases hpart
        cases hoctave
      simp only [readPitch, if_neg hrest, splitPitch_eq_some_iff.mpr hpart, hoctave,
        PitchClass.named?_eq_none_iff.mpr hp]

theorem readUnit_eq_error_iff : readUnit unit = .error fault ↔ FailsAsNote unit fault := by
  constructor
  · intro h
    rw [readUnit] at h
    split at h
    · next left right hsplit =>
      have hhalves := splitOn_slash_eq_iff.mp hsplit
      split at h
      · next hleft =>
        cases h
        exact .pitch hhalves (readPitch_eq_error_iff.mp hleft)
      · next hleft =>
        split at h
        · next hright =>
          cases h
          exact .duration hhalves (readPitch_eq_ok_iff.mp hleft) (readValue?_eq_none_iff.mp hright)
        · cases h
    · next hsplit =>
      cases h
      refine .split fun hcount ↦ ?_
      obtain ⟨left, right, hhalves⟩ := exists_halves_iff.mpr hcount
      exact hsplit left right (splitOn_slash_eq_iff.mpr hhalves)
  · intro h
    cases h with
    | split hcount =>
      rw [readUnit]
      split
      · next left right hsplit =>
        exact absurd (exists_halves_iff.mp ⟨left, right, splitOn_slash_eq_iff.mp hsplit⟩) hcount
      · rfl
    | pitch hhalves hleft =>
      simp only [readUnit, splitOn_slash_eq_iff.mpr hhalves, readPitch_eq_error_iff.mpr hleft]
    | duration hhalves hleft hright =>
      simp only [readUnit, splitOn_slash_eq_iff.mpr hhalves, readPitch_eq_ok_iff.mpr hleft,
        readValue?_eq_none_iff.mpr hright]

theorem intercalate_units (melody : String) : " ".intercalate (units melody) = melody := by
  rw [← String.toList_inj, String.toList_intercalate, units, List.map_map]
  simp

theorem blank_not_mem_of_mem_units {u melody : String} (h : u ∈ units melody) :
    ' ' ∉ u.toList := by
  obtain ⟨cs, hcs, rfl⟩ := List.mem_map.mp h
  rw [String.toList_ofList]
  exact not_mem_of_mem_splitOn hcs

theorem length_units (melody : String) :
    (units melody).length = melody.toList.count ' ' + 1 := by
  rw [units, List.length_map, length_splitOn]

theorem units_append (a b : String) : units (a ++ " " ++ b) = units a ++ units b := by
  have hsplit := List.splitOn_append_cons_self (a := ' ') a.toList b.toList
  have hchars : (a ++ " " ++ b).toList = a.toList ++ ' ' :: b.toList := by simp
  rw [units, hchars, hsplit, List.map_append, ← units, ← units]

end Notation

section FirstFailure

variable {α β ε : Type} {f : α → Except ε β} {l : List α} {bs : List β} {e : ε}

theorem forall₂_of_mapM (h : l.mapM f = .ok bs) : List.Forall₂ (fun a b ↦ f a = .ok b) l bs := by
  obtain ⟨bs', hl, hbs⟩ | ⟨_, _, _, _, _, _, _, hl⟩ := mapM_cases f l
  · cases hl.symm.trans h
    exact hbs
  · cases hl.symm.trans h

theorem exists_mapM_iff : (∃ bs, l.mapM f = .ok bs) ↔ ∀ a ∈ l, ∃ b, f a = .ok b := by
  constructor
  · intro h a ha
    obtain ⟨bs, h⟩ := h
    obtain ⟨i, hi, rfl⟩ := List.mem_iff_getElem.mp ha
    have hbs := forall₂_of_mapM h
    exact ⟨_, hbs.get hi (hbs.length_eq ▸ hi)⟩
  · intro h
    obtain ⟨bs, hl, -⟩ | ⟨before, a, after, e, rfl, -, ha, -⟩ := mapM_cases f l
    · exact ⟨bs, hl⟩
    · obtain ⟨b, hb⟩ := h a (by simp)
      cases ha.symm.trans hb

theorem mapM_eq_error_iff : l.mapM f = .error e ↔ ∃ before a after,
    l = before ++ a :: after ∧ (∀ x ∈ before, ∃ b, f x = .ok b) ∧ f a = .error e := by
  constructor
  · intro h
    obtain ⟨bs, hl, -⟩ | ⟨before, a, after, e', hsplit, hbefore, ha, hl⟩ := mapM_cases f l
    · cases hl.symm.trans h
    · cases hl.symm.trans h
      exact ⟨before, a, after, hsplit, fun x hx ↦ isOk_iff.mp (hbefore x hx), ha⟩
  · intro h
    obtain ⟨before, a, after, hsplit, hbefore, ha⟩ := h
    obtain ⟨bs, hbs⟩ := exists_mapM_iff.mpr hbefore
    rw [hsplit, List.mapM_append, hbs, List.mapM_cons, ha]
    rfl

end FirstFailure

namespace WrittenNote

open Notation (units)

variable {melody unit : String} {e : Error} {note : WrittenNote} {notes : List WrittenNote}

theorem text_of_parse (h : parse unit = .ok note) : note.text = unit := by
  rw [parse] at h
  split at h
  · cases h
    rfl
  · cases h

theorem parse_eq_error_iff : parse unit = .error e ↔
    ∃ fault, e = .unit unit fault ∧ FailsAsNote unit.toList fault := by
  simp only [← Notation.readUnit_eq_error_iff]
  rw [parse]
  cases Notation.readUnit unit.toList with
  | ok parts => simp
  | error fault => simp [eq_comm]

-- Both parts are wrong, and the left one counts.
example : parse "h#9/0" = .error (.unit "h#9/0" (.unknownPitch "h#")) := rfl

theorem map_text_of_parse {us : List String}
    (h : List.Forall₂ (fun u note ↦ parse u = .ok note) us notes) : notes.map text = us := by
  induction h with
  | nil => rfl
  | cons hunit _ ih => rw [List.map_cons, ih, text_of_parse hunit]

theorem parseAll_append (a b : String) : parseAll (a ++ " " ++ b) =
    match parseAll a, parseAll b with
    | .error e, _ => .error e
    | .ok _, .error e => .error e
    | .ok xs, .ok ys => .ok (xs ++ ys) := by
  rw [parseAll, Notation.units_append, List.mapM_append, ← parseAll, ← parseAll]
  cases parseAll a with
  | error e => rfl
  | ok xs =>
    cases parseAll b with
    | error e => rfl
    | ok ys => rfl

/-- What reading a melody comes to, by what reading its units comes to. -/
structure ReadsUnits (melody : String) : Prop where
  joined : " ".intercalate (units melody) = melody
  apart : ∀ u ∈ units melody, ' ' ∉ u.toList
  ok_iff : (∃ notes, parseAll melody = .ok notes) ↔
    ∀ u ∈ units melody, ∃ note, parse u = .ok note
  of_ok : ∀ notes, parseAll melody = .ok notes →
    notes.length = melody.toList.count ' ' + 1 ∧
      " ".intercalate (notes.map text) = melody ∧
      List.Forall₂ (fun u note ↦ parse u = .ok note) (units melody) notes
  error_iff : ∀ e, parseAll melody = .error e ↔ ∃ before unit after,
    units melody = before ++ unit :: after ∧ (∀ u ∈ before, ∃ note, parse u = .ok note) ∧
      parse unit = .error e ∧ e.offendingUnit? = some unit

theorem readsUnits (melody : String) : ReadsUnits melody := by
  refine ⟨Notation.intercalate_units melody, fun u ↦ Notation.blank_not_mem_of_mem_units,
    exists_mapM_iff, fun notes h ↦ ?_, fun e ↦ ?_⟩
  · have hunits := forall₂_of_mapM h
    have htexts := map_text_of_parse hunits
    refine ⟨?_, ?_, hunits⟩
    · rw [← Notation.length_units, ← htexts, List.length_map]
    · rw [htexts, Notation.intercalate_units]
  · have hoffending (u : String) (hu : parse u = .error e) : e.offendingUnit? = some u := by
      obtain ⟨_, rfl, -⟩ := parse_eq_error_iff.mp hu
      rfl
    rw [parseAll, mapM_eq_error_iff]
    constructor
    · intro h
      obtain ⟨before, u, after, hunits, hbefore, hu⟩ := h
      exact ⟨before, u, after, hunits, hbefore, hu, hoffending u hu⟩
    · intro h
      obtain ⟨before, u, after, hunits, hbefore, hu, -⟩ := h
      exact ⟨before, u, after, hunits, hbefore, hu⟩

/-- A melody is read unit by unit. Its first bad unit is reported, with the first thing that is
wrong with it, and otherwise nothing is lost. -/
theorem parseAll_stops_at_fault :
    (∀ melody, ReadsUnits melody) ∧
      (∀ unit e, parse unit = .error e ↔
        ∃ fault, e = .unit unit fault ∧ FailsAsNote unit.toList fault) ∧
      ∀ a b, parseAll (a ++ " " ++ b) =
        match parseAll a, parseAll b with
        | .error e, _ => .error e
        | .ok _, .error e => .error e
        | .ok xs, .ok ys => .ok (xs ++ ys) :=
  ⟨readsUnits, fun _ _ ↦ parse_eq_error_iff, parseAll_append⟩

end WrittenNote

end Polyphony
