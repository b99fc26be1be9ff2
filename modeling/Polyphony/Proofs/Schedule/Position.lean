import Mathlib.Data.List.Induction
import Polyphony.Proofs.Notation.NoteValue
import Polyphony.Schedule

namespace Polyphony

/-- The sum of some lengths, added from the left, if each of the sums on the way fits. -/
def exactSum (vs : List NoteValue) : Option NoteValue :=
  vs.foldlM (fun sum v ↦ (sum.add? v).toOption.join) .zero

def runningSum (vs : List NoteValue) : Float := (vs.map NoteValue.beats).foldl (· + ·) 0.0

/-- How far some lengths reach, in beats: the exact sum where there is one. -/
def reach (vs : List NoteValue) : Float :=
  match exactSum vs with
  | some sum => sum.beats
  | none => runningSum vs

theorem exactSum_append (vs : List NoteValue) (v : NoteValue) :
    exactSum (vs ++ [v]) = (exactSum vs).bind fun sum ↦ (sum.add? v).toOption.join := by
  simp [exactSum]

theorem runningSum_append (vs : List NoteValue) (v : NoteValue) :
    runningSum (vs ++ [v]) = runningSum vs + v.beats := by
  simp [runningSum]

theorem exactSum_append_eq_some_iff {vs : List NoteValue} {v sum : NoteValue} :
    exactSum (vs ++ [v]) = some sum ↔
      ∃ before, exactSum vs = some before ∧ before.add? v = .ok (some sum) := by
  rw [exactSum_append, Option.bind_eq_some_iff]
  refine exists_congr fun before ↦ and_congr_right fun _ ↦ ?_
  cases before.add? v <;> simp [Except.toOption]

theorem exactSum_append_of_none {vs : List NoteValue} (h : exactSum vs = none)
    (ws : List NoteValue) : exactSum (vs ++ ws) = none := by
  rw [exactSum] at h
  rw [exactSum, List.foldlM_append, h]
  rfl

theorem inLowestTerms_exactSum {vs : List NoteValue} (h : ∀ v ∈ vs, v.denominator.toNat ≠ 0) :
    ∀ sum ∈ exactSum vs, sum.InLowestTerms := by
  induction vs using List.reverseRecOn with
  | nil =>
    intro sum hsum
    cases hsum
    exact ⟨by decide, by decide⟩
  | append_singleton vs v ih =>
    intro sum hsum
    obtain ⟨before, hbefore, hadd⟩ := exactSum_append_eq_some_iff.mp hsum
    have hlow := ih (fun w hw ↦ h w (List.mem_append_left _ hw)) before hbefore
    have hsums := (NoteValue.add?_eq_some_iff hlow.denominator_ne_zero (h v (by simp))).mp hadd
    exact hsums.2.2.inLowestTerms
      (NoteValue.common_ne_zero hlow.denominator_ne_zero (h v (by simp)))

theorem denominator_exactSum {vs : List NoteValue} (h : ∀ v ∈ vs, v.denominator.toNat ≠ 0) :
    ∀ sum ∈ exactSum vs, sum.denominator.toNat ≠ 0 :=
  fun sum hsum ↦ (inLowestTerms_exactSum h sum hsum).denominator_ne_zero

namespace Cursor

def after (vs : List NoteValue) : Cursor := ⟨exactSum vs, runningSum vs⟩

theorem advance_after {vs : List NoteValue} {v : NoteValue}
    (h : ∀ w ∈ vs ++ [v], w.denominator.toNat ≠ 0) :
    (after vs).advance v = .ok (after (vs ++ [v])) := by
  have hsum := denominator_exactSum fun w hw ↦ h w (List.mem_append_left [v] hw)
  rw [advance, after, after, exactSum_append, runningSum_append]
  cases hs : exactSum vs with
  | none => rfl
  | some sum =>
    obtain ⟨next, hnext, -⟩ := NoteValue.exists_add?_eq (hsum sum hs) (h v (by simp))
    rw [Option.bind_some, hnext]
    simp only [hnext]
    rfl

theorem foldlM_advance {vs ws : List NoteValue} (h : ∀ v ∈ vs ++ ws, v.denominator.toNat ≠ 0) :
    ws.foldlM advance (after vs) = .ok (after (vs ++ ws)) := by
  induction ws generalizing vs with
  | nil => simp [pure, Except.pure]
  | cons w ws ih =>
    rw [List.append_cons] at h ⊢
    have hadvance := advance_after fun v hv ↦ h v (List.mem_append_left ws hv)
    rw [List.foldlM_cons, hadvance]
    exact ih h

end Cursor

end Polyphony
