import Mathlib.Algebra.BigOperators.Group.List.Basic
import Polyphony.Proofs.Notation.Quantity
import Polyphony.Proofs.Notation.Words
import Polyphony.Proofs.Schedule.Position

namespace Polyphony

/-- What two lengths add up to, if the parts of their sum fit into words. -/
structure AddsTo (v w : NoteValue) (sum? : Option NoteValue) : Prop where
  isSome_iff : sum?.isSome ↔ v.common w < 2 ^ 64 ∧ v.sumOver w < 2 ^ 64
  reduces : ∀ sum ∈ sum?, sum.Reduces (v.sumOver w) (v.common w)
  quantity : ∀ sum ∈ sum?, sum.quantity = v.quantity + w.quantity
  silent : v.sumOver w = 0 → ∀ sum ∈ sum?, sum = .zero

def total? (vs : List NoteValue) : Except ArithmeticFault (Option NoteValue) :=
  (vs.foldlM (fun sum v ↦ OptionT.mk (sum.add? v)) NoteValue.zero :
    OptionT (Except ArithmeticFault) NoteValue).run

variable {v w a b : NoteValue} {vs ws : List NoteValue}

theorem NoteValue.addsTo {sum? : Option NoteValue} (hv : v.denominator.toNat ≠ 0)
    (hw : w.denominator.toNat ≠ 0) (h : v.add? w = .ok sum?) : AddsTo v w sum? := by
  have hreduces : ∀ sum ∈ sum?, sum.Reduces (v.sumOver w) (v.common w) := by
    intro sum hsum
    cases hsum
    exact ((add?_eq_some_iff hv hw).mp h).2.2
  refine ⟨?_, hreduces, ?_, ?_⟩
  · rw [add?_eq hv hw] at h
    cases h
    rw [Option.isSome_ite]
  · intro sum hsum
    cases hsum
    exact quantity_add hv hw h
  · intro hzero sum hsum
    have hred := hreduces sum hsum
    have hne := common_ne_zero hv hw
    refine (hred.inLowestTerms hne).eq_of_quantity_eq inLowestTerms_zero ?_
    rw [hred.quantity_eq hne, hzero, quantity_zero, Nat.cast_zero, zero_div]

theorem total?_append (vs : List NoteValue) (v : NoteValue) :
    total? (vs ++ [v]) = (total? vs).bind fun
      | none => .ok none
      | some sum => sum.add? v := by
  rw [total?, List.foldlM_append]
  simp only [OptionT.run_bind, Option.elimM, List.foldlM_cons, List.foldlM_nil, bind_pure]
  refine congrArg _ (funext fun sum? ↦ ?_)
  cases sum? <;> rfl

theorem total?_eq (h : ∀ v ∈ vs, v.denominator.toNat ≠ 0) : total? vs = .ok (exactSum vs) := by
  induction vs using List.reverseRecOn with
  | nil => rfl
  | append_singleton vs v ih =>
    have hfront : ∀ w ∈ vs, w.denominator.toNat ≠ 0 := fun w hw ↦ h w (List.mem_append_left _ hw)
    rw [total?_append, ih hfront, exactSum_append]
    cases hs : exactSum vs with
    | none => rfl
    | some sum =>
      obtain ⟨next, hnext, -⟩ :=
        NoteValue.exists_add?_eq (denominator_exactSum hfront sum hs) (h v (by simp))
      rw [Option.bind_some, hnext]
      exact hnext

theorem quantity_exactSum (h : ∀ v ∈ vs, v.denominator.toNat ≠ 0) (ha : exactSum vs = some a) :
    a.quantity = (vs.map NoteValue.quantity).sum := by
  induction vs using List.reverseRecOn generalizing a with
  | nil =>
    cases ha
    exact NoteValue.quantity_zero
  | append_singleton vs v ih =>
    obtain ⟨before, hbefore, hadd⟩ := exactSum_append_eq_some_iff.mp ha
    have hfront : ∀ w ∈ vs, w.denominator.toNat ≠ 0 := fun w hw ↦ h w (List.mem_append_left _ hw)
    have hd := denominator_exactSum hfront before hbefore
    rw [NoteValue.quantity_add hd (h v (by simp)) hadd, ih hfront hbefore]
    simp

/-- Equal lengths in all leave no trace of what they were put together from. -/
theorem exactSum_unique (hv : ∀ v ∈ vs, v.denominator.toNat ≠ 0)
    (hw : ∀ w ∈ ws, w.denominator.toNat ≠ 0) (ha : exactSum vs = some a) (hb : exactSum ws = some b)
    (h : (vs.map NoteValue.quantity).sum = (ws.map NoteValue.quantity).sum) : a = b := by
  refine (inLowestTerms_exactSum hv a ha).eq_of_quantity_eq (inLowestTerms_exactSum hw b hb) ?_
  rw [quantity_exactSum hv ha, quantity_exactSum hw hb, h]

/-- Sums are exact wherever they fit into words, and neither their order nor that of many summands
matters. -/
theorem sums_exact_where_they_fit :
    (∀ v w : NoteValue, v.denominator ≠ 0 → w.denominator ≠ 0 →
      ∃ sum?, v.add? w = .ok sum? ∧ AddsTo v w sum?) ∧
    (∀ v w : NoteValue, v.add? w = w.add? v) ∧
    (∀ v w : NoteValue, Guarded.add? v w = v.add? w ∧
      ((∃ f, v.add? w = .error f) ↔ v.denominator = 0 ∨ w.denominator = 0)) ∧
    (∀ vs : List NoteValue, (∀ v ∈ vs, v.denominator ≠ 0) →
      ∃ total, total? vs = .ok total ∧ ∀ sum ∈ total, sum.InLowestTerms ∧
        sum.quantity = (vs.map NoteValue.quantity).sum) ∧
    ∀ vs ws : List NoteValue, vs.Perm ws → (∀ v ∈ vs, v.denominator ≠ 0) →
      ∀ a b, total? vs = .ok (some a) → total? ws = .ok (some b) → a = b := by
  have hnat {vs : List NoteValue} (h : ∀ v ∈ vs, v.denominator ≠ 0) :
      ∀ v ∈ vs, v.denominator.toNat ≠ 0 := fun v hv ↦ toNat_ne_zero.mpr (h v hv)
  refine ⟨fun v w hv hw ↦ ?_, NoteValue.add?_comm, fun v w ↦ ⟨Guarded.add?_eq v w, ?_⟩,
    fun vs h ↦ ?_, fun vs ws hperm h a b ha hb ↦ ?_⟩
  · have hv' := toNat_ne_zero.mpr hv
    have hw' := toNat_ne_zero.mpr hw
    obtain ⟨sum?, hsum, -⟩ := NoteValue.exists_add?_eq hv' hw'
    exact ⟨sum?, hsum, NoteValue.addsTo hv' hw' hsum⟩
  · rw [NoteValue.exists_add?_eq_error_iff]
    exact or_congr (not_iff_not.mp toNat_ne_zero) (not_iff_not.mp toNat_ne_zero)
  · refine ⟨_, total?_eq (hnat h), fun sum hsum ↦ ?_⟩
    exact ⟨inLowestTerms_exactSum (hnat h) sum hsum, quantity_exactSum (hnat h) hsum⟩
  · have hws : ∀ w ∈ ws, w.denominator ≠ 0 := fun w hw ↦ h w (hperm.mem_iff.mpr hw)
    rw [total?_eq (hnat h)] at ha
    rw [total?_eq (hnat hws)] at hb
    refine exactSum_unique (hnat h) (hnat hws) (Except.ok.inj ha) (Except.ok.inj hb) ?_
    exact (hperm.map NoteValue.quantity).sum_eq

end Polyphony
