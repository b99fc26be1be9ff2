import Polyphony.Proofs.Number.Interval
import Polyphony.Proofs.Settings.Validity

namespace Polyphony

open Floating

theorem rat_sixty : Finite (60.0 : Float) ∧ rat (60.0 : Float) = 60 :=
  rat_of_unpack .positive (60 * 2 ^ 47) (-47) (by decide) rfl
    (by norm_num [Float.Model.UnpackedFloat.Sign.apply])

namespace NoteValue

/-- A length that there is, with a numerator that a dot can lead to. -/
structure Short (v : NoteValue) : Prop where
  numerator : v.numerator.toNat ≤ 4
  denominator : v.denominator.toNat ≠ 0

variable {v : NoteValue}

theorem short_of_writes {part : List Char} (h : WritesValue part v) : v.Short := by
  have hnum := h.numerator_eq
  exact ⟨by omega, h.inLowestTerms.denominator_ne_zero⟩

theorem short_of_written [Elementary] {notes : List WrittenNote}
    (h : ∀ n ∈ notes, ∃ part, WritesValue part n.value) :
    ∀ n ∈ notes, (Playable.value n).Short := by
  intro n hn
  obtain ⟨part, hpart⟩ := h n hn
  exact short_of_writes hpart

theorem within_denominator (h : v.denominator.toNat ≠ 0) :
    Within 1 (2 ^ 64) v.denominator.toFloat := by
  refine within_toFloat becomes_one (becomes_binary64 (by decide)) ?_ ?_
  · exact_mod_cast Nat.pos_of_ne_zero h
  · exact_mod_cast v.denominator.toNat_lt.le

theorem within_beats {k : ℕ} (hk : k ≤ 64) (hn : v.numerator.toNat ≤ 2 ^ k)
    (hd : v.denominator.toNat ≠ 0) : Within 0 (2 ^ (k + 2)) v.beats := by
  have hfour : Within 0 4 (4.0 : Float) := (Within.of_eq rat_four).mono (by norm_num) le_rfl
  have hnum : Within 0 (2 ^ k) v.numerator.toFloat := by
    refine within_toFloat becomes_zero (becomes_binary64 (by omega)) (Nat.cast_nonneg _) ?_
    exact_mod_cast hn
  have hmul : Within 0 (2 ^ (k + 2)) (4.0 * v.numerator.toFloat) := by
    refine hfour.mul_of_nonneg hnum ?_
    rw [show (4 : ℚ) * 2 ^ k = 2 ^ (k + 2) by ring]
    exact becomes_binary64 (by omega)
  refine hmul.div_of_nonneg (within_denominator hd) one_pos ?_
  rw [div_one]
  exact becomes_binary64 (by omega)

theorem Short.beats (h : v.Short) : Within 0 16 v.beats := by
  have hk := within_beats (k := 2) (by decide) h.numerator h.denominator
  exact hk.mono le_rfl (by norm_num)

end NoteValue

section Positions

variable {vs : List NoteValue}

theorem within_runningSum (h : ∀ v ∈ vs, v.Short) : Within 0 (2 ^ 60) (runningSum vs) := by
  induction vs using List.reverseRecOn with
  | nil =>
    exact within_zero.mono le_rfl (by positivity)
  | append_singleton vs v ih =>
    rw [runningSum_append]
    -- the next number above `2 ^ 60` is more than twice the longest note away
    have hsum := ih fun w hw ↦ h w (List.mem_append_left _ hw)
    refine hsum.add_of_nonneg (h v (by simp)).beats ?_
    exact becomes_two_pow (F := .binary64) (k := 60) (by decide) (by decide) (by norm_num)
      (show (16 : ℚ) < 2 ^ (7 : ℤ) by norm_num)

theorem within_reach (h : ∀ v ∈ vs, v.Short) : Within 0 (2 ^ 66) (reach vs) := by
  rw [reach]
  cases hsum : exactSum vs with
  | none => exact (within_runningSum h).mono le_rfl (by norm_num)
  | some sum =>
    have hd := denominator_exactSum (fun v hv ↦ (h v hv).denominator) sum hsum
    exact NoteValue.within_beats le_rfl sum.numerator.toNat_lt.le hd

end Positions

theorem within_beat {s : VoiceSettings} (h : s.inRange .bpm) :
    Within 0 8 (60.0 / s.bpm.toFloat) := by
  have hbpm := VoiceSettings.within_bpm h
  have hpos : 0 < rat s.bpm.toFloat := lt_of_lt_of_le (by norm_num) hbpm.lower
  have hround := roundsTo_div rat_sixty.1 hbpm.finite hpos.ne'
  rw [rat_sixty.2] at hround
  have height : Becomes .binary64 8 8 := becomes_natCast (m := 8) (by decide) (by decide)
  refine hround.within becomes_zero height (by positivity) ?_
  rw [div_le_iff₀ hpos]
  linarith [hbpm.lower]

structure Entry.Placed (e : Entry) : Prop where
  start : Within 0 (2 ^ 69) e.startTime
  stop : Within 0 (2 ^ 69) e.stopTime
  le : e.startTime ≤ e.stopTime

section Entries

variable {α : Type} [Playable α] {notes before : List α} {beat : Float} {adsr : Adsr}
  {waveform : Waveform} {v : NoteValue}

theorem within_start {vs : List NoteValue} (h : ∀ v ∈ vs, v.Short) (hbeat : Within 0 8 beat) :
    Within 0 (2 ^ 69) (reach vs * beat) := by
  refine (within_reach h).mul_of_nonneg hbeat ?_
  rw [show (2 : ℚ) ^ 66 * 8 = 2 ^ 69 by norm_num]
  exact becomes_binary64 (by decide)

theorem placed_entryAfter (h : ∀ n ∈ before, (Playable.value n).Short) (hv : v.Short)
    (hbeat : Within 0 8 beat) (frequency : Float) :
    (entryAfter before beat adsr waveform frequency v).Placed := by
  have hshort : ∀ w ∈ before.map Playable.value, w.Short := List.forall_mem_map.mpr h
  have hstart := within_start hshort hbeat
  have hlength : Within 0 (2 ^ 7) (v.beats * beat) := by
    refine hv.beats.mul_of_nonneg hbeat ?_
    rw [show (16 : ℚ) * 8 = 2 ^ 7 by norm_num]
    exact becomes_binary64 (by decide)
  have hstop : Within 0 (2 ^ 69) (reach (before.map Playable.value) * beat + v.beats * beat) := by
    refine hstart.add_of_nonneg hlength ?_
    exact becomes_two_pow (F := .binary64) (k := 69) (by decide) (by decide) (by norm_num)
      (show (2 : ℚ) ^ 7 < 2 ^ (16 : ℤ) by norm_num)
  refine ⟨hstart, hstop, (le_iff_rat hstart.finite.isNumber hstop.finite.isNumber).mpr ?_⟩
  refine RoundsTo.mono (roundsTo_rat hstart.finite.isNumber)
    (roundsTo_add hstart.finite hlength.finite) ?_
  exact le_add_of_nonneg_right hlength.lower

theorem mem_entriesOf {e : Entry} (h : e ∈ entriesOf notes beat adsr waveform) :
    ∃ i note frequency, notes[i]? = some note ∧ e =
      entryAfter (notes.take i) beat adsr waveform frequency (Playable.value note) := by
  obtain ⟨⟨note, i⟩, hi, hsome⟩ := List.mem_filterMap.mp h
  obtain ⟨frequency, -, rfl⟩ := Option.map_eq_some_iff.mp hsome
  exact ⟨i, note, frequency, List.mem_zipIdx_iff_getElem?.mp hi, rfl⟩

theorem placed_of_mem_entriesOf (h : ∀ n ∈ notes, (Playable.value n).Short)
    (hbeat : Within 0 8 beat) : ∀ e ∈ entriesOf notes beat adsr waveform, e.Placed := by
  intro e he
  obtain ⟨i, note, frequency, hi, rfl⟩ := mem_entriesOf he
  refine placed_entryAfter (fun n hn ↦ h n (List.mem_of_mem_take hn)) ?_ hbeat frequency
  exact h note (List.mem_of_getElem? hi)

end Entries

end Polyphony
