import Polyphony.Proofs.Notation.Words
import Polyphony.Proofs.Number.Monotone

namespace Polyphony

open Floating
open Float.Model.UnpackedFloat (Sign)

instance (i : ℤ) : Decidable (FitsWord i) :=
  inferInstanceAs (Decidable (-2 ^ 63 ≤ i ∧ i < 2 ^ 63))

def word? (i : ℤ) : Option ℤ := if FitsWord i then some i else none

theorem word?_eq {i : ℤ} (h : FitsWord i) : word? i = some i := if_pos h

namespace PitchClass

theorem idxOf_all (p : PitchClass) : all.idxOf p = p.index := by
  cases p <;> rfl

theorem index_injective : Function.Injective index := by
  intro p q h
  cases p <;> cases q <;> first | rfl | cases h

end PitchClass

namespace Pitch

variable {p q : Pitch}

def AtOrBelow (p q : Pitch) : Prop :=
  p.octave < q.octave ∨ p.octave = q.octave ∧
    PitchClass.all.idxOf p.pitchClass ≤ PitchClass.all.idxOf q.pitchClass

def distance? (p : Pitch) : Option ℤ := do
  let steps ← word? (p.pitchClass.index - PitchClass.a.index)
  let octaves ← word? (p.octave.toInt - 4)
  word? (steps + (← word? (octaves * 12)))

theorem distance?_eq (p : Pitch) : p.distance? = some p.semitones := by
  obtain ⟨hsteps, hoctaves, hspan, hsum⟩ := p.fitsWord_semitones
  have hstart : word? ((p.pitchClass.index : ℤ) - PitchClass.a.index) =
      some ((p.pitchClass.index : ℤ) - 9) := word?_eq hsteps
  rw [distance?, hstart, word?_eq hoctaves]
  simp only [bind, Option.bind, word?_eq hspan]
  exact word?_eq hsum

/-- An octave holds the whole scale, so no class makes up for one. -/
theorem atOrBelow_iff : p.AtOrBelow q ↔ p.semitones ≤ q.semitones := by
  have hp := p.pitchClass.index_lt
  have hq := q.pitchClass.index_lt
  rw [AtOrBelow, PitchClass.idxOf_all, PitchClass.idxOf_all, Int32.lt_iff_toInt_lt,
    ← Int32.toInt_inj, semitones, semitones]
  omega

theorem semitones_inj :
    p.semitones = q.semitones ↔ p.pitchClass = q.pitchClass ∧ p.octave = q.octave := by
  have hp := p.pitchClass.index_lt
  have hq := q.pitchClass.index_lt
  rw [← PitchClass.index_injective.eq_iff, ← Int32.toInt_inj, semitones, semitones]
  omega

theorem rat_semitones (p : Pitch) :
    Finite (Float.ofInt p.semitones) ∧ rat (Float.ofInt p.semitones) = p.semitones := by
  have hindex := p.pitchClass.index_lt
  have hl := p.octave.le_toInt
  have hu := p.octave.toInt_lt
  refine rat_ofInt ?_
  rw [semitones]
  omega

section Tuning

theorem rat_twelve : Finite (12.0 : Float) ∧ rat (12.0 : Float) = 12 :=
  rat_of_unpack .positive (3 * 2 ^ 51) (-49) (by decide) rfl (by norm_num [Sign.apply])

theorem rat_hundred : Finite (100.0 : Float) ∧ rat (100.0 : Float) = 100 :=
  rat_of_unpack .positive (25 * 2 ^ 48) (-46) (by decide) rfl (by norm_num [Sign.apply])

theorem rat_concertPitch : Finite (440.0 : Float) ∧ rat (440.0 : Float) = 440 :=
  rat_of_unpack .positive (55 * 2 ^ 47) (-44) (by decide) rfl (by norm_num [Sign.apply])

theorem toHundredths_le {x y : Float} (h : x ≤ y) : toHundredths x ≤ toHundredths y := by
  have hpos : 0 < rat (100.0 : Float) := by
    rw [rat_hundred.2]
    norm_num
  have hcents := (rising_mul_right rat_hundred.1 hpos).le h
  exact (rising_div rat_hundred.1 hpos).le (rising_nearestWhole.le hcents)

variable [Elementary]

/-- Every step of the tuning keeps the order, if the power of two does. Where the frequency
leaves the range of numbers it stays at its end. -/
theorem frequency_le_of_semitones_le (h : ∀ x y : Float, x ≤ y → twoTo x ≤ twoTo y)
    (hpq : p.semitones ≤ q.semitones) : p.frequency ≤ q.frequency := by
  have hdistance : Float.ofInt p.semitones ≤ Float.ofInt q.semitones := by
    rw [le_iff_rat p.rat_semitones.1.isNumber q.rat_semitones.1.isNumber, p.rat_semitones.2,
      q.rat_semitones.2]
    exact_mod_cast hpq
  have hoctaves := (rising_div rat_twelve.1 (by rw [rat_twelve.2]; norm_num)).le hdistance
  have hpower := h _ _ hoctaves
  have hexact := (rising_mul_left rat_concertPitch.1 (by rw [rat_concertPitch.2]; norm_num)).le
    hpower
  exact toHundredths_le hexact

/-- Distances are those of the chromatic scale, computed and converted without loss, and a
higher pitch never gets a lower frequency. -/
theorem frequency_rises (h : ∀ x y : Float, x ≤ y → twoTo x ≤ twoTo y) (p q : Pitch) :
    (p.AtOrBelow q ↔ p.semitones ≤ q.semitones) ∧
      (p.semitones = q.semitones ↔ p.pitchClass = q.pitchClass ∧ p.octave = q.octave) ∧
      (∀ r : Pitch, r.distance? = some r.semitones ∧
        Finite (Float.ofInt r.semitones) ∧ rat (Float.ofInt r.semitones) = r.semitones) ∧
      (p.AtOrBelow q → p.frequency ≤ q.frequency) :=
  ⟨atOrBelow_iff, semitones_inj, fun r ↦ ⟨r.distance?_eq, r.rat_semitones⟩,
    fun hpq ↦ frequency_le_of_semitones_le h (atOrBelow_iff.mp hpq)⟩

end Tuning

/-- The powers of two that C4 and A4 take, with a single step between them. -/
@[reducible] def twoTones : Elementary where
  sin := Float.sin
  exp2 x := if x < 0.0 then 0.5946035575013605 else 1.0

theorem twoTo_twoTones (x : Float) : @twoTo twoTones x =
    if 1024.0 ≤ x then 1.0 / 0.0 else if x ≤ -1075.0 then 0.0
    else if x < 0.0 then 0.5946035575013605 else 1.0 := rfl

theorem twoTo_twoTones_le {x y : Float} (h : x ≤ y) :
    @twoTo twoTones x ≤ @twoTo twoTones y := by
  have hhigh (hx : 1024.0 ≤ x) : 1024.0 ≤ y := Floating.le_trans hx h
  have hlow (hy : y ≤ -1075.0) : x ≤ -1075.0 := Floating.le_trans h hy
  have hbelow (hy : y < 0.0) : x < 0.0 := lt_of_le_of_lt h hy
  rw [twoTo_twoTones, twoTo_twoTones]
  split_ifs
  all_goals first
    | decide
    | exact absurd (hhigh ‹_›) ‹_›
    | exact absurd (hlow ‹_›) ‹_›
    | exact absurd (hbelow ‹_›) ‹_›

theorem frequency_of_twoTones : (∀ x y : Float, x ≤ y → @twoTo twoTones x ≤ @twoTo twoTones y) ∧
    @frequency twoTones ⟨.c, 4⟩ = 261.63 ∧ @frequency twoTones ⟨.a, 4⟩ = 440.0 ∧
    @frequency twoTones ⟨.c, 4⟩ ≤ @frequency twoTones ⟨.a, 4⟩ := by
  have hrises := @frequency_rises twoTones (fun _ _ ↦ twoTo_twoTones_le) ⟨.c, 4⟩ ⟨.a, 4⟩
  refine ⟨fun _ _ ↦ twoTo_twoTones_le, by decide +kernel, by decide +kernel, hrises.2.2.2 ?_⟩
  exact .inr ⟨rfl, by decide⟩

end Pitch

end Polyphony
