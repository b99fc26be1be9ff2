import Polyphony.Proofs.Schedule.Bounds
import Polyphony.Proofs.Schedule.Total

namespace Polyphony

open Floating

namespace NoteValue

structure Exact (v : NoteValue) : Prop where
  numerator : v.numerator.toNat ≤ 2 ^ 53
  denominator : v.denominator.toNat ≤ 2 ^ 53

variable {v : NoteValue}

theorem Exact.roundsTo_beats (h : v.Exact) (hd : v.denominator.toNat ≠ 0) :
    RoundsTo (4 * v.quantity) v.beats := by
  have hnum := (roundsTo_toFloat v.numerator).eq_rat
    (becomes_natCast (F := .binary64) h.numerator (by decide))
  have hden := (roundsTo_toFloat v.denominator).eq_rat
    (becomes_natCast (F := .binary64) h.denominator (by decide))
  have hmul := roundsTo_mul rat_four.1 hnum.1
  rw [rat_four.2, hnum.2] at hmul
  have hbecomes := becomes_natCast_mul (F := .binary64) (k := 2) h.numerator (by decide)
  rw [mul_comm, show (2 : ℚ) ^ 2 = 4 by norm_num] at hbecomes
  have hquad := hmul.eq_rat hbecomes
  have hdiv := roundsTo_div hquad.1 hden.1 (by rw [hden.2]; exact_mod_cast hd)
  rw [hquad.2, hden.2, mul_div_assoc] at hdiv
  exact hdiv

end NoteValue

section Positions

variable {vs ws : List NoteValue} {a b : NoteValue}

theorem quantity_exactSum_le (h : ∀ v ∈ vs ++ ws, v.denominator.toNat ≠ 0)
    (ha : exactSum vs = some a) (hb : exactSum (vs ++ ws) = some b) :
    a.quantity ≤ b.quantity := by
  rw [quantity_exactSum (fun v hv ↦ h v (List.mem_append_left _ hv)) ha, quantity_exactSum h hb,
    List.map_append, List.sum_append]
  refine le_add_of_nonneg_right (List.sum_nonneg fun q hq ↦ ?_)
  obtain ⟨w, -, rfl⟩ := List.mem_map.mp hq
  exact w.quantity_nonneg

theorem runningSum_le (h : ∀ v ∈ vs ++ ws, v.Short) :
    rat (runningSum vs) ≤ rat (runningSum (vs ++ ws)) := by
  induction ws using List.reverseRecOn with
  | nil => rw [List.append_nil]
  | append_singleton ws w ih =>
    rw [← List.append_assoc] at h ⊢
    have hfront : ∀ v ∈ vs ++ ws, v.Short := fun v hv ↦ h v (List.mem_append_left _ hv)
    have hw := (h w (by simp)).beats
    have hx := (within_runningSum hfront).finite
    refine (ih hfront).trans ?_
    rw [runningSum_append]
    refine RoundsTo.mono (roundsTo_rat hx.isNumber) (roundsTo_add hx hw.finite) ?_
    exact le_add_of_nonneg_right hw.lower

/-- Two positions that are computed in the same way: both as running sums, or both exactly from
numbers that a float can hold. -/
def InStep (vs ws : List NoteValue) : Prop :=
  exactSum vs = none ∨
    ∃ a b, exactSum vs = some a ∧ exactSum ws = some b ∧ a.Exact ∧ b.Exact

theorem InStep.reach_le (h : ∀ v ∈ vs ++ ws, v.Short) (hstep : InStep vs (vs ++ ws)) :
    rat (reach vs) ≤ rat (reach (vs ++ ws)) := by
  have hden : ∀ v ∈ vs ++ ws, v.denominator.toNat ≠ 0 := fun v hv ↦ (h v hv).denominator
  rcases hstep with hnone | ⟨a, b, ha, hb, hea, heb⟩
  · rw [reach, reach, hnone, exactSum_append_of_none hnone]
    exact runningSum_le h
  · have hda := denominator_exactSum (fun v hv ↦ hden v (List.mem_append_left _ hv)) a ha
    have hdb := denominator_exactSum hden b hb
    rw [reach, reach, ha, hb]
    refine RoundsTo.mono (hea.roundsTo_beats hda) (heb.roundsTo_beats hdb) ?_
    have hle := quantity_exactSum_le hden ha hb
    linarith

end Positions

section Entries

variable {α : Type} [Playable α] {notes : List α} {beat : Float} {adsr : Adsr}
  {waveform : Waveform}

def placedEntries (notes : List α) (beat : Float) (adsr : Adsr) (waveform : Waveform) :
    List (List NoteValue × Entry) :=
  notes.zipIdx.filterMap fun (note, i) ↦ (Playable.frequency note).map fun frequency ↦
    ((notes.take i).map Playable.value,
      entryAfter (notes.take i) beat adsr waveform frequency (Playable.value note))

theorem map_snd_placedEntries (notes : List α) (beat : Float) (adsr : Adsr)
    (waveform : Waveform) :
    (placedEntries notes beat adsr waveform).map Prod.snd =
      entriesOf notes beat adsr waveform := by
  rw [placedEntries, entriesOf, List.map_filterMap]
  refine List.filterMap_congr fun x _ ↦ ?_
  rw [Option.map_map]
  rfl

theorem pairwise_placedEntries (h : ∀ n ∈ notes, (Playable.value n).Short)
    (hbeat : Within 0 8 beat) : (placedEntries notes beat adsr waveform).Pairwise
      fun x y ↦ InStep x.1 y.1 → x.2.startTime ≤ y.2.startTime := by
  rw [placedEntries, List.pairwise_filterMap, List.pairwise_iff_getElem]
  intro i j hi hj hlt x hx y hy
  rw [List.getElem_zipIdx, Nat.zero_add] at hx hy
  obtain ⟨frequency, -, rfl⟩ := Option.map_eq_some_iff.mp hx
  obtain ⟨frequency', -, rfl⟩ := Option.map_eq_some_iff.mp hy
  intro hstep
  -- what comes before the later entry begins with what comes before the earlier one
  have htake : notes.take j = notes.take i ++ (notes.take j).drop i := by
    conv_lhs => rw [← List.take_append_drop i (notes.take j)]
    rw [List.take_take, Nat.min_eq_left (Nat.le_of_lt hlt)]
  have hshort (k : ℕ) : ∀ v ∈ (notes.take k).map Playable.value, v.Short :=
    List.forall_mem_map.mpr fun n hn ↦ h n (List.mem_of_mem_take hn)
  have hle : rat (reach ((notes.take i).map Playable.value)) ≤
      rat (reach ((notes.take j).map Playable.value)) := by
    have hj := hshort j
    rw [htake, List.map_append] at hj hstep ⊢
    exact hstep.reach_le hj
  have hreach (k : ℕ) := (within_reach (hshort k)).finite
  have hnumber (k : ℕ) := (within_start (hshort k) hbeat).finite.isNumber
  refine (le_iff_rat (hnumber i) (hnumber j)).mpr ?_
  refine RoundsTo.mono (roundsTo_mul (hreach i) hbeat.finite)
    (roundsTo_mul (hreach j) hbeat.finite) ?_
  exact mul_le_mul_of_nonneg_right hle hbeat.lower

end Entries

namespace VoiceSettings

section Evaluation

variable [Elementary]

/-- None of the entries stops before it starts, and of two whose positions are in step the later one
does not start first. -/
structure TimeOrdered (s : VoiceSettings) (notes : List WrittenNote) (schedule : VoiceSchedule)
    (placed : List (List NoteValue × Entry)) : Prop where
  placed_eq : placed = placedEntries notes (60.0 / s.bpm.toFloat) s.voice.adsr s.waveform
  entries_eq : schedule.entries.toList = placed.map Prod.snd
  stops : ∀ e ∈ schedule.entries, e.startTime ≤ e.stopTime
  in_step : placed.Pairwise fun x y ↦ InStep x.1 y.1 → x.2.startTime ≤ y.2.startTime
  of_exact : (∀ x ∈ placed, ∃ position, exactSum x.1 = some position ∧ position.Exact) →
    schedule.entries.toList.Pairwise fun d e ↦ d.startTime ≤ e.startTime

/-- What an editor shows of valid settings is in the order of time, but for positions out of step. -/
theorem evaluate_in_order {s : VoiceSettings} {v : Voice} (h : s.validate = .ok v) :
    ∃ notes schedule placed, WrittenNote.parseAll s.melody = .ok notes ∧
      s.evaluate = .ok (.valid schedule) ∧ s.TimeOrdered notes schedule placed := by
  obtain ⟨notes, hall, hnotes, hdials, -, hschedule⟩ := schedule_of_validate h
  have hshort := NoteValue.short_of_written hnotes
  have hbeat := within_beat (hdials .bpm)
  obtain ⟨placed, hplaced⟩ : ∃ placed, placed =
    placedEntries notes (60.0 / s.bpm.toFloat) s.voice.adsr s.waveform := ⟨_, rfl⟩
  have hentries : entriesOf notes (60.0 / s.bpm.toFloat) s.voice.adsr s.waveform =
      placed.map Prod.snd := by rw [hplaced, map_snd_placedEntries]
  have hpairwise : placed.Pairwise
      fun x y ↦ InStep x.1 y.1 → x.2.startTime ≤ y.2.startTime := by
    rw [hplaced]
    exact pairwise_placedEntries hshort hbeat
  refine ⟨notes, _, placed, hall, evaluate_of_validate h hschedule, hplaced, hentries, ?_,
    hpairwise, fun hexact ↦ ?_⟩
  · intro e he
    exact (placed_of_mem_entriesOf hshort hbeat e (Array.mem_toList_iff.mpr he)).le
  · change (entriesOf _ _ _ _).Pairwise _
    rw [hentries, List.pairwise_map]
    refine List.Pairwise.imp_of_mem ?_ hpairwise
    intro x y hx hy hle
    obtain ⟨a, ha, hea⟩ := hexact x hx
    obtain ⟨b, hb, heb⟩ := hexact y hy
    exact hle (.inr ⟨a, b, ha, hb, hea, heb⟩)

end Evaluation

/-- The first two tones together are too long to be counted in beats to the last digit. -/
def straggling : VoiceSettings :=
  { melody := "C4/5 C4/18446744073709551595 C4/4", bpm := 60 }

def stragglingNotes : List WrittenNote :=
  [⟨"C4/5", some ⟨.c, 4⟩, ⟨1, 5⟩⟩,
    ⟨"C4/18446744073709551595", some ⟨.c, 4⟩, ⟨1, 18446744073709551595⟩⟩,
    ⟨"C4/4", some ⟨.c, 4⟩, ⟨1, 4⟩⟩]

theorem parseAll_straggling : WrittenNote.parseAll straggling.melody = .ok stragglingNotes := by
  have hall : WrittenNote.parseAll "C4/5 C4/18446744073709551595 C4/4" = .ok stragglingNotes := by
    cbv
  exact hall

theorem validate_straggling : straggling.validate = .ok straggling.voice := by
  refine validate_of_parseAll (fun d ↦ ?_) parseAll_straggling
  cases d <;> decide

theorem straggling_in_order : straggling.validate = .ok straggling.voice ∧
    ∃ notes schedule placed, WrittenNote.parseAll straggling.melody = .ok notes ∧
      straggling.evaluate = .ok (.valid schedule) ∧
        straggling.TimeOrdered notes schedule placed :=
  ⟨validate_straggling, evaluate_in_order validate_straggling⟩

/-- Out of step, the last tone starts before the one in front of it. -/
theorem straggling_out_of_order :
    straggling.validate = .ok straggling.voice ∧ ∃ schedule first second third,
      straggling.evaluate = .ok (.valid schedule) ∧
      schedule.entries.toList = [first, second, third] ∧
      third.startTime < second.startTime := by
  have hone : exactSum [⟨1, 5⟩] = some ⟨1, 5⟩ := by cbv
  have htwo : exactSum [⟨1, 5⟩, ⟨1, 18446744073709551595⟩] =
      some ⟨737869762948382064, 3689348814741910319⟩ := by cbv
  obtain ⟨notes, hall, -, -, -, hschedule⟩ := schedule_of_validate validate_straggling
  obtain rfl := Except.ok.inj (parseAll_straggling.symm.trans hall)
  refine ⟨validate_straggling, _, _, _, _, evaluate_of_validate validate_straggling hschedule,
    rfl, ?_⟩
  change reach [⟨1, 5⟩, ⟨1, 18446744073709551595⟩] * _ < reach [⟨1, 5⟩] * _
  rw [reach, reach, hone, htwo]
  decide

end VoiceSettings

end Polyphony
