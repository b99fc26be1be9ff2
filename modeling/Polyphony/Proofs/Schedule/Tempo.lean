import Polyphony.Proofs.Number.Halving
import Polyphony.Proofs.Schedule.Bounds

namespace Polyphony

open Floating

def Breakpoint.halved (b : Breakpoint) : Breakpoint := { b with time := b.time / 2.0 }

def Envelope.halved (e : Envelope) : Envelope where
  start := e.start.halved
  peak := e.peak.halved
  settled := e.settled.halved
  stop := e.stop.halved
  finish := e.finish.halved

def Entry.halved (e : Entry) : Entry :=
  { e with
    startTime := e.startTime / 2.0
    stopTime := e.stopTime / 2.0
    envelope := e.envelope.halved }

def VoiceSchedule.halved (s : VoiceSchedule) : VoiceSchedule where
  entries := s.entries.map Entry.halved
  finishTime := s.finishTime / 2.0

def Envelope.timesFrom (start stop : Float) (adsr : Adsr) : List Float :=
  let length := stop - start
  let rise := start + length * adsr.attack
  let fall := smaller rise stop + length * adsr.decay
  [length, length * adsr.attack, rise, length * adsr.decay, fall, length * adsr.release,
    stop + length * adsr.release]

section Times

variable {α : Type} [Playable α]

def timesAfter (before : List α) (beat : Float) (adsr : Adsr) (v : NoteValue) : List Float :=
  let start := reach (before.map Playable.value) * beat
  let stop := start + v.beats * beat
  start :: v.beats * beat :: stop :: Envelope.timesFrom start stop adsr

/-- All times that are computed for the entries of some notes, from the length of a beat on. -/
def timesOf (notes : List α) (beat : Float) (adsr : Adsr) : List Float :=
  beat :: notes.zipIdx.flatMap fun (note, i) ↦ (Playable.frequency note).elim [] fun _ ↦
    timesAfter (notes.take i) beat adsr (Playable.value note)

theorem Envelope.forNote_half {start stop : Float} {adsr : Adsr} (hstart : HasHalf start)
    (hstop : HasHalf stop) (h : ∀ t ∈ timesFrom start stop adsr, HasHalf t) :
    forNote (start / 2.0) (stop / 2.0) adsr = (forNote start stop adsr).halved := by
  simp only [timesFrom, List.forall_mem_cons] at h
  obtain ⟨hlength, hattack, hrise, hdecay, hfall, hrelease, hfinish, -⟩ := h
  have hpeak := hrise.hasHalf_smaller hstop
  rw [forNote, forNote]
  -- the second ramp is measured from the end of the first, so the peak is halved before it
  simp only [hstop.sub_half hstart hlength, hlength.half_mul hattack, hlength.half_mul hdecay,
    hlength.half_mul hrelease, hstart.add_half hattack hrise, hrise.smaller_half hstop,
    hpeak.add_half hdecay hfall, hfall.smaller_half hstop, hstop.add_half hrelease hfinish]
  rfl

variable {before notes : List α} {beat : Float} {adsr : Adsr} {waveform : Waveform}
  {v : NoteValue}

theorem entryAfter_half (hbeat : HasHalf beat) (h : ∀ t ∈ timesAfter before beat adsr v, HasHalf t)
    (frequency : Float) : entryAfter before (beat / 2.0) adsr waveform frequency v =
      (entryAfter before beat adsr waveform frequency v).halved := by
  simp only [timesAfter, List.forall_mem_cons] at h
  obtain ⟨hstart, hlength, hstop, htimes⟩ := h
  rw [entryAfter, entryAfter]
  simp only [hbeat.mul_half hstart, hbeat.mul_half hlength, hstart.add_half hlength hstop,
    Envelope.forNote_half hstart hstop htimes]
  rfl

theorem hasHalf_finishTime (h : ∀ t ∈ timesAfter before beat adsr v, HasHalf t) (frequency : Float) :
    HasHalf (entryAfter before beat adsr waveform frequency v).finishTime := by
  simp only [timesAfter, Envelope.timesFrom, List.forall_mem_cons] at h
  obtain ⟨-, -, -, -, -, -, -, -, -, hfinish, -⟩ := h
  exact hfinish

theorem hasHalf_timesAfter (h : ∀ t ∈ timesOf notes beat adsr, HasHalf t) {note : α} {i : ℕ}
    {frequency : Float} (hi : (note, i) ∈ notes.zipIdx)
    (hf : Playable.frequency note = some frequency) :
    ∀ t ∈ timesAfter (notes.take i) beat adsr (Playable.value note), HasHalf t := by
  intro t ht
  refine h t (List.mem_cons_of_mem _ (List.mem_flatMap.mpr ⟨(note, i), hi, ?_⟩))
  simp only [hf]
  exact ht

theorem entriesOf_half (h : ∀ t ∈ timesOf notes beat adsr, HasHalf t) :
    entriesOf notes (beat / 2.0) adsr waveform =
      (entriesOf notes beat adsr waveform).map Entry.halved := by
  have hbeat : HasHalf beat := h beat List.mem_cons_self
  rw [entriesOf, entriesOf, List.map_filterMap]
  refine List.filterMap_congr fun p hi ↦ ?_
  obtain ⟨note, i⟩ := p
  dsimp only
  cases hf : Playable.frequency note with
  | none => rfl
  | some frequency =>
    exact congrArg some (entryAfter_half hbeat (hasHalf_timesAfter h hi hf) frequency)

theorem hasHalf_of_mem_entriesOf (h : ∀ t ∈ timesOf notes beat adsr, HasHalf t) :
    ∀ e ∈ entriesOf notes beat adsr waveform, HasHalf e.finishTime := by
  intro e he
  obtain ⟨⟨note, i⟩, hi, hsome⟩ := List.mem_filterMap.mp he
  obtain ⟨frequency, hf, rfl⟩ := Option.map_eq_some_iff.mp hsome
  exact hasHalf_finishTime (hasHalf_timesAfter h hi hf) frequency

theorem latest_half (h : ∀ t ∈ timesOf notes beat adsr, HasHalf t) :
    latest ((entriesOf notes beat adsr waveform).map Entry.halved) =
      latest (entriesOf notes beat adsr waveform) / 2.0 := by
  have hzero : (0.0 : Float) / 2.0 = 0.0 := by decide
  have hfinish : ∀ t ∈ (entriesOf notes beat adsr waveform).map Entry.finishTime, HasHalf t :=
    List.forall_mem_map.mpr (hasHalf_of_mem_entriesOf h)
  have hfold := HasHalf.foldl_larger_half (x := 0.0) (by decide) hfinish
  rw [hzero, List.map_map] at hfold
  rw [latest, latest, List.map_map, ← hfold]
  rfl

end Times

/-- At twice the tempo the same tones follow one another in exactly half the time, as long as
nothing is lost when one of the times is halved. -/
theorem VoiceSchedule.build_at_double_tempo {α : Type} [Playable α] (notes : List α) {bpm : Float}
    (hbpm : bpm.isFinite) (hpos : 0.0 < bpm) (hdouble : (2.0 * bpm).isFinite)
    (hvalues : ∀ n ∈ notes, (Playable.value n).denominator ≠ 0) (adsr : Adsr)
    (htimes : ∀ t ∈ timesOf notes (60.0 / bpm) adsr, HasHalf t) (waveform : Waveform) :
    ∃ s, build notes bpm adsr waveform = .ok s ∧
      build notes (2.0 * bpm) adsr waveform = .ok s.halved := by
  obtain ⟨hfinite, hrat⟩ := positive_iff.mp ⟨hbpm, hpos⟩
  have hfinite' := isFinite_iff.mp hdouble
  have hpos' : 0.0 < 2.0 * bpm := by
    obtain ⟨-, -, htwice⟩ := double_spec hfinite hfinite'
    rw [lt_iff_rat isNumber_zero hfinite'.isNumber, rat_zero, htwice]
    positivity
  have hbeat : 60.0 / (2.0 * bpm) = 60.0 / bpm / 2.0 := by
    refine HasHalf.div_double rat_sixty.1 hfinite hfinite' ?_ hrat (htimes _ List.mem_cons_self)
    rw [rat_sixty.2]
    norm_num
  refine ⟨_, build_of_tempo hbpm hpos hvalues adsr waveform, ?_⟩
  rw [build_of_tempo hdouble hpos' hvalues, hbeat, entriesOf_half htimes, latest_half htimes]
  simp [halved]

def lilt : List TunedNote := [⟨some 440.0, ⟨1, 12⟩⟩, ⟨none, .dottedEighth⟩, ⟨some 415.3, ⟨1, 3⟩⟩]

theorem VoiceSchedule.build_lilt :
    (70.0 : Float).isFinite ∧ (0.0 : Float) < 70.0 ∧ (2.0 * 70.0 : Float).isFinite ∧
      (∀ n ∈ lilt, (Playable.value n).denominator ≠ 0) ∧
      (∀ t ∈ timesOf lilt (60.0 / 70.0) (.ofShares 0.3 0.9 0.5 0.7), HasHalf t) ∧
      ∃ s, build lilt 70.0 (.ofShares 0.3 0.9 0.5 0.7) .triangle = .ok s ∧
        build lilt (2.0 * 70.0) (.ofShares 0.3 0.9 0.5 0.7) .triangle = .ok s.halved := by
  have hbpm : (70.0 : Float).isFinite := by decide
  have hpos : (0.0 : Float) < 70.0 := by decide
  have hdouble : (2.0 * 70.0 : Float).isFinite := by decide
  have hvalues : ∀ n ∈ lilt, (Playable.value n).denominator ≠ 0 := by
    simp only [lilt, List.forall_mem_cons, Playable.value]
    exact ⟨by decide, by decide, by decide, by simp⟩
  have htimes : ∀ t ∈ timesOf lilt (60.0 / 70.0) (.ofShares 0.3 0.9 0.5 0.7), HasHalf t := by
    decide +kernel
  exact ⟨hbpm, hpos, hdouble, hvalues, htimes,
    build_at_double_tempo lilt hbpm hpos hdouble hvalues _ htimes .triangle⟩

end Polyphony
