import Mathlib
import Polyphony.Proofs.Schedule.ClosedForm
import Polyphony.Proofs.Schedule.Total

namespace Polyphony

variable {α : Type} [Playable α] {before other notes : List α} {beat : Float} {adsr : Adsr}
  {waveform : Waveform}

def elapsed (notes : List α) : ℚ := (notes.map fun n ↦ (Playable.value n).quantity).sum

/-- The exact position lasts through some notes. -/
def KeepsExact (notes : List α) : Prop :=
  ∃ c : Cursor, (notes.map Playable.value).foldlM Cursor.advance .start = .ok c ∧ c.exact.isSome

def entriesFrom (before : List α) (beat : Float) (adsr : Adsr) (waveform : Waveform) :
    List α → List Entry
  | [] => []
  | note :: notes =>
    ((Playable.frequency note).map fun frequency ↦
      entryAfter before beat adsr waveform frequency (Playable.value note)).toList ++
        entriesFrom (before ++ [note]) beat adsr waveform notes

theorem keepsExact_iff (h : ∀ n ∈ notes, (Playable.value n).denominator.toNat ≠ 0) :
    KeepsExact notes ↔ (exactSum (notes.map Playable.value)).isSome := by
  have hfold : (notes.map Playable.value).foldlM Cursor.advance (.after []) =
      .ok (.after ([] ++ notes.map Playable.value)) :=
    Cursor.foldlM_advance (List.forall_mem_map.mpr h)
  constructor
  · intro hkeeps
    obtain ⟨c, hc, hsome⟩ := hkeeps
    cases hfold.symm.trans hc
    exact hsome
  · intro hsome
    exact ⟨_, hfold, hsome⟩

theorem entriesOf_append_list (before notes : List α) (beat : Float) (adsr : Adsr)
    (waveform : Waveform) : entriesOf (before ++ notes) beat adsr waveform =
      entriesOf before beat adsr waveform ++ entriesFrom before beat adsr waveform notes := by
  induction notes generalizing before with
  | nil => simp [entriesFrom]
  | cons note notes ih =>
    rw [List.append_cons, ih, entriesOf_append, List.append_assoc]
    rfl

theorem map_frequency_entriesFrom (before notes : List α) (beat : Float) (adsr : Adsr)
    (waveform : Waveform) : (entriesFrom before beat adsr waveform notes).map Entry.frequency =
      notes.filterMap Playable.frequency := by
  induction notes generalizing before with
  | nil => rfl
  | cons note notes ih =>
    rw [entriesFrom, List.map_append, ih, List.filterMap_cons]
    cases Playable.frequency note <;> rfl

theorem entriesFrom_of_rests {rests : List α} (h : ∀ n ∈ rests, Playable.frequency n = none) :
    entriesFrom before beat adsr waveform rests = [] := by
  have hmap := map_frequency_entriesFrom before rests beat adsr waveform
  rw [List.filterMap_eq_nil_iff.mpr h] at hmap
  exact List.map_eq_nil_iff.mp hmap

/-- Only the exact position that is left behind matters to what follows, while it lasts. -/
theorem entriesFrom_congr (heq : exactSum (before.map Playable.value) =
      exactSum (other.map Playable.value))
    (hkeeps : (exactSum ((before ++ notes).map Playable.value)).isSome) :
    entriesFrom before beat adsr waveform notes = entriesFrom other beat adsr waveform notes := by
  -- One note later both exact positions still agree, and the rounded ones, which need not, are
  -- read only where there is no exact one.
  induction notes generalizing before other with
  | nil => rfl
  | cons note notes ih =>
    have hreach : reach (before.map Playable.value) = reach (other.map Playable.value) := by
      rw [reach, reach, ← heq]
      cases hs : exactSum (before.map Playable.value) with
      | some sum => rfl
      | none =>
        rw [List.map_append, exactSum_append_of_none hs] at hkeeps
        cases hkeeps
    have hnext : exactSum ((before ++ [note]).map Playable.value) =
        exactSum ((other ++ [note]).map Playable.value) := by
      rw [List.map_append, List.map_append, List.map_singleton, exactSum_append, exactSum_append,
        heq]
    rw [List.append_cons] at hkeeps
    have hrest := ih hnext hkeeps
    rw [entriesFrom, entriesFrom, hrest]
    simp only [entryAfter, hreach]

theorem isSome_exactSum_of_append (h : (exactSum ((before ++ notes).map Playable.value)).isSome) :
    (exactSum (before.map Playable.value)).isSome := by
  rw [Option.isSome_iff_ne_none] at h ⊢
  intro hnone
  rw [List.map_append] at h
  exact h (exactSum_append_of_none hnone _)

theorem entriesFrom_of_elapsed
    (hb : ∀ n ∈ before ++ notes, (Playable.value n).denominator.toNat ≠ 0)
    (ho : ∀ n ∈ other ++ notes, (Playable.value n).denominator.toNat ≠ 0)
    (helapsed : elapsed before = elapsed other)
    (hkeeps : KeepsExact (before ++ notes)) (hkeeps' : KeepsExact (other ++ notes)) :
    entriesFrom before beat adsr waveform notes = entriesFrom other beat adsr waveform notes := by
  rw [keepsExact_iff hb] at hkeeps
  rw [keepsExact_iff ho] at hkeeps'
  obtain ⟨a, ha⟩ := Option.isSome_iff_exists.mp (isSome_exactSum_of_append hkeeps)
  obtain ⟨b, hb'⟩ := Option.isSome_iff_exists.mp (isSome_exactSum_of_append hkeeps')
  have hsum : ((before.map Playable.value).map NoteValue.quantity).sum =
      ((other.map Playable.value).map NoteValue.quantity).sum := by
    rw [List.map_map, List.map_map]
    exact helapsed
  have hab : a = b := exactSum_unique
    (List.forall_mem_map.mpr fun n hn ↦ hb n (List.mem_append_left _ hn))
    (List.forall_mem_map.mpr fun n hn ↦ ho n (List.mem_append_left _ hn)) ha hb' hsum
  refine entriesFrom_congr ?_ hkeeps
  rw [ha, hb', hab]

namespace VoiceSchedule

/-- What is scheduled does not depend on how the time before it has been filled. In particular the
parts of a rest can be chosen at will. -/
theorem build_forgets_the_past {past other notes : List α} {bpm : Float}
    (hb : bpm.isFinite) (hpos : 0.0 < bpm)
    (hp : ∀ n ∈ past ++ notes, (Playable.value n).denominator ≠ 0)
    (ho : ∀ n ∈ other ++ notes, (Playable.value n).denominator ≠ 0)
    (helapsed : elapsed past = elapsed other)
    (hpast : KeepsExact (past ++ notes)) (hother : KeepsExact (other ++ notes))
    (adsr : Adsr) (waveform : Waveform) : ∃ p q s t tail,
      build past bpm adsr waveform = .ok p ∧ build other bpm adsr waveform = .ok q ∧
      build (past ++ notes) bpm adsr waveform = .ok s ∧
      build (other ++ notes) bpm adsr waveform = .ok t ∧
      s.entries.toList = p.entries.toList ++ tail ∧ t.entries.toList = q.entries.toList ++ tail ∧
      tail.map Entry.frequency = notes.filterMap Playable.frequency ∧
      ∀ front rests rests', past = front ++ rests → other = front ++ rests' →
        (∀ r ∈ rests ++ rests', Playable.frequency r = none) → s = t := by
  have hp' : ∀ n ∈ past ++ notes, (Playable.value n).denominator.toNat ≠ 0 := by
    intro n hn
    exact toNat_ne_zero.mpr (hp n hn)
  have ho' : ∀ n ∈ other ++ notes, (Playable.value n).denominator.toNat ≠ 0 := by
    intro n hn
    exact toNat_ne_zero.mpr (ho n hn)
  have htail : entriesFrom past (60.0 / bpm) adsr waveform notes =
      entriesFrom other (60.0 / bpm) adsr waveform notes :=
    entriesFrom_of_elapsed hp' ho' helapsed hpast hother
  refine ⟨_, _, _, _, entriesFrom past (60.0 / bpm) adsr waveform notes,
    build_of_tempo hb hpos (fun n hn ↦ hp n (List.mem_append_left _ hn)) adsr waveform,
    build_of_tempo hb hpos (fun n hn ↦ ho n (List.mem_append_left _ hn)) adsr waveform,
    build_of_tempo hb hpos hp adsr waveform, build_of_tempo hb hpos ho adsr waveform, ?_, ?_,
    map_frequency_entriesFrom past notes _ adsr waveform, ?_⟩
  · exact entriesOf_append_list past notes _ adsr waveform
  · rw [htail]
    exact entriesOf_append_list other notes _ adsr waveform
  · intro front rests rests' hrests hrests' hsilent
    have hleft : entriesOf past (60.0 / bpm) adsr waveform =
        entriesOf other (60.0 / bpm) adsr waveform := by
      rw [hrests, hrests', entriesOf_append_list, entriesOf_append_list,
        entriesFrom_of_rests fun r hr ↦ hsilent r (List.mem_append_left _ hr),
        entriesFrom_of_rests fun r hr ↦ hsilent r (List.mem_append_right _ hr)]
    rw [entriesOf_append_list, entriesOf_append_list other, hleft, htail]

def breath : List TunedNote := [⟨none, .half⟩]

def breaths : List TunedNote := [⟨none, ⟨1, 12⟩⟩, ⟨none, .quarter⟩, ⟨none, ⟨1, 6⟩⟩]

theorem build_after_breaths : elapsed breath = elapsed breaths ∧
    KeepsExact (breath ++ sigh) ∧ KeepsExact (breaths ++ sigh) ∧ ∃ s,
      build (breath ++ sigh) 90.0 .standard .sine = .ok s ∧
      build (breaths ++ sigh) 90.0 .standard .sine = .ok s := by
  have hfinite : (90.0 : Float).isFinite := by decide
  have hpos : (0.0 : Float) < 90.0 := by decide
  have hbreath : ∀ n ∈ breath ++ sigh, (Playable.value n).denominator ≠ 0 := by
    simp only [breath, sigh, List.cons_append, List.nil_append, List.forall_mem_cons,
      Playable.value]
    exact ⟨by decide, by decide, by decide, by decide, by simp⟩
  have hbreaths : ∀ n ∈ breaths ++ sigh, (Playable.value n).denominator ≠ 0 := by
    simp only [breaths, sigh, List.cons_append, List.nil_append, List.forall_mem_cons,
      Playable.value]
    exact ⟨by decide, by decide, by decide, by decide, by decide, by decide, by simp⟩
  have helapsed : elapsed breath = elapsed breaths := by
    simp [elapsed, breath, breaths, NoteValue.quantity, Playable.value, NoteValue.half,
      NoteValue.quarter]
    norm_num
  have hsum : exactSum [⟨1, 2⟩, ⟨3, 8⟩, ⟨1, 8⟩, ⟨1, 12⟩] = some ⟨13, 12⟩ := by cbv
  have hsum' : exactSum [⟨1, 12⟩, ⟨1, 4⟩, ⟨1, 6⟩, ⟨3, 8⟩, ⟨1, 8⟩, ⟨1, 12⟩] = some ⟨13, 12⟩ := by cbv
  have hkeeps : KeepsExact (breath ++ sigh) :=
    (keepsExact_iff fun n hn ↦ toNat_ne_zero.mpr (hbreath n hn)).mpr (Option.isSome_of_eq_some hsum)
  have hkeeps' : KeepsExact (breaths ++ sigh) :=
    (keepsExact_iff fun n hn ↦ toNat_ne_zero.mpr (hbreaths n hn)).mpr
      (Option.isSome_of_eq_some hsum')
  obtain ⟨_, _, s, t, _, -, -, hs, ht, -, -, -, hsame⟩ := build_forgets_the_past hfinite hpos
    hbreath hbreaths helapsed hkeeps hkeeps' .standard .sine
  obtain rfl := hsame [] breath breaths rfl rfl (by simp [breath, breaths, Playable.frequency])
  exact ⟨helapsed, hkeeps, hkeeps', s, hs, ht⟩

end VoiceSchedule

end Polyphony
