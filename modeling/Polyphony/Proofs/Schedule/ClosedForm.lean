import Mathlib.Data.List.Basic
import Polyphony.Proofs.Schedule.Position

namespace Polyphony

variable {α : Type} [Playable α]

def entryAfter (before : List α) (beat : Float) (adsr : Adsr) (waveform : Waveform)
    (frequency : Float) (v : NoteValue) : Entry :=
  let start := reach (before.map Playable.value) * beat
  let stop := start + v.beats * beat
  { frequency := frequency
    startTime := start
    stopTime := stop
    envelope := .forNote start stop adsr
    waveform := waveform }

/-- The entries of some notes: one for each that is not a rest, at the place that those in front
of it reach to. -/
def entriesOf (notes : List α) (beat : Float) (adsr : Adsr) (waveform : Waveform) : List Entry :=
  notes.zipIdx.filterMap fun (note, i) ↦ (Playable.frequency note).map fun frequency ↦
    entryAfter (notes.take i) beat adsr waveform frequency (Playable.value note)

def latest (entries : List Entry) : Float := (entries.map Entry.finishTime).foldl larger 0.0

theorem entriesOf_append (notes : List α) (note : α) (beat : Float) (adsr : Adsr)
    (waveform : Waveform) :
    entriesOf (notes ++ [note]) beat adsr waveform = entriesOf notes beat adsr waveform ++
      ((Playable.frequency note).map fun frequency ↦
        entryAfter notes beat adsr waveform frequency (Playable.value note)).toList := by
  rw [entriesOf, List.zipIdx_append, List.filterMap_append, entriesOf]
  congr 1
  · refine List.filterMap_congr fun (n, i) hx ↦ ?_
    have hlt := (List.mem_zipIdx hx).2.1
    rw [Nat.zero_add] at hlt
    simp only [List.take_append_of_le_length hlt.le]
  · cases hf : Playable.frequency note with
    | none => simp [hf]
    | some frequency => simp [hf]

theorem latest_append (entries : List Entry) (e : Entry) :
    latest (entries ++ [e]) = larger (latest entries) e.finishTime := by
  simp [latest]

namespace Builder

def after (b : Builder) (notes : List α) : Builder :=
  { b with
    cursor := .after (notes.map Playable.value)
    seen := notes.length
    entries := (entriesOf notes b.beat b.adsr b.waveform).toArray
    finishTime := latest (entriesOf notes b.beat b.adsr b.waveform) }

variable {b : Builder} {notes : List α}

theorem finish_after (b : Builder) (notes : List α) : (b.after notes).finish =
    ⟨(entriesOf notes b.beat b.adsr b.waveform).toArray,
      latest (entriesOf notes b.beat b.adsr b.waveform)⟩ := rfl

theorem entry_after (b : Builder) (notes : List α) (frequency : Float) (v : NoteValue) :
    (b.after notes).entry frequency v =
      entryAfter notes b.beat b.adsr b.waveform frequency v := rfl

theorem eq_after_nil {bpm : Float} {adsr : Adsr} {waveform : Waveform}
    (h : start bpm adsr waveform = .ok b) : b = b.after ([] : List α) := by
  rw [start] at h
  split_ifs at h
  cases h
  rfl

theorem push_after {note : α}
    (h : ∀ n ∈ notes ++ [note], (Playable.value n).denominator.toNat ≠ 0) :
    (b.after notes).push note = .ok (b.after (notes ++ [note])) := by
  have hcursor : (b.after notes).cursor.advance (Playable.value note) =
      .ok (.after ((notes ++ [note]).map Playable.value)) := by
    rw [List.map_append]
    refine Cursor.advance_after fun v hv ↦ ?_
    rcases List.mem_append.mp hv with hv | hv
    · obtain ⟨n, hn, rfl⟩ := List.mem_map.mp hv
      exact h n (List.mem_append_left _ hn)
    · obtain rfl := List.mem_singleton.mp hv
      exact h note (List.mem_append_right _ List.mem_cons_self)
  have hentries := entriesOf_append notes note b.beat b.adsr b.waveform
  rw [push, hcursor]
  cases hf : Playable.frequency note with
  | none =>
    rw [hf, Option.map_none, Option.toList_none, List.append_nil] at hentries
    simp [after, hentries, bind, Except.bind, pure, Except.pure]
  | some frequency =>
    rw [hf, Option.map_some, Option.toList_some, ← entry_after] at hentries
    simp only [after, hentries, latest_append, bind, Except.bind, pure, Except.pure]
    simp

theorem foldlM_push_after {more : List α}
    (h : ∀ n ∈ notes ++ more, (Playable.value n).denominator.toNat ≠ 0) :
    more.foldlM push (b.after notes) = .ok (b.after (notes ++ more)) := by
  induction more generalizing notes with
  | nil => simp [pure, Except.pure]
  | cons note more ih =>
    rw [List.append_cons] at h ⊢
    have hpush := push_after (b := b) fun n hn ↦ h n (List.mem_append_left more hn)
    rw [List.foldlM_cons, hpush]
    exact ih h

end Builder

namespace VoiceSchedule

theorem build_of_start {b : Builder} {notes : List α} {bpm : Float} {adsr : Adsr}
    {waveform : Waveform} (hb : Builder.start bpm adsr waveform = .ok b)
    (h : ∀ n ∈ notes, (Playable.value n).denominator.toNat ≠ 0) :
    build notes bpm adsr waveform = .ok (b.after notes).finish := by
  have hstart : b = b.after ([] : List α) := Builder.eq_after_nil hb
  rw [build, hb]
  simp only
  rw [hstart, Builder.foldlM_push_after (by simpa using h), ← hstart]
  rfl

theorem build_of_tempo {notes : List α} {bpm : Float} (hb : bpm.isFinite) (hpos : 0.0 < bpm)
    (h : ∀ n ∈ notes, (Playable.value n).denominator ≠ 0) (adsr : Adsr) (waveform : Waveform) :
    build notes bpm adsr waveform = .ok ⟨(entriesOf notes (60.0 / bpm) adsr waveform).toArray,
      latest (entriesOf notes (60.0 / bpm) adsr waveform)⟩ := by
  have hstart : Builder.start bpm adsr waveform =
      .ok ⟨60.0 / bpm, adsr, waveform, .start, 0, #[], 0.0⟩ := by
    rw [Builder.start, if_pos (by simp [hb, hpos])]
  rw [build_of_start hstart fun n hn ↦ toNat_ne_zero.mpr (h n hn), Builder.finish_after]

/-- Rests and tones are scheduled alike, whether their pitch is written or tuned. -/
theorem build_tuned [Elementary] (notes : List WrittenNote) (bpm : Float) (adsr : Adsr)
    (waveform : Waveform) : build (notes.map WrittenNote.tuned) bpm adsr waveform =
      build notes bpm adsr waveform := by
  rw [build, build]
  simp only [List.foldlM_map]
  rfl

/-- Each note begins where those in front of it end, and the schedule ends with the last release. -/
theorem build_eq [Elementary] (notes : List α) {bpm : Float} (hb : bpm.isFinite) (hpos : 0.0 < bpm)
    (h : ∀ n ∈ notes, (Playable.value n).denominator ≠ 0) (adsr : Adsr) (waveform : Waveform) :
    build notes bpm adsr waveform =
        .ok ⟨(entriesOf notes (60.0 / bpm) adsr waveform).toArray,
          latest (entriesOf notes (60.0 / bpm) adsr waveform)⟩ ∧
      ∀ written : List WrittenNote, build (written.map WrittenNote.tuned) bpm adsr waveform =
        build written bpm adsr waveform := by
  exact ⟨build_of_tempo hb hpos h adsr waveform,
    fun written ↦ build_tuned written bpm adsr waveform⟩

def sigh : List TunedNote :=
  [⟨some 440.0, .dottedQuarter⟩, ⟨none, .eighth⟩, ⟨some 415.3, ⟨1, 12⟩⟩]

theorem build_sigh : (90.0 : Float).isFinite ∧ (0.0 : Float) < 90.0 ∧
    (∀ n ∈ sigh, (Playable.value n).denominator ≠ 0) ∧
      build sigh 90.0 .standard .sine = .ok ⟨(entriesOf sigh (60.0 / 90.0) .standard .sine).toArray,
        latest (entriesOf sigh (60.0 / 90.0) .standard .sine)⟩ := by
  have hfinite : (90.0 : Float).isFinite := by decide
  have hpos : (0.0 : Float) < 90.0 := by decide
  have hvalues : ∀ n ∈ sigh, (Playable.value n).denominator ≠ 0 := by
    simp only [sigh, List.forall_mem_cons, Playable.value]
    exact ⟨by decide, by decide, by decide, by simp⟩
  exact ⟨hfinite, hpos, hvalues, (build_eq sigh hfinite hpos hvalues .standard .sine).1⟩

end VoiceSchedule

end Polyphony
