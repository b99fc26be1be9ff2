import Polyphony.Proofs.Notation.Words
import Polyphony.Proofs.Settings.Playability

namespace Polyphony

def Answered {α : Type} (r : Except Failure α) : Prop := ∀ f, r ≠ .error (.arithmetic f)

structure WrittenNote.Bounded (n : WrittenNote) : Prop where
  inLowestTerms : n.value.InLowestTerms
  numerator : n.value.numerator.toNat = 1 ∨ n.value.numerator.toNat = 3
  denominator : 1 ≤ n.value.denominator.toNat ∧ n.value.denominator.toNat ≤ 2 ^ 64 - 1
  distance : ∀ p ∈ n.pitch, FitsWord ((p.pitchClass.index : ℤ) - 9) ∧
    FitsWord (p.octave.toInt - 4) ∧ FitsWord ((p.octave.toInt - 4) * 12) ∧ FitsWord p.semitones

/-- The builder goes through all notes. Wherever it is its exact position is in lowest terms, and
no step of adding the next note to that position fails. -/
structure Builder.Steady [Elementary] (b : Builder) (notes : List WrittenNote) : Prop where
  reaches : ∀ k ≤ notes.length, ∃ c, (notes.take k).foldlM push b = .ok c ∧ c.seen = k ∧
    ∀ position ∈ c.cursor.exact, position.InLowestTerms ∧
      ∀ n ∈ notes[k]?, ∃ sum, Guarded.add? position n.value = .ok sum

/-- A melody that can be read and scheduled without a fault of arithmetic, and that is never cut
inside a character. -/
structure SafeMelody [Elementary] (melody : String) : Prop where
  cut : ∀ unit ∈ Notation.units melody, ∀ part ∈ unit.toList.splitOn '/',
    (String.Pos.Raw.mk (Notation.nameEnd part)).IsValid (String.ofList part) ∧
      ∀ name octave, Notation.splitPitch part = some (name, octave) →
        part = name ++ octave ∧ (String.ofList name).utf8ByteSize = Notation.nameEnd part
  values : ∀ unit ∈ Notation.units melody, ∀ part ∈ unit.toList.splitOn '/',
    Guarded.readValue? part = .ok (Notation.readValue? part)
  bounded : ∀ notes, WrittenNote.parseAll melody = .ok notes → ∀ n ∈ notes, n.Bounded
  steady : ∀ notes, WrittenNote.parseAll melody = .ok notes → ∀ bpm adsr waveform b,
    Builder.start bpm adsr waveform = .ok b → b.Steady notes

theorem WrittenNote.bounded_of_writes {n : WrittenNote} {part : List Char}
    (h : WritesValue part n.value) : n.Bounded where
  inLowestTerms := h.inLowestTerms
  numerator := h.numerator_eq
  denominator := by
    have hne := h.inLowestTerms.denominator_ne_zero
    have hlt := n.value.denominator.toNat_lt
    omega
  distance p _ := p.fitsWord_semitones

theorem WrittenNote.bounded_of_parseAll {melody : String} {notes : List WrittenNote}
    (h : parseAll melody = .ok notes) : ∀ n ∈ notes, n.Bounded := by
  obtain ⟨found, hall, hfound⟩ | ⟨_, _, _, _, -, -, -, herror⟩ := parseAll_cases melody
  · rw [h] at hall
    cases hall
    intro n hn
    obtain ⟨part, hpart⟩ := hfound n hn
    exact bounded_of_writes hpart
  · rw [h] at herror
    cases herror

variable [Elementary]

theorem Builder.steady_of_bounded {b : Builder} {notes : List WrittenNote} {bpm : Float}
    {adsr : Adsr} {waveform : Waveform} (hb : start bpm adsr waveform = .ok b)
    (h : ∀ n ∈ notes, n.Bounded) : b.Steady notes := by
  have hden : ∀ n ∈ notes, (Playable.value n).denominator.toNat ≠ 0 :=
    fun n hn ↦ (h n hn).inLowestTerms.denominator_ne_zero
  refine ⟨fun k hk ↦ ⟨b.after (notes.take k), ?_, by simp [after, hk], ?_⟩⟩
  · have hfront : ∀ n ∈ [] ++ notes.take k, (Playable.value n).denominator.toNat ≠ 0 :=
      fun n hn ↦ hden n (List.mem_of_mem_take hn)
    have hrun := foldlM_push_after (b := b) hfront
    rwa [← eq_after_nil hb] at hrun
  · intro position hposition
    have hlow : position.InLowestTerms := by
      refine inLowestTerms_exactSum (fun v hv ↦ ?_) position hposition
      obtain ⟨n, hn, rfl⟩ := List.mem_map.mp hv
      exact hden n (List.mem_of_mem_take hn)
    refine ⟨hlow, fun n hn ↦ ?_⟩
    obtain ⟨sum, hsum, -⟩ :=
      NoteValue.exists_add?_eq hlow.denominator_ne_zero (hden n (List.mem_of_getElem? hn))
    exact ⟨sum, (Guarded.add?_eq position n.value).trans hsum⟩

theorem safeMelody (melody : String) : SafeMelody melody where
  cut _ _ part _ :=
    ⟨Notation.isValid_nameEnd part, fun _ _ h ↦ Notation.splitPitch_at_nameEnd h⟩
  values _ _ part _ := Guarded.readValue?_eq part
  bounded _ hnotes := WrittenNote.bounded_of_parseAll hnotes
  steady _ hnotes _ _ _ _ hb := Builder.steady_of_bounded hb (WrittenNote.bounded_of_parseAll hnotes)

theorem Voice.answered_schedule (v : Voice) : Answered v.schedule := by
  intro f hf
  cases hnotes : WrittenNote.parseAll v.melody with
  | error e =>
    rw [schedule, hnotes] at hf
    cases hf
  | ok notes =>
    cases hb : Builder.start v.bpm v.adsr v.waveform with
    | error e =>
      rw [schedule, hnotes] at hf
      simp only [VoiceSchedule.build, hb] at hf
      cases hf
    | ok b =>
      rw [schedule_of_parseAll hnotes hb] at hf
      cases hf

theorem Session.answered_schedules (voices : List Voice) (index : ℕ) :
    Answered (schedules index voices) := by
  induction voices generalizing index with
  | nil =>
    intro f hf
    cases hf
  | cons v vs ih =>
    intro f hf
    rw [schedules] at hf
    cases hv : v.schedule with
    | error g =>
      rw [hv] at hf
      cases g with
      | refused e => cases hf
      | arithmetic g => exact v.answered_schedule g hv
    | ok s =>
      rw [hv] at hf
      cases hvs : schedules (index + 1) vs with
      | error g =>
        simp only [hvs] at hf
        cases hf
        exact ih (index + 1) f hvs
      | ok all =>
        simp only [hvs] at hf
        cases hf

theorem Session.answered_build (voices : List Voice) : Answered (build voices) := by
  intro f hf
  rw [build] at hf
  cases hvs : schedules 0 voices with
  | error g =>
    rw [hvs] at hf
    cases hf
    exact answered_schedules voices 0 f hvs
  | ok all =>
    rw [hvs] at hf
    cases hf

theorem Composition.answered_session (c : Composition) : Answered c.session := by
  intro f hf
  have hcomes := comes_session c
  rw [hf] at hcomes
  cases hcomes

theorem VoiceSettings.exists_evaluate (s : VoiceSettings) : ∃ e, s.evaluate = .ok e := by
  cases hs : s.validate with
  | error e => exact ⟨_, evaluate_of_invalid hs⟩
  | ok v =>
    obtain ⟨notes, -, -, -, -, hschedule⟩ := schedule_of_validate hs
    exact ⟨_, evaluate_of_validate hs hschedule⟩

/-- Whatever stands in melodies, neither voices nor an editor's settings lead to a fault of
arithmetic on the way to a schedule. -/
theorem Session.melodies_are_safe (voices : List Voice) (settings : List VoiceSettings) :
    Answered (build voices) ∧ Answered (Composition.session ⟨settings⟩) ∧
      (∀ v ∈ voices, Answered v.schedule ∧ SafeMelody v.melody) ∧
      ∀ s ∈ settings, (∃ e, s.evaluate = .ok e) ∧ SafeMelody s.melody :=
  ⟨answered_build voices, Composition.answered_session ⟨settings⟩,
    fun v _ ↦ ⟨v.answered_schedule, safeMelody v.melody⟩,
    fun s _ ↦ ⟨s.exists_evaluate, safeMelody s.melody⟩⟩

end Polyphony
