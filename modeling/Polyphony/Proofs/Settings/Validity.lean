import Polyphony.Proofs.Notation.Melody
import Polyphony.Proofs.Number.Floating
import Polyphony.Proofs.Schedule.ClosedForm
import Polyphony.Settings

namespace Polyphony

open Number

theorem schedule_of_parseAll [Elementary] {v : Voice} {notes : List WrittenNote} {b : Builder}
    (hall : WrittenNote.parseAll v.melody = .ok notes)
    (hb : Builder.start v.bpm v.adsr v.waveform = .ok b) :
    v.schedule = .ok ⟨(entriesOf notes b.beat b.adsr b.waveform).toArray,
      latest (entriesOf notes b.beat b.adsr b.waveform)⟩ := by
  obtain ⟨notes', hall', hnotes⟩ | ⟨_, _, _, _, -, -, -, herror⟩ :=
    WrittenNote.parseAll_cases v.melody
  · obtain rfl := Except.ok.inj (hall.symm.trans hall')
    rw [Voice.schedule, hall]
    simp only
    rw [VoiceSchedule.build_of_start hb, Builder.finish_after]
    intro n hn
    obtain ⟨part, hpart⟩ := hnotes n hn
    exact hpart.inLowestTerms.denominator_ne_zero
  · rw [hall] at herror
    cases herror

namespace VoiceSettings

variable {s : VoiceSettings}

theorem inRange_iff {d : Dial} :
    s.inRange d ↔ d.lowest ≤ s.value d ∧ s.value d ≤ d.highest := by
  simp [inRange]

/-- What is wrong with settings, and the unit of the melody that is to blame for it: the first dial
out of its range, and only where there is none the first unit that cannot be read. -/
inductive Faulty (s : VoiceSettings) : Error → Option String → Prop
  | dial {before after : List Dial} {d : Dial}
      (hd : [.bpm, .attack, .decay, .sustain, .release] = before ++ d :: after)
      (hbefore : ∀ b ∈ before, b.lowest ≤ s.value b ∧ s.value b ≤ b.highest)
      (hout : ¬ (d.lowest ≤ s.value d ∧ s.value d ≤ d.highest)) :
      Faulty s (.outOfRange d (s.value d)) none
  | unit (hdials : ∀ d, d.lowest ≤ s.value d ∧ s.value d ≤ d.highest)
      {before after : List String} {unit : String} {fault : UnitFault}
      (hunits : Notation.units s.melody = before ++ unit :: after)
      (hbefore : ∀ u ∈ before, ∃ note, WrittenNote.parse u = .ok note)
      (hunit : WrittenNote.parse unit = .error (.unit unit fault)) :
      Faulty s (.unit unit fault) (some unit)

theorem misset?_eq_some {d : Dial} (h : s.misset? = some d) :
    ∃ before after, dials = before ++ d :: after ∧ (∀ b ∈ before, s.inRange b) ∧
      ¬ s.inRange d := by
  obtain ⟨hd, before, after, hdials, hbefore⟩ := List.find?_eq_some_iff_append.mp h
  exact ⟨before, after, hdials, by simpa using hbefore, by simpa using hd⟩

theorem misset?_eq_none_iff : s.misset? = none ↔ ∀ d, s.inRange d := by
  rw [misset?, List.find?_eq_none]
  constructor
  · intro h d
    have hmem : d ∈ dials := by cases d <;> decide
    simpa using h d hmem
  · intro h d _
    simp [h d]

theorem validate_cases (s : VoiceSettings) :
    (s.validate = .ok s.voice ∧ (∀ d, s.inRange d) ∧
      ∃ notes, WrittenNote.parseAll s.melody = .ok notes ∧
        ∀ n ∈ notes, ∃ part, WritesValue part n.value) ∨
      ∃ e, s.validate = .error e ∧ s.Faulty e e.offendingUnit? := by
  rw [validate]
  cases hm : s.misset? with
  | some d =>
    obtain ⟨before, after, hdials, hbefore, hd⟩ := misset?_eq_some hm
    refine .inr ⟨_, rfl, .dial hdials (fun b hb ↦ ?_) ?_⟩
    · exact inRange_iff.mp (hbefore b hb)
    · rwa [← inRange_iff]
  | none =>
    have hdials := misset?_eq_none_iff.mp hm
    obtain ⟨notes, hall, hnotes⟩ | ⟨before, unit, after, fault, hunits, hbefore, hunit, hall⟩ :=
      WrittenNote.parseAll_cases s.melody
    · refine .inl ⟨?_, hdials, notes, hall, hnotes⟩
      rw [hall]
      rfl
    · refine .inr ⟨.unit unit fault, ?_, .unit (fun d ↦ inRange_iff.mp (hdials d)) hunits ?_ hunit⟩
      · rw [hall]
        rfl
      · exact fun u hu ↦ isOk_iff.mp (hbefore u hu)

theorem validate_of_parseAll {s : VoiceSettings} {notes : List WrittenNote}
    (hdials : ∀ d, s.inRange d) (hall : WrittenNote.parseAll s.melody = .ok notes) :
    s.validate = .ok s.voice := by
  rw [validate, misset?_eq_none_iff.mpr hdials, hall]
  rfl

open Floating in
theorem within_bpm (h : s.inRange .bpm) : Within 10 300 s.bpm.toFloat := by
  obtain ⟨hlow, hhigh⟩ := inRange_iff.mp h
  have hten : Finite (10.0 : Float) ∧ rat (10.0 : Float) = 10 :=
    rat_of_unpack .positive (10 * 2 ^ 49) (-49) (by decide) rfl
      (by norm_num [Float.Model.UnpackedFloat.Sign.apply])
  have hmost : Finite (300.0 : Float) ∧ rat (300.0 : Float) = 300 :=
    rat_of_unpack .positive (300 * 2 ^ 44) (-44) (by decide) rfl
      (by norm_num [Float.Model.UnpackedFloat.Sign.apply])
  have hx := within_of_le hten.1 hmost.1 hlow hhigh
  rwa [hten.2, hmost.2] at hx

open Floating in
theorem positive_bpm (h : s.inRange .bpm) : Positive s.bpm.toFloat := by
  have hx := within_bpm h
  refine positive_iff.mpr ⟨hx.finite, ?_⟩
  exact lt_of_lt_of_le (by norm_num) hx.lower

variable [Elementary]

theorem schedule_of_validate {v : Voice} (h : s.validate = .ok v) :
    ∃ notes, WrittenNote.parseAll s.melody = .ok notes ∧
      (∀ n ∈ notes, ∃ part, WritesValue part n.value) ∧ (∀ d, s.inRange d) ∧ v = s.voice ∧
      let entries := entriesOf notes (60.0 / s.bpm.toFloat) s.voice.adsr s.waveform
      v.schedule = .ok ⟨entries.toArray, latest entries⟩ := by
  obtain ⟨hs, hdials, notes, hall, hnotes⟩ | ⟨e, he, -⟩ := s.validate_cases
  · obtain rfl : v = s.voice := Except.ok.inj (h.symm.trans hs)
    refine ⟨notes, hall, hnotes, hdials, rfl, ?_⟩
    intro entries
    have hbpm := positive_bpm (hdials .bpm)
    have hstart : Builder.start s.voice.bpm s.voice.adsr s.voice.waveform =
        .ok ⟨60.0 / s.bpm.toFloat, s.voice.adsr, s.waveform, .start, 0, #[], 0.0⟩ := by
      exact if_pos (by simp [voice, hbpm.finite, hbpm.pos])
    rw [schedule_of_parseAll (v := s.voice) hall hstart]
  · rw [h] at he
    cases he

theorem evaluate_of_validate {v : Voice} {schedule : VoiceSchedule} (h : s.validate = .ok v)
    (hv : v.schedule = .ok schedule) : s.evaluate = .ok (.valid schedule) := by
  rw [evaluate, h]
  simp only
  rw [hv]

theorem validate_of_evaluate {schedule : VoiceSchedule} (h : s.evaluate = .ok (.valid schedule)) :
    s.validate = .ok s.voice := by
  obtain ⟨hs, -⟩ | ⟨e, he, -⟩ := s.validate_cases
  · exact hs
  · rw [evaluate, he] at h
    cases h

theorem entries_of_evaluate {schedule : VoiceSchedule} (h : s.evaluate = .ok (.valid schedule)) :
    (∀ d, s.inRange d) ∧ ∃ notes : List WrittenNote,
      (∀ n ∈ notes, ∃ part, WritesValue part n.value) ∧
      schedule.entries.toList =
        entriesOf notes (60.0 / s.bpm.toFloat) s.voice.adsr s.waveform := by
  obtain ⟨notes, -, hnotes, hdials, -, hschedule⟩ := schedule_of_validate (validate_of_evaluate h)
  rw [evaluate_of_validate (validate_of_evaluate h) hschedule] at h
  cases h
  exact ⟨hdials, notes, hnotes, rfl⟩

theorem evaluate_of_invalid {e : Error} (h : s.validate = .error e) :
    s.evaluate = .ok (.invalid e) := by
  rw [evaluate, h]

end VoiceSettings

end Polyphony
