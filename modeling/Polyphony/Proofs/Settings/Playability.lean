import Polyphony.Proofs.Settings.Validity

namespace Polyphony

namespace Session

variable [Elementary]

theorem schedules_eq_ok (index : ℕ) {voices : List Voice}
    (h : ∀ v ∈ voices, ∃ schedule, v.schedule = .ok schedule) :
    ∃ all, schedules index voices = .ok all ∧
      List.Forall₂ (fun v schedule ↦ v.schedule = .ok schedule) voices all := by
  induction voices generalizing index with
  | nil => exact ⟨[], rfl, .nil⟩
  | cons v vs ih =>
    obtain ⟨schedule, hv⟩ := h v List.mem_cons_self
    obtain ⟨all, hall, hrest⟩ := ih (index + 1) fun w hw ↦ h w (List.mem_cons_of_mem _ hw)
    refine ⟨schedule :: all, ?_, .cons hv hrest⟩
    rw [schedules, hv]
    simp only
    rw [hall]
    rfl

end Session

namespace Composition

open VoiceSettings

theorem validated_cases (index : ℕ) (voices : List VoiceSettings) :
    (∃ vs, validated index voices = .ok vs ∧
      List.Forall₂ (fun s v ↦ s.validate = .ok v) voices vs) ∨
      ∃ before s after e, voices = before ++ s :: after ∧ (∀ t ∈ before, t.validate.isOk) ∧
        s.validate = .error e ∧
          validated index voices = .error (.voice (index + before.length) e) := by
  induction voices generalizing index with
  | nil => exact .inl ⟨[], rfl, .nil⟩
  | cons s rest ih =>
    rw [validated]
    cases hs : s.validate with
    | error e => exact .inr ⟨[], s, rest, e, rfl, by simp, hs, rfl⟩
    | ok v =>
      simp only
      obtain ⟨vs, hvs, hrest⟩ | ⟨before, t, after, e, rfl, hbefore, ht, hvs⟩ := ih (index + 1)
      · rw [hvs]
        exact .inl ⟨v :: vs, rfl, .cons hs hrest⟩
      · rw [hvs]
        refine .inr ⟨s :: before, t, after, e, rfl, ?_, ht, ?_⟩
        · intro u hu
          rcases List.mem_cons.mp hu with rfl | hu
          · exact isOk_iff.mpr ⟨v, hs⟩
          · exact hbefore u hu
        · rw [List.length_cons, Nat.add_right_comm, ← Nat.add_assoc]
          rfl

theorem isPlayable_iff {c : Composition} : c.isPlayable ↔ ∀ s ∈ c.voices, s.validate.isOk := by
  rw [isPlayable, List.all_eq_true]

variable [Elementary]

/-- What a composition comes to: a session of all its voices, or the first fault of its first voice
that has one. -/
inductive Comes (c : Composition) : Except Failure Session → Prop
  | session {s : Session} (h : List.Forall₂
      (fun settings schedule ↦ settings.evaluate = .ok (.valid schedule)) c.voices s.voices) :
      Comes c (.ok s)
  | failure {before after : List VoiceSettings} {settings : VoiceSettings} {e : Error}
      (hvoices : c.voices = before ++ settings :: after)
      (hbefore : ∀ t ∈ before, ∃ schedule, t.evaluate = .ok (.valid schedule))
      (hvalidate : settings.validate = .error e)
      (hevaluate : settings.evaluate = .ok (.invalid e))
      (hfault : settings.Faulty e (Error.voice before.length e).offendingUnit?) :
      Comes c (.error (.refused (.voice before.length e)))

theorem evaluate_of_isOk {s : VoiceSettings} (h : s.validate.isOk) :
    ∃ schedule, s.evaluate = .ok (.valid schedule) := by
  obtain ⟨v, hv⟩ := isOk_iff.mp h
  obtain ⟨notes, -, -, -, -, hschedule⟩ := schedule_of_validate hv
  exact ⟨_, evaluate_of_validate hv hschedule⟩

theorem isOk_of_evaluate {s : VoiceSettings} {schedule : VoiceSchedule}
    (h : s.evaluate = .ok (.valid schedule)) : s.validate.isOk :=
  isOk_iff.mpr ⟨_, validate_of_evaluate h⟩

theorem build_of_validated {voices : List VoiceSettings} {vs : List Voice}
    (h : List.Forall₂ (fun s v ↦ s.validate = .ok v) voices vs) :
    ∃ s, Session.build vs = .ok s ∧ List.Forall₂
      (fun settings schedule ↦ settings.evaluate = .ok (.valid schedule)) voices s.voices := by
  have hvoices : ∀ v ∈ vs, ∃ schedule, v.schedule = .ok schedule := by
    intro v hv
    obtain ⟨i, hi, rfl⟩ := List.mem_iff_getElem.mp hv
    obtain ⟨notes, -, -, -, -, hschedule⟩ :=
      schedule_of_validate (h.get (h.length_eq.symm ▸ hi) hi)
    exact ⟨_, hschedule⟩
  obtain ⟨all, hall, hrest⟩ := Session.schedules_eq_ok 0 hvoices
  refine ⟨⟨all, Session.latestFinish all⟩, ?_, ?_⟩
  · rw [Session.build, hall]
    rfl
  · rw [List.forall₂_iff_get] at h hrest ⊢
    refine ⟨h.1.trans hrest.1, ?_⟩
    intro i hi hi'
    exact evaluate_of_validate (h.2 i hi (h.1 ▸ hi)) (hrest.2 i (h.1 ▸ hi) hi')

theorem isPlayable_iff_evaluate {c : Composition} : c.isPlayable ↔
    ∀ s ∈ c.voices, ∃ schedule, s.evaluate = .ok (.valid schedule) := by
  rw [isPlayable_iff]
  constructor
  · exact fun h s hs ↦ evaluate_of_isOk (h s hs)
  · intro h s hs
    obtain ⟨schedule, hschedule⟩ := h s hs
    exact isOk_of_evaluate hschedule

theorem comes_session (c : Composition) : Comes c c.session := by
  obtain ⟨vs, hvs, hall⟩ | ⟨before, s, after, e, hvoices, hbefore, hs, hvs⟩ :=
    validated_cases 0 c.voices
  · obtain ⟨s, hs, hvoices⟩ := build_of_validated hall
    have hsession : c.session = .ok s := by
      rw [session, hvs]
      exact hs
    exact hsession ▸ .session hvoices
  · rw [Nat.zero_add] at hvs
    have hsession : c.session = .error (.refused (.voice before.length e)) := by
      rw [session, hvs]
    have hfault : s.Faulty e e.offendingUnit? := by
      obtain ⟨hok, -⟩ | ⟨e', he', hfault⟩ := s.validate_cases
      · rw [hs] at hok
        cases hok
      · obtain rfl := Except.error.inj (hs.symm.trans he')
        exact hfault
    rw [hsession]
    exact .failure hvoices (fun t ht ↦ evaluate_of_isOk (hbefore t ht)) hs
      (evaluate_of_invalid hs) hfault

theorem Comes.isOk_iff {c : Composition} {r : Except Failure Session} (h : Comes c r) :
    (∃ s, r = .ok s) ↔ c.isPlayable := by
  rw [isPlayable_iff_evaluate]
  cases h with
  | session h =>
    refine ⟨fun _ s hs ↦ ?_, fun _ ↦ ⟨_, rfl⟩⟩
    obtain ⟨i, hi, rfl⟩ := List.mem_iff_getElem.mp hs
    exact ⟨_, h.get hi (h.length_eq ▸ hi)⟩
  | failure hvoices hbefore hvalidate hevaluate hfault =>
    refine ⟨fun ⟨_, hr⟩ ↦ (by cases hr), fun hall ↦ ?_⟩
    obtain ⟨schedule, hschedule⟩ := hall _ (hvoices ▸ List.mem_append_right _ List.mem_cons_self)
    rw [hevaluate] at hschedule
    cases hschedule

theorem evaluate_of_session {c : Composition} {s : Session} (h : c.session = .ok s) :
    ∀ schedule ∈ s.voices, ∃ settings ∈ c.voices, settings.evaluate = .ok (.valid schedule) := by
  have hcomes := comes_session c
  rw [h] at hcomes
  cases hcomes with
  | session hvoices =>
    intro schedule hschedule
    obtain ⟨i, hi, rfl⟩ := List.mem_iff_getElem.mp hschedule
    have hi' : i < c.voices.length := hvoices.length_eq ▸ hi
    exact ⟨c.voices[i], List.getElem_mem hi', hvoices.get hi' hi⟩

end Composition

end Polyphony
