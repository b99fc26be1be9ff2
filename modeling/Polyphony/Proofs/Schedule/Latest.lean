import Polyphony.Proofs.Number.Floating
import Polyphony.Proofs.Settings.Validity

namespace Polyphony

open Floating

section Finish

variable [Elementary]

theorem finishTime_of_schedule {v : Voice} {schedule : VoiceSchedule}
    (h : v.schedule = .ok schedule) : schedule.finishTime = latest schedule.entries.toList := by
  cases hall : WrittenNote.parseAll v.melody with
  | error e =>
    rw [Voice.schedule, hall] at h
    cases h
  | ok notes =>
    cases hstart : Builder.start v.bpm v.adsr v.waveform with
    | error e =>
      rw [Voice.schedule, hall] at h
      simp only at h
      rw [VoiceSchedule.build, hstart] at h
      cases h
    | ok b =>
      rw [schedule_of_parseAll hall hstart] at h
      cases h
      rfl

theorem schedule_of_mem_schedules {voices : List Voice} {index : ℕ} {all : List VoiceSchedule}
    (h : Session.schedules index voices = .ok all) :
    ∀ schedule ∈ all, ∃ v ∈ voices, v.schedule = .ok schedule := by
  induction voices generalizing index all with
  | nil =>
    cases h
    simp
  | cons v vs ih =>
    rw [Session.schedules] at h
    cases hv : v.schedule with
    | error f =>
      rw [hv] at h
      cases h
    | ok schedule =>
      rw [hv] at h
      simp only at h
      cases hvs : Session.schedules (index + 1) vs with
      | error f =>
        rw [hvs] at h
        cases h
      | ok rest =>
        rw [hvs] at h
        cases h
        intro t ht
        rcases List.mem_cons.mp ht with rfl | ht
        · exact ⟨v, List.mem_cons_self, hv⟩
        · obtain ⟨w, hw, hschedule⟩ := ih hvs t ht
          exact ⟨w, List.mem_cons_of_mem _ hw, hschedule⟩

namespace Session

/-- A session ends with the last of its entries, or at once where there is none. -/
structure EndsLast (s : Session) : Prop where
  le_finish : ∀ v ∈ s.voices, ∀ e ∈ v.entries, e.finishTime ≤ s.finishTime
  zero_le : 0.0 ≤ s.finishTime
  attained : s.finishTime = 0.0 ∨ ∃ v ∈ s.voices, ∃ e ∈ v.entries, s.finishTime = e.finishTime

theorem endsLast_of_build {voices : List Voice} {s : Session} (h : build voices = .ok s)
    (hs : ∀ v ∈ s.voices, ∀ e ∈ v.entries, ¬ e.finishTime.isNaN) : s.EndsLast := by
  rw [build] at h
  cases hall : schedules 0 voices with
  | error f =>
    rw [hall] at h
    cases h
  | ok all =>
    rw [hall] at h
    cases h
    have hvoice : ∀ v ∈ all, v.finishTime ∈ 0.0 :: v.entries.toList.map Entry.finishTime ∧
        ∀ u ∈ 0.0 :: v.entries.toList.map Entry.finishTime, u ≤ v.finishTime := by
      intro v hv
      obtain ⟨w, -, hw⟩ := schedule_of_mem_schedules hall v hv
      rw [finishTime_of_schedule hw]
      refine foldl_larger_spec isNumber_zero fun u hu ↦ ?_
      obtain ⟨e, he, rfl⟩ := List.mem_map.mp hu
      have hnan := hs v hv e (Array.mem_toList_iff.mp he)
      rwa [isNaN_iff, not_not] at hnan
    have hnumber : ∀ u ∈ all.map VoiceSchedule.finishTime, IsNumber u := by
      intro u hu
      obtain ⟨v, hv, rfl⟩ := List.mem_map.mp hu
      exact (isNumber_of_le ((hvoice v hv).2 0.0 List.mem_cons_self)).2
    obtain ⟨hmem, hle⟩ := foldl_larger_spec isNumber_zero hnumber
    refine ⟨fun v hv e he ↦ ?_, hle _ List.mem_cons_self, ?_⟩
    · have hentry := (hvoice v hv).2 e.finishTime
        (List.mem_cons_of_mem _ (List.mem_map_of_mem (Array.mem_toList_iff.mpr he)))
      exact le_trans hentry (hle _ (List.mem_cons_of_mem _ (List.mem_map_of_mem hv)))
    · rcases List.mem_cons.mp hmem with heq | hmem
      · exact .inl heq
      · obtain ⟨v, hv, heq⟩ := List.mem_map.mp hmem
        rcases List.mem_cons.mp (hvoice v hv).1 with hzero | hentry
        · exact .inl (heq.symm.trans hzero)
        · obtain ⟨e, he, hfinish⟩ := List.mem_map.mp hentry
          exact .inr ⟨v, hv, e, Array.mem_toList_iff.mp he, heq.symm.trans hfinish.symm⟩

end Session

end Finish

end Polyphony
