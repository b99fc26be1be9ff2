import Polyphony.FinishMonitor
import Polyphony.Proofs.Renderer.Continuity
import Polyphony.Proofs.Renderer.Sounding
import Polyphony.Proofs.Schedule.Latest

namespace Polyphony.Renderer

open Floating

variable {rate x : Float} {r r₀ r₁ : Renderer} {m : FinishMonitor}

theorem not_lt_clockAt_of_infinite (h : code rate = Magnitude.infinity (format Float))
    (hx : 0.0 ≤ x) (k : ℕ) : ¬ x < clockAt rate k := by
  intro hlt
  have hpos := lt_of_le_of_lt hx hlt
  have hnumber := (isNumber_of_le (le_of_lt hpos)).2
  rcases (Number.nearest_float_ofNat k).1.le_infinity.lt_or_eq with hk | hk
  · have hzero : code (clockAt rate k) = 0 := code_div_infinity hk h
    rw [lt_iff_rat isNumber_zero hnumber, rat_zero, rat_of_code_eq_zero hzero] at hpos
    exact hpos.false
  · exact not_isNumber_infinity_div (x := Float.ofNat k) hk h hnumber

theorem past_mono (hrate : 0.0 < rate) (hx : 0.0 ≤ x) {j k : ℕ} (hjk : j ≤ k)
    (h : x < clockAt rate j) : x < clockAt rate k := by
  have hnumber := (isNumber_of_le (le_of_lt hrate)).2
  rcases Nat.lt_or_eq_of_le hnumber with hlt | heq
  · have hpos : Number.Positive rate := ⟨isFinite_iff.mpr hlt, hrate⟩
    have hnan : ¬ x.isNaN := by
      rw [isNaN_iff, not_not]
      exact (isNumber_of_le hx).2
    rw [Number.lt_iff hnan (clockAt_isNaN hpos _)] at h ⊢
    exact h.trans_le (level_clockAt_mono hpos hjk)
  · exact absurd h (not_lt_clockAt_of_infinite heq hx j)

structure Onward (r₀ r : Renderer) : Prop where
  events : r.events = r₀.events
  sampleRate : r.sampleRate = r₀.sampleRate
  frames : r₀.frames ≤ r.frames

theorem Onward.refl (r : Renderer) : Onward r r := ⟨rfl, rfl, Nat.le_refl _⟩

theorem Onward.trans (h : Onward r₀ r₁) (h' : Onward r₁ r) : Onward r₀ r :=
  ⟨h'.events.trans h.events, h'.sampleRate.trans h.sampleRate, h.frames.trans h'.frames⟩

theorem Onward.past (h : Onward r₀ r) (hrate : 0.0 < r₀.sampleRate) (hx : 0.0 ≤ x)
    (hpast : x < r₀.time) : x < r.time := by
  rw [time, h.sampleRate]
  exact past_mono hrate hx h.frames hpast

theorem onward_handle (r : Renderer) (c : Command) : Onward r (r.handle c) := by
  rw [handle_eq]
  exact ⟨rfl, rfl, Nat.le_refl _⟩

theorem onward_handleAll (r : Renderer) (cs : List Command) : Onward r (r.handleAll cs) := by
  induction cs generalizing r with
  | nil => exact .refl r
  | cons c cs ih => exact (onward_handle r c).trans (ih _)

def DoneBy (r : Renderer) (x : Float) : Prop := ∀ e ∈ r.events, e.entry.finishTime ≤ x

theorem doneBy_ofSession {s : Session} (h : s.EndsLast) :
    (ofSession s rate).DoneBy s.finishTime := by
  intro e he
  rw [← Array.mem_toList_iff, toList_events_ofSession] at he
  obtain ⟨y, hy, rfl⟩ := List.mem_map.mp he
  obtain ⟨v, hv, hentry⟩ := Session.mem_inOrder.mp hy
  exact h.le_finish v (List.mem_of_getElem? hv) _ (Array.mem_of_getElem? hentry)

theorem fires_iff {t : Float} : m.fires t ↔ m.finished = false ∧ m.finishTime < t := by
  simp [FinishMonitor.fires]

theorem finished_poll {t : Float} :
    (m.poll t).finished ↔ m.finished ∨ m.finishTime < t := by
  rw [FinishMonitor.poll, Bool.or_eq_true, fires_iff]
  cases m.finished <;> simp

section Playing

variable [Elementary]

theorem onward_iterate (r : Renderer) (k : ℕ) : Onward r (advance^[k] r) := by
  obtain ⟨_, _, h⟩ := iterate_eq r k
  rw [h]
  exact ⟨rfl, rfl, Nat.le_add_right _ _⟩

theorem onward_block (r : Renderer) (n : ℕ) : Onward r (r.block n).2 := by
  by_cases h : r.transport = .running
  · rw [block_running h]
    exact onward_iterate r n
  · rw [block_silent h]
    exact .refl r

theorem onward_apply (o : Operation) (r : Renderer) : Onward r (o.apply r) := by
  cases o with
  | render n => exact onward_block r n
  | suspend => exact onward_handle r _
  | resume => exact onward_handle r _
  | stop => exact onward_handle r _
  | handle c => exact onward_handle r c
  | process q => exact onward_handleAll r _

theorem active_advance_of_past (hdone : r.DoneBy x) (hpast : x < r.time) :
    r.advance.active = [] := by
  have hnone : ∀ o : Oscillator, alive r.events r.time o = false := by
    intro o
    rw [alive]
    cases he : r.events[o.event]? with
    | none => rfl
    | some e =>
      have hlt := lt_of_le_of_lt (hdone e (Array.mem_of_getElem? he)) hpast
      simp [hlt]
  rw [advance, frame_eq]
  simp [hnone]

theorem active_block_of_past (hdone : r.DoneBy x) (hrate : 0.0 < r.sampleRate) (hx : 0.0 ≤ x)
    (hpast : x < r.time) (hr : r.transport = .running) (k : ℕ) :
    (r.block (k + 1)).2.active = [] := by
  have hon := onward_iterate r k
  rw [block_running hr, Function.iterate_succ_apply']
  refine active_advance_of_past (x := x) ?_ (hon.past hrate hx hpast)
  intro e he
  rw [hon.events] at he
  exact hdone e he

/-- What a watcher finds after an operation: the renderer, whether the finish is reported now, and
whether it has been reported. -/
structure Poll where
  renderer : Renderer
  reported : Bool
  finished : Bool

def polls (r : Renderer) (m : FinishMonitor) : List Operation → List Poll
  | [] => []
  | o :: os =>
    let r := o.apply r
    ⟨r, m.fires r.time, (m.poll r.time).finished⟩ :: polls r (m.poll r.time) os

theorem countP_reported_le (r : Renderer) (m : FinishMonitor) (os : List Operation) :
    (polls r m os).countP Poll.reported ≤ if m.finished then 0 else 1 := by
  induction os generalizing r m with
  | nil => exact Nat.zero_le _
  | cons o os ih =>
    specialize ih (o.apply r) (m.poll (o.apply r).time)
    rw [polls, List.countP_cons]
    cases hf : m.finished with
    | true =>
      rw [if_pos (finished_poll.mpr (.inl hf))] at ih
      simpa [FinishMonitor.fires, hf] using ih
    | false =>
      by_cases hlt : m.finishTime < (o.apply r).time
      · rw [if_pos (finished_poll.mpr (.inr hlt))] at ih
        simpa [FinishMonitor.fires, hf, hlt] using ih
      · simp only [FinishMonitor.poll, FinishMonitor.fires, hf, hlt] at ih ⊢
        simpa using ih

theorem polls_split {os : List Operation} {before after : List Poll} {p : Poll}
    (h : polls r m os = before ++ p :: after) :
    (p.reported ↔ m.finished = false ∧ m.finishTime < p.renderer.time ∧
      ∀ q ∈ before, ¬ m.finishTime < q.renderer.time) ∧
    (p.finished ↔ m.finished ∨ ∃ q ∈ before ++ [p], m.finishTime < q.renderer.time) := by
  induction os generalizing r m before with
  | nil => simp [polls] at h
  | cons o os ih =>
    rw [polls] at h
    cases before with
    | nil =>
      obtain ⟨rfl, -⟩ := List.cons.inj h
      simp [fires_iff, finished_poll]
    | cons q before =>
      obtain ⟨rfl, htail⟩ := List.cons.inj h
      obtain ⟨hrep, hfin⟩ := ih htail
      rw [hrep, hfin, ← Bool.not_eq_true, finished_poll]
      have htime : (m.poll (o.apply r).time).finishTime = m.finishTime := rfl
      rw [htime]
      constructor
      · simp only [List.forall_mem_cons, not_or, Bool.not_eq_true]
        rw [and_assoc, and_left_comm (a := ¬ _)]
      · simp only [List.cons_append, List.exists_mem_cons_iff, or_assoc]

theorem polls_onward (os : List Operation) : ∀ p ∈ polls r m os, Onward r p.renderer := by
  induction os generalizing r m with
  | nil => simp [polls]
  | cons o os ih =>
    intro p hp
    have ho := onward_apply o r
    rcases List.mem_cons.mp hp with rfl | hp
    · exact ho
    · exact ho.trans (ih p hp)

theorem past_of_finished (hrate : 0.0 < r.sampleRate) (hx : 0.0 ≤ m.finishTime)
    (hm : m.finished → m.finishTime < r.time) (os : List Operation) :
    ∀ p ∈ polls r m os, p.finished → m.finishTime < p.renderer.time := by
  induction os generalizing r m with
  | nil => simp [polls]
  | cons o os ih =>
    intro p hp hfin
    have ho := onward_apply o r
    have hnow : (m.poll (o.apply r).time).finished → m.finishTime < (o.apply r).time := by
      rw [finished_poll]
      rintro (hf | hlt)
      · exact ho.past hrate hx (hm hf)
      · exact hlt
    rcases List.mem_cons.mp hp with rfl | hp
    · exact hnow hfin
    · rw [← ho.sampleRate] at hrate
      exact ih (m := m.poll (o.apply r).time) hrate hx hnow p hp hfin

/-- The finish of a session is reported once, when it is past, and nothing sounds from then on. -/
structure Watched (s : Session) (ps : List Poll) : Prop where
  once : ps.countP Poll.reported ≤ 1
  reported_iff : ∀ before p after, ps = before ++ p :: after →
    (p.reported ↔ s.finishTime < p.renderer.time ∧
      ∀ q ∈ before, ¬ s.finishTime < q.renderer.time)
  finished_iff : ∀ before p after, ps = before ++ p :: after →
    (p.finished ↔ ∃ q ∈ before ++ [p], q.reported)
  silent : ∀ p ∈ ps, p.finished → ∀ k,
    (∀ v ∈ s.voices, ∀ e ∈ v.entries, ¬ e.isSounding (p.renderer.block k).2.time) ∧
      (p.renderer.transport = .running → (p.renderer.block (k + 1)).2.active = [])

theorem exists_reported_iff {os : List Operation} {ps after : List Poll}
    (hm : m.finished = false) (h : polls r m os = ps ++ after) :
    (∃ q ∈ ps, q.reported) ↔ ∃ q ∈ ps, m.finishTime < q.renderer.time := by
  -- from the end, so that the polls in front stay polls of the same monitor
  induction ps using List.reverseRecOn generalizing after with
  | nil => simp
  | append_singleton ps p ih =>
    rw [List.append_assoc] at h
    have hp := (polls_split h).1
    simp only [hm, true_and] at hp
    specialize ih h
    simp only [List.mem_append, List.mem_singleton, or_and_right, exists_or, exists_eq_left] at *
    rw [hp, ih]
    constructor
    · rintro (hq | ⟨hlt, -⟩)
      · exact .inl hq
      · exact .inr hlt
    · rintro (hq | hlt)
      · exact .inl hq
      · by_cases hnone : ∃ q ∈ ps, m.finishTime < q.renderer.time
        · exact .inl hnone
        · refine .inr ⟨hlt, fun q hq hq' ↦ hnone ⟨q, hq, hq'⟩⟩

theorem watched_polls {s : Session} (h : s.EndsLast) (hrate : 0.0 < rate) (os : List Operation) :
    Watched s (polls (ofSession s rate) ⟨s.finishTime, false⟩ os) := by
  refine ⟨countP_reported_le _ _ _, ?_, ?_, ?_⟩
  · intro before p after hsplit
    have hp := (polls_split hsplit).1
    simpa only [true_and] using hp
  · intro before p after hsplit
    have hp := (polls_split hsplit).2
    rw [exists_reported_iff rfl (by simpa using hsplit), hp]
    simp
  · intro p hp hfin k
    have hon := polls_onward os p hp
    have hpast := past_of_finished (r := ofSession s rate) (m := ⟨s.finishTime, false⟩) hrate
      h.zero_le (by simp) os p hp hfin
    have hprate : 0.0 < p.renderer.sampleRate := by
      rw [hon.sampleRate]
      exact hrate
    refine ⟨fun v hv e he hsound ↦ ?_, fun hr ↦ ?_⟩
    · have hlt := (onward_block p.renderer k).past hprate h.zero_le hpast
      rw [isSounding_iff] at hsound
      exact not_le_of_lt (lt_of_le_of_lt (h.le_finish v hv e he) hlt) hsound.2
    · refine active_block_of_past ?_ hprate h.zero_le hpast hr k
      intro e he
      rw [hon.events] at he
      exact doneBy_ofSession h e he

/-- However a session is rendered, its finish is reported once, and then nothing is cut off. -/
theorem finish_reported_once {voices : List Voice} {s : Session}
    (hbuild : Session.build voices = .ok s)
    (hs : ∀ v ∈ s.voices, ∀ e ∈ v.entries, ¬ e.finishTime.isNaN) (hrate : 0.0 < rate)
    (os : List Operation) :
    s.EndsLast ∧ Watched s (polls (ofSession s rate) ⟨s.finishTime, false⟩ os) := by
  have hlast := Session.endsLast_of_build hbuild hs
  exact ⟨hlast, watched_polls hlast hrate os⟩

end Playing

def call : Voice := { melody := "C4/4 G4/2", bpm := 120.0 }

def callNotes : List WrittenNote :=
  [⟨"C4/4", some ⟨.c, 4⟩, ⟨1, 4⟩⟩, ⟨"G4/2", some ⟨.g, 4⟩, ⟨1, 2⟩⟩]

def callEntries : List Entry := entriesOf callNotes (60.0 / 120.0) .standard .sine

def callSession : Session := ⟨[⟨callEntries.toArray, latest callEntries⟩],
  Session.latestFinish [⟨callEntries.toArray, latest callEntries⟩]⟩

theorem build_call : Session.build [call] = .ok callSession := by
  have hparse : WrittenNote.parseAll "C4/4 G4/2" = .ok callNotes := by cbv
  have hbpm : Number.Positive 120.0 := ⟨by decide, by decide⟩
  have hstart : Builder.start call.bpm call.adsr call.waveform =
      .ok ⟨60.0 / 120.0, .standard, .sine, .start, 0, #[], 0.0⟩ :=
    if_pos (by simp [call, hbpm.finite, hbpm.pos])
  rw [Session.build, Session.schedules, schedule_of_parseAll (v := call) hparse hstart]
  rfl

theorem isNumber_callEntries : ∀ e ∈ callEntries, ¬ e.finishTime.isNaN := by
  have hnone : exactSum [] = some .zero := rfl
  have hone : exactSum [⟨1, 4⟩] = some ⟨1, 4⟩ := by cbv
  simp [callEntries, entriesOf, callNotes, Playable.frequency, Playable.value, entryAfter, reach,
    hnone, hone, Entry.finishTime, Envelope.finishTime, Envelope.forNote, List.zipIdx]
  exact ⟨by decide, by decide⟩

theorem finish_of_call : Session.build [call] = .ok callSession ∧
    (∀ v ∈ callSession.voices, ∀ e ∈ v.entries, ¬ e.finishTime.isNaN) ∧ (0.0 : Float) < 8000.0 ∧
    callSession.EndsLast ∧ Watched callSession
      (polls (ofSession callSession 8000.0) ⟨callSession.finishTime, false⟩
        [.render 6000, .suspend, .render 512, .resume, .render 9000]) := by
  have hentries : ∀ v ∈ callSession.voices, ∀ e ∈ v.entries, ¬ e.finishTime.isNaN := by
    intro v hv e he
    obtain rfl := List.mem_singleton.mp hv
    exact isNumber_callEntries e (Array.mem_toList_iff.mpr he)
  have hrate : (0.0 : Float) < 8000.0 := by decide
  exact ⟨build_call, hentries, hrate, finish_reported_once build_call hentries hrate _⟩

end Polyphony.Renderer
