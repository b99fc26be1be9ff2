import Mathlib.Data.List.Basic
import Mathlib.Data.List.Induction
import Polyphony.Proofs.Renderer.Progress

namespace Polyphony

namespace Event

theorem ofSession_append (voices : List VoiceSchedule) (schedule : VoiceSchedule) (t : Float) :
    ofSession ⟨voices ++ [schedule], t⟩ =
      ofSession ⟨voices, t⟩ ++ schedule.entries.toList.map (Event.mk voices.length) := by
  simp only [ofSession, List.zipIdx_append, List.flatMap_append, Nat.zero_add,
    List.zipIdx_singleton, List.flatMap_singleton]

theorem voice_lt_of_mem {s : Session} {e : Event} (h : e ∈ ofSession s) :
    e.voice < s.voices.length := by
  simp only [ofSession, List.mem_flatMap, List.mem_map] at h
  obtain ⟨x, hx, _, -, rfl⟩ := h
  have hlt := List.snd_lt_of_mem_zipIdx hx
  simpa using hlt

theorem entries_of_voice (s : Session) (v : ℕ) :
    ((ofSession s).filter (·.voice = v)).map Event.entry =
      s.voices[v]?.elim [] fun schedule ↦ schedule.entries.toList := by
  obtain ⟨voices, t⟩ := s
  -- from the last voice, whose number is that of the voices in front of it
  induction voices using List.reverseRecOn with
  | nil => rfl
  | append_singleton voices schedule ih =>
    have hlast : ((schedule.entries.toList.map (Event.mk voices.length)).filter
        (·.voice = v)).map Event.entry =
          if voices.length = v then schedule.entries.toList else [] := by
      split_ifs with h <;> simp [List.filter_map, Function.comp_def, h]
    rw [ofSession_append, List.filter_append, List.map_append, ih, hlast]
    simp only
    rcases Nat.lt_trichotomy v voices.length with h | rfl | h
    · rw [if_neg (Nat.ne_of_gt h), List.getElem?_append_left h, List.append_nil]
    · simp
    · rw [if_neg (Nat.ne_of_lt h), List.getElem?_eq_none (Nat.le_of_lt h),
        List.getElem?_eq_none (by rw [List.length_append]; exact h)]
      rfl

theorem sort_perm (events : List Event) : (sort events).Perm events := List.mergeSort_perm _ _

end Event

namespace Renderer

def isVoiceActive? (r : Renderer) (voice : ℕ) : Option Bool :=
  r.active.anyM fun o ↦ r.events[o.event]?.map fun e ↦ e.voice == voice

theorem isVoiceActive?_eq {r : Renderer} (h : Orderly r) (voice : ℕ) :
    r.isVoiceActive? voice = some (r.isVoiceActive voice) := by
  have hin : ∀ o ∈ r.active, o.event < r.events.size := fun _ ↦ h.lt_size
  rw [isVoiceActive?, isVoiceActive]
  generalize r.active = os at hin ⊢
  induction os with
  | nil => rfl
  | cons o os ih =>
    obtain ⟨ho, hos⟩ := List.forall_mem_cons.mp hin
    rw [List.anyM_cons, List.any_cons, voiceOf?, Array.getElem?_eq_getElem ho, ih hos]
    by_cases hv : r.events[o.event].voice = voice <;> simp [hv]

/-- A renderer that notes which events it starts, and that breaks off where an event is not
there. -/
structure Tally where
  renderer : Renderer
  starts : List ℕ

namespace Tally

def ofRenderer (r : Renderer) : Tally := ⟨r, List.range r.cursor⟩

def startNext (g : Tally) : Tally := ⟨g.renderer.startNext, g.starts ++ [g.renderer.cursor]⟩

def startDue (t : Float) (g : Tally) : Tally :=
  if h : g.renderer.cursor < g.renderer.events.size then
    if g.renderer.events[g.renderer.cursor].entry.startTime ≤ t then startDue t g.startNext else g
  else g
termination_by g.renderer.events.size - g.renderer.cursor
decreasing_by
  simp only [startNext, Renderer.startNext]
  omega

variable {r : Renderer}

theorem startNext_ofRenderer (r : Renderer) :
    (ofRenderer r).startNext = ofRenderer r.startNext := by
  rw [ofRenderer, startNext, ofRenderer, Renderer.startNext, List.range_succ]

theorem startDue_ofRenderer (r : Renderer) (t : Float) :
    (ofRenderer r).startDue t = ofRenderer (r.started t) := by
  generalize hg : ofRenderer r = g
  induction g using startDue.induct (t := t) generalizing r with
  | case1 g h hle ih =>
    subst hg
    have hnext : r.started t = r.startNext.started t :=
      started_of_due (Array.getElem?_eq_getElem h) hle
    rw [startDue, dif_pos h, if_pos hle, ih r.startNext (startNext_ofRenderer r).symm, hnext]
  | case2 g h hle =>
    subst hg
    have hdue : r.due t = [] := due_of_not_due (Array.getElem?_eq_getElem h) hle
    rw [startDue, dif_pos h, if_neg hle, started_of_due_eq_nil hdue]
  | case3 g h =>
    subst hg
    have hdue : r.due t = [] := due_of_size_le (Nat.not_lt.mp h)
    rw [startDue, dif_neg h, started_of_due_eq_nil hdue]

variable [Elementary]

def mix? (events : Array Event) (t step : Float) :
    List Oscillator → Float32 → Option (Float32 × List Oscillator)
  | [], sum => some (sum, [])
  | o :: rest, sum => do
    let e ← events[o.event]?
    if e.entry.finishTime < t then mix? events t step rest sum
    else
      let (total, kept) ← mix? events t step rest (sum + contribution e.entry o.phase t)
      return (total, { o with phase := nextPhase e.entry step o.phase } :: kept)

def frame? (g : Tally) : Option (Float32 × Tally) := do
  let r := g.renderer
  let g := g.startDue r.time
  let (sum, active) ← mix? r.events r.time (1.0 / r.sampleRate) g.renderer.active 0.0
  return (clip (sum * r.gain), ⟨{ g.renderer with active, frames := r.frames + 1 }, g.starts⟩)

def play? : ℕ → Tally → Array Float32 → Option (Array Float32 × Tally)
  | 0, g, out => some (out, g)
  | n + 1, g, out => do
    let (sample, g) ← g.frame?
    play? n g (out.push sample)

def block? (g : Tally) (n : ℕ) : Option (Array Float32 × Tally) :=
  if g.renderer.transport = .running then play? n g #[] else some (Array.replicate n 0.0, g)

def serve? (g : Tally) : Operation → Option Tally
  | .render n => (g.block? n).map Prod.snd
  | o => some ⟨o.apply g.renderer, g.starts⟩

def perform? (g : Tally) (os : List Operation) : Option Tally := os.foldlM serve? g

theorem mix?_eq {events : Array Event} {os : List Oscillator}
    (h : ∀ o ∈ os, o.event < events.size) (t step : Float) (sum : Float32) :
    mix? events t step os sum = some (mix events t step os sum) := by
  induction os generalizing sum with
  | nil => rfl
  | cons o os ih =>
    obtain ⟨ho, hos⟩ := List.forall_mem_cons.mp h
    have he := Array.getElem?_eq_getElem ho
    specialize ih hos
    rw [mix?, mix, he]
    simp only [Option.bind_eq_bind, Option.bind_some]
    split_ifs
    · exact ih sum
    · rw [ih]
      rfl

theorem frame?_ofRenderer (h : Orderly r) :
    (ofRenderer r).frame? = some (r.frame.1, ofRenderer r.advance) := by
  have hstarted := h.moves (moves_started r r.time)
  have hmix : mix? r.events r.time (1.0 / r.sampleRate) (r.started r.time).active 0.0 =
      some (mix r.events r.time (1.0 / r.sampleRate) (r.started r.time).active 0.0) :=
    mix?_eq (fun _ ho ↦ hstarted.lt_size ho) _ _ _
  have hframe : r.frame =
      (clip ((mix r.events r.time (1.0 / r.sampleRate) (r.started r.time).active 0.0).1 * r.gain),
        { r.started r.time with
          active := (mix r.events r.time (1.0 / r.sampleRate) (r.started r.time).active 0.0).2
          frames := r.frames + 1 }) := by
    rw [frame, startDue_eq _ _ _ (Nat.le_refl _)]
    rfl
  rw [frame?, startDue_ofRenderer, advance, hframe]
  change (mix? r.events r.time (1.0 / r.sampleRate) (r.started r.time).active 0.0).bind _ = _
  rw [hmix]
  rfl

theorem play?_ofRenderer (h : Orderly r) (n : ℕ) (out : Array Float32) :
    play? n (ofRenderer r) out = some ((play n r out).1, ofRenderer (play n r out).2) := by
  induction n generalizing r out with
  | zero => rfl
  | succ n ih =>
    rw [play?, frame?_ofRenderer h]
    exact ih (h.moves (moves_advance r)) _

theorem block?_ofRenderer (h : Orderly r) (n : ℕ) :
    (ofRenderer r).block? n = some ((r.block n).1, ofRenderer (r.block n).2) := by
  rw [block?, block]
  change (if r.transport = .running then _ else _) = _
  split_ifs
  · exact play?_ofRenderer h n #[]
  · rfl

theorem serve?_ofRenderer (h : Orderly r) (o : Operation) :
    (ofRenderer r).serve? o = some (ofRenderer (o.apply r)) := by
  have hcommand {r' : Renderer} (hm : Moves 0 r r') :
      some (Tally.mk r' (List.range r.cursor)) = some (ofRenderer r') := by
    rw [ofRenderer, hm.cursor, Nat.add_zero]
  cases o with
  | render n =>
    rw [serve?, block?_ofRenderer h]
    rfl
  | suspend => exact hcommand (moves_handle r _)
  | resume => exact hcommand (moves_handle r _)
  | stop => exact hcommand (moves_handle r _)
  | handle c => exact hcommand (moves_handle r c)
  | process q => exact hcommand (moves_handleAll r _)

theorem perform?_ofRenderer (h : Orderly r) (os : List Operation) :
    (ofRenderer r).perform? os = some (ofRenderer (r.perform os)) := by
  induction os generalizing r with
  | nil => rfl
  | cons o os ih =>
    obtain ⟨_, hm⟩ := exists_moves_apply o r
    rw [perform?, List.foldlM_cons, serve?_ofRenderer h]
    exact ih (h.moves hm)

end Tally

structure Books (s : Session) (r : Renderer) : Prop where
  events : r.events.toList.Perm (Event.ofSession s)
  entries : ∀ v, ((r.events.toList.filter (·.voice = v)).map Event.entry).Perm
    (s.voices[v]?.elim [] fun schedule ↦ schedule.entries.toList)
  voice_lt : ∀ e ∈ r.events, e.voice < r.voiceCount
  cursor_le : r.cursor ≤ r.events.size
  ascending : r.active.Pairwise fun o p ↦ o.event < p.event
  started : ∀ o ∈ r.active, o.event < r.cursor
  silent : r.transport = .closed → r.active = []

theorem books_of_moves {s : Session} {rate : Float} {n : ℕ} {r : Renderer}
    (h : Moves n (ofSession s rate) r) (hsilent : r.transport = .closed → r.active = []) :
    Books s r := by
  have hevents : r.events.toList = Event.sort (Event.ofSession s) := by rw [h.events]; rfl
  have hperm : r.events.toList.Perm (Event.ofSession s) := hevents ▸ Event.sort_perm _
  have horderly := (Orderly.ofSession s rate).moves h
  refine ⟨hperm, fun v ↦ ?_, fun e he ↦ ?_, horderly.cursor_le, horderly.ascending,
    fun _ ↦ horderly.lt_cursor, hsilent⟩
  · rw [← Event.entries_of_voice]
    exact (hperm.filter _).map _
  · rw [h.voiceCount]
    exact Event.voice_lt_of_mem (hperm.mem_iff.mp (Array.mem_toList_iff.mpr he))

variable [Elementary]

theorem Recording.renderer_run (g : Recording) (os : List Operation) :
    (g.run os).renderer = g.renderer.perform os := by
  induction os generalizing g with
  | nil => rfl
  | cons o os ih => exact ih (g.next o)

theorem active_of_closed (s : Session) (rate : Float) (os : List Operation)
    (h : ((ofSession s rate).perform os).transport = .closed) :
    ((ofSession s rate).perform os).active = [] := by
  have hfollows := ((Recording.seamless_start s rate).run rfl os).follows
  rw [Recording.renderer_run] at hfollows
  exact hfollows.of_closed h

/-- Whatever the times in a session, each event is started at most once, in the order of the events,
and never again when it has been dropped; and no event is looked for that is not there. -/
theorem books_kept (s : Session) (rate : Float) (os : List Operation) :
    let r := (ofSession s rate).perform os
    Books s r ∧
      Tally.perform? ⟨ofSession s rate, []⟩ os = some ⟨r, List.range r.cursor⟩ ∧
      (∀ voice, r.isVoiceActive? voice = some (r.isVoiceActive voice)) ∧
      ∀ more, r.cursor ≤ (r.perform more).cursor ∧
        ∀ i ∈ (r.perform more).places, i < r.cursor → i ∈ r.places := by
  intro r
  obtain ⟨n, hmoves⟩ := exists_moves_perform (ofSession s rate) os
  have hstart := Orderly.ofSession s rate
  refine ⟨books_of_moves hmoves (active_of_closed s rate os), ?_, ?_, fun more ↦ ?_⟩
  · exact Tally.perform?_ofRenderer hstart os
  · exact isVoiceActive?_eq (hstart.moves hmoves)
  · obtain ⟨m, hmore⟩ := exists_moves_perform r more
    refine ⟨hmore.cursor ▸ Nat.le_add_right _ _, fun i hi hlt ↦ hmore.mem_places hlt hi⟩

end Renderer

end Polyphony
