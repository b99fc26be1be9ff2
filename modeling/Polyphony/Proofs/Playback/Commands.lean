import Mathlib.Data.List.DropRight
import Polyphony.Proofs.Playback.History

namespace Polyphony

namespace Queue

variable {α : Type} {q next : Queue α} {a : α}

theorem eq_of_push? (h : q.push? a = some next) :
    next.items = q.items ++ [a] ∧ next.capacity = q.capacity := by
  rw [push?] at h
  split at h
  · cases h
    exact ⟨rfl, rfl⟩
  · cases h

theorem length_lt_of_push? (h : (q.push? a).isSome) : q.items.length < q.capacity := by
  by_contra hlt
  simp [push?, hlt] at h

theorem length_eq_of_push? (h : (q.push? a).isNone) : q.items.length = q.capacity := by
  by_contra hne
  have hlt : q.items.length < q.capacity := Nat.lt_of_le_of_ne q.fits hne
  simp [push?, hlt] at h

end Queue

open Playback (controlCapacity)

namespace Step

variable {s : Step}

theorem moment_of_command? {c : Command} (h : s.command? = some c) :
    ∃ k, s.moment = .input (.key k .press) ∧ s.before.console.command? k = some c := by
  rw [command?] at h
  split at h
  · next k hm => exact ⟨k, hm, h⟩
  · cases h

theorem accepted?_or_dropped? {c : Command} (h : s.command? = some c) :
    s.accepted? = some c ∨ s.dropped? = some c := by
  rw [accepted?, dropped?, h, Option.filter_some, Option.filter_some]
  cases s.before.playback.control.push? c with
  | none => exact .inr rfl
  | some _ => exact .inl rfl

theorem moment_of_isCallback (h : s.isCallback) :
    ∃ buffer, s.moment = .device (.callback buffer) := by
  rw [isCallback] at h
  split at h
  · next buffer hm => exact ⟨buffer, hm⟩
  · cases h

theorem accepted?_of_isCallback (h : s.isCallback) : s.accepted? = none := by
  obtain ⟨_, hm⟩ := moment_of_isCallback h
  rw [accepted?, command?, hm]
  rfl

end Step

/-- The commands that the queue has accepted since the last callback. -/
def pending (steps : List Step) : List Command :=
  (steps.rtakeWhile fun s ↦ !s.isCallback).filterMap Step.accepted?

def heard (steps : List Step) : List Command :=
  (steps.rdropWhile fun s ↦ !s.isCallback).filterMap Step.accepted?

section History

variable {steps : List Step} {s : Step}

theorem heard_append_pending (steps : List Step) :
    heard steps ++ pending steps = steps.filterMap Step.accepted? := by
  rw [heard, pending, ← List.filterMap_append, List.rdropWhile_append_rtakeWhile]

theorem pending_callback (h : s.isCallback) : pending (steps ++ [s]) = [] := by
  simp [pending, h]

theorem pending_other (h : ¬ s.isCallback) :
    pending (steps ++ [s]) = pending steps ++ s.accepted?.toList := by
  cases hs : s.accepted? <;> simp [pending, h, hs]

theorem heard_callback (h : s.isCallback) :
    heard (steps ++ [s]) = steps.filterMap Step.accepted? := by
  simp [heard, h, Step.accepted?_of_isCallback h]

theorem heard_other (h : ¬ s.isCallback) : heard (steps ++ [s]) = heard steps := by
  simp [heard, h]

end History

section Run

variable [Elementary] {p q : Player} {past steps : List Step} {s : Step} {m : Moment}

/-- Only a callback takes commands out of the queue, and only it moves the renderer. -/
theorem Player.queue_meet (h : p.meet m = .ok q) (hs : ¬ (Step.mk p m q).isCallback) :
    q.playback.control.capacity = p.playback.control.capacity ∧
      q.playback.control.items =
        p.playback.control.items ++ (Step.mk p m q).accepted?.toList ∧
      q.playback.renderer = p.playback.renderer := by
  match m with
  | .device (.callback _) => exact absurd rfl hs
  | .device (.failure _) | .turn | .input .other | .input (.key _ .hold)
  | .input (.key _ .release) =>
    cases h
    exact ⟨rfl, (List.append_nil _).symm, rfl⟩
  | .input (.key k .press) =>
    have hpressed : Player.Pressed p k q := Except.ok.inj h ▸ p.pressed k
    have haccepted : (Step.mk p (.input (.key k .press)) q).accepted? =
        (p.console.command? k).filter fun c ↦ (p.playback.control.push? c).isSome := rfl
    rw [haccepted]
    cases hpressed with
    | idle hk =>
      rw [hk]
      exact ⟨rfl, (List.append_nil _).symm, rfl⟩
    | accepted hk hc =>
      obtain ⟨hitems, hcapacity⟩ := Queue.eq_of_push? hc
      rw [hk, Option.filter_some, hc]
      exact ⟨hcapacity, hitems, rfl⟩
    | dropped hk hc =>
      rw [hk, Option.filter_some, hc]
      exact ⟨rfl, (List.append_nil _).symm, rfl⟩

theorem Player.pressed_of_command? {c : Command} (h : p.meet m = .ok q)
    (hc : (Step.mk p m q).command? = some c) :
    ∃ k, p.console.command? k = some c ∧ Player.Pressed p k q := by
  obtain ⟨k, rfl, hk⟩ := Step.moment_of_command? hc
  exact ⟨k, hk, Except.ok.inj h ▸ p.pressed k⟩

theorem Player.journal_of_accepted? {c : Command} (h : p.meet m = .ok q)
    (hc : (Step.mk p m q).accepted? = some c) :
    p.playback.control.items.length < p.playback.control.capacity ∧ q.journal = p.journal := by
  obtain ⟨hcommand, hpush⟩ := Option.filter_eq_some_iff.mp hc
  refine ⟨Queue.length_lt_of_push? hpush, ?_⟩
  obtain ⟨k, hk, hpressed⟩ := Player.pressed_of_command? h hcommand
  cases hpressed with
  | idle | accepted => rfl
  | dropped hk' hc' =>
    obtain rfl := Option.some.inj (hk.symm.trans hk')
    simp [hc'] at hpush

theorem Player.eq_of_dropped? {c : Command} (h : p.meet m = .ok q)
    (hc : (Step.mk p m q).dropped? = some c) :
    p.playback.control.items.length = p.playback.control.capacity ∧
      q.playback.control = p.playback.control ∧
        q.journal = p.journal.note (Step.dropRecord c) := by
  obtain ⟨hcommand, hpush⟩ := Option.filter_eq_some_iff.mp hc
  refine ⟨Queue.length_eq_of_push? hpush, ?_⟩
  obtain ⟨k, hk, hpressed⟩ := Player.pressed_of_command? h hcommand
  cases hpressed with
  | idle hk' => simp [hk] at hk'
  | accepted hk' hc' =>
    obtain rfl := Option.some.inj (hk.symm.trans hk')
    simp [hc'] at hpush
  | dropped hk' hc' =>
    obtain rfl := Option.some.inj (hk.symm.trans hk')
    exact ⟨rfl, rfl⟩

structure Queued (steps : List Step) (q : Player) : Prop where
  capacity : q.playback.control.capacity = controlCapacity
  waiting : q.playback.control.items = pending steps
  obeyed : steps.flatMap Step.obeyed = heard steps
  transport : q.playback.renderer.transport = (heard steps).foldl .apply .running

theorem Queued.callback (h : Queued steps p) (hm : p.meet m = .ok q)
    (hs : (Step.mk p m q).isCallback) : Queued (steps ++ [⟨p, m, q⟩]) q := by
  obtain ⟨buffer, rfl⟩ := Step.moment_of_isCallback hs
  obtain ⟨-, rfl⟩ := Player.meet_callback hm
  refine ⟨h.capacity, (pending_callback hs).symm, ?_, ?_⟩
  · rw [List.flatMap_append, List.flatMap_singleton, h.obeyed, heard_callback hs,
      ← heard_append_pending, ← h.waiting]
    rfl
  · rw [heard_callback hs, ← heard_append_pending, List.foldl_append, ← h.transport, ← h.waiting]
    exact (Renderer.transport_block _ _).trans (Renderer.transport_handleAll _ _)

theorem Queued.meet (h : Queued steps p) (hm : p.meet m = .ok q) :
    Queued (steps ++ [⟨p, m, q⟩]) q := by
  by_cases hs : (Step.mk p m q).isCallback
  · exact h.callback hm hs
  · obtain ⟨hcapacity, hitems, hrenderer⟩ := Player.queue_meet hm hs
    refine ⟨hcapacity.trans h.capacity, ?_, ?_, ?_⟩
    · rw [hitems, h.waiting, pending_other hs]
    · rw [List.flatMap_append, List.flatMap_singleton, h.obeyed, heard_other hs, Step.obeyed,
        if_neg hs, List.append_nil]
    · rw [hrenderer, h.transport, heard_other hs]

theorem Player.Reaches.queued {p₀ : Player} (h : p₀.Reaches steps p) (h₀ : Queued [] p₀) :
    Queued steps p := by
  induction h with
  | start => exact h₀
  | step _ hm ih => exact ih.meet hm

/-- What becomes of the commands in a step after others. -/
structure Delivers (past : List Step) (s : Step) : Prop where
  waiting : s.before.playback.control.items = pending past
  decided : ∀ c, s.command? = some c → s.accepted? = some c ∨ s.dropped? = some c
  accepted : ∀ c, s.accepted? = some c → (pending past).length < 16 ∧
    s.next.playback.control.items = pending past ++ [c] ∧ s.next.journal = s.before.journal
  dropped : ∀ c, s.dropped? = some c → (pending past).length = 16 ∧
    s.next.playback.control = s.before.playback.control ∧
      s.next.journal = s.before.journal.note ⟨.warn, "control queue full, dropped " ++ c.label⟩
  obeyed : ∀ buffer, s.moment = .device (.callback buffer) →
    s.next.playback.renderer =
        ((s.before.playback.renderer.handleAll (pending past)).block
          (buffer.size / s.before.channels)).2 ∧
      s.next.playback.control.items = []
  transport : s.isCallback →
    s.next.playback.renderer.transport =
        (past.filterMap Step.accepted?).foldl Transport.apply .running ∧
      s.next.playback.renderer.transport =
        if .stop ∈ past.filterMap Step.accepted? then .closed
        else if (past.filterMap Step.accepted?).getLast? = some .suspend then .suspended
        else .running

theorem Queued.delivers (h : Queued past p) (hm : p.meet m = .ok q) :
    Delivers past ⟨p, m, q⟩ := by
  have hnext := h.meet hm
  refine ⟨h.waiting, fun c ↦ Step.accepted?_or_dropped?, ?_, ?_, ?_, ?_⟩
  · intro c hc
    obtain ⟨hlt, hjournal⟩ := Player.journal_of_accepted? hm hc
    rw [h.waiting, h.capacity] at hlt
    have hs : ¬ (Step.mk p m q).isCallback := by
      intro hs
      simp [Step.accepted?_of_isCallback hs] at hc
    refine ⟨hlt, ?_, hjournal⟩
    rw [hnext.waiting, pending_other hs, hc]
    rfl
  · intro c hc
    obtain ⟨hlength, hsame⟩ := Player.eq_of_dropped? hm hc
    rw [h.waiting, h.capacity] at hlength
    exact ⟨hlength, hsame⟩
  · rintro buffer rfl
    obtain ⟨-, rfl⟩ := Player.meet_callback hm
    rw [← h.waiting]
    exact ⟨rfl, rfl⟩
  · intro hs
    rw [← Transport.foldl_apply, and_self, hnext.transport, heard_callback hs]

/-- Every command that the queue accepts is obeyed by the next callback, after those accepted before
it, and the transport stands where they lead. -/
theorem commands_reach_callback (s : Session) (settings : List VoiceSettings) (rate : UInt32)
    (channels : ℕ) (j : Journal) (d : Display) (ms : List Moment) :
    let p := Player.start s settings rate channels j d
    (channels ≠ 0 → ∃ q, p.meetAll ms = .ok q) ∧
      ∀ q, p.meetAll ms = .ok q → ∃ steps, p.Reaches steps q ∧ steps.map Step.moment = ms ∧
        (∀ past s after, steps = past ++ s :: after → Delivers past s) ∧
        steps.filterMap Step.accepted? =
          steps.flatMap Step.obeyed ++ q.playback.control.items := by
  intro p
  refine ⟨fun hc ↦ Player.exists_meetAll hc ms, fun q hq ↦ ?_⟩
  have hstart : Queued [] p := ⟨rfl, rfl, rfl, rfl⟩
  obtain ⟨steps, hsteps, hmoments⟩ := Player.exists_reaches hq
  have hqueued := hsteps.queued hstart
  refine ⟨steps, hsteps, hmoments, ?_, ?_⟩
  · intro past s after hsplit
    obtain ⟨hpast, hm⟩ := hsteps.split hsplit
    exact (hpast.queued hstart).delivers hm
  · rw [hqueued.obeyed, hqueued.waiting, heard_append_pending]

end Run

end Polyphony
