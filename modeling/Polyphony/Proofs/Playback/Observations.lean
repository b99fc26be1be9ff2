import Polyphony.Proofs.Number.Interval
import Polyphony.Proofs.Playback.History
import Polyphony.Proofs.Renderer.Finish

namespace Polyphony

theorem Queue.items_offer {α : Type} (q : Queue α) (a : α) :
    (q.offer a).items = q.items ++ [a] ∨ (q.offer a).items = q.items := by
  rw [offer, push?]
  split
  · exact .inl rfl
  · exact .inr rfl

theorem pairwise_snoc {α : Type} {R : α → α → Prop} {l : List α} {b : α} (h : l.Pairwise R)
    (hb : ∀ a ∈ l, R a b) : (l ++ [b]).Pairwise R := by
  refine List.pairwise_append.mpr ⟨h, List.pairwise_singleton R b, ?_⟩
  intro a ha c hc
  obtain rfl := List.mem_singleton.mp hc
  exact hb a ha

theorem rel_getLastD {α : Type} {R : α → α → Prop} {a : α} {xs ys : List α}
    (h : (a :: (xs ++ ys)).Pairwise R) (hrefl : ∀ x ∈ a :: xs, R x x) :
    R (xs.getLastD a) ((xs ++ ys).getLastD a) := by
  have hlast : xs.getLastD a ∈ a :: xs := List.getLastD_mem_cons
  cases ys using List.reverseRecOn with
  | nil =>
    rw [List.append_nil]
    exact hrefl _ hlast
  | append_singleton ys y =>
    rw [← List.append_assoc, List.getLastD_concat]
    rw [← List.cons_append] at h
    exact (List.pairwise_append.mp h).2.2 _ hlast y (by simp)

namespace Change

theorem along_append (before : Reading) (rs more : List Reading) :
    along before (rs ++ more) = along before rs ++ along (rs.getLastD before) more := by
  induction rs generalizing before with
  | nil => rfl
  | cons r rs ih => rw [List.cons_append, along, along, ih, List.getLastD_cons, List.append_assoc]

/-- The first change begins where the reading before it stood, and each later one where the change
before it has ended. -/
theorem linked_along (before : Reading) (rs : List Reading) :
    (∀ c ∈ (along before rs).head?, c.source = before.transport) ∧
      (along before rs).IsChain fun c d ↦ d.source = c.target := by
  induction rs generalizing before with
  | nil => exact ⟨by simp [along], .nil⟩
  | cons r rs ih =>
    obtain ⟨hhead, hchain⟩ := ih r
    rw [along]
    split
    · next hsame => exact ⟨hsame ▸ hhead, hchain⟩
    · exact ⟨by simp, List.isChain_cons.mpr ⟨hhead, hchain⟩⟩

theorem real_along {before : Reading} {rs : List Reading}
    (h : (before :: rs).Pairwise fun a b ↦ a.transport = .closed → b.transport = .closed) :
    ∀ c ∈ along before rs, c.source ≠ c.target ∧ c.source ≠ .closed := by
  induction rs generalizing before with
  | nil => simp [along]
  | cons r rs ih =>
    obtain ⟨hbefore, hrest⟩ := List.pairwise_cons.mp h
    intro c hc
    rw [along, List.mem_append] at hc
    cases hc with
    | inl hc =>
      split at hc
      · cases hc
      · next hne =>
        obtain rfl := List.mem_singleton.mp hc
        refine ⟨Ne.symm hne, fun hclosed ↦ hne ?_⟩
        exact (hbefore r List.mem_cons_self hclosed).trans hclosed.symm
    | inr hc => exact ih hrest c hc

end Change

def Record.tellsChange (r : Record) : Bool :=
  r.level = .info && "playback ".toList.isPrefixOf r.text.toList

theorem Change.tellsChange_record (c : Change) : c.record.tellsChange := by
  have htext : c.record.text = "playback " ++ (c.source.name ++ (" -> " ++ (c.target.name ++
      (" at " ++ (Decimal.fixed 2 c.time ++ "s"))))) := by
    simp only [Change.record, toString, String.append_assoc]
  rw [Record.tellsChange, htext, String.toList_append, Bool.and_eq_true, List.isPrefixOf_iff_prefix]
  exact ⟨rfl, List.prefix_append _ _⟩

theorem Console.not_tellsChange (c : Console) : ∀ r ∈ c.checkRecords, ¬ r.tellsChange := by
  intro r hr
  rw [checkRecords] at hr
  split at hr
  · next hfires =>
    rw [FinishMonitor.pollRecords, if_pos hfires, List.singleton_append, List.mem_cons,
      List.mem_singleton] at hr
    cases hr with
    | inl h => simp [h, Record.tellsChange]
    | inr h => simp [h, Record.tellsChange, String.toList_append]
  · cases hr

theorem Step.filter_records (s : Step) :
    s.records.filter Record.tellsChange = s.changes.map Change.record := by
  obtain ⟨p, m, q⟩ := s
  match m with
  | .device (.callback _) => rfl
  | .device (.failure _) => rfl
  | .input _ =>
    refine List.filter_eq_nil_iff.mpr ?_
    intro r hr
    obtain ⟨c, -, rfl⟩ := List.mem_map.mp hr
    simp [Step.dropRecord, Record.tellsChange]
  | .turn =>
    have hchanges : ∀ r ∈ (Step.mk p .turn q).changes.map Change.record, r.tellsChange := by
      intro r hr
      obtain ⟨c, -, rfl⟩ := List.mem_map.mp hr
      exact c.tellsChange_record
    rw [Step.records, List.filter_append, List.filter_eq_self.mpr hchanges,
      List.filter_eq_nil_iff.mpr (Console.not_tellsChange _), List.append_nil]

namespace Reading

/-- A reading that was taken at or before the time at which a renderer is now. -/
structure Behind (a : Reading) (r : Renderer) : Prop where
  clock : ∃ k ≤ r.frames, a.time = Renderer.clockAt r.sampleRate k
  closed : a.transport = .closed → r.transport = .closed

variable {a : Reading} {r r' : Renderer}

theorem behind_ofRenderer (r : Renderer) : (ofRenderer r).Behind r :=
  ⟨⟨r.frames, Nat.le_refl _, rfl⟩, id⟩

theorem Behind.onward (h : a.Behind r) (hon : Renderer.Onward r r')
    (hclosed : r.transport = .closed → r'.transport = .closed) : a.Behind r' := by
  obtain ⟨k, hk, htime⟩ := h.clock
  refine ⟨⟨k, hk.trans hon.frames, ?_⟩, fun ha ↦ hclosed (h.closed ha)⟩
  rw [htime, hon.sampleRate]

theorem Behind.time_le (h : a.Behind r) (hrate : Number.Positive r.sampleRate) :
    a.time ≤ (ofRenderer r).time := by
  obtain ⟨k, hk, htime⟩ := h.clock
  have hnan := Renderer.clockAt_isNaN hrate
  rw [htime]
  exact (Number.le_iff (hnan k) (hnan r.frames)).mpr (Renderer.level_clockAt_mono hrate hk)

theorem Behind.start_le (h : a.Behind r) (hrate : Number.Positive r.sampleRate) :
    start.time ≤ a.time := by
  obtain ⟨k, -, htime⟩ := h.clock
  rw [htime]
  have hpositive := (Renderer.clockAt_spec hrate k).2
  refine (Number.le_iff (by decide) (Renderer.clockAt_isNaN hrate k)).mpr ?_
  rw [Number.level, Number.level, hpositive]
  exact Int.natCast_nonneg _

end Reading

/-- A player whose callbacks have taken some readings, of which its console has popped some. -/
structure Observed (rate : Float) (taken popped : List Reading) (q : Player) : Prop where
  sampleRate : q.playback.renderer.sampleRate = rate
  waiting : (popped ++ q.playback.readings.items).Sublist taken
  shown : q.console.reading = popped.getLastD .start
  behind : ∀ a ∈ taken, a.Behind q.playback.renderer
  times : Number.Positive rate → taken.Pairwise (·.time ≤ ·.time)
  closed : taken.Pairwise fun a b ↦ a.transport = .closed → b.transport = .closed

namespace Observed

variable {rate : Float} {taken popped : List Reading} {p q : Player}

theorem of_frame (h : Observed rate taken popped p)
    (hrenderer : q.playback.renderer = p.playback.renderer)
    (hreadings : q.playback.readings = p.playback.readings)
    (hreading : q.console.reading = p.console.reading) : Observed rate taken popped q where
  sampleRate := hrenderer ▸ h.sampleRate
  waiting := hreadings ▸ h.waiting
  shown := hreading ▸ h.shown
  behind := hrenderer ▸ h.behind
  times := h.times
  closed := h.closed

theorem refresh (h : Observed rate taken popped p) :
    Observed rate taken (popped ++ p.playback.readings.items) p.refresh := by
  refine ⟨h.sampleRate, ?_, ?_, h.behind, h.times, h.closed⟩
  · exact (List.append_nil _).symm ▸ h.waiting
  · have hreading : p.refresh.console.reading =
        p.playback.readings.items.getLastD p.console.reading := rfl
    rw [hreading, h.shown]
    simp only [List.getLastD_eq_getLast?, List.getLast?_append, Option.getD_or]

theorem popped_sublist (h : Observed rate taken popped q) : popped.Sublist taken :=
  (List.sublist_append_left _ _).trans h.waiting

theorem start_le (h : Observed rate taken popped q) (hrate : Number.Positive rate) :
    ∀ a ∈ popped, Reading.start.time ≤ a.time := by
  intro a ha
  refine (h.behind a (h.popped_sublist.mem ha)).start_le ?_
  rwa [h.sampleRate]

theorem times_popped (h : Observed rate taken popped q) (hrate : Number.Positive rate) :
    (Reading.start :: popped).Pairwise (·.time ≤ ·.time) :=
  List.pairwise_cons.mpr ⟨h.start_le hrate, (h.times hrate).sublist h.popped_sublist⟩

theorem closed_popped (h : Observed rate taken popped q) :
    (Reading.start :: popped).Pairwise fun a b ↦
      a.transport = .closed → b.transport = .closed := by
  refine List.pairwise_cons.mpr ⟨?_, h.closed.sublist h.popped_sublist⟩
  intro a _ hstart
  cases hstart

theorem shown_onward {taken' more : List Reading} (h : Observed rate taken popped p)
    (hq : Observed rate taken' (popped ++ more) q) :
    (Number.Positive rate → p.console.reading.time ≤ q.console.reading.time) ∧
      (p.console.reading.transport = .closed → q.console.reading.transport = .closed) := by
  rw [h.shown, hq.shown]
  refine ⟨fun hrate ↦ ?_, ?_⟩
  · refine rel_getLastD (R := fun a b : Reading ↦ a.time ≤ b.time) (hq.times_popped hrate) ?_
    intro a ha
    cases List.mem_cons.mp ha with
    | inl ha =>
      subst ha
      exact Floating.le_refl Floating.isNumber_zero
    | inr ha => exact Floating.le_refl (Floating.isNumber_of_le (h.start_le hrate a ha)).2
  · refine rel_getLastD (R := fun a b : Reading ↦
      a.transport = .closed → b.transport = .closed) hq.closed_popped ?_
    intro a _
    exact id

variable [Elementary]

theorem called (h : Observed rate taken popped p) (frames : ℕ) :
    Observed rate (taken ++ [.ofRenderer (p.called frames).playback.renderer]) popped
      (p.called frames) := by
  have hrenderer : (p.called frames).playback.renderer = (p.playback.obeyed.block frames).2 := rfl
  have hon : Renderer.Onward p.playback.renderer (p.called frames).playback.renderer :=
    (Renderer.onward_handleAll _ _).trans (Renderer.onward_block _ _)
  have hclosed : p.playback.renderer.transport = .closed →
      (p.called frames).playback.renderer.transport = .closed := by
    intro hr
    rw [hrenderer, Renderer.transport_block, Playback.obeyed, Renderer.transport_handleAll, hr,
      Transport.foldl_apply_closed]
  have hbehind : ∀ a ∈ taken, a.Behind (p.called frames).playback.renderer :=
    fun a ha ↦ (h.behind a ha).onward hon hclosed
  have hrate := hon.sampleRate.trans h.sampleRate
  refine ⟨hrate, ?_, h.shown, ?_, ?_, ?_⟩
  -- A reading that finds no room is lost, and nothing else changes.
  · cases p.playback.readings.items_offer (.ofRenderer (p.playback.obeyed.block frames).2) with
    | inl hroom =>
      have hlast := h.waiting.append_right [.ofRenderer (p.playback.obeyed.block frames).2]
      rw [List.append_assoc, ← hroom] at hlast
      exact hlast
    | inr hfull =>
      have hlost := h.waiting.trans
        (List.sublist_append_left taken [.ofRenderer (p.playback.obeyed.block frames).2])
      rw [← hfull] at hlost
      exact hlost
  · intro a ha
    cases List.mem_append.mp ha with
    | inl ha => exact hbehind a ha
    | inr ha =>
      obtain rfl := List.mem_singleton.mp ha
      exact Reading.behind_ofRenderer _
  · intro hpositive
    refine pairwise_snoc (h.times hpositive) fun a ha ↦ ?_
    exact (hbehind a ha).time_le (hrate ▸ hpositive)
  · exact pairwise_snoc h.closed fun a ha ↦ (hbehind a ha).closed

theorem meet {m : Moment} (h : Observed rate taken popped p) (hm : p.meet m = .ok q) :
    Observed rate (taken ++ (Step.mk p m q).taken?.toList)
      (popped ++ (Step.mk p m q).popped) q := by
  match m with
  | .device (.callback buffer) =>
    obtain ⟨-, rfl⟩ := Player.meet_callback hm
    exact (List.append_nil popped).symm ▸ h.called _
  | .turn =>
    cases hm
    exact (List.append_nil taken).symm ▸ h.refresh
  | .device (.failure _) =>
    cases hm
    exact (List.append_nil taken).symm ▸ (List.append_nil popped).symm ▸ h.of_frame rfl rfl rfl
  | .input i =>
    obtain ⟨_, _, _, hhandle⟩ := p.handle_frame i
    cases hm
    rw [hhandle]
    exact (List.append_nil taken).symm ▸ (List.append_nil popped).symm ▸ h.of_frame rfl rfl rfl

end Observed

namespace Player

variable [Elementary] {p q : Player} {steps : List Step} {rate : Float}

theorem Reaches.observed (h : p.Reaches steps q) (h₀ : Observed rate [] [] p) :
    Observed rate (steps.filterMap Step.taken?) (steps.flatMap Step.popped) q := by
  induction h with
  | start => exact h₀
  | step _ hm ih =>
    rw [List.filterMap_append, List.flatMap_append, List.flatMap_singleton]
    exact ih.meet hm

theorem Reaches.changes (h : p.Reaches steps q) (h₀ : Observed rate [] [] p) :
    steps.flatMap Step.changes = Change.along .start (steps.flatMap Step.popped) := by
  induction h with
  | start => rfl
  | step h hm ih =>
    have hshown := (h.observed h₀).shown
    rw [List.flatMap_append, List.flatMap_append, List.flatMap_singleton, List.flatMap_singleton,
      ih, Change.along_append, ← hshown]
    rfl

end Player

structure Chronicle (rate : UInt32) (j : Journal) (steps : List Step) (q : Player) : Prop where
  popped : (steps.flatMap Step.popped).Sublist (steps.filterMap Step.taken?)
  shown : q.console.reading = (steps.flatMap Step.popped).getLastD .start
  times : rate ≠ 0 → (Reading.start :: steps.flatMap Step.popped).Pairwise (·.time ≤ ·.time)
  closed : (Reading.start :: steps.flatMap Step.popped).Pairwise fun a b ↦
    a.transport = .closed → b.transport = .closed
  onward : ∀ s ∈ steps,
    (rate ≠ 0 → s.before.console.reading.time ≤ s.next.console.reading.time) ∧
      (s.before.console.reading.transport = .closed →
        s.next.console.reading.transport = .closed)
  journal : q.journal = j.noteAll (steps.flatMap Step.records)
  told : (steps.flatMap Step.records).filter Record.tellsChange =
    (steps.flatMap Step.changes).map Change.record
  first : ∀ c ∈ (steps.flatMap Step.changes).head?, c.source = .running
  chain : (steps.flatMap Step.changes).IsChain fun c d ↦ d.source = c.target
  real : ∀ c ∈ steps.flatMap Step.changes, c.source ≠ c.target ∧ c.source ≠ .closed

/-- A console is shown some of the readings, in the order in which they were taken, and tells of
each change between them. -/
theorem readings_shown_in_order [Elementary] (s : Session) (settings : List VoiceSettings)
    (rate : UInt32) (channels : ℕ) (j : Journal) (d : Display) (ms : List Moment) :
    let p := Player.start s settings rate channels j d
    (channels ≠ 0 → ∃ q, p.meetAll ms = .ok q) ∧
      ∀ q, p.meetAll ms = .ok q → ∃ steps, p.Reaches steps q ∧ steps.map Step.moment = ms ∧
        Chronicle rate j steps q := by
  intro p
  refine ⟨fun hc ↦ Player.exists_meetAll hc ms, fun q hq ↦ ?_⟩
  have hstart : Observed rate.toFloat [] [] p :=
    ⟨rfl, .refl _, rfl, by simp, fun _ ↦ .nil, .nil⟩
  obtain ⟨steps, hsteps, hmoments⟩ := Player.exists_reaches hq
  have hobserved := hsteps.observed hstart
  have hchanges := hsteps.changes hstart
  obtain ⟨hfirst, hchain⟩ := Change.linked_along .start (steps.flatMap Step.popped)
  refine ⟨steps, hsteps, hmoments, hobserved.popped_sublist, hobserved.shown, ?_,
    hobserved.closed_popped, ?_, hsteps.journal, ?_, ?_, ?_, ?_⟩
  · intro hrate
    exact hobserved.times_popped (Floating.positive_uint32 hrate)
  · intro s hs
    obtain ⟨past, after, hsplit⟩ := List.append_of_mem hs
    obtain ⟨hpast, hm⟩ := hsteps.split hsplit
    have hbefore := hpast.observed hstart
    obtain ⟨htime, hclosed⟩ := hbefore.shown_onward (hbefore.meet hm)
    exact ⟨fun hrate ↦ htime (Floating.positive_uint32 hrate), hclosed⟩
  · rw [List.filter_flatMap, List.map_flatMap]
    exact List.flatMap_congr fun s _ ↦ s.filter_records
  · rw [hchanges]
    exact hfirst
  · rw [hchanges]
    exact hchain
  · rw [hchanges]
    exact Change.real_along hobserved.closed_popped

end Polyphony
