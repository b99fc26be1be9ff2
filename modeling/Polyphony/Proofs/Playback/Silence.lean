import Polyphony.Proofs.Playback.History

namespace Polyphony

namespace Renderer

structure Silenced (r : Renderer) : Prop where
  closed : r.transport = .closed
  idle : r.active = []

variable {r : Renderer}

theorem Silenced.handleAll (h : r.Silenced) (cs : List Command) : r.handleAll cs = r := by
  have hhandle (c : Command) : r.handle c = r := by
    have hsame : r.transport.apply c = r.transport := by rw [h.closed, apply_closed]
    rw [handle, if_pos hsame]
  induction cs with
  | nil => rfl
  | cons c cs ih =>
    rw [Renderer.handleAll, List.foldl_cons, hhandle]
    exact ih

variable [Elementary]

theorem Silenced.block (h : r.Silenced) (n : ℕ) : r.block n = (Array.replicate n 0.0, r) := by
  refine block_silent ?_ n
  rw [h.closed]
  decide

theorem Follows.silenced {r₀ : Renderer} {k : ℕ} (h : Follows r₀ k r) :
    (r.handle .stop).Silenced := by
  have hclosed : (r.handle .stop).transport = .closed := by
    rw [handle_eq]
    cases r.transport <;> rfl
  exact ⟨hclosed, (h.handle .stop).of_closed hclosed⟩

end Renderer

/-- A buffer all of whose frames are silent. What lies behind them is as it was. -/
structure Silent (channels : ℕ) (buffer out : Array Float32) : Prop where
  size : out.size = buffer.size
  frames : ∀ i < buffer.size / channels * channels, out[i]? = some 0.0
  rest : ∀ i, buffer.size / channels * channels ≤ i → out[i]? = buffer[i]?

theorem silent_interleave {channels : ℕ} (hc : channels ≠ 0) (buffer : Array Float32) :
    Silent channels buffer
      (interleave channels (Array.replicate (buffer.size / channels) 0.0) buffer) := by
  have hpos := Nat.pos_of_ne_zero hc
  refine ⟨Array.size_mapIdx, fun i hi ↦ ?_, fun i hi ↦ ?_⟩
  · have hframe : i / channels < buffer.size / channels := (Nat.div_lt_iff_lt_mul hpos).mpr hi
    have hsize : i < buffer.size := Nat.lt_of_lt_of_le hi (Nat.div_mul_le_self _ _)
    simp [interleave, hframe, hsize]
  · refine Playback.getElem?_interleave_rest hpos ?_
    rwa [Array.size_replicate]

section Results

variable {ε α β : Type} {x : Except ε α} {e : ε}

theorem error_of_bind {f : α → Except ε β} (h : (x >>= f) = .error e) :
    x = .error e ∨ ∃ a, x = .ok a ∧ f a = .error e := by
  cases x with
  | error _ => exact .inl (congrArg Except.error (Except.error.inj h))
  | ok a => exact .inr ⟨a, rfl, h⟩

theorem error_of_map {f : α → β} (h : x.map f = .error e) : x = .error e := by
  cases x with
  | error _ => exact congrArg Except.error (Except.error.inj h)
  | ok _ => cases h

end Results

def DeviceEvent.buffer? : DeviceEvent → Option (Array Float32)
  | .callback buffer => some buffer
  | .failure _ => none

namespace Player

variable [Elementary] {p q : Player}

theorem Reaches.follows {steps : List Step} (h : p.Reaches steps q)
    (hp : p.playback.renderer.transport = .running) :
    ∃ k, Renderer.Follows p.playback.renderer k q.playback.renderer := by
  induction h with
  | start => exact ⟨0, Renderer.follows_zero hp⟩
  | @step steps m q next h hm ih =>
    obtain ⟨k, hk⟩ := ih
    match m with
    | .device (.callback buffer) =>
      obtain ⟨-, rfl⟩ := meet_callback hm
      -- The commands come first, and only a transport that still runs after them plays.
      have hobeyed : Renderer.Follows p.playback.renderer k q.playback.obeyed := hk.handleAll _
      by_cases hrunning : q.playback.obeyed.transport = .running
      · exact ⟨_, hobeyed.block hp hrunning _⟩
      · refine ⟨k, ?_⟩
        rw [called, Renderer.block_silent hrunning]
        exact hobeyed
    | .device (.failure _) | .turn =>
      cases hm
      exact ⟨k, hk⟩
    | .input i =>
      obtain ⟨_, _, _, hhandle⟩ := q.handle_frame i
      cases hm
      rw [hhandle]
      exact ⟨k, hk⟩

def fill (p : Player) (buffer : Array Float32) : Array Float32 :=
  interleave p.channels (p.playback.obeyed.block (buffer.size / p.channels)).1 buffer

theorem serve_callback_of_eq {buffer : Array Float32} (hc : p.channels = 0)
    (es : List DeviceEvent) :
    p.serve (.callback buffer :: es) = .error (.arithmetic .zeroDivisor, p) := by
  simp only [serve, Playback.callback, if_pos hc]

theorem serve_callback_of_ne {buffer : Array Float32} (hc : p.channels ≠ 0)
    (es : List DeviceEvent) :
    p.serve (.callback buffer :: es) =
      ((p.called (buffer.size / p.channels)).serve es).map fun (more, q) ↦
        (p.fill buffer :: more, q) := by
  rw [serve, Playback.callback_eq _ hc]
  rfl

theorem ok_of_serve_callback {buffer : Array Float32} {es : List DeviceEvent}
    {filled : List (Array Float32)} (h : p.serve (.callback buffer :: es) = .ok (filled, q)) :
    p.channels ≠ 0 ∧ ∃ more,
      (p.called (buffer.size / p.channels)).serve es = .ok (more, q) ∧
        filled = p.fill buffer :: more := by
  by_cases hc : p.channels = 0
  · rw [serve_callback_of_eq hc] at h
    cases h
  · rw [serve_callback_of_ne hc] at h
    obtain ⟨⟨more, _⟩, hrest, heq⟩ := ok_of_map h
    cases heq
    exact ⟨hc, more, hrest, rfl⟩

theorem exists_serve (hc : p.channels ≠ 0) (es : List DeviceEvent) :
    ∃ filled q, p.serve es = .ok (filled, q) := by
  induction es generalizing p with
  | nil => exact ⟨[], p, rfl⟩
  | cons e es ih =>
    cases e with
    | failure text => exact ih (p := p.note _) hc
    | callback buffer =>
      obtain ⟨filled, q, hrest⟩ := ih (p := p.called (buffer.size / p.channels)) hc
      rw [serve_callback_of_ne hc, hrest]
      exact ⟨_, _, rfl⟩

theorem serve_silenced {es : List DeviceEvent} {filled : List (Array Float32)}
    (h : p.playback.renderer.Silenced) (hserve : p.serve es = .ok (filled, q)) :
    q.playback.renderer = p.playback.renderer ∧
      List.Forall₂ (Silent p.channels) (es.filterMap DeviceEvent.buffer?) filled := by
  induction es generalizing p filled with
  | nil =>
    cases hserve
    exact ⟨rfl, .nil⟩
  | cons e es ih =>
    cases e with
    | failure text => exact ih (p := p.note _) h hserve
    | callback buffer =>
      obtain ⟨hc, more, hrest, rfl⟩ := ok_of_serve_callback hserve
      have hblock : p.playback.obeyed.block (buffer.size / p.channels) =
          (Array.replicate (buffer.size / p.channels) 0.0, p.playback.renderer) := by
        rw [Playback.obeyed, h.handleAll, h.block]
      have hrenderer : (p.called (buffer.size / p.channels)).playback.renderer =
          p.playback.renderer := congrArg Prod.snd hblock
      obtain ⟨hsame, hsilent⟩ := ih (hrenderer ▸ h) hrest
      rw [fill, hblock]
      exact ⟨hsame.trans hrenderer, .cons (silent_interleave hc buffer) hsilent⟩

def Arrives (p q : Player) : Prop := ∃ ms, p.meetAll ms = .ok q

theorem Arrives.refl (p : Player) : p.Arrives p := ⟨[], rfl⟩

theorem Arrives.cons {m : Moment} {next : Player} (h : p.meet m = .ok next)
    (hq : next.Arrives q) : p.Arrives q := by
  obtain ⟨ms, hms⟩ := hq
  exact ⟨m :: ms, (meetAll_cons h ms).trans hms⟩

theorem Arrives.trans {next : Player} (h : p.Arrives next) (hq : next.Arrives q) :
    p.Arrives q := by
  obtain ⟨ms, hms⟩ := h
  obtain ⟨ns, hns⟩ := hq
  exact ⟨ms ++ ns, (meetAll_append hms ns).trans hns⟩

theorem arrives_serve_error {f : PlayFault} {es : List DeviceEvent}
    (h : p.serve es = .error (f, q)) : p.Arrives q := by
  induction es generalizing p with
  | nil => cases h
  | cons e es ih =>
    cases e with
    | failure text => exact .cons (m := .device (.failure text)) rfl (ih h)
    | callback buffer =>
      by_cases hc : p.channels = 0
      · rw [serve_callback_of_eq hc] at h
        cases h
        exact .refl _
      · rw [serve_callback_of_ne hc] at h
        exact .cons (meet_callback_of_ne hc) (ih (error_of_map h))

theorem arrives_playTurn_error {f : PlayFault} {t : Turn} (h : p.playTurn t = .error (f, q)) :
    p.Arrives q := by
  cases error_of_bind h with
  | inl hwaiting => exact arrives_serve_error hwaiting
  | inr hthen =>
    obtain ⟨⟨_, p₁⟩, hwaiting, hthen⟩ := hthen
    refine Arrives.trans ⟨_, meetAll_serve hwaiting⟩ ?_
    cases hinput : t.input with
    | error text =>
      simp only [hinput] at hthen
      cases hthen
      exact .refl _
    | ok i? =>
      simp only [hinput] at hthen
      cases error_of_bind hthen with
      | inl hhandling =>
        have hrest := arrives_serve_error hhandling
        match i? with
        | none => exact hrest
        | some i => exact .cons (m := .input i) rfl hrest
      | inr hnothing =>
        obtain ⟨_, _, hnothing⟩ := hnothing
        cases hnothing

/-- However a run ends, it is closed after one of all the ways in which moments can follow each
other. -/
theorem arrives_run {ts : List Turn} (h : (p.run ts).ending ≠ .ongoing) :
    ∃ q, p.Arrives q ∧ (p.run ts).player = q.close := by
  have hrefresh : p.meet .turn = .ok p.refresh := rfl
  induction ts generalizing p with
  | nil =>
    refine ⟨p.refresh, .cons hrefresh (.refl _), ?_⟩
    rw [run] at h ⊢
    split at h
    · rfl
    · rfl
    · exact absurd rfl h
  | cons t ts ih =>
    rw [run] at h ⊢
    split at h
    · exact ⟨p.refresh, .cons hrefresh (.refl _), rfl⟩
    · exact ⟨p.refresh, .cons hrefresh (.refl _), rfl⟩
    · exact ⟨p.refresh, .cons hrefresh (.refl _), rfl⟩
    · split at h
      · next hturn => exact ⟨_, .cons hrefresh (arrives_playTurn_error hturn), rfl⟩
      · next hturn =>
        obtain ⟨q, hq, hclose⟩ := ih h rfl
        exact ⟨q, .cons hrefresh (.trans ⟨_, meetAll_playTurn hturn⟩ hq), hclose⟩

/-- A player whose device gets nothing but silence from now on. -/
structure Quiet (p : Player) : Prop where
  renderer : p.playback.renderer.Silenced
  serves : p.channels ≠ 0 → ∀ es, ∃ filled q, p.serve es = .ok (filled, q)
  later : ∀ es filled q, p.serve es = .ok (filled, q) → q.playback.renderer.Silenced ∧
    List.Forall₂ (Silent p.channels) (es.filterMap DeviceEvent.buffer?) filled

/-- Whatever has happened to a player, it is quiet once it is closed. -/
theorem Arrives.quiet_close (h : p.Arrives q) (hp : p.playback.renderer.transport = .running) :
    q.close.Quiet := by
  obtain ⟨ms, hms⟩ := h
  obtain ⟨steps, hsteps, -⟩ := exists_reaches hms
  obtain ⟨k, hfollows⟩ := hsteps.follows hp
  have hsilenced : q.close.playback.renderer.Silenced := hfollows.silenced
  refine ⟨hsilenced, exists_serve, ?_⟩
  intro es filled next hserve
  obtain ⟨hsame, hsilent⟩ := serve_silenced hsilenced hserve
  exact ⟨hsame ▸ hsilenced, hsilent⟩

end Player

end Polyphony
