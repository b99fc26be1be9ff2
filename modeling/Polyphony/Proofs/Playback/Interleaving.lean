import Polyphony.Player
import Polyphony.Proofs.Playback.Callback

namespace Polyphony

/-- What can happen to a player next, in whatever order. -/
inductive Moment
  | device (e : DeviceEvent)
  | input (i : Input)
  | turn

def Turn.moments (t : Turn) : List Moment :=
  t.waiting.map .device ++
    match t.input with
    | .ok (some i) => .input i :: t.handling.map .device
    | .ok none => t.handling.map .device
    | .error _ => []

section Results

variable {ε α β : Type} {x : Except ε α} {b : β}

theorem ok_of_bind {f : α → Except ε β} (h : (x >>= f) = .ok b) :
    ∃ a, x = .ok a ∧ f a = .ok b := by
  cases x with
  | error _ => cases h
  | ok a => exact ⟨a, rfl, h⟩

theorem ok_of_map {f : α → β} (h : x.map f = .ok b) : ∃ a, x = .ok a ∧ f a = b := by
  cases x with
  | error _ => cases h
  | ok a => exact ⟨a, rfl, Except.ok.inj h⟩

end Results

namespace Player

theorem send_frame (p : Player) (c : Command) : ∃ control journal,
    p.send c = { p with playback.control := control, journal } := by
  rw [send]
  split
  · exact ⟨_, _, rfl⟩
  · exact ⟨_, _, rfl⟩

theorem press_frame (p : Player) (k : Key) : ∃ control journal exit,
    p.press k = { p with playback.control := control, journal, console.exit := exit } := by
  have hconsole : ∃ exit, p.console.press k = { p.console with exit } := by
    rw [Console.press]
    split
    · exact ⟨_, rfl⟩
    · exact ⟨_, rfl⟩
  obtain ⟨exit, hexit⟩ := hconsole
  rw [press, hexit]
  split
  · next c _ =>
    obtain ⟨_, _, hsend⟩ := p.send_frame c
    rw [hsend]
    exact ⟨_, _, _, rfl⟩
  · exact ⟨_, _, _, rfl⟩

/-- An input reaches the renderer and the screen only by way of commands, records and the exit. -/
theorem handle_frame (p : Player) (i : Input) : ∃ control journal exit,
    p.handle i = { p with playback.control := control, journal, console.exit := exit } := by
  match i with
  | .key k .press => exact p.press_frame k
  | .key _ .hold | .key _ .release | .other => exact ⟨_, _, _, rfl⟩

variable [Elementary] {p q : Player}

def meet (p : Player) : Moment → Except ArithmeticFault Player
  | .device (.callback buffer) =>
    (p.playback.callback p.channels buffer).map fun (_, playback) ↦ { p with playback }
  | .device (.failure text) => .ok (p.note ⟨.error, "audio stream error: " ++ text⟩)
  | .input i => .ok (p.handle i)
  | .turn => .ok p.refresh

def meetAll (p : Player) (moments : List Moment) : Except ArithmeticFault Player :=
  moments.foldlM meet p

theorem meetAll_cons {m : Moment} (h : p.meet m = .ok q) (ms : List Moment) :
    p.meetAll (m :: ms) = q.meetAll ms := by
  rw [meetAll, List.foldlM_cons, h]
  rfl

theorem meetAll_append {ms : List Moment} (h : p.meetAll ms = .ok q) (ns : List Moment) :
    p.meetAll (ms ++ ns) = q.meetAll ns := by
  rw [meetAll, List.foldlM_append, ← meetAll, h]
  rfl

theorem meetAll_serve {es : List DeviceEvent} {filled : List (Array Float32)}
    (h : p.serve es = .ok (filled, q)) : p.meetAll (es.map .device) = .ok q := by
  induction es generalizing p filled with
  | nil =>
    cases h
    rfl
  | cons e es ih =>
    cases e with
    | failure text =>
      rw [List.map_cons, meetAll_cons rfl]
      exact ih h
    | callback buffer =>
      rw [serve] at h
      split at h
      · cases h
      · next hcallback =>
        obtain ⟨⟨_, last⟩, hrest, heq⟩ := ok_of_map h
        cases heq
        rw [List.map_cons, meetAll_cons (by rw [meet, hcallback]; rfl)]
        exact ih hrest

theorem meetAll_playTurn {t : Turn} {filled : List (Array Float32)}
    (h : p.playTurn t = .ok (filled, q)) : p.meetAll t.moments = .ok q := by
  obtain ⟨⟨_, p₁⟩, hwaiting, hthen⟩ := ok_of_bind h
  rw [Turn.moments, meetAll_append (meetAll_serve hwaiting)]
  cases hinput : t.input with
  | error _ =>
    simp only [hinput] at hthen
    cases hthen
  | ok input =>
    simp only [hinput] at hthen
    obtain ⟨⟨_, p₂⟩, hhandling, heq⟩ := ok_of_bind hthen
    cases heq
    cases input with
    | none => exact meetAll_serve hhandling
    | some i =>
      simp only
      rw [meetAll_cons rfl]
      exact meetAll_serve hhandling

/-- As long as it goes on, a run is one of all the ways in which moments can follow each other. -/
theorem exists_meetAll_run {ts : List Turn} (h : (p.run ts).ending = .ongoing) :
    ∃ q, p.meetAll (ts.flatMap fun t ↦ .turn :: t.moments) = .ok q ∧
      q.refresh = (p.run ts).player := by
  induction ts generalizing p with
  | nil =>
    refine ⟨p, rfl, ?_⟩
    rw [run] at h ⊢
    split at h
    · cases h
    · cases h
    · rfl
  | cons t ts ih =>
    rw [List.flatMap_cons, List.cons_append, meetAll_cons rfl]
    rw [run] at h ⊢
    split at h
    · cases h
    · cases h
    · cases h
    -- Only a turn that was played through lets a run go on.
    · split at h
      · cases h
      · next hturn =>
        rw [meetAll_append (meetAll_playTurn hturn)]
        exact ih h

end Player

end Polyphony
