import Mathlib.Algebra.GroupWithZero.Nat
import Mathlib.Data.List.Induction
import Polyphony.Proofs.Renderer.Frames
import Polyphony.Queue

namespace Polyphony

namespace Transport

theorem foldl_apply_closed (cs : List Command) : cs.foldl apply .closed = .closed := by
  induction cs with
  | nil => rfl
  | cons c cs ih => exact ih

/-- Nothing comes after a stop, and before one the last command counts. -/
theorem foldl_apply (cs : List Command) : cs.foldl apply .running =
    if .stop ∈ cs then .closed
    else if cs.getLast? = some .suspend then .suspended else .running := by
  induction cs using List.reverseRecOn with
  | nil => rfl
  | append_singleton cs c ih =>
    rw [List.foldl_append, ih]
    by_cases hstop : .stop ∈ cs
    · simp [hstop, apply]
    · rw [if_neg hstop]
      cases c with
      | stop => split <;> simp [apply]
      | suspend => split <;> simp [apply, hstop]
      | resume => split <;> simp [apply, hstop]

end Transport

namespace Renderer

inductive Operation
  | render (n : ℕ)
  | suspend
  | resume
  | stop
  | handle (c : Command)
  | process (q : Queue Command)

structure Block where
  transport : Transport
  length : ℕ
  samples : Array Float32

theorem apply_closed (c : Command) : Transport.apply .closed c = .closed := rfl

/-- A command moves the transport, and where that closes it the oscillators are gone. -/
theorem handle_eq (r : Renderer) (c : Command) : r.handle c =
    { r with
      transport := r.transport.apply c
      active :=
        if r.transport ≠ .closed ∧ r.transport.apply c = .closed then [] else r.active } := by
  rw [handle]
  by_cases hsame : r.transport.apply c = r.transport
  · rw [if_pos hsame, if_neg fun h ↦ h.1 (hsame.symm.trans h.2), hsame]
  · by_cases hclosed : r.transport.apply c = .closed
    · have hopen : r.transport ≠ .closed := fun hr ↦ hsame (hclosed.trans hr.symm)
      rw [if_neg hsame, if_pos (by simp [Transport.isClosed, hclosed]), if_pos ⟨hopen, hclosed⟩]
    · have hnext : (r.transport.apply c).isClosed ≠ true := by
        simpa [Transport.isClosed] using hclosed
      rw [if_neg hsame, if_neg hnext, if_neg fun h ↦ hclosed h.2]

theorem transport_handleAll (r : Renderer) (cs : List Command) :
    (r.handleAll cs).transport = cs.foldl Transport.apply r.transport := by
  induction cs generalizing r with
  | nil => rfl
  | cons c cs ih =>
    rw [List.foldl_cons, handleAll, List.foldl_cons, ← handleAll, ih, handle_eq]

def playedIn (bs : List Block) : List Float32 :=
  (bs.filter fun b ↦ b.transport = .running).flatMap fun b ↦ b.samples.toList

theorem playedIn_silent {t : Transport} (h : t ≠ .running) (n : ℕ) (samples : Array Float32) :
    playedIn [⟨t, n, samples⟩] = [] := by
  simp [playedIn, h]

variable [Elementary]

theorem iterate_eq (r : Renderer) (k : ℕ) : ∃ active cursor, advance^[k] r =
    { r with active := active, cursor := cursor, frames := r.frames + k } := by
  induction k with
  | zero => exact ⟨r.active, r.cursor, rfl⟩
  | succ k ih =>
    obtain ⟨_, _, h⟩ := ih
    rw [Function.iterate_succ_apply', h, advance, frame_eq]
    exact ⟨_, _, rfl⟩

theorem transport_iterate (r : Renderer) (k : ℕ) : (advance^[k] r).transport = r.transport := by
  obtain ⟨_, _, h⟩ := iterate_eq r k
  rw [h]

theorem block_add {r : Renderer} (h : r.transport = .running) (m n : ℕ) :
    (r.block (m + n)).1 = (r.block m).1 ++ ((advance^[m] r).block n).1 := by
  rw [block_running h, block_running h, block_running ((transport_iterate r m).trans h)]
  simp only [List.range_add, List.map_append, List.map_map, List.append_toArray]
  congr 2
  refine List.map_congr_left fun k _ ↦ ?_
  rw [Function.comp_apply, sampleAt, sampleAt, Nat.add_comm, Function.iterate_add_apply]

theorem block_silent {r : Renderer} (h : r.transport ≠ .running) (n : ℕ) :
    r.block n = (Array.replicate n 0.0, r) := if_neg h

theorem size_block (r : Renderer) (n : ℕ) : (r.block n).1.size = n := by
  by_cases h : r.transport = .running
  · simp [block_running h]
  · simp [block_silent h]

theorem transport_block (r : Renderer) (n : ℕ) : (r.block n).2.transport = r.transport := by
  by_cases h : r.transport = .running
  · rw [block_running h, transport_iterate]
  · rw [block_silent h]

/-- A renderer that has played `k` samples, and has been suspended, resumed and closed since it
was `r₀`. -/
structure Follows (r₀ : Renderer) (k : ℕ) (r : Renderer) : Prop where
  frames : r.frames = r₀.frames + k
  sampleRate : r.sampleRate = r₀.sampleRate
  of_open : r.transport ≠ .closed → r = { advance^[k] r₀ with transport := r.transport }
  of_closed : r.transport = .closed → r.active = []

variable {r₀ r : Renderer} {k : ℕ}

theorem follows_zero (h : r₀.transport = .running) : Follows r₀ 0 r₀ where
  frames := rfl
  sampleRate := rfl
  of_open _ := rfl
  of_closed hc := by simp [h] at hc

theorem Follows.eq_of_running (h : Follows r₀ k r) (h₀ : r₀.transport = .running)
    (hr : r.transport = .running) : r = advance^[k] r₀ := by
  have heq := h.of_open (by simp [hr])
  rw [hr, ← h₀, ← transport_iterate r₀ k] at heq
  exact heq

theorem Follows.handle (h : Follows r₀ k r) (c : Command) : Follows r₀ k (r.handle c) := by
  rw [handle_eq]
  refine ⟨h.frames, h.sampleRate, fun hc ↦ ?_, fun hc ↦ ?_⟩
  · have hopen : r.transport ≠ .closed := fun hr ↦ hc (by rw [hr]; rfl)
    rw [if_neg fun hnew ↦ hc hnew.2, h.of_open hopen]
  · split_ifs with hnew
    · rfl
    · exact h.of_closed (by_contra fun hopen ↦ hnew ⟨hopen, hc⟩)

theorem Follows.handleAll (h : Follows r₀ k r) (cs : List Command) :
    Follows r₀ k (r.handleAll cs) := by
  induction cs generalizing r with
  | nil => exact h
  | cons c cs ih => exact ih (h.handle c)

theorem Follows.block (h : Follows r₀ k r) (h₀ : r₀.transport = .running)
    (hr : r.transport = .running) (n : ℕ) : Follows r₀ (k + n) (r.block n).2 := by
  obtain rfl := h.eq_of_running h₀ hr
  rw [block_running hr, ← Function.iterate_add_apply, Nat.add_comm n]
  obtain ⟨_, _, h⟩ := iterate_eq r₀ (k + n)
  refine ⟨?_, ?_, fun _ ↦ rfl, fun hc ↦ ?_⟩
  · rw [h]
  · rw [h]
  · rw [h] at hc
    simp [h₀] at hc

namespace Operation

def apply : Operation → Renderer → Renderer
  | render n, r => (r.block n).2
  | suspend, r => r.handle .suspend
  | resume, r => r.handle .resume
  | stop, r => r.handle .stop
  | handle c, r => r.handle c
  | process q, r => r.handleAll q.drain.1

def blocks : Operation → Renderer → List Block
  | render n, r => [⟨r.transport, n, (r.block n).1⟩]
  | _, _ => []

def commands : Operation → List Command
  | render _ => []
  | suspend => [.suspend]
  | resume => [.resume]
  | stop => [.stop]
  | handle c => [c]
  | process q => q.items

theorem transport_apply (o : Operation) (r : Renderer) :
    (o.apply r).transport = o.commands.foldl Transport.apply r.transport := by
  cases o with
  | render n => exact transport_block r n
  | process q => exact transport_handleAll r q.items
  | suspend => exact transport_handleAll r [.suspend]
  | resume => exact transport_handleAll r [.resume]
  | stop => exact transport_handleAll r [.stop]
  | handle c => exact transport_handleAll r [c]

theorem size_of_mem_blocks {o : Operation} {r : Renderer} {b : Block} (hb : b ∈ o.blocks r) :
    b.samples.size = b.length := by
  cases o with
  | render n =>
    obtain rfl := List.mem_singleton.mp hb
    exact r.size_block n
  | _ => cases hb

theorem silent_of_mem_blocks {o : Operation} {r : Renderer} {b : Block} (hb : b ∈ o.blocks r)
    (ht : b.transport ≠ .running) : b.samples = Array.replicate b.length 0.0 := by
  cases o with
  | render n =>
    obtain rfl := List.mem_singleton.mp hb
    exact congrArg Prod.fst (block_silent ht n)
  | _ => cases hb

end Operation

structure Recording where
  renderer : Renderer
  blocks : List Block

namespace Recording

def start (s : Session) (rate : Float) : Recording := ⟨ofSession s rate, []⟩

def next (g : Recording) (o : Operation) : Recording :=
  ⟨o.apply g.renderer, g.blocks ++ o.blocks g.renderer⟩

def run (g : Recording) (os : List Operation) : Recording := os.foldl next g

def played (g : Recording) : List Float32 := playedIn g.blocks

variable {g : Recording}

theorem played_next (g : Recording) (o : Operation) :
    (g.next o).played = g.played ++ playedIn (o.blocks g.renderer) := by
  rw [played, next, playedIn, List.filter_append, List.flatMap_append]
  rfl

theorem transport_run (g : Recording) (os : List Operation) : (g.run os).renderer.transport =
    (os.flatMap Operation.commands).foldl Transport.apply g.renderer.transport := by
  induction os generalizing g with
  | nil => rfl
  | cons o os ih =>
    rw [List.flatMap_cons, List.foldl_append, ← o.transport_apply]
    exact ih (g.next o)

/-- What is played is what one block would be, and the rest is silence. -/
structure Seamless (r₀ : Renderer) (g : Recording) : Prop where
  follows : Follows r₀ g.played.length g.renderer
  played : g.played.toArray = (r₀.block g.played.length).1
  size : ∀ b ∈ g.blocks, b.samples.size = b.length
  silent : ∀ b ∈ g.blocks, b.transport ≠ .running → b.samples = Array.replicate b.length 0.0

theorem Seamless.next_of (h : Seamless r₀ g) {o : Operation}
    (hf : Follows r₀ (g.next o).played.length (o.apply g.renderer))
    (hp : (g.next o).played.toArray = (r₀.block (g.next o).played.length).1) :
    Seamless r₀ (g.next o) where
  follows := hf
  played := hp
  size _ hb := (List.mem_append.mp hb).elim (h.size _) Operation.size_of_mem_blocks
  silent _ hb := (List.mem_append.mp hb).elim (h.silent _) Operation.silent_of_mem_blocks

/-- Neither a command nor a block that is rendered while the transport does not run is heard. -/
theorem Seamless.unheard (h : Seamless r₀ g) {o : Operation}
    (ho : playedIn (o.blocks g.renderer) = [])
    (hf : Follows r₀ g.played.length (o.apply g.renderer)) : Seamless r₀ (g.next o) := by
  have hplayed : (g.next o).played = g.played := by
    rw [played_next, ho, List.append_nil]
  refine h.next_of ?_ ?_
  · rw [hplayed]
    exact hf
  · rw [hplayed, h.played]

theorem Seamless.heard (h : Seamless r₀ g) (h₀ : r₀.transport = .running)
    (hr : g.renderer.transport = .running) (n : ℕ) : Seamless r₀ (g.next (.render n)) := by
  have hplayed : (g.next (.render n)).played = g.played ++ (g.renderer.block n).1.toList := by
    rw [played_next]
    simp [Operation.blocks, playedIn, hr]
  have hlength : (g.next (.render n)).played.length = g.played.length + n := by
    have hblock : (g.renderer.block n).1.toList.length = n := g.renderer.size_block n
    rw [hplayed, List.length_append, hblock]
  refine h.next_of ?_ ?_
  · rw [hlength]
    exact h.follows.block h₀ hr n
  · rw [hlength, block_add h₀, ← h.played, ← h.follows.eq_of_running h₀ hr, hplayed]
    simp

theorem Seamless.render (h : Seamless r₀ g) (h₀ : r₀.transport = .running) (n : ℕ) :
    Seamless r₀ (g.next (.render n)) := by
  by_cases hr : g.renderer.transport = .running
  · exact h.heard h₀ hr n
  · refine h.unheard (playedIn_silent hr _ _) ?_
    rw [Operation.apply, block_silent hr]
    exact h.follows

theorem Seamless.next (h : Seamless r₀ g) (h₀ : r₀.transport = .running) (o : Operation) :
    Seamless r₀ (g.next o) := by
  cases o with
  | render n => exact h.render h₀ n
  | suspend => exact h.unheard rfl (h.follows.handle _)
  | resume => exact h.unheard rfl (h.follows.handle _)
  | stop => exact h.unheard rfl (h.follows.handle _)
  | handle c => exact h.unheard rfl (h.follows.handle c)
  | process q => exact h.unheard rfl (h.follows.handleAll _)

theorem Seamless.run (h : Seamless r₀ g) (h₀ : r₀.transport = .running) (os : List Operation) :
    Seamless r₀ (g.run os) := by
  induction os generalizing g with
  | nil => exact h
  | cons o os ih => exact ih (h.next h₀ o)

theorem seamless_start (s : Session) (rate : Float) :
    Seamless (ofSession s rate) (start s rate) where
  follows := follows_zero rfl
  played := rfl
  size _ hb := absurd hb List.not_mem_nil
  silent _ hb := absurd hb List.not_mem_nil

theorem Seamless.length_played (h : Seamless r₀ g) : g.played.length =
    ((g.blocks.filter fun b ↦ b.transport = .running).map Block.length).sum := by
  rw [Recording.played, playedIn, List.length_flatMap]
  congr 1
  refine List.map_congr_left fun b hb ↦ ?_
  exact h.size b (List.mem_filter.mp hb).1

theorem played_next_of_closed (h : g.renderer.transport = .closed) (o : Operation) :
    (g.next o).played = g.played := by
  rw [played_next]
  cases o with
  | render n => rw [Operation.blocks, playedIn_silent (by simp [h]), List.append_nil]
  | suspend => exact List.append_nil _
  | resume => exact List.append_nil _
  | stop => exact List.append_nil _
  | handle c => exact List.append_nil _
  | process q => exact List.append_nil _

theorem transport_run_of_closed (h : g.renderer.transport = .closed) (os : List Operation) :
    (g.run os).renderer.transport = .closed := by
  rw [transport_run, h, Transport.foldl_apply_closed]

theorem played_run_of_closed (h : g.renderer.transport = .closed) (os : List Operation) :
    (g.run os).played = g.played := by
  induction os generalizing g with
  | nil => rfl
  | cons o os ih =>
    have hnext : (g.next o).renderer.transport = .closed := transport_run_of_closed h [o]
    exact (ih hnext).trans (played_next_of_closed h o)

/-- Neither the lengths of the blocks nor what the transport does between them can be heard in what
is played. -/
theorem recording_seamless (s : Session) (rate : Float) (os : List Operation) :
    let g := (start s rate).run os
    let commands := os.flatMap Operation.commands
    g.played.toArray = ((ofSession s rate).block g.played.length).1 ∧
      g.played.length =
        ((g.blocks.filter fun b ↦ b.transport = .running).map Block.length).sum ∧
      (∀ b ∈ g.blocks, b.samples.size = b.length) ∧
      (∀ b ∈ g.blocks, b.transport ≠ .running → b.samples = Array.replicate b.length 0.0) ∧
      g.renderer.time = Float.ofNat g.played.length / rate ∧
      g.renderer.transport = (if .stop ∈ commands then .closed
        else if commands.getLast? = some .suspend then .suspended else .running) ∧
      (g.renderer.transport = .closed → ∀ more : List Operation,
        (g.run more).renderer.transport = .closed ∧ (g.run more).renderer.active = [] ∧
          (g.run more).played = g.played) := by
  intro g commands
  have h : Seamless (ofSession s rate) g := (seamless_start s rate).run rfl os
  refine ⟨h.played, h.length_played, h.size, h.silent, ?_, ?_, fun hclosed more ↦ ?_⟩
  · rw [time, h.follows.sampleRate, h.follows.frames]
    exact congrArg (clockAt rate) (Nat.zero_add _)
  · exact (transport_run _ os).trans (Transport.foldl_apply commands)
  · have hclosed' := transport_run_of_closed hclosed more
    exact ⟨hclosed', (h.run rfl more).follows.of_closed hclosed', played_run_of_closed hclosed more⟩

end Recording

end Renderer

end Polyphony
