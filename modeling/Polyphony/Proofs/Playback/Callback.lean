import Mathlib.Algebra.GroupWithZero.Nat
import Polyphony.Playback
import Polyphony.Proofs.Renderer.Continuity

namespace Polyphony

namespace Renderer

variable [Elementary]

theorem block_zero (r : Renderer) : r.block 0 = (#[], r) := by
  by_cases h : r.transport = .running
  · simp [block_running h]
  · simp [block_silent h]

theorem block_append (r : Renderer) (m n : ℕ) : r.block (m + n) =
    ((r.block m).1 ++ ((r.block m).2.block n).1, ((r.block m).2.block n).2) := by
  by_cases h : r.transport = .running
  · have hnext : (r.block m).2 = advance^[m] r := by rw [block_running h]
    have hrunning := (transport_iterate r m).trans h
    refine Prod.ext ?_ ?_
    · rw [block_add h, hnext]
    · rw [hnext, block_running h, block_running hrunning, Nat.add_comm,
        Function.iterate_add_apply]
  · simp [block_silent h, Array.replicate_append_replicate]

theorem frames_block (r : Renderer) (n : ℕ) :
    (r.block n).2.frames = r.frames + if r.transport = .running then n else 0 := by
  by_cases h : r.transport = .running
  · obtain ⟨_, _, heq⟩ := iterate_eq r n
    rw [block_running h, heq, if_pos h]
  · rw [block_silent h, if_neg h, Nat.add_zero]

theorem sampleRate_block (r : Renderer) (n : ℕ) : (r.block n).2.sampleRate = r.sampleRate := by
  by_cases h : r.transport = .running
  · obtain ⟨_, _, heq⟩ := iterate_eq r n
    rw [block_running h, heq]
  · rw [block_silent h]

theorem time_block (r : Renderer) (n : ℕ) : (r.block n).2.time =
    clockAt r.sampleRate (r.frames + if r.transport = .running then n else 0) := by
  rw [time, sampleRate_block, frames_block]

theorem blocks_eq (r : Renderer) (lengths : List ℕ) : r.blocks lengths = r.block lengths.sum := by
  induction lengths generalizing r with
  | nil => rw [blocks, List.sum_nil, block_zero]
  | cons n ns ih => simp only [blocks, ih, List.sum_cons, block_append]

end Renderer

theorem sum_blockLengths (n : ℕ) : (blockLengths n).sum = n := by
  have hdiv := Nat.div_add_mod' n longestBlock
  rw [blockLengths]
  split
  · next h => simpa [h] using hdiv
  · simpa using hdiv

namespace Playback

variable {channels : ℕ} {buffer : Array Float32}

theorem getElem?_interleave_rest (hc : 0 < channels) {samples : Array Float32} {j : ℕ}
    (h : samples.size * channels ≤ j) :
    (interleave channels samples buffer)[j]? = buffer[j]? := by
  have hdiv := (Nat.le_div_iff_mul_le hc).mpr h
  simp [interleave, Array.getElem?_eq_none hdiv]

section Filling

variable [Elementary]

def obeyed (p : Playback) : Renderer := p.renderer.handleAll p.control.items

theorem callback_eq (p : Playback) (hc : channels ≠ 0) (buffer : Array Float32) :
    p.callback channels buffer = .ok
      (interleave channels (p.obeyed.block (buffer.size / channels)).1 buffer,
        { renderer := (p.obeyed.block (buffer.size / channels)).2
          control := .ofCapacity p.control.capacity
          readings :=
            p.readings.offer (.ofRenderer (p.obeyed.block (buffer.size / channels)).2) }) := by
  simp only [callback, if_neg hc, Queue.drain, Renderer.blocks_eq, sum_blockLengths]
  rfl

end Filling

end Playback

end Polyphony
