import Polyphony.Proofs.Renderer.Continuity

namespace Polyphony.Renderer

def places (r : Renderer) : List ℕ := r.active.map Oscillator.event

/-- A later renderer, with `n` more events started: what it plays was played before, or is one of
those. -/
structure Moves (n : ℕ) (r r' : Renderer) : Prop where
  events : r'.events = r.events
  voiceCount : r'.voiceCount = r.voiceCount
  cursor : r'.cursor = r.cursor + n
  cursor_le : r.cursor ≤ r.events.size → r'.cursor ≤ r.events.size
  places : r'.places.Sublist (r.places ++ List.range' r.cursor n)

variable {m n : ℕ} {r r' r'' : Renderer} {t : Float}

namespace Moves

theorem refl (r : Renderer) : Moves 0 r r :=
  ⟨rfl, rfl, rfl, id, List.sublist_append_left _ _⟩

theorem trans (h : Moves m r r') (h' : Moves n r' r'') : Moves (m + n) r r'' := by
  refine ⟨h'.events.trans h.events, h'.voiceCount.trans h.voiceCount, ?_, fun hle ↦ ?_, ?_⟩
  · rw [h'.cursor, h.cursor, Nat.add_assoc]
  · have hle' := h'.cursor_le
    rw [h.events] at hle'
    exact hle' (h.cursor_le hle)
  · rw [← List.range'_append_1, ← List.append_assoc, ← h.cursor]
    exact h'.places.trans (h.places.append (List.Sublist.refl _))

theorem mem_places (h : Moves n r r') {i : ℕ} (hi : i < r.cursor) (hmem : i ∈ r'.places) :
    i ∈ r.places := by
  rcases List.mem_append.mp (h.places.mem hmem) with hold | hnew
  · exact hold
  · have hle := (List.mem_range'_1.mp hnew).1
    omega

end Moves

theorem moves_handle (r : Renderer) (c : Command) : Moves 0 r (r.handle c) := by
  rw [handle_eq]
  refine ⟨rfl, rfl, rfl, id, ?_⟩
  simp only [places]
  split_ifs
  · exact List.nil_sublist _
  · exact List.sublist_append_left _ _

theorem moves_handleAll (r : Renderer) (cs : List Command) : Moves 0 r (r.handleAll cs) := by
  induction cs generalizing r with
  | nil => exact .refl r
  | cons c cs ih => exact (moves_handle r c).trans (ih _)

theorem due_leads (r : Renderer) (t : Float) : r.due t <+: r.numbered.drop r.cursor :=
  List.takeWhile_prefix _

theorem length_due_le (r : Renderer) (t : Float) :
    (r.due t).length ≤ r.events.size - r.cursor := by
  have hle := (due_leads r t).length_le
  rwa [List.length_drop, numbered, List.length_zipIdx, Array.length_toList] at hle

theorem map_snd_due (r : Renderer) (t : Float) :
    (r.due t).map Prod.snd = List.range' r.cursor (r.due t).length := by
  have hleft : (r.numbered.drop r.cursor).map Prod.snd =
      List.range' r.cursor (r.events.size - r.cursor) := by
    rw [List.map_drop, numbered, List.zipIdx_map_snd, List.drop_range', Array.length_toList,
      Nat.zero_add, Nat.mul_one]
  obtain ⟨k, hk⟩ := Nat.exists_eq_add_of_le (length_due_le r t)
  calc (r.due t).map Prod.snd
      = ((r.numbered.drop r.cursor).map Prod.snd).take (r.due t).length := by
        rw [← List.map_take, ← List.prefix_iff_eq_take.mp (due_leads r t)]
    _ = List.range' r.cursor (r.due t).length := by
        rw [hleft, hk, ← List.range'_append_1, List.take_left' List.length_range']

theorem moves_started (r : Renderer) (t : Float) : Moves (r.due t).length r (r.started t) := by
  have hle := length_due_le r t
  refine ⟨rfl, rfl, rfl, fun h ↦ ?_, ?_⟩
  · simp only [started]
    omega
  · rw [← map_snd_due, places, started, List.map_append, List.map_map]
    exact List.Sublist.refl _

/-- What is played has been started, in the order of the events, and only events that are there
have been started. -/
structure Orderly (r : Renderer) : Prop where
  cursor_le : r.cursor ≤ r.events.size
  places : r.places.Sublist (List.range r.cursor)

namespace Orderly

theorem ofSession (s : Session) (rate : Float) : Orderly (ofSession s rate) :=
  ⟨Nat.zero_le _, List.Sublist.refl _⟩

theorem moves (h : Orderly r) (hm : Moves n r r') : Orderly r' := by
  have hrange : List.range r.cursor ++ List.range' r.cursor n = List.range r'.cursor := by
    have happend := List.range'_append_1 (s := 0) (m := r.cursor) (n := n)
    rwa [Nat.zero_add, ← hm.cursor, ← List.range_eq_range', ← List.range_eq_range'] at happend
  refine ⟨?_, ?_⟩
  · rw [hm.events]
    exact hm.cursor_le h.cursor_le
  · rw [← hrange]
    exact hm.places.trans (h.places.append (List.Sublist.refl _))

theorem lt_cursor (h : Orderly r) {o : Oscillator} (ho : o ∈ r.active) : o.event < r.cursor :=
  List.mem_range.mp (h.places.mem (List.mem_map_of_mem ho))

theorem lt_size (h : Orderly r) {o : Oscillator} (ho : o ∈ r.active) : o.event < r.events.size :=
  Nat.lt_of_lt_of_le (h.lt_cursor ho) h.cursor_le

theorem ascending (h : Orderly r) : r.active.Pairwise fun o p ↦ o.event < p.event := by
  rw [← List.pairwise_map (f := Oscillator.event) (R := (· < ·))]
  exact List.Pairwise.sublist h.places List.pairwise_lt_range

end Orderly

variable [Elementary]

theorem moves_advance (r : Renderer) : Moves (r.due r.time).length r r.advance := by
  have h := moves_started r r.time
  rw [advance, frame_eq]
  refine ⟨h.events, h.voiceCount, h.cursor, h.cursor_le, ?_⟩
  have hevent : Oscillator.event ∘ advanced r.events (1.0 / r.sampleRate) = Oscillator.event := by
    funext o
    rw [Function.comp_apply, advanced]
    split <;> rfl
  simp only [places, List.map_map, hevent]
  exact (List.filter_sublist.map Oscillator.event).trans h.places

theorem exists_moves_iterate (r : Renderer) (k : ℕ) : ∃ n, Moves n r (advance^[k] r) := by
  induction k with
  | zero => exact ⟨0, .refl r⟩
  | succ k ih =>
    obtain ⟨n, h⟩ := ih
    rw [Function.iterate_succ_apply']
    exact ⟨_, h.trans (moves_advance _)⟩

theorem exists_moves_apply (o : Operation) (r : Renderer) : ∃ n, Moves n r (o.apply r) := by
  cases o with
  | render k =>
    rw [Operation.apply]
    by_cases h : r.transport = .running
    · rw [block_running h]
      exact exists_moves_iterate r k
    · rw [block_silent h]
      exact ⟨0, .refl r⟩
  | suspend => exact ⟨0, moves_handle r _⟩
  | resume => exact ⟨0, moves_handle r _⟩
  | stop => exact ⟨0, moves_handle r _⟩
  | handle c => exact ⟨0, moves_handle r c⟩
  | process q => exact ⟨0, moves_handleAll r _⟩

def perform (r : Renderer) (os : List Operation) : Renderer := os.foldl (fun r o ↦ o.apply r) r

theorem exists_moves_perform (r : Renderer) (os : List Operation) :
    ∃ n, Moves n r (r.perform os) := by
  induction os generalizing r with
  | nil => exact ⟨0, .refl r⟩
  | cons o os ih =>
    obtain ⟨m, hm⟩ := exists_moves_apply o r
    obtain ⟨n, hn⟩ := ih (o.apply r)
    exact ⟨m + n, hm.trans hn⟩

end Polyphony.Renderer
