import Mathlib.Logic.Function.Iterate
import Mathlib.Tactic.SplitIfs
import Polyphony.Renderer

namespace Polyphony.Renderer

def numbered (r : Renderer) : List (Event × Nat) := r.events.toList.zipIdx

theorem mem_numbered {r : Renderer} {e : Event} {i : Nat} :
    (e, i) ∈ r.numbered ↔ r.events[i]? = some e := by
  rw [numbered, List.mem_zipIdx_iff_getElem?, Array.getElem?_toList]

def due (r : Renderer) (t : Float) : List (Event × Nat) :=
  (r.numbered.drop r.cursor).takeWhile fun x ↦ x.1.entry.startTime ≤ t

/-- What `startDue` does in one go. -/
def started (r : Renderer) (t : Float) : Renderer :=
  { r with
    active := r.active ++ (r.due t).map fun x ↦ ⟨x.2, 0.0⟩
    cursor := r.cursor + (r.due t).length }

theorem drop_numbered {r : Renderer} {e : Event} (h : r.events[r.cursor]? = some e) :
    r.numbered.drop r.cursor = (e, r.cursor) :: r.numbered.drop (r.cursor + 1) := by
  obtain ⟨hlt, he⟩ := Array.getElem?_eq_some_iff.mp h
  have hlen : r.cursor < r.numbered.length := by simpa [numbered] using hlt
  rw [List.drop_eq_getElem_cons hlen]
  simp [numbered, he]

def startNext (r : Renderer) : Renderer :=
  { r with active := r.active ++ [⟨r.cursor, 0.0⟩], cursor := r.cursor + 1 }

variable {r : Renderer} {e : Event} {t : Float}

theorem started_of_due (h : r.events[r.cursor]? = some e) (hle : e.entry.startTime ≤ t) :
    r.started t = r.startNext.started t := by
  have hdue : r.due t = (e, r.cursor) :: r.startNext.due t := by
    rw [due, drop_numbered h, List.takeWhile_cons_of_pos (by simpa using hle)]
    rfl
  simp [started, startNext, hdue, Nat.add_assoc, Nat.add_comm 1]

theorem started_of_due_eq_nil (h : r.due t = []) : r.started t = r := by
  simp [started, h]

theorem due_of_not_due (h : r.events[r.cursor]? = some e) (hle : ¬ e.entry.startTime ≤ t) :
    r.due t = [] := by
  rw [due, drop_numbered h, List.takeWhile_cons_of_neg (by simpa using hle)]

theorem due_of_size_le (h : r.events.size ≤ r.cursor) : r.due t = [] := by
  rw [due, List.drop_eq_nil_of_le (by simpa [numbered] using h), List.takeWhile_nil]

theorem startDue_eq (t : Float) (n : Nat) (r : Renderer) (hn : r.events.size - r.cursor ≤ n) :
    startDue t n r = r.started t := by
  induction n generalizing r with
  | zero =>
    have hdue : r.due t = [] := due_of_size_le (by omega)
    exact (started_of_due_eq_nil hdue).symm
  | succ n ih =>
    rw [startDue]
    split
    · next h =>
      rw [Array.getElem?_eq_none_iff] at h
      exact (started_of_due_eq_nil (due_of_size_le h)).symm
    · next e h =>
      split_ifs with hle
      · rw [started_of_due h hle]
        exact ih r.startNext (by simp only [startNext]; omega)
      · exact (started_of_due_eq_nil (due_of_not_due h hle)).symm

/-- An oscillator goes on while its event is there and not past its finish. -/
def alive (events : Array Event) (t : Float) (o : Oscillator) : Bool :=
  match events[o.event]? with
  | none => false
  | some e => !decide (e.entry.finishTime < t)

variable [Elementary]

def voiced (events : Array Event) (t : Float) (o : Oscillator) : Float32 :=
  match events[o.event]? with
  | none => 0.0
  | some e => contribution e.entry o.phase t

def advanced (events : Array Event) (step : Float) (o : Oscillator) : Oscillator :=
  match events[o.event]? with
  | none => o
  | some e => { o with phase := nextPhase e.entry step o.phase }

theorem mix_eq (events : Array Event) (t step : Float) (os : List Oscillator) (sum : Float32) :
    mix events t step os sum =
      (((os.filter (alive events t)).map (voiced events t)).foldl (· + ·) sum,
        (os.filter (alive events t)).map (advanced events step)) := by
  induction os generalizing sum with
  | nil => rfl
  | cons o os ih =>
    rw [mix]
    split
    · next h => rw [ih, List.filter_cons_of_neg (by simp [alive, h])]
    · next e h =>
      split_ifs with hlt
      · rw [ih, List.filter_cons_of_neg (by simp [alive, h, hlt])]
      · rw [ih, List.filter_cons_of_pos (by simp [alive, h, hlt])]
        simp [voiced, advanced, h]

def advance (r : Renderer) : Renderer := r.frame.2

def sampleAt (r : Renderer) (k : Nat) : Float32 := (advance^[k] r).frame.1

theorem sampleAt_advance (r : Renderer) : r.advance.sampleAt = fun k ↦ r.sampleAt (k + 1) := rfl

theorem frame_eq (r : Renderer) :
    let s := r.started r.time
    let os := s.active.filter (alive r.events r.time)
    r.frame = (clip ((os.map (voiced r.events r.time)).foldl (· + ·) 0.0 * r.gain),
      { s with
        active := os.map (advanced r.events (1.0 / r.sampleRate))
        frames := r.frames + 1 }) := by
  rw [frame, startDue_eq _ _ _ (Nat.le_refl _), mix_eq]
  rfl

theorem play_eq (n : Nat) (r : Renderer) (out : Array Float32) :
    play n r out = (out ++ ((List.range n).map r.sampleAt).toArray, advance^[n] r) := by
  induction n generalizing r out with
  | zero => simp [play]
  | succ n ih =>
    have hstep : play (n + 1) r out = play n r.advance (out.push (r.sampleAt 0)) := rfl
    rw [hstep, ih, List.range_succ_eq_map, Function.iterate_succ_apply]
    simp [sampleAt_advance, Function.comp_def]

theorem block_running {r : Renderer} (h : r.transport = .running) (n : Nat) :
    r.block n = (((List.range n).map r.sampleAt).toArray, advance^[n] r) := by
  rw [block, if_pos h, play_eq, Array.empty_append]

end Polyphony.Renderer
