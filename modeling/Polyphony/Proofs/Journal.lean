import Mathlib.Data.List.Basic
import Mathlib.Data.List.Induction
import Mathlib.Tactic.SplitIfs
import Polyphony.Journal

namespace Polyphony

/-- The `n` items of a list that came last, or all of them where there are fewer. -/
structure Newest {α : Type} (n : ℕ) (xs ys : List α) : Prop where
  suffix : ys <:+ xs
  length : ys.length = min n xs.length

namespace Newest

variable {α : Type} {m n : ℕ} {xs ys zs : List α}

theorem drop (n : ℕ) (xs : List α) : Newest n xs (xs.drop (xs.length - n)) :=
  ⟨xs.drop_suffix _, by rw [List.length_drop]; omega⟩

theorem trans (h : Newest m xs ys) (h' : Newest n ys zs) : Newest (min n m) xs zs := by
  refine ⟨h'.suffix.trans h.suffix, ?_⟩
  rw [h'.length, h.length, Nat.min_assoc]

theorem snoc (h : Newest n xs ys) (hn : 0 < n) (x : α) :
    Newest n (xs ++ [x]) ((if ys.length = n then ys.drop 1 else ys) ++ [x]) := by
  have hlen := h.length
  have hkept : (if ys.length = n then ys.drop 1 else ys) <:+ xs := by
    split_ifs
    · exact (ys.drop_suffix 1).trans h.suffix
    · exact h.suffix
  refine ⟨?_, ?_⟩
  · obtain ⟨front, hfront⟩ := hkept
    exact ⟨front, by rw [← hfront, List.append_assoc]⟩
  · simp only [List.length_append, List.length_singleton]
    split_ifs with hfull
    · rw [List.length_drop]
      omega
    · omega

end Newest

namespace Journal

inductive Call
  | note (r : Record)
  | limitTo (limit : Option Level)
  | flush
  | recent (count : ℕ)

namespace Call

def apply (j : Journal) : Call → Journal
  | note r => j.note r
  | limitTo limit => { j with limit }
  | flush => j
  | recent _ => j

def record? : Call → Option Record
  | note r => some r
  | _ => none

def limit? : Call → Option (Option Level)
  | limitTo limit => some limit
  | _ => none

end Call

def run (j : Journal) (calls : List Call) : Journal := calls.foldl Call.apply j

def limitAfter (limit : Option Level) (calls : List Call) : Option Level :=
  (calls.filterMap Call.limit?).getLastD limit

/-- A limit lets through what is at least as grave, and no limit at all nothing. -/
def passes (limit : Option Level) (r : Record) : Bool := r.level.rank ≤ limit.elim 0 Level.rank

def admittedAt (limit : Option Level) (calls : List Call) (x : Call × ℕ) : Option Record :=
  x.1.record?.filter (passes (limitAfter limit (calls.take x.2)))

def admitted (limit : Option Level) (calls : List Call) : List Record :=
  calls.zipIdx.filterMap (admittedAt limit calls)

theorem run_append (j : Journal) (xs ys : List Call) : j.run (xs ++ ys) = (j.run xs).run ys :=
  List.foldl_append

theorem rank_pos (l : Level) : 0 < l.rank := by
  cases l <;> decide

theorem admits_eq (j : Journal) (r : Record) : j.admits r.level = passes j.limit r := by
  rw [admits, passes]
  cases j.limit with
  | none => simp [rank_pos, Nat.ne_of_gt]
  | some limit => rfl

theorem limitAfter_append (limit : Option Level) (calls : List Call) (c : Call) :
    limitAfter limit (calls ++ [c]) = c.limit?.getD (limitAfter limit calls) := by
  rw [limitAfter, List.filterMap_append]
  cases c <;> simp [Call.limit?, limitAfter]

theorem admitted_append (limit : Option Level) (calls : List Call) (c : Call) :
    admitted limit (calls ++ [c]) =
      admitted limit calls ++ (c.record?.filter (passes (limitAfter limit calls))).toList := by
  have hfront : calls.zipIdx.filterMap (admittedAt limit (calls ++ [c])) =
      admitted limit calls := by
    refine List.filterMap_congr fun x hx ↦ ?_
    have hlt := List.snd_lt_of_mem_zipIdx hx
    rw [admittedAt, admittedAt, List.take_append_of_le_length (by omega)]
  have hlast : admittedAt limit (calls ++ [c]) (c, calls.length) =
      c.record?.filter (passes (limitAfter limit calls)) := by
    rw [admittedAt, List.take_left]
  rw [admitted, List.zipIdx_append, List.filterMap_append, hfront, Nat.zero_add,
    List.zipIdx_singleton, List.filterMap_cons, hlast]
  cases c.record?.filter (passes (limitAfter limit calls)) <;> rfl

/-- What a run keeps: the limit that was set last, and the newest of the records let through. -/
structure Keeps (limit : Option Level) (calls : List Call) (j : Journal) : Prop where
  limit_eq : j.limit = limitAfter limit calls
  newest : Newest capacity (admitted limit calls) j.lines

variable {limit : Option Level} {calls : List Call} {j : Journal}

theorem Keeps.note (h : Keeps limit calls j) (r : Record) :
    Keeps limit (calls ++ [.note r]) (j.note r) := by
  have hlimit : j.limit = limitAfter limit (calls ++ [.note r]) := by
    rw [limitAfter_append]
    exact h.limit_eq
  have hadmitted := admitted_append limit calls (.note r)
  rw [Call.record?, Option.filter_some] at hadmitted
  have hadmits := admits_eq j r
  rw [h.limit_eq] at hadmits
  rw [Journal.note, hadmits]
  by_cases hpass : passes (limitAfter limit calls) r
  · rw [if_pos hpass] at hadmitted ⊢
    refine ⟨hlimit, ?_⟩
    rw [hadmitted]
    exact h.newest.snoc (by decide) r
  · rw [if_neg hpass] at hadmitted ⊢
    refine ⟨hlimit, ?_⟩
    rw [hadmitted]
    simpa using h.newest

theorem Keeps.of_lines (h : Keeps limit calls j) {c : Call} (hc : c.record? = none)
    (hlines : (c.apply j).lines = j.lines)
    (hlimit : (c.apply j).limit = c.limit?.getD j.limit) :
    Keeps limit (calls ++ [c]) (c.apply j) := by
  refine ⟨?_, ?_⟩
  · rw [hlimit, limitAfter_append, h.limit_eq]
  · rw [admitted_append, hc, hlines]
    simpa using h.newest

theorem Keeps.apply (h : Keeps limit calls j) (c : Call) :
    Keeps limit (calls ++ [c]) (c.apply j) := by
  cases c with
  | note r => exact h.note r
  | limitTo limit => exact h.of_lines rfl rfl rfl
  | flush => exact h.of_lines rfl rfl rfl
  | recent count => exact h.of_lines rfl rfl rfl

theorem keeps_run (limit : Option Level) (calls : List Call) :
    Keeps limit calls (run ⟨limit, []⟩ calls) := by
  induction calls using List.reverseRecOn with
  | nil => exact ⟨rfl, .drop capacity []⟩
  | append_singleton calls c ih =>
    rw [run_append]
    exact ih.apply c

/-- A journal holds the newest of the records that were let through, and shows the newest of
those. -/
theorem holds_newest (limit : Option Level) (calls : List Call) :
    let j := run ⟨limit, []⟩ calls
    Newest 64 (admitted limit calls) j.lines ∧
      ∀ k, Newest k j.lines (j.recent k) ∧
        Newest (min k 64) (admitted limit calls) (j.recent k) ∧
        run ⟨limit, []⟩ (calls ++ [.recent k]) = j := by
  intro j
  have hnewest : Newest 64 (admitted limit calls) j.lines := (keeps_run limit calls).newest
  refine ⟨hnewest, fun k ↦ ?_⟩
  have hrecent : Newest k j.lines (j.recent k) := .drop k j.lines
  exact ⟨hrecent, hnewest.trans hrecent, run_append _ _ _⟩

end Journal

end Polyphony
