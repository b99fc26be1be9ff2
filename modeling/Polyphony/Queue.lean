namespace Polyphony

structure Queue (α : Type) where
  capacity : Nat
  /-- Oldest first. -/
  items : List α := []
  fits : items.length ≤ capacity := by simp

namespace Queue

variable {α : Type}

def ofCapacity (n : Nat) : Queue α := ⟨n, [], Nat.zero_le n⟩

def isFull (q : Queue α) : Bool := q.items.length = q.capacity

/-- Appends an item; a full queue refuses it. -/
def push? (q : Queue α) (a : α) : Option (Queue α) :=
  if h : q.items.length < q.capacity then
    some ⟨q.capacity, q.items ++ [a], by rw [List.length_append]; exact h⟩
  else none

def offer (q : Queue α) (a : α) : Queue α := (q.push? a).getD q

def drain (q : Queue α) : List α × Queue α := (q.items, ofCapacity q.capacity)

end Queue

end Polyphony
