import Mathlib.Tactic

/-! A first-in first-out queue of at most `cap` items, as a list that carries
its bound. This is the abstract reading of a bounded buffer: which items an
operation takes in or gives out, with no word about where they are kept. -/

/-- At most `cap` items, oldest first. -/
structure BoundedQueue (α : Type*) (cap : ℕ) where
  items : List α
  length_le : items.length ≤ cap

namespace BoundedQueue

variable {α : Type*} {cap : ℕ}

def empty : BoundedQueue α cap := ⟨[], Nat.zero_le _⟩

/-- How many more items fit. -/
def room (q : BoundedQueue α cap) : ℕ := cap - q.items.length

/-- Take in the items of `xs` that fit, oldest first. -/
def offer (q : BoundedQueue α cap) (xs : List α) : BoundedQueue α cap where
  items := q.items ++ xs.take q.room
  length_le := by
    have := q.length_le
    simp only [List.length_append, List.length_take, room]
    omega

/-- The first `n` items, which stay. -/
def front (q : BoundedQueue α cap) (n : ℕ) : List α := q.items.take n

/-- Give up the first `n` items. -/
def drop (q : BoundedQueue α cap) (n : ℕ) : BoundedQueue α cap where
  items := q.items.drop n
  length_le := by
    have := q.length_le
    simp only [List.length_drop]
    omega

end BoundedQueue
