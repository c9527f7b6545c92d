/-
A bounded FIFO queue: what a buffer with a fixed allocation and a limit is
for. An append is refused as a whole, for the limit first.
-/
import Mathlib.Order.Basic

/-- A queue of at most `capacity` items, and at most `limit`. -/
@[ext] structure BoundedQueue (α : Type) where
  items : List α
  capacity : Nat
  limit : Nat
  fits : items.length ≤ min capacity limit

namespace BoundedQueue

variable {α : Type}

/-- Why an append is refused. -/
inductive Refusal where
  | overLimit
  | overCapacity
  deriving DecidableEq, Repr

def length (q : BoundedQueue α) : Nat := q.items.length

/-- Whether, and why, `n` more items are refused. -/
def refusal (q : BoundedQueue α) (n : Nat) : Option Refusal :=
  if q.limit < q.length + n then some .overLimit
  else if q.capacity < q.length + n then some .overCapacity
  else none

theorem refusal_eq_none {q : BoundedQueue α} {n : Nat} :
    q.refusal n = none ↔ q.length + n ≤ min q.capacity q.limit := by
  unfold refusal
  split
  · simp only [reduceCtorEq, false_iff]; omega
  · split
    · simp only [reduceCtorEq, false_iff]; omega
    · simp only [true_iff]; omega

theorem refusal_eq_overLimit {q : BoundedQueue α} {n : Nat} :
    q.refusal n = some .overLimit ↔ q.limit < q.length + n := by
  unfold refusal
  split
  · next h => simp only [h]
  · next h => split <;> simp [h]

theorem refusal_eq_overCapacity {q : BoundedQueue α} {n : Nat} :
    q.refusal n = some .overCapacity ↔ q.length + n ≤ q.limit ∧ q.capacity < q.length + n := by
  unfold refusal
  split
  · next h => simp only [Option.some.injEq, reduceCtorEq, false_iff]; omega
  · split
    · simp only [true_iff]; omega
    · simp only [reduceCtorEq, false_iff]; omega

theorem refusal_zero (q : BoundedQueue α) : q.refusal 0 = none := refusal_eq_none.mpr q.fits

def empty (capacity limit : Nat) : BoundedQueue α := ⟨[], capacity, limit, Nat.zero_le _⟩

/-- Append `xs`, which fit. -/
def append (q : BoundedQueue α) (xs : List α) (h : q.refusal xs.length = none) : BoundedQueue α where
  items := q.items ++ xs
  capacity := q.capacity
  limit := q.limit
  fits := by rw [List.length_append]; exact refusal_eq_none.mp h

theorem append_nil {q : BoundedQueue α} {xs : List α} (h : q.refusal xs.length = none) (hxs : xs = []) :
    q.append xs h = q := by
  subst hxs
  exact BoundedQueue.ext (List.append_nil _) rfl rfl

/-- Drop `n` items from the front. -/
def drop (q : BoundedQueue α) (n : Nat) : BoundedQueue α where
  items := q.items.drop n
  capacity := q.capacity
  limit := q.limit
  fits := by rw [List.length_drop]; exact Nat.le_trans (Nat.sub_le _ _) q.fits

/-- The same items in another allocation. -/
def withCapacity (q : BoundedQueue α) (capacity : Nat) (h : q.length ≤ capacity) : BoundedQueue α where
  items := q.items
  capacity := capacity
  limit := q.limit
  fits := Nat.le_min.mpr ⟨h, Nat.le_trans q.fits (Nat.min_le_right _ _)⟩

end BoundedQueue
