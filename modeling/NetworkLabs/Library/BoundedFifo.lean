import Mathlib

/-!
# Bounded queues with their history

A `BoundedFifo α` is a first-in first-out queue of at most `capacity` elements
that remembers everything ever put into it: the elements still queued are the
part of `written` from `readCount` on. Both bounds are fields, so an overfull
queue cannot be built. A writer is handed as much room as there is, and a
reader as many elements as there are.
-/

/-- A queue of bounded length, together with all that was ever written. -/
structure BoundedFifo (α : Type*) where
  capacity : ℕ
  written : List α
  readCount : ℕ
  readCount_le : readCount ≤ written.length
  length_le : written.length ≤ readCount + capacity

namespace BoundedFifo

variable {α : Type*}

/-- The queue into which nothing was written. -/
def empty (capacity : ℕ) : BoundedFifo α where
  capacity := capacity
  written := []
  readCount := 0
  readCount_le := le_rfl
  length_le := Nat.zero_le _

/-- The number of elements that are queued. -/
def size (q : BoundedFifo α) : ℕ := q.written.length - q.readCount

/-- The number of elements that can still be written. -/
def room (q : BoundedFifo α) : ℕ := q.capacity - q.size

/-- The elements that are queued, the oldest first. -/
def content (q : BoundedFifo α) : List α := q.written.drop q.readCount

theorem size_le (q : BoundedFifo α) : q.size ≤ q.capacity := by
  have h := q.length_le
  rw [size]
  omega

theorem size_add_readCount (q : BoundedFifo α) :
    q.size + q.readCount = q.written.length := by
  have h := q.readCount_le
  rw [size]
  omega

theorem room_add_size (q : BoundedFifo α) : q.room + q.size = q.capacity := by
  have h := q.size_le
  rw [room]
  omega

@[simp] theorem length_content (q : BoundedFifo α) : q.content.length = q.size := by
  simp [content, size]

/-- Writing `xs`: the elements that find room are queued. -/
def push (q : BoundedFifo α) (xs : List α) : BoundedFifo α where
  capacity := q.capacity
  written := q.written ++ xs.take q.room
  readCount := q.readCount
  readCount_le := by
    have h := q.readCount_le
    rw [List.length_append]
    omega
  length_le := by
    have h := q.room_add_size
    have h' := q.size_add_readCount
    rw [List.length_append, List.length_take]
    omega

/-- Removing the oldest `n` elements, or all when there are fewer. -/
def pop (q : BoundedFifo α) (n : ℕ) : BoundedFifo α where
  capacity := q.capacity
  written := q.written
  readCount := q.readCount + min q.size n
  readCount_le := by
    have h := q.size_add_readCount
    omega
  length_le := by
    have h := q.length_le
    omega

@[simp] theorem written_empty (n : ℕ) : (empty n : BoundedFifo α).written = [] := rfl

@[simp] theorem readCount_empty (n : ℕ) : (empty n : BoundedFifo α).readCount = 0 := rfl

@[simp] theorem capacity_empty (n : ℕ) : (empty n : BoundedFifo α).capacity = n := rfl

@[simp] theorem capacity_push (q : BoundedFifo α) (xs : List α) :
    (q.push xs).capacity = q.capacity := rfl

@[simp] theorem written_push (q : BoundedFifo α) (xs : List α) :
    (q.push xs).written = q.written ++ xs.take q.room := rfl

@[simp] theorem readCount_push (q : BoundedFifo α) (xs : List α) :
    (q.push xs).readCount = q.readCount := rfl

@[simp] theorem capacity_pop (q : BoundedFifo α) (n : ℕ) :
    (q.pop n).capacity = q.capacity := rfl

@[simp] theorem written_pop (q : BoundedFifo α) (n : ℕ) :
    (q.pop n).written = q.written := rfl

@[simp] theorem readCount_pop (q : BoundedFifo α) (n : ℕ) :
    (q.pop n).readCount = q.readCount + min q.size n := rfl

theorem length_written_push (q : BoundedFifo α) (xs : List α) :
    (q.push xs).written.length = q.written.length + min xs.length q.room := by
  rw [written_push, List.length_append, List.length_take, Nat.min_comm]

/-- What was taken out so far, followed by what is queued, is all that was
written. -/
theorem take_append_content (q : BoundedFifo α) :
    q.written.take q.readCount ++ q.content = q.written :=
  List.take_append_drop _ _

/-- A reader of `n` elements extends what was taken out by the oldest `n`. -/
theorem take_readCount_pop (q : BoundedFifo α) (n : ℕ) :
    (q.pop n).written.take (q.pop n).readCount =
      q.written.take q.readCount ++ q.content.take n := by
  have hsize : q.content.take (min q.size n) = q.content.take n := by
    rw [← length_content, Nat.min_comm, ← List.take_eq_take_min]
  rw [written_pop, readCount_pop, List.take_add, ← hsize, content]

end BoundedFifo
