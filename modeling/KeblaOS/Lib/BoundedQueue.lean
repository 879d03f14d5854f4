import Mathlib.Tactic.SplitIfs

/-!
# Bounded queues

A first-in first-out queue with a capacity. A full queue makes room for a new element by
dropping its oldest one. The capacity bound is part of the type.
-/

namespace KeblaOS

variable {α : Type*} {capacity : Nat}

/-- At most `capacity` elements, the oldest one first. -/
structure BoundedQueue (α : Type*) (capacity : Nat) where
  elements : List α
  bounded : elements.length ≤ capacity

namespace BoundedQueue

/-- The queue without elements. -/
def empty : BoundedQueue α capacity := ⟨[], Nat.zero_le _⟩

/-- What a push keeps: all elements, or all but the oldest one of a full queue. -/
def kept (queue : BoundedQueue α capacity) : List α :=
  if queue.elements.length = capacity then queue.elements.tail else queue.elements

/-- A queue with room for an element has a place behind the elements it keeps. -/
theorem length_kept_lt (positive : 0 < capacity) (queue : BoundedQueue α capacity) :
    queue.kept.length < capacity := by
  have bounded := queue.bounded
  unfold kept
  split_ifs with full
  · rw [List.length_tail]
    omega
  · omega

/-- A new element behind the kept ones. -/
def push (positive : 0 < capacity) (queue : BoundedQueue α capacity) (element : α) : BoundedQueue α capacity where
  elements := queue.kept ++ [element]
  bounded := by
    have room := queue.length_kept_lt positive
    rw [List.length_append, List.length_singleton]
    omega

/-- Elements pushed one after the other. -/
def pushAll (positive : 0 < capacity) (queue : BoundedQueue α capacity) (elements : List α) : BoundedQueue α capacity :=
  elements.foldl (push positive) queue

/-- The queue behind its oldest element. -/
def rest (queue : BoundedQueue α capacity) : BoundedQueue α capacity where
  elements := queue.elements.tail
  bounded := by
    have bounded := queue.bounded
    rw [List.length_tail]
    omega

/-- A queue with room for all of the new elements keeps everything. -/
theorem elements_pushAll (positive : 0 < capacity) (queue : BoundedQueue α capacity) (elements : List α)
    (room : queue.elements.length + elements.length ≤ capacity) :
    (queue.pushAll positive elements).elements = queue.elements ++ elements := by
  induction elements generalizing queue with
  | nil => exact (List.append_nil _).symm
  | cons element elements ih =>
      rw [List.length_cons] at room
      have pushed : (queue.push positive element).elements = queue.elements ++ [element] := by
        show queue.kept ++ [element] = _
        rw [kept, if_neg (by omega)]
      have rest := ih (queue.push positive element) (by
        rw [pushed, List.length_append, List.length_singleton]
        omega)
      rw [pushed, List.append_assoc, List.singleton_append] at rest
      exact rest

/-- Two queues with the same elements are the same. -/
@[ext] theorem ext {first second : BoundedQueue α capacity} (same : first.elements = second.elements) :
    first = second := by
  cases first
  cases second
  simpa using same

end BoundedQueue

/-- Calls on a queue with what they return: a pop returns the oldest element if there is one. -/
inductive QueueEvent (α : Type*) where
  | push (element : α)
  | pop (result : Option α)

/-- One call on a queue. -/
def QueueStep (positive : 0 < capacity) (queue : BoundedQueue α capacity) :
    QueueEvent α → BoundedQueue α capacity → Prop
  | .push element, next => next = queue.push positive element
  | .pop result, next => result = queue.elements.head? ∧ next = queue.rest

end KeblaOS
