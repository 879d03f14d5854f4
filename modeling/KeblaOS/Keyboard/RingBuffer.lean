import Mathlib.Data.Nat.ModEq
import Mathlib.Data.List.Basic
import KeblaOS.Lib.BoundedQueue
import KeblaOS.Lib.Run

/-!
# The ring buffer of the keyboard driver

`ring_buffer.c`. The buffer is a list of bytes of the length that was allocated; `head` and
`tail` are `size_t` indices into it. When they are equal, `full` tells a full buffer from an
empty one. `Cells` is the part of the representation that does not look at `full`.
-/

namespace KeblaOS.Keyboard

/-- `ring_buffer_t`. -/
structure RingBuffer where
  buffer : List UInt8
  head : UInt64
  tail : UInt64
  max : UInt64
  full : Bool
deriving DecidableEq

/-- `ring_buffer_init`, with the block `kheap_alloc` returned for the bytes. -/
def ringBufferInit (buffer : List UInt8) (capacity : UInt64) : RingBuffer where
  buffer := buffer
  head := 0
  tail := 0
  max := capacity
  full := false

/-- `is_ring_buffer_empty`. -/
def isRingBufferEmpty (rb : RingBuffer) : Bool := !rb.full && rb.head == rb.tail

/-- `is_ring_buffer_full`. -/
def isRingBufferFull (rb : RingBuffer) : Bool := rb.full

/-- `advance_pointer`. -/
def advancePointer (rb : RingBuffer) : RingBuffer :=
  let tail := if rb.full then (rb.tail + 1) % rb.max else rb.tail
  let head := (rb.head + 1) % rb.max
  { rb with tail := tail, head := head, full := head == tail }

/-- `retreat_pointer`. -/
def retreatPointer (rb : RingBuffer) : RingBuffer :=
  { rb with full := false, tail := (rb.tail + 1) % rb.max }

/-- `ring_buffer_push`. -/
def ringBufferPush (rb : RingBuffer) (data : UInt8) : RingBuffer :=
  advancePointer { rb with buffer := rb.buffer.set rb.head.toNat data }

/-- `rb->buffer[rb->tail]`. -/
def tailByte (rb : RingBuffer) : UInt8 := rb.buffer.getD rb.tail.toNat 0

/-- `ring_buffer_pop`: the byte it stores, or nothing when it returns `-1`. -/
def ringBufferPop (rb : RingBuffer) : Option UInt8 × RingBuffer :=
  if isRingBufferEmpty rb then (none, rb) else (some (tailByte rb), retreatPointer rb)

/-! ## Representation -/

/-- The bytes from `tail` on are those of the queue, with `head` behind them. -/
structure RingBuffer.Cells (rb : RingBuffer) (queue : List UInt8) : Prop where
  size : rb.buffer.length = rb.max.toNat
  room : queue.length ≤ rb.max.toNat
  tail : rb.tail.toNat < rb.max.toNat
  head : rb.head.toNat = (rb.tail.toNat + queue.length) % rb.max.toNat
  cells : ∀ i < queue.length, rb.buffer[(rb.tail.toNat + i) % rb.max.toNat]? = queue[i]?

/-- In addition the flag says whether the buffer is full. -/
structure RingBuffer.Holds (rb : RingBuffer) (queue : List UInt8) : Prop extends rb.Cells queue where
  full : rb.full = true ↔ queue.length = rb.max.toNat

/-- Positions less than a turn apart are different slots. -/
theorem slot_ne {tail max i j : Nat} (before : i < j) (turn : j < i + max) : (tail + i) % max ≠ (tail + j) % max := by
  intro same
  have congruent : i ≡ j [MOD max] := Nat.ModEq.add_left_cancel' tail same
  have turns := Nat.le_of_dvd (by omega) ((Nat.modEq_iff_dvd' before.le).mp congruent)
  omega

/-- An index of the buffer does not overflow when it is advanced. -/
theorem toNat_advance {index max : UInt64} (inside : index.toNat < max.toNat) :
    ((index + 1) % max).toNat = (index.toNat + 1) % max.toNat := by
  have bounded := max.toNat_lt
  rw [UInt64.toNat_mod, UInt64.toNat_add, UInt64.toNat_one]
  congr 1
  omega

namespace RingBuffer.Cells

variable {rb : RingBuffer} {queue : List UInt8} {data : UInt8}

theorem max_pos (cells : rb.Cells queue) : 0 < rb.max.toNat := Nat.zero_lt_of_lt cells.tail

theorem head_lt (cells : rb.Cells queue) : rb.head.toNat < rb.max.toNat := by
  rw [cells.head]
  exact Nat.mod_lt _ cells.max_pos

/-- The indices are equal when the buffer holds nothing or all it can. -/
theorem head_eq_tail_iff (cells : rb.Cells queue) :
    rb.head = rb.tail ↔ queue = [] ∨ queue.length = rb.max.toNat := by
  have room := cells.room
  have tail := cells.tail
  rw [← UInt64.toNat_inj, cells.head]
  constructor
  · intro same
    by_contra other
    push Not at other
    have some : 0 < queue.length := List.length_pos_iff.mpr other.1
    have start : (rb.tail.toNat + 0) % rb.max.toNat = rb.tail.toNat := by
      rw [Nat.add_zero, Nat.mod_eq_of_lt tail]
    exact slot_ne some (by omega) (start.trans same.symm)
  · rintro (rfl | all)
    · rw [List.length_nil, Nat.add_zero, Nat.mod_eq_of_lt tail]
    · rw [all, Nat.add_mod_right, Nat.mod_eq_of_lt tail]

/-- The oldest byte is at `tail`. -/
theorem tailByte_eq (cells : rb.Cells (data :: queue)) : tailByte rb = data := by
  have first := cells.cells 0 (by simp)
  rw [Nat.add_zero, Nat.mod_eq_of_lt cells.tail] at first
  rw [tailByte, List.getD_eq_getElem?_getD, first]
  rfl

/-- Moving `tail` gives up the oldest byte. -/
theorem drop (cells : rb.Cells (data :: queue)) (full : Bool) :
    RingBuffer.Cells { rb with tail := (rb.tail + 1) % rb.max, full := full } queue := by
  have room := cells.room
  have next := toNat_advance cells.tail
  rw [List.length_cons] at room
  have shifted : ∀ i, ((rb.tail + 1) % rb.max).toNat + i = (rb.tail.toNat + 1) % rb.max.toNat + i := by
    intro i
    rw [next]
  refine ⟨cells.size, by dsimp only; omega, ?_, ?_, fun i inside => ?_⟩
  · dsimp only
    rw [next]
    exact Nat.mod_lt _ cells.max_pos
  · dsimp only
    rw [cells.head, shifted, Nat.mod_add_mod, List.length_cons]
    congr 1
    omega
  · have moved := cells.cells (i + 1) (by rw [List.length_cons]; omega)
    rw [List.getElem?_cons_succ] at moved
    dsimp only
    rw [shifted, Nat.mod_add_mod, ← moved]
    congr 2
    omega

/-- A byte stored at `head` is the newest one, if there is room for it. -/
theorem append (cells : rb.Cells queue) (space : queue.length < rb.max.toNat) (data : UInt8) (full : Bool) :
    RingBuffer.Cells { rb with buffer := rb.buffer.set rb.head.toNat data, head := (rb.head + 1) % rb.max, full := full }
      (queue ++ [data]) := by
  have next := toNat_advance cells.head_lt
  refine ⟨by simpa using cells.size, by simpa using Nat.succ_le_of_lt space, cells.tail, ?_, fun i inside => ?_⟩
  · dsimp only
    rw [next, cells.head, Nat.mod_add_mod, List.length_append, List.length_singleton, Nat.add_assoc]
  · dsimp only
    rw [List.length_append, List.length_singleton] at inside
    by_cases old : i < queue.length
    · have different : rb.head.toNat ≠ (rb.tail.toNat + i) % rb.max.toNat := by
        rw [cells.head]
        exact (slot_ne old (by omega)).symm
      rw [List.getElem?_set_ne different, cells.cells i old, List.getElem?_append_left old]
    · obtain rfl : i = queue.length := by omega
      have here : rb.head.toNat < rb.buffer.length := by
        rw [cells.size]
        exact cells.head_lt
      rw [← cells.head, List.getElem?_set_self here]
      simp

end RingBuffer.Cells

namespace RingBuffer.Holds

variable {rb : RingBuffer} {queue : List UInt8}

theorem isRingBufferEmpty_iff (holds : rb.Holds queue) : isRingBufferEmpty rb = true ↔ queue = [] := by
  have positive := holds.max_pos
  have same := holds.toCells.head_eq_tail_iff
  rw [isRingBufferEmpty, Bool.and_eq_true, Bool.not_eq_true', beq_iff_eq, same]
  constructor
  · rintro ⟨notFull, none | all⟩
    · exact none
    · rw [holds.full.mpr all] at notFull
      exact absurd notFull (by decide)
  · rintro rfl
    refine ⟨?_, .inl rfl⟩
    rw [← Bool.not_eq_true, holds.full, List.length_nil]
    omega

/-- A push keeps the queue, without its oldest byte if it was full, and adds the byte. -/
theorem push (holds : rb.Holds queue) (data : UInt8) :
    (ringBufferPush rb data).Holds ((if queue.length = rb.max.toNat then queue.tail else queue) ++ [data]) := by
  have positive := holds.max_pos
  -- the flag compares the new indices, and the queue is not empty behind the push
  have flag : ∀ {rb' : RingBuffer} {kept : List UInt8}, rb'.Cells (kept ++ [data]) →
      ((rb'.head == rb'.tail) = true ↔ (kept ++ [data]).length = rb'.max.toNat) := by
    intro rb' kept cells
    rw [beq_iff_eq, cells.head_eq_tail_iff]
    simp
  unfold ringBufferPush advancePointer
  by_cases all : queue.length = rb.max.toNat
  · have isFull : rb.full = true := holds.full.mpr all
    obtain ⟨oldest, rest, rfl⟩ := List.exists_cons_of_length_pos (by omega : 0 < queue.length)
    have room : rest.length < rb.max.toNat := by
      rw [List.length_cons] at all
      omega
    have appended := (holds.toCells.drop true).append room data ((rb.head + 1) % rb.max == (rb.tail + 1) % rb.max)
    simp only [isFull, if_true, if_pos all, List.tail_cons]
    exact ⟨appended, flag appended⟩
  · have notFull : rb.full = false := by
      rw [← Bool.not_eq_true, holds.full]
      exact all
    have room : queue.length < rb.max.toNat := Nat.lt_of_le_of_ne holds.room all
    have appended := holds.toCells.append room data ((rb.head + 1) % rb.max == rb.tail)
    simp only [notFull, Bool.false_eq_true, if_false, if_neg all]
    exact ⟨appended, flag appended⟩

/-- A pop returns the oldest byte and gives it up. -/
theorem pop (holds : rb.Holds queue) :
    (ringBufferPop rb).1 = queue.head? ∧ (ringBufferPop rb).2.Holds queue.tail := by
  unfold ringBufferPop
  cases queue with
  | nil =>
      rw [if_pos (holds.isRingBufferEmpty_iff.mpr rfl)]
      exact ⟨rfl, holds⟩
  | cons oldest rest =>
      have room := holds.room
      rw [if_neg (by rw [holds.isRingBufferEmpty_iff]; simp)]
      refine ⟨by rw [holds.toCells.tailByte_eq]; rfl, holds.toCells.drop false, ?_⟩
      rw [List.length_cons] at room
      simp only [retreatPointer, List.tail_cons, Bool.false_eq_true, false_iff]
      omega

end RingBuffer.Holds

/-! ## Runs -/

/-- One call on the ring buffer. -/
def RingStep (rb : RingBuffer) : QueueEvent UInt8 → RingBuffer → Prop
  | .push data, next => next = ringBufferPush rb data
  | .pop result, next => (result, next) = ringBufferPop rb

/-- The calls leave the capacity alone. -/
theorem ringBufferPush_max (rb : RingBuffer) (data : UInt8) : (ringBufferPush rb data).max = rb.max := rfl

theorem ringBufferPop_max (rb : RingBuffer) : (ringBufferPop rb).2.max = rb.max := by
  unfold ringBufferPop
  split <;> rfl

/-- A new ring buffer holds nothing. -/
theorem ringBufferInit_holds {buffer : List UInt8} {capacity : UInt64} (positive : 0 < capacity.toNat)
    (allocated : buffer.length = capacity.toNat) : (ringBufferInit buffer capacity).Holds [] where
  size := allocated
  room := Nat.zero_le _
  tail := positive
  head := by simp [ringBufferInit]
  full := by
    simp only [ringBufferInit, List.length_nil, Bool.false_eq_true, false_iff]
    omega
  cells i impossible := absurd impossible (Nat.not_lt_zero i)

/-- The ring buffer holds a queue of its capacity. -/
structure RingBuffer.Represents {capacity : Nat} (rb : RingBuffer) (queue : BoundedQueue UInt8 capacity) : Prop where
  holds : rb.Holds queue.elements
  capacity : rb.max.toNat = capacity

/-- Every call does to the ring buffer what it does to the queue. -/
theorem RingBuffer.Represents.step {capacity : Nat} {positive : 0 < capacity} {rb next : RingBuffer}
    {queue : BoundedQueue UInt8 capacity} {event : QueueEvent UInt8} (represents : rb.Represents queue)
    (taken : RingStep rb event next) : ∃ queue', QueueStep positive queue event queue' ∧ next.Represents queue' := by
  cases event with
  | push data =>
      obtain rfl : next = ringBufferPush rb data := taken
      refine ⟨queue.push positive data, rfl, ?_, represents.capacity⟩
      have pushed := represents.holds.push data
      rw [represents.capacity] at pushed
      exact pushed
  | pop result =>
      obtain ⟨returned, holds⟩ := represents.holds.pop
      have max := ringBufferPop_max rb
      have outcome : (result, next) = ringBufferPop rb := taken
      rw [← outcome] at returned holds max
      refine ⟨queue.rest, ⟨returned, rfl⟩, holds, ?_⟩
      rw [max]
      exact represents.capacity

/-- Every run of calls on a new ring buffer is a run of a bounded queue with the same results,
and the two tests tell when the queue is empty and when it is full. -/
theorem ringBuffer_run_refines_queue {buffer : List UInt8} {capacity : UInt64} (positive : 0 < capacity.toNat)
    (allocated : buffer.length = capacity.toNat) {rb : RingBuffer} {trace : List (QueueEvent UInt8)}
    (run : Run RingStep (ringBufferInit buffer capacity) trace rb) :
    ∃ queue : BoundedQueue UInt8 capacity.toNat, Run (QueueStep positive) .empty trace queue ∧
      (isRingBufferEmpty rb = true ↔ queue.elements = []) ∧
      (isRingBufferFull rb = true ↔ queue.elements.length = capacity.toNat) ∧
      (ringBufferPop rb).1 = queue.elements.head? := by
  obtain ⟨queue, abstract, represents⟩ := run.simulation
    (fun rb (queue : BoundedQueue UInt8 capacity.toNat) => rb.Represents queue)
    (show (ringBufferInit buffer capacity).Represents .empty from
      ⟨ringBufferInit_holds positive allocated, rfl⟩)
    fun represents taken => represents.step taken
  have flag := represents.holds.full
  have size := represents.capacity
  exact ⟨queue, abstract, represents.holds.isRingBufferEmpty_iff, by simp only [isRingBufferFull, flag, size],
    represents.holds.pop.1⟩

/-- Three bytes pushed into a ring buffer for two: the first one is dropped. -/
theorem ringBuffer_run_refines_queue_two :
    ∃ rb, Run RingStep (ringBufferInit [0, 0] 2) [.push 1, .push 2, .push 3, .pop (some 2)] rb ∧
      ∃ queue : BoundedQueue UInt8 2, Run (QueueStep (by decide)) .empty [.push 1, .push 2, .push 3, .pop (some 2)]
        queue := by
  have run : Run RingStep (ringBufferInit [0, 0] 2) [.push 1, .push 2, .push 3, .pop (some 2)] ⟨[3, 2], 1, 0, 2, false⟩ :=
    .snoc (.snoc (.snoc (.snoc .nil rfl) rfl) rfl) (show (some 2, _) = ringBufferPop _ from by decide)
  obtain ⟨queue, abstract, _⟩ := ringBuffer_run_refines_queue (by decide) (by decide) run
  exact ⟨_, run, queue, abstract⟩

end KeblaOS.Keyboard
