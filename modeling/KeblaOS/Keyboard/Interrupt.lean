import KeblaOS.Keyboard.RingBuffer

/-!
# Interrupted pops

The keyboard interrupt pushes a byte while the read system call may be inside
`ring_buffer_pop`. A pop is taken apart into the test for an empty buffer, the read of the
byte and the two assignments of `retreat_pointer`; pushes happen between any two of these.
What the interleaved calls should amount to is a run of a bounded queue in which every pop
takes its byte at one of its own steps (`Ledger`).
-/

namespace KeblaOS.Keyboard

/-- How far a pop has got. -/
inductive PopPhase where
  | idle
  /-- the buffer was not empty -/
  | entered
  /-- `*data` is set -/
  | read (data : UInt8)
  /-- `full` is cleared -/
  | cleared (data : UInt8)
deriving DecidableEq

/-- The ring buffer and the pop that is under way. -/
structure KeyboardState where
  rb : RingBuffer
  phase : PopPhase
deriving DecidableEq

/-- What happens: a push by the interrupt, a pop that returns `-1`, and the steps of a pop. -/
inductive KeyboardEvent where
  | push (data : UInt8)
  | refuse
  | enter
  | read (data : UInt8)
  | clear
  | deliver (data : UInt8)

/-- One step. -/
inductive KeyboardStep (state : KeyboardState) : KeyboardEvent → KeyboardState → Prop where
  | push {data} : KeyboardStep state (.push data) { state with rb := ringBufferPush state.rb data }
  | refuse (phase : state.phase = .idle) (empty : isRingBufferEmpty state.rb = true) : KeyboardStep state .refuse state
  | enter (phase : state.phase = .idle) (nonempty : isRingBufferEmpty state.rb = false) :
      KeyboardStep state .enter ⟨state.rb, .entered⟩
  | read (phase : state.phase = .entered) :
      KeyboardStep state (.read (tailByte state.rb)) ⟨state.rb, .read (tailByte state.rb)⟩
  | clear {data} (phase : state.phase = .read data) :
      KeyboardStep state .clear ⟨{ state.rb with full := false }, .cleared data⟩
  | deliver {data} (phase : state.phase = .cleared data) :
      KeyboardStep state (.deliver data)
        ⟨{ state.rb with tail := (state.rb.tail + 1) % state.rb.max }, .idle⟩

/-- Without a push in between, the steps of a pop are `ring_buffer_pop`. -/
theorem ringBufferPop_steps {rb : RingBuffer} (nonempty : isRingBufferEmpty rb = false) :
    ∃ data next, ringBufferPop rb = (some data, next) ∧
      Run KeyboardStep ⟨rb, .idle⟩ [.enter, .read data, .clear, .deliver data] ⟨next, .idle⟩ := by
  refine ⟨tailByte rb, retreatPointer rb, by rw [ringBufferPop, if_neg (by rw [nonempty]; decide)], ?_⟩
  exact .snoc (.snoc (.snoc (.snoc .nil (.enter rfl nonempty)) (.read rfl)) (.clear rfl)) (.deliver rfl)

/-! ## The ledger -/

/-- How far a pop has got in the queue's eyes. -/
inductive Taking where
  | nothing
  /-- the byte is read and still in the queue -/
  | owed (data : UInt8)
  /-- the byte is read and taken out of the queue -/
  | taken

/-- The queue that the pushes and pops amount to. -/
structure Ledger (capacity : Nat) where
  queue : BoundedQueue UInt8 capacity
  taking : Taking

namespace Ledger

variable {capacity : Nat}

/-- No pushes and no pops yet. -/
def start : Ledger capacity := ⟨.empty, .nothing⟩

/-- The byte that was read is taken out of the queue; it must be the oldest one. -/
def Takes (ledger next : Ledger capacity) : Prop :=
  ∃ data, ledger.taking = .owed data ∧ ledger.queue.elements.head? = some data ∧ next = ⟨ledger.queue.rest, .taken⟩

/-- The ledger of one step. A pop takes its byte once, at the latest when it returns. -/
def Step (positive : 0 < capacity) (ledger : Ledger capacity) : KeyboardEvent → Ledger capacity → Prop
  | .push data, next => next = ⟨ledger.queue.push positive data, ledger.taking⟩
  | .refuse, next => ledger.queue.elements = [] ∧ next = ledger
  | .enter, next => next = ledger
  | .read data, next =>
      next = ⟨ledger.queue, .owed data⟩ ∨ Takes ⟨ledger.queue, .owed data⟩ next
  | .clear, next => next = ledger ∨ ledger.Takes next
  | .deliver _, next => ∃ done, (done = ledger ∨ ledger.Takes done) ∧ done.taking = .taken ∧
      next = ⟨done.queue, .nothing⟩

end Ledger

/-- The events can be explained by a bounded queue: the bytes delivered are the bytes pushed,
in order, and a byte is missing only if it was the oldest of a full queue when another one was
pushed. -/
def Accounted {capacity : Nat} (positive : 0 < capacity) (trace : List KeyboardEvent) : Prop :=
  ∃ ledger, Run (Ledger.Step positive) .start trace ledger

/-- The condition under which a push does no harm to the pop under way. -/
def KeyboardState.SafePush (state : KeyboardState) : Prop :=
  match state.phase with
  | .idle => True
  | .entered => True
  | .read _ => state.rb.full = false
  | .cleared _ => state.rb.max = 1 ∨
      state.rb.head ≠ state.rb.tail ∧ (state.rb.head + 1) % state.rb.max ≠ state.rb.tail

/-- A step that is no push, or a push that meets the condition. -/
def SafeStep (state : KeyboardState) (event : KeyboardEvent) (next : KeyboardState) : Prop :=
  KeyboardStep state event next ∧ ∀ data, event = .push data → state.SafePush

/-- The ring buffer of an interrupted pop, with the byte that was read gone from the queue. -/
def KeyboardState.Fits (state : KeyboardState) (queue : List UInt8) : Prop :=
  match state.phase with
  | .idle => state.rb.Holds queue
  | .entered => state.rb.Holds queue ∧ queue ≠ []
  | .read data => state.rb.Holds (data :: queue)
  | .cleared data =>
      if state.rb.max = 1 then state.rb.Holds queue
      else state.rb.Cells (data :: queue) ∧ state.rb.full = false

/-- A pop takes its byte when it reads it. -/
def PopPhase.taking : PopPhase → Taking
  | .idle => .nothing
  | .entered => .nothing
  | .read _ => .taken
  | .cleared _ => .taken

/-- The ledger of the steps so far. -/
structure KeyboardState.Follows {capacity : Nat} (state : KeyboardState) (ledger : Ledger capacity) : Prop where
  capacity : state.rb.max.toNat = capacity
  fits : state.Fits ledger.queue.elements
  taking : ledger.taking = state.phase.taking

section Steps

variable {capacity : Nat} {positive : 0 < capacity} {state next : KeyboardState} {ledger : Ledger capacity}
  {rb : RingBuffer} {data : UInt8} {queue : List UInt8}

/-- With one slot, moving `tail` does not change it. -/
theorem advance_one {index max : UInt64} (one : max = 1) (inside : index.toNat < max.toNat) : (index + 1) % max = index := by
  have next := toNat_advance inside
  subst one
  rw [UInt64.toNat_one] at inside next
  rw [← UInt64.toNat_inj, next]
  omega

/-- With one slot, a cleared flag is all a pop needs. -/
theorem RingBuffer.Holds.clear_one (holds : rb.Holds (data :: queue)) (one : rb.max = 1) :
    RingBuffer.Holds { rb with full := false } queue := by
  have dropped := holds.toCells.drop false
  rw [advance_one one holds.tail] at dropped
  have room := holds.room
  rw [List.length_cons] at room
  exact ⟨dropped, by simp only [Bool.false_eq_true, false_iff]; omega⟩

/-- A pop that reads its byte from the queue takes it there and then. -/
theorem Ledger.read_takes {rest : List UInt8} (elements : ledger.queue.elements = data :: rest) :
    ledger.Step positive (.read data) ⟨ledger.queue.rest, .taken⟩ :=
  .inr ⟨data, rfl, by rw [elements]; rfl, rfl⟩

theorem KeyboardState.Follows.push (follows : state.Follows ledger) (safe : state.SafePush) (data : UInt8) :
    KeyboardState.Follows { state with rb := ringBufferPush state.rb data }
      ⟨ledger.queue.push positive data, ledger.taking⟩ := by
  obtain ⟨rb, phase⟩ := state
  obtain ⟨size, fits, taking⟩ := follows
  dsimp only at size taking
  refine ⟨size, ?_, taking⟩
  have kept : ledger.queue.kept =
      if ledger.queue.elements.length = rb.max.toNat then ledger.queue.elements.tail else ledger.queue.elements := by
    rw [BoundedQueue.kept, size]
  -- a queue with less than its capacity keeps all its bytes
  have keptAll : ledger.queue.elements.length + 1 ≤ rb.max.toNat → ledger.queue.kept = ledger.queue.elements := by
    intro room
    rw [kept, if_neg (by omega)]
  cases phase with
  | idle =>
      have holds : rb.Holds _ := fits
      have pushed := holds.push data
      rw [← kept] at pushed
      exact pushed
  | entered =>
      obtain ⟨holds, _⟩ : rb.Holds _ ∧ _ := fits
      have pushed := holds.push data
      rw [← kept] at pushed
      exact ⟨pushed, by simp [BoundedQueue.push]⟩
  | read byte =>
      have holds : rb.Holds (byte :: _) := fits
      have notFull : rb.full = false := safe
      have different : (byte :: ledger.queue.elements).length ≠ rb.max.toNat := by
        rw [Ne, ← holds.full, notFull]
        decide
      have pushed := holds.push data
      rw [if_neg different, List.cons_append] at pushed
      show RingBuffer.Holds _ (byte :: (ledger.queue.kept ++ [data]))
      rw [keptAll holds.room]
      exact pushed
  | cleared byte =>
      by_cases one : rb.max = 1
      · have holds : rb.Holds ledger.queue.elements := by simpa only [KeyboardState.Fits, if_pos one] using fits
        have pushed := holds.push data
        rw [← kept] at pushed
        show if rb.max = 1 then (ringBufferPush rb data).Holds _ else _
        rw [if_pos one]
        exact pushed
      · obtain ⟨cells, notFull⟩ : rb.Cells (byte :: _) ∧ rb.full = false := by
          simpa only [KeyboardState.Fits, if_neg one] using fits
        obtain ⟨apart, behind⟩ : rb.head ≠ rb.tail ∧ (rb.head + 1) % rb.max ≠ rb.tail :=
          Or.resolve_left safe one
        have different : (byte :: ledger.queue.elements).length ≠ rb.max.toNat := fun all =>
          apart (cells.head_eq_tail_iff.mpr (.inr all))
        have appended := cells.append (Nat.lt_of_le_of_ne cells.room different) data false
        simp only [KeyboardState.Fits, ringBufferPush_max, if_neg one, BoundedQueue.push, keptAll cells.room]
        have flag : ((rb.head + 1) % rb.max == rb.tail) = false := by
          rw [beq_eq_false_iff_ne]
          exact behind
        simp only [ringBufferPush, advancePointer, notFull, Bool.false_eq_true, if_false, flag]
        exact ⟨appended, trivial⟩

/-- Every safe step has its entry in the ledger. -/
theorem KeyboardState.Follows.step {event : KeyboardEvent} (follows : state.Follows ledger)
    (taken : SafeStep state event next) : ∃ ledger', ledger.Step positive event ledger' ∧ next.Follows ledger' := by
  obtain ⟨taken, safe⟩ := taken
  obtain ⟨rb, phase⟩ := state
  cases taken with
  | @push data => exact ⟨_, rfl, follows.push (safe data rfl) data⟩
  | refuse idle empty =>
      obtain rfl : phase = .idle := idle
      have holds : rb.Holds _ := follows.fits
      exact ⟨ledger, ⟨holds.isRingBufferEmpty_iff.mp empty, rfl⟩, follows⟩
  | enter idle nonempty =>
      obtain rfl : phase = .idle := idle
      have holds : rb.Holds _ := follows.fits
      refine ⟨ledger, rfl, follows.capacity, ⟨holds, fun none => ?_⟩, follows.taking⟩
      rw [holds.isRingBufferEmpty_iff.mpr none] at nonempty
      exact absurd nonempty (by decide)
  | read entered =>
      obtain rfl : phase = .entered := entered
      obtain ⟨holds, nonempty⟩ : rb.Holds _ ∧ ledger.queue.elements ≠ [] := follows.fits
      obtain ⟨byte, rest, elements⟩ := List.exists_cons_of_ne_nil nonempty
      rw [elements] at holds
      have same : tailByte rb = byte := holds.toCells.tailByte_eq
      simp only [same]
      refine ⟨_, Ledger.read_takes elements, follows.capacity, ?_, rfl⟩
      show rb.Holds (byte :: ledger.queue.elements.tail)
      rw [elements]
      exact holds
  | @clear byte reading =>
      obtain rfl : phase = .read byte := reading
      have holds : rb.Holds (byte :: _) := follows.fits
      refine ⟨ledger, .inl rfl, follows.capacity, ?_, follows.taking⟩
      by_cases one : rb.max = 1
      · simp only [KeyboardState.Fits, if_pos one]
        exact holds.clear_one one
      · simp only [KeyboardState.Fits, if_neg one]
        exact ⟨⟨holds.size, holds.room, holds.tail, holds.head, holds.cells⟩, trivial⟩
  | @deliver byte cleared =>
      obtain rfl : phase = .cleared byte := cleared
      refine ⟨⟨ledger.queue, .nothing⟩, ⟨ledger, .inl rfl, follows.taking, rfl⟩, follows.capacity, ?_, rfl⟩
      by_cases one : rb.max = 1
      · have holds : rb.Holds ledger.queue.elements := by simpa only [KeyboardState.Fits, if_pos one] using follows.fits
        simp only [KeyboardState.Fits, advance_one one holds.tail]
        exact holds
      · obtain ⟨cells, notFull⟩ : rb.Cells (byte :: _) ∧ rb.full = false := by
          simpa only [KeyboardState.Fits, if_neg one] using follows.fits
        have room := cells.room
        rw [List.length_cons] at room
        refine ⟨cells.drop rb.full, ?_⟩
        simp only [notFull, Bool.false_eq_true, false_iff]
        omega

end Steps

/-- In every interleaving whose pushes meet the condition, the bytes delivered are those of a
bounded queue. -/
theorem safe_run_accounted {buffer : List UInt8} {capacity : UInt64} (positive : 0 < capacity.toNat)
    (allocated : buffer.length = capacity.toNat) {state : KeyboardState} {trace : List KeyboardEvent}
    (run : Run SafeStep ⟨ringBufferInit buffer capacity, .idle⟩ trace state) : Accounted positive trace := by
  obtain ⟨ledger, explained, _⟩ := run.simulation
    (fun state (ledger : Ledger capacity.toNat) => state.Follows ledger)
    (show KeyboardState.Follows ⟨ringBufferInit buffer capacity, .idle⟩ Ledger.start from
      ⟨rfl, ringBufferInit_holds positive allocated, rfl⟩)
    fun follows taken => follows.step taken
  exact ⟨ledger, explained⟩

/-- A byte pushed while the only other one is popped. -/
theorem safe_run_accounted_three :
    ∃ state, Run SafeStep ⟨ringBufferInit [0, 0, 0] 3, .idle⟩
      [.push 1, .enter, .read 1, .push 2, .clear, .deliver 1] state ∧
      Accounted (show 0 < (3 : UInt64).toNat by decide) [.push 1, .enter, .read 1, .push 2, .clear, .deliver 1] := by
  have quiet : ∀ {state event next}, KeyboardStep state event next → (∀ data, event ≠ .push data) →
      SafeStep state event next := fun taken other => ⟨taken, fun data same => absurd same (other data)⟩
  have first : Run SafeStep ⟨ringBufferInit [0, 0, 0] 3, .idle⟩ [.push 1] ⟨⟨[1, 0, 0], 1, 0, 3, false⟩, .idle⟩ :=
    .snoc .nil ⟨.push, fun _ _ => trivial⟩
  have second : Run SafeStep ⟨ringBufferInit [0, 0, 0] 3, .idle⟩ [.push 1, .enter, .read 1]
      ⟨⟨[1, 0, 0], 1, 0, 3, false⟩, .read 1⟩ :=
    .snoc (.snoc first (quiet (.enter rfl rfl) (by simp))) (quiet (.read rfl) (by simp))
  have third : Run SafeStep ⟨ringBufferInit [0, 0, 0] 3, .idle⟩ [.push 1, .enter, .read 1, .push 2]
      ⟨⟨[1, 2, 0], 2, 0, 3, false⟩, .read 1⟩ :=
    .snoc second ⟨.push, fun _ _ => rfl⟩
  have run := (third.snoc (quiet (.clear rfl) (by simp))).snoc (quiet (.deliver rfl) (by simp))
  exact ⟨_, run, safe_run_accounted (by decide) (by decide) run⟩

/-- The buffer is full, a pop has cleared the flag, and a byte is pushed: when the pop is done
the buffer looks empty, and the next pop finds nothing of two bytes. -/
theorem pushed_between_assignments_loses_bytes :
    (∃ state, Run KeyboardStep ⟨ringBufferInit [0, 0] 2, .idle⟩
      [.push 1, .push 2, .enter, .read 1, .clear, .push 3, .deliver 1, .refuse] state) ∧
      ¬ Accounted (show 0 < (2 : UInt64).toNat by decide)
        [.push 1, .push 2, .enter, .read 1, .clear, .push 3, .deliver 1, .refuse] := by
  constructor
  · have filled : Run KeyboardStep ⟨ringBufferInit [0, 0] 2, .idle⟩ [.push 1, .push 2]
        ⟨⟨[1, 2], 0, 0, 2, true⟩, .idle⟩ := .snoc (.snoc .nil .push) .push
    have interrupted := (((filled.snoc (.enter rfl rfl)).snoc (.read rfl)).snoc (.clear rfl)).snoc
      (@KeyboardStep.push _ 3)
    exact ⟨_, (interrupted.snoc (.deliver rfl)).snoc (.refuse rfl rfl)⟩
  · rintro ⟨_, explained⟩
    obtain ⟨_, rfl, explained⟩ := explained.cons_inv
    obtain ⟨_, rfl, explained⟩ := explained.cons_inv
    obtain ⟨_, rfl, explained⟩ := explained.cons_inv
    obtain ⟨_, reading, explained⟩ := explained.cons_inv
    obtain ⟨_, clearing, explained⟩ := explained.cons_inv
    obtain ⟨_, rfl, explained⟩ := explained.cons_inv
    obtain ⟨_, ⟨done, delivering, took, rfl⟩, explained⟩ := explained.cons_inv
    obtain ⟨_, ⟨nothing, _⟩, _⟩ := explained.cons_inv
    -- the byte is taken at one of the steps of the pop; two bytes are left, or it is not the oldest
    rcases reading with rfl | ⟨_, _, _, rfl⟩
    · rcases clearing with rfl | ⟨_, _, _, rfl⟩
      · rcases delivering with rfl | ⟨_, owed, oldest, rfl⟩
        · cases took
        · cases owed
          exact absurd oldest (by decide)
      · rcases delivering with rfl | ⟨_, owed, _, _⟩
        · exact absurd nothing (by decide)
        · cases owed
    · rcases clearing with rfl | ⟨_, owed, _, _⟩
      · rcases delivering with rfl | ⟨_, owed, _, _⟩
        · exact absurd nothing (by decide)
        · cases owed
      · cases owed

end KeblaOS.Keyboard
