import KeblaOS.Keyboard.RingBuffer
import KeblaOS.Syscall.KeyboardLine

/-!
# Reading a line from the keyboard

`INT_SYSCALL_KEYBOARD_READ` of `int_syscall_manager.c` takes bytes out of the ring buffer and edits a line with them.
The bytes of the ring buffer are characters, but two of the filters are for scan codes: 0x36 and 0x2A, the shift keys,
are the characters `'6'` and `'*'`, which no line can have. A full ring buffer drops its oldest byte when one more
arrives.
-/

namespace KeblaOS.Syscall

open Keyboard

/-! ## The system call -/

/-- What interrupts push into the ring buffer before each of its uses; the first one is number 0. -/
abbrev Arrivals := Nat → List UInt8

/-- The ring buffer behind the interrupts. -/
def arrive (rb : RingBuffer) (bytes : List UInt8) : RingBuffer := bytes.foldl ringBufferPush rb

/-- The loop, with so many turns left, the number of the next use of the ring buffer and the number of bytes taken so
far: memory, `read_count` and the number of bytes taken behind it. In a turn that finds the ring buffer empty it
waits. -/
def keyboardReadLoop (arrivals : Arrivals) (size : Nat) :
    Nat → Nat → RingBuffer → (Nat → UInt8) → Nat → Nat → Option ((Nat → UInt8) × Nat × Nat)
  | turns, use, rb, memory, readCount, taken =>
      if readCount < size - 1 then
        match turns with
        | 0 => none
        | turns + 1 =>
            let rb := arrive rb (arrivals use)
            if isRingBufferEmpty rb then keyboardReadLoop arrivals size turns (use + 1) rb memory readCount taken
            else
              match ringBufferPop (arrive rb (arrivals (use + 1))) with
              | (none, rb) => keyboardReadLoop arrivals size turns (use + 2) rb memory readCount taken
              | (some ch, rb) =>
                  match readByte memory readCount ch with
                  | none => some (memory, readCount, taken + 1)
                  | some (memory, readCount) =>
                      keyboardReadLoop arrivals size turns (use + 2) rb memory readCount (taken + 1)
      else some (memory, readCount, taken)

/-- The system call with a buffer and so many turns: memory, the result and the number of bytes taken; nothing while it
waits. -/
def keyboardRead (arrivals : Arrivals) (turns size : Nat) (rb : RingBuffer) (memory : Nat → UInt8) :
    Option ((Nat → UInt8) × Nat × Nat) :=
  (keyboardReadLoop arrivals size turns 0 rb memory 0 0).map fun (memory, readCount, taken) =>
    (store memory readCount [0], readCount, taken)

/-! ## Lines -/

/-- What the call does with a list of bytes: it returns when the line is complete, with its characters and a zero in
the buffer and their number as the result, and takes the bytes of the line; and until then it waits. -/
def ReadsBytes (size : Nat) (memory : Nat → UInt8) (bytes : List UInt8) (outcome : Option ((Nat → UInt8) × Nat × Nat)) :
    Prop :=
  match typedLine (size - 1) [] 0 bytes, outcome with
  | none, none => True
  | some (line, taken), some (memory', result, taken') =>
      Holds memory' (line ++ [0]) ∧ line.length + 1 ≤ size ∧ (∀ i, size ≤ i → memory' i = memory i) ∧
        result = line.length ∧ taken' = taken
  | _, _ => False

/-- The line of this number of bytes is complete in one of these lists, each of which begins with those before. -/
def Completes (limit : Nat) (bytes : Nat → List UInt8) (line : List UInt8) (taken : Nat) : Prop :=
  ∃ n, typedLine limit [] 0 (bytes n) = some (line, taken)

/-- In one of these lists, a `'6'` or `'*'` is among the bytes that complete the line, behind the last one with which it
was empty. -/
def ShiftCodeTyped (limit : Nat) (bytes : Nat → List UInt8) : Prop :=
  ∃ n, shiftCodeTyped limit 0 false (bytes n) = true

/-- The bytes that arrive from one use on and before another one. -/
def arrived (arrivals : Arrivals) (stop use : Nat) : List UInt8 := (List.range' use (stop - use)).flatMap arrivals

/-- All bytes typed up to a use of the ring buffer: those that it holds at the call, and those that arrive. -/
def typedBytes (held : List UInt8) (arrivals : Arrivals) (use : Nat) : List UInt8 := held ++ arrived arrivals use 0

/-- The call, for each number of turns, reads the line of these bytes. When it is complete, the call returns with its
characters and a zero in the buffer and their number as the result, and does not take more bytes than belong to the line.
Until then it waits. -/
structure ReadsLine (size : Nat) (memory : Nat → UInt8) (bytes : Nat → List UInt8)
    (call : Nat → Option ((Nat → UInt8) × Nat × Nat)) : Prop where
  returns : ∀ line taken, Completes (size - 1) bytes line taken → ∃ turns memory' taken',
    call turns = some (memory', line.length, taken') ∧ Holds memory' (line ++ [0]) ∧ line.length + 1 ≤ size ∧
      (∀ i, size ≤ i → memory' i = memory i) ∧ taken' ≤ taken
  waits : (∀ line taken, ¬ Completes (size - 1) bytes line taken) → ∀ turns, call turns = none

/-! ## The bytes of the ring buffer -/

/-- The bytes that a queue hands out in so many turns of a reader who takes one whenever there is one. -/
def handedOut {capacity : Nat} (positive : 0 < capacity) (arrivals : Arrivals) :
    Nat → Nat → BoundedQueue UInt8 capacity → List UInt8
  | 0, _, _ => []
  | turns + 1, use, queue =>
      let queue := queue.pushAll positive (arrivals use)
      if queue.elements = [] then handedOut positive arrivals turns (use + 1) queue
      else
        let queue := queue.pushAll positive (arrivals (use + 1))
        match queue.elements.head? with
        | none => handedOut positive arrivals turns (use + 2) queue.rest
        | some ch => ch :: handedOut positive arrivals turns (use + 2) queue.rest

/-- In each of so many turns there is room for the bytes that arrive. -/
def HasRoom {capacity : Nat} (positive : 0 < capacity) (arrivals : Arrivals) :
    Nat → Nat → BoundedQueue UInt8 capacity → Prop
  | 0, _, _ => True
  | turns + 1, use, queue =>
      let pushed := queue.pushAll positive (arrivals use)
      queue.elements.length + (arrivals use).length ≤ capacity ∧
        if pushed.elements = [] then HasRoom positive arrivals turns (use + 1) pushed
        else
          pushed.elements.length + (arrivals (use + 1)).length ≤ capacity ∧
            HasRoom positive arrivals turns (use + 2) (pushed.pushAll positive (arrivals (use + 1))).rest

/-- No byte is dropped before the line is complete. -/
def LosesNothing {capacity : Nat} (positive : 0 < capacity) (arrivals : Arrivals) (limit : Nat)
    (queue : BoundedQueue UInt8 capacity) : Prop :=
  ∀ turns, typedLine limit [] 0 (handedOut positive arrivals turns 0 queue) = none →
    HasRoom positive arrivals (turns + 1) 0 queue

/-- The bytes that are kept give the line of all bytes, and not later than these. -/
structure KeepsLine (limit : Nat) (bytes kept : Nat → List UInt8) : Prop where
  completes : ∀ line taken, Completes limit bytes line taken → ∃ taken' ≤ taken, Completes limit kept line taken'
  waits : (∀ line taken, ¬ Completes limit bytes line taken) → ∀ line taken, ¬ Completes limit kept line taken

section Ring

variable {capacity : Nat} {positive : 0 < capacity} {arrivals : Arrivals} {rb : RingBuffer}
  {queue : BoundedQueue UInt8 capacity} {size : Nat}

theorem represents_arrive (represents : rb.Represents queue) (bytes : List UInt8) :
    (arrive rb bytes).Represents (queue.pushAll positive bytes) := by
  induction bytes generalizing rb queue with
  | nil => exact represents
  | cons ch bytes ih =>
      obtain ⟨next, rfl, represents'⟩ :=
        @RingBuffer.Represents.step _ positive _ (ringBufferPush rb ch) _ (.push ch) represents rfl
      exact ih represents'

theorem represents_pop (positive : 0 < capacity) (represents : rb.Represents queue) :
    (ringBufferPop rb).1 = queue.elements.head? ∧ (ringBufferPop rb).2.Represents queue.rest := by
  obtain ⟨next, ⟨returned, rfl⟩, represents'⟩ :=
    @RingBuffer.Represents.step _ positive _ (ringBufferPop rb).2 _ (.pop (ringBufferPop rb).1) represents rfl
  exact ⟨returned, represents'⟩

/-- The loop reads the bytes that the queue hands out. -/
theorem keyboardReadLoop_eq (represents : rb.Represents queue) (turns use : Nat) (memory : Nat → UInt8)
    (readCount taken : Nat) :
    keyboardReadLoop arrivals size turns use rb memory readCount taken =
      readBytes size (handedOut positive arrivals turns use queue) memory readCount taken := by
  induction turns generalizing use rb queue memory readCount taken with
  | zero => rw [keyboardReadLoop, handedOut, readBytes]
  | succ turns ih =>
      rw [keyboardReadLoop, handedOut]
      by_cases room : readCount < size - 1
      · rw [if_pos room]
        have arrived := @represents_arrive _ positive _ _ represents (arrivals use)
        by_cases empty : isRingBufferEmpty (arrive rb (arrivals use)) = true
        · have none_there := arrived.holds.isRingBufferEmpty_iff.mp empty
          dsimp only
          rw [if_pos empty, if_pos none_there, ih arrived]
        · have some_there : (queue.pushAll positive (arrivals use)).elements ≠ [] := fun none_there =>
            empty (arrived.holds.isRingBufferEmpty_iff.mpr none_there)
          obtain ⟨returned, rest⟩ := represents_pop positive
            (@represents_arrive _ positive _ _ arrived (arrivals (use + 1)))
          dsimp only
          rw [if_neg empty, if_neg some_there, ← returned]
          generalize ringBufferPop _ = popped at returned rest
          obtain ⟨result, rb'⟩ := popped
          cases result with
          | none => exact ih rest _ _ _ _
          | some ch =>
              dsimp only
              rw [readBytes, if_pos room]
              cases readByte memory readCount ch with
              | none => rfl
              | some state => exact ih rest _ _ _ _
      · rw [if_neg room, readBytes_complete room]

end Ring

/-! ## Bytes that are not lost -/

section Kept

variable {capacity : Nat} {positive : 0 < capacity} {arrivals : Arrivals} {queue : BoundedQueue UInt8 capacity}

theorem arrived_of_le {stop use : Nat} (behind : stop ≤ use) : arrived arrivals stop use = [] := by
  rw [arrived, Nat.sub_eq_zero_of_le behind]
  rfl

theorem arrived_turn {stop use : Nat} (before : use < stop) :
    arrived arrivals stop use = arrivals use ++ arrived arrivals stop (use + 1) := by
  have count : stop - use = stop - (use + 1) + 1 := by omega
  rw [arrived, count, List.range'_succ, List.flatMap_cons, arrived]

theorem arrived_extends {stop stop' : Nat} (later : stop ≤ stop') (use : Nat) :
    arrived arrivals stop use <+: arrived arrivals stop' use := by
  have parts : stop' - use = stop - use + (stop' - use - (stop - use)) := by omega
  rw [arrived, arrived, parts, ← List.range'_append, List.flatMap_append]
  exact List.prefix_append _ _

theorem typedBytes_prefix {use use' : Nat} (later : use ≤ use') (held : List UInt8) :
    typedBytes held arrivals use <+: typedBytes held arrivals use' :=
  List.prefix_append_right_inj held |>.mpr (arrived_extends later 0)

/-- One more turn. -/
theorem handedOut_succ (turns use : Nat) :
    handedOut positive arrivals turns use queue <+: handedOut positive arrivals (turns + 1) use queue := by
  induction turns generalizing use queue with
  | zero =>
      rw [handedOut]
      exact List.nil_prefix
  | succ turns ih =>
      rw [handedOut, handedOut]
      dsimp only
      split_ifs with empty
      · exact ih _
      · cases List.head? _ with
        | none => exact ih _
        | some ch => exact List.cons_prefix_cons.mpr ⟨rfl, ih _⟩

theorem handedOut_extends {turns turns' : Nat} (more : turns ≤ turns') (use : Nat) :
    handedOut positive arrivals turns use queue <+: handedOut positive arrivals turns' use queue := by
  induction turns', more using Nat.le_induction with
  | base => exact List.prefix_rfl
  | succ turns' _ ih => exact ih.trans (handedOut_succ turns' use)

/-- The elements behind a turn that finds some, when there was room. -/
theorem elements_turn {use : Nat} (room : queue.elements.length + (arrivals use).length ≤ capacity)
    (room' : (queue.pushAll positive (arrivals use)).elements.length + (arrivals (use + 1)).length ≤ capacity) :
    ((queue.pushAll positive (arrivals use)).pushAll positive (arrivals (use + 1))).elements =
      queue.elements ++ arrivals use ++ arrivals (use + 1) := by
  rw [BoundedQueue.elements_pushAll _ _ _ room', BoundedQueue.elements_pushAll _ _ _ room]

/-- With room for all bytes, those that are handed out have been typed, in this order. -/
theorem HasRoom.handedOut_typed {turns use : Nat} (room : HasRoom positive arrivals turns use queue) :
    ∃ stop, use ≤ stop ∧ handedOut positive arrivals turns use queue <+: queue.elements ++ arrived arrivals stop use := by
  induction turns generalizing use queue with
  | zero =>
      rw [handedOut]
      exact ⟨use, Nat.le_refl _, List.nil_prefix⟩
  | succ turns ih =>
      rw [HasRoom] at room
      obtain ⟨fits, room⟩ := room
      have pushed := queue.elements_pushAll positive (arrivals use) fits
      rw [handedOut]
      dsimp only at room ⊢
      split_ifs at room ⊢ with empty
      · obtain ⟨stop, later, typed⟩ := ih room
        refine ⟨stop, by omega, ?_⟩
        rw [arrived_turn (by omega), ← List.append_assoc, ← pushed]
        exact typed
      · obtain ⟨fits', room⟩ := room
        have both := elements_turn fits fits'
        obtain ⟨stop, later, typed⟩ := ih room
        refine ⟨stop, by omega, ?_⟩
        rw [arrived_turn (by omega), arrived_turn (by omega), ← List.append_assoc, ← List.append_assoc, ← both]
        generalize (queue.pushAll positive (arrivals use)).pushAll positive (arrivals (use + 1)) = queue' at typed ⊢
        have behind : queue'.rest.elements = queue'.elements.tail := rfl
        rw [behind] at typed
        cases oldest : queue'.elements with
        | nil =>
            rw [oldest, List.tail_nil] at typed
            exact typed
        | cons ch others =>
            rw [oldest, List.tail_cons] at typed
            exact List.cons_prefix_cons.mpr ⟨rfl, typed⟩

/-- With room for all bytes, each of them is handed out in the end: a turn takes one, or there is none yet. -/
theorem HasRoom.typed_handedOut {turns use stop count : Nat} (room : ∀ turns, HasRoom positive arrivals turns use queue)
    (enough : stop - use + count ≤ turns) :
    (queue.elements ++ arrived arrivals stop use).take count <+: handedOut positive arrivals turns use queue := by
  induction turns generalizing use queue stop count with
  | zero =>
      obtain rfl : count = 0 := by omega
      rw [List.take_zero]
      exact List.nil_prefix
  | succ turns ih =>
      have now : ∀ turns, HasRoom positive arrivals (turns + 1) use queue := fun turns => room (turns + 1)
      simp only [HasRoom] at now
      have fits := (now 0).1
      have pushed := queue.elements_pushAll positive (arrivals use) fits
      rw [handedOut]
      dsimp only
      split_ifs with empty
      · simp only [if_pos empty] at now
        rw [pushed] at empty
        obtain ⟨noElements, noArrivals⟩ := List.append_eq_nil_iff.mp empty
        by_cases before : use < stop
        · have rest := @ih (queue.pushAll positive (arrivals use)) (use + 1) stop count (fun turns => (now turns).2)
            (by omega)
          rw [pushed, noElements, noArrivals, List.nil_append, List.nil_append] at rest
          rw [noElements, arrived_turn before, noArrivals, List.nil_append, List.nil_append]
          exact rest
        · rw [noElements, arrived_of_le (Nat.not_lt.mp before), List.nil_append, List.take_nil]
          exact List.nil_prefix
      · simp only [if_neg empty] at now
        have both := elements_turn fits (now 0).2.1
        have some_there : queue.elements ++ arrivals use ≠ [] := fun none_there => empty (pushed.trans none_there)
        -- what is typed up to `stop`, or in this turn, begins with the byte that is taken
        have far : queue.elements ++ arrived arrivals (max stop (use + 2)) use =
            (queue.elements ++ arrivals use ++ arrivals (use + 1)) ++ arrived arrivals (max stop (use + 2)) (use + 2) := by
          rw [arrived_turn (by omega), arrived_turn (by omega), ← List.append_assoc, ← List.append_assoc]
        have near : queue.elements ++ arrived arrivals stop use <+:
            queue.elements ++ arrived arrivals (max stop (use + 2)) use :=
          (List.prefix_append_right_inj _).mpr (arrived_extends (Nat.le_max_left _ _) use)
        rw [far, ← both] at near
        have rest := fun count => @ih
          ((queue.pushAll positive (arrivals use)).pushAll positive (arrivals (use + 1))).rest (use + 2)
          (max stop (use + 2)) count (fun turns => (now turns).2.2)
        generalize (queue.pushAll positive (arrivals use)).pushAll positive (arrivals (use + 1)) = queue' at both near rest ⊢
        cases oldest : queue'.elements with
        | nil =>
            rw [oldest] at both
            exact absurd (List.append_eq_nil_iff.mp both.symm).1 some_there
        | cons ch others =>
            have behind : queue'.rest.elements = queue'.elements.tail := rfl
            rw [oldest, List.tail_cons] at behind
            rw [behind] at rest
            rw [oldest] at near
            rw [List.head?_cons]
            dsimp only
            cases count with
            | zero =>
                rw [List.take_zero]
                exact List.nil_prefix
            | succ count =>
                refine (near.take (count + 1)).trans ?_
                rw [List.cons_append, List.take_succ_cons]
                exact List.cons_prefix_cons.mpr ⟨rfl, rest count (by omega)⟩

/-- Bytes that fit into the ring buffer together have room at any time. -/
theorem HasRoom.of_total {stop : Nat} (nothing : ∀ use, stop ≤ use → arrivals use = []) (turns : Nat) {use : Nat}
    (room : queue.elements.length + (arrived arrivals stop use).length ≤ capacity) :
    HasRoom positive arrivals turns use queue := by
  have count : ∀ use, (arrived arrivals stop use).length =
      (arrivals use).length + (arrived arrivals stop (use + 1)).length := by
    intro use
    by_cases before : use < stop
    · rw [arrived_turn before, List.length_append]
    · rw [arrived_of_le (by omega), arrived_of_le (by omega), nothing use (by omega)]
      rfl
  induction turns generalizing use queue with
  | zero => exact trivial
  | succ turns ih =>
      have first := count use
      have second : (arrived arrivals stop (use + 1)).length = (arrivals (use + 1)).length +
        (arrived arrivals stop (use + 2)).length := count (use + 1)
      have fits : queue.elements.length + (arrivals use).length ≤ capacity := by omega
      have pushed := congrArg List.length (queue.elements_pushAll positive (arrivals use) fits)
      rw [List.length_append] at pushed
      rw [HasRoom]
      refine ⟨fits, ?_⟩
      split_ifs with empty
      · exact ih (by omega)
      · have fits' : (queue.pushAll positive (arrivals use)).elements.length + (arrivals (use + 1)).length ≤ capacity := by
          omega
        have behind := congrArg List.length (elements_turn fits fits')
        rw [List.length_append, List.length_append] at behind
        refine ⟨fits', @ih _ (use + 2) ?_⟩
        show List.length (List.tail _) + _ ≤ _
        rw [List.length_tail]
        omega

end Kept

/-! ## The call -/

/-- The call reads the bytes that the queue hands out exactly when no shift code is among those of the line since it was
last empty. -/
theorem readsBytes_iff {capacity : Nat} (positive : 0 < capacity) {rb : RingBuffer}
    {queue : BoundedQueue UInt8 capacity} (represents : rb.Represents queue) (arrivals : Arrivals) (turns : Nat)
    {size : Nat} (some_place : 1 ≤ size) (memory : Nat → UInt8) :
    ReadsBytes size memory (handedOut positive arrivals turns 0 queue) (keyboardRead arrivals turns size rb memory) ↔
      shiftCodeTyped (size - 1) 0 false (handedOut positive arrivals turns 0 queue) = false := by
  have agrees := @agrees_iff size memory [] 0 0 false follows_nothing (Nat.zero_le _) (handedOut positive arrivals turns 0 queue)
  rw [List.length_nil] at agrees
  rw [← agrees, keyboardRead, @keyboardReadLoop_eq _ positive _ _ _ _ represents]
  unfold ReadsBytes Agrees
  generalize handedOut positive arrivals turns 0 queue = bytes
  cases complete : typedLine (size - 1) [] 0 bytes with
  | none =>
      cases readBytes size bytes memory 0 0 with
      | none => exact Iff.rfl
      | some outcome => exact Iff.rfl
  | some typed =>
      cases returned : readBytes size bytes memory 0 0 with
      | none => exact Iff.rfl
      | some outcome =>
          have short := length_typedLine (Nat.zero_le _) complete
          obtain ⟨count, kept⟩ := readBytes_frame (Nat.zero_le _) returned
          obtain ⟨line, taken⟩ := typed
          obtain ⟨memory', readCount, taken'⟩ := outcome
          dsimp only [Option.map_some] at short count kept ⊢
          constructor
          · rintro ⟨holds, _, _, length, all⟩
            exact ⟨(holds_zero_iff length).mp holds, length, all⟩
          · rintro ⟨holds, length, all⟩
            refine ⟨(holds_zero_iff length).mpr holds, by omega, fun i behind => ?_, length, all⟩
            refine (store_of_not_covers fun covers => ?_).trans (kept i (by omega))
            have under := covers.2
            dsimp only [List.length_singleton] at under
            omega

/-! ## The bytes typed -/

section Typed

variable {capacity : Nat} {positive : 0 < capacity} {arrivals : Arrivals} {queue : BoundedQueue UInt8 capacity}
  {rb : RingBuffer} {size limit : Nat} {memory : Nat → UInt8}

/-- A call that has returned has returned in each larger number of turns. -/
theorem keyboardRead_prefix (positive : 0 < capacity) (represents : rb.Represents queue) {turns turns' : Nat}
    (more : turns ≤ turns') {outcome : (Nat → UInt8) × Nat × Nat}
    (returned : keyboardRead arrivals turns size rb memory = some outcome) :
    keyboardRead arrivals turns' size rb memory = some outcome := by
  rw [keyboardRead, @keyboardReadLoop_eq _ positive _ _ _ _ represents] at returned ⊢
  obtain ⟨state, read, rfl⟩ := Option.map_eq_some_iff.mp returned
  rw [readBytes_extends (handedOut_extends more 0) read]
  rfl

section Grows

variable {bytes : Nat → List UInt8} {n : Nat} {outcome : List UInt8 × Nat}

/-- There is one complete line at most. -/
theorem completes_iff (grows : ∀ n m, n ≤ m → bytes n <+: bytes m)
    (complete : typedLine limit [] 0 (bytes n) = some outcome) (line : List UInt8) (taken : Nat) :
    Completes limit bytes line taken ↔ outcome = (line, taken) := by
  constructor
  · rintro ⟨m, other⟩
    have first := typedLine_extends (grows n (max n m) (Nat.le_max_left _ _)) complete
    have second := typedLine_extends (grows m (max n m) (Nat.le_max_right _ _)) other
    exact Option.some.inj (first.symm.trans second)
  · rintro rfl
    exact ⟨n, complete⟩

/-- Where the line is complete, it is known whether a shift code counts. -/
theorem shiftCodeTyped_iff (grows : ∀ n m, n ≤ m → bytes n <+: bytes m)
    (complete : typedLine limit [] 0 (bytes n) ≠ none) :
    ShiftCodeTyped limit bytes ↔ shiftCodeTyped limit 0 false (bytes n) = true := by
  constructor
  · rintro ⟨m, typed⟩
    have first := (@shiftCodeTyped_extends limit [] _ _ 0 false (grows n (max n m) (Nat.le_max_left _ _))).2 complete
    obtain ⟨early, late⟩ := @shiftCodeTyped_extends limit [] _ _ 0 false (grows m (max n m) (Nat.le_max_right _ _))
    have some_line : typedLine limit [] 0 (bytes m) ≠ none := fun waits => by
      have clean := early waits
      rw [List.length_nil, typed] at clean
      exact absurd clean.symm Bool.false_ne_true
    exact first.symm.trans ((late some_line).trans typed)
  · exact fun typed => ⟨n, typed⟩

end Grows

theorem handedOut_grows (n m : Nat) (more : n ≤ m) :
    handedOut positive arrivals n 0 queue <+: handedOut positive arrivals m 0 queue := handedOut_extends more 0

theorem typedBytes_grows (held : List UInt8) (n m : Nat) (more : n ≤ m) :
    typedBytes held arrivals n <+: typedBytes held arrivals m := typedBytes_prefix more held

/-- When no byte is dropped, the line is complete in the bytes handed out, and these have been typed; or it is complete
in neither. -/
theorem LosesNothing.cases (loses : LosesNothing positive arrivals limit queue) :
    (∃ turns stop, typedLine limit [] 0 (handedOut positive arrivals turns 0 queue) ≠ none ∧
        handedOut positive arrivals turns 0 queue <+: typedBytes queue.elements arrivals stop) ∨
      (∀ turns, typedLine limit [] 0 (handedOut positive arrivals turns 0 queue) = none) ∧
        ∀ stop, typedLine limit [] 0 (typedBytes queue.elements arrivals stop) = none := by
  by_cases complete : ∃ turns, typedLine limit [] 0 (handedOut positive arrivals turns 0 queue) ≠ none
  · classical
    have first := Nat.find_spec complete
    have earlier := fun turns => @Nat.find_min _ _ complete turns
    generalize Nat.find complete = turns at first earlier
    have room : HasRoom positive arrivals turns 0 queue := by
      cases turns with
      | zero => exact trivial
      | succ turns => exact loses turns (not_not.mp (earlier turns (Nat.lt_succ_self turns)))
    obtain ⟨stop, _, typed⟩ := room.handedOut_typed
    exact .inl ⟨turns, stop, first, typed⟩
  · have waits : ∀ turns, typedLine limit [] 0 (handedOut positive arrivals turns 0 queue) = none := fun turns =>
      not_not.mp fun some_line => complete ⟨turns, some_line⟩
    have room : ∀ turns, HasRoom positive arrivals turns 0 queue := by
      intro turns
      cases turns with
      | zero => exact trivial
      | succ turns => exact loses turns (waits turns)
    refine .inr ⟨waits, fun stop => ?_⟩
    cases typed : typedLine limit [] 0 (typedBytes queue.elements arrivals stop) with
    | none => rfl
    | some outcome =>
        have handed := HasRoom.typed_handedOut room (Nat.le_refl (stop - 0 + (typedBytes queue.elements arrivals stop).length))
        rw [typedBytes, List.take_length] at handed
        rw [typedBytes] at typed
        exact absurd (typedLine_extends handed typed) (by rw [waits]; exact (Option.some_ne_none _).symm)

/-- Then the line is the same, and the shift codes that count. -/
theorem LosesNothing.same (loses : LosesNothing positive arrivals limit queue) :
    (∀ line taken, Completes limit (typedBytes queue.elements arrivals) line taken ↔
        Completes limit (fun turns => handedOut positive arrivals turns 0 queue) line taken) ∧
      (ShiftCodeTyped limit (typedBytes queue.elements arrivals) ↔
        ShiftCodeTyped limit fun turns => handedOut positive arrivals turns 0 queue) := by
  rcases loses.cases with ⟨turns, stop, complete, typed⟩ | ⟨waits, waits'⟩
  · obtain ⟨outcome, there⟩ := Option.ne_none_iff_exists'.mp complete
    have there' := typedLine_extends typed there
    have codes := (@shiftCodeTyped_extends limit [] _ _ 0 false typed).2 complete
    rw [List.length_nil] at codes
    constructor
    · intro line taken
      rw [completes_iff (typedBytes_grows _) there', @completes_iff limit (fun turns => handedOut positive arrivals turns 0 queue)
        turns outcome handedOut_grows there]
    · rw [shiftCodeTyped_iff (typedBytes_grows _) (by rw [there']; exact Option.some_ne_none _),
        @shiftCodeTyped_iff limit (fun turns => handedOut positive arrivals turns 0 queue) turns handedOut_grows complete,
        codes]
  · have early := fun bytes => (@shiftCodeTyped_extends limit [] bytes bytes 0 false List.prefix_rfl).1
    refine ⟨fun line taken => iff_of_false ?_ ?_, iff_of_false ?_ ?_⟩
    · rintro ⟨stop, complete⟩
      exact absurd (waits' stop) (by rw [complete]; exact Option.some_ne_none _)
    · rintro ⟨turns, complete⟩
      exact absurd (waits turns) (by rw [complete]; exact Option.some_ne_none _)
    · rintro ⟨stop, typed⟩
      exact absurd ((early _ (waits' stop)).symm.trans typed) Bool.false_ne_true
    · rintro ⟨turns, typed⟩
      exact absurd ((early _ (waits turns)).symm.trans typed) Bool.false_ne_true

theorem LosesNothing.keepsLine (loses : LosesNothing positive arrivals limit queue) :
    KeepsLine limit (typedBytes queue.elements arrivals) fun turns => handedOut positive arrivals turns 0 queue where
  completes line taken complete := ⟨taken, Nat.le_refl _, (loses.same.1 line taken).mp complete⟩
  waits nothing line taken complete := nothing line taken ((loses.same.1 line taken).mpr complete)

/-- Two lines of one length in the same memory are the same. -/
theorem holds_unique {chars chars' : List UInt8} (first : Holds memory (chars ++ [0])) (second : Holds memory (chars' ++ [0]))
    (length : chars.length = chars'.length) : chars = chars' := by
  refine List.ext_getElem? fun i => ?_
  by_cases inside : i < chars.length
  · obtain ⟨value, here⟩ : ∃ value, chars[i]? = some value := ⟨_, List.getElem?_eq_getElem inside⟩
    obtain ⟨value', there⟩ : ∃ value', chars'[i]? = some value' := ⟨_, List.getElem?_eq_getElem (by omega)⟩
    have same := first i value (by rw [List.getElem?_append_left inside, here])
    have same' := second i value' (by rw [List.getElem?_append_left (by omega), there])
    rw [here, there, ← same, ← same']
  · rw [List.getElem?_eq_none (by omega), List.getElem?_eq_none (by omega)]

/-- Without a shift code among the bytes handed out, the line of all bytes is read exactly when these bytes keep it. -/
theorem readsLine_iff_keepsLine (represents : rb.Represents queue) (some_place : 1 ≤ size)
    (clean : ¬ ShiftCodeTyped (size - 1) fun turns => handedOut positive arrivals turns 0 queue) :
    ReadsLine size memory (typedBytes queue.elements arrivals)
        (fun turns => keyboardRead arrivals turns size rb memory) ↔
      KeepsLine (size - 1) (typedBytes queue.elements arrivals) fun turns => handedOut positive arrivals turns 0 queue := by
  have reads : ∀ turns, ReadsBytes size memory (handedOut positive arrivals turns 0 queue)
      (keyboardRead arrivals turns size rb memory) := fun turns =>
    (readsBytes_iff positive represents arrivals turns some_place memory).mpr
      (Bool.eq_false_iff.mpr fun typed => clean ⟨turns, typed⟩)
  unfold ReadsBytes at reads
  constructor
  · intro line
    constructor
    · intro chars taken complete
      obtain ⟨turns, memory', taken', returned, holds, _, _, few⟩ := line.returns chars taken complete
      have here := reads turns
      rw [returned] at here
      cases handed : typedLine (size - 1) [] 0 (handedOut positive arrivals turns 0 queue) with
      | none =>
          rw [handed] at here
          exact here.elim
      | some outcome =>
          rw [handed] at here
          obtain ⟨holds', _, _, length, all⟩ := here
          obtain rfl := holds_unique holds holds' length
          exact ⟨taken', few, turns, by rw [handed, all]⟩
    · rintro nothing chars taken ⟨turns, complete⟩
      have here := reads turns
      rw [complete, line.waits nothing turns] at here
      exact here
  · intro keeps
    constructor
    · intro chars taken complete
      obtain ⟨taken', few, turns, handed⟩ := keeps.completes chars taken complete
      have here := reads turns
      rw [handed] at here
      cases returned : keyboardRead arrivals turns size rb memory with
      | none =>
          rw [returned] at here
          exact here.elim
      | some outcome =>
          rw [returned] at here
          obtain ⟨memory', result, count⟩ := outcome
          obtain ⟨holds, short, kept, length, all⟩ := here
          exact ⟨turns, memory', count, by rw [returned, length], holds, short, kept, all ▸ few⟩
    · intro nothing turns
      have here := reads turns
      cases handed : typedLine (size - 1) [] 0 (handedOut positive arrivals turns 0 queue) with
      | none =>
          rw [handed] at here
          cases returned : keyboardRead arrivals turns size rb memory with
          | none => rfl
          | some outcome =>
              rw [returned] at here
              exact here.elim
      | some outcome => exact absurd ⟨turns, handed⟩ (keeps.waits nothing outcome.1 outcome.2)

/-- When no byte is dropped, the line is read exactly when no shift code counts. -/
theorem readsLine_iff_clean (represents : rb.Represents queue) (some_place : 1 ≤ size)
    (loses : LosesNothing positive arrivals (size - 1) queue) :
    ReadsLine size memory (typedBytes queue.elements arrivals)
        (fun turns => keyboardRead arrivals turns size rb memory) ↔
      ¬ ShiftCodeTyped (size - 1) (typedBytes queue.elements arrivals) := by
  obtain ⟨lines, codes⟩ := loses.same
  rw [codes]
  constructor
  · rintro line ⟨turns, typed⟩
    have incomplete := (@shiftCodeTyped_extends (size - 1) [] _ (handedOut positive arrivals turns 0 queue) 0 false
      List.prefix_rfl).1
    cases handed : typedLine (size - 1) [] 0 (handedOut positive arrivals turns 0 queue) with
    | none => exact absurd ((incomplete handed).symm.trans typed) Bool.false_ne_true
    | some outcome =>
        obtain ⟨chars, taken⟩ := outcome
        obtain ⟨turns', memory', taken', returned, holds, short, kept, few⟩ :=
          line.returns chars taken ((lines chars taken).mpr ⟨turns, handed⟩)
        -- in enough turns the line is complete and the call has returned
        have later := keyboardRead_prefix positive represents (Nat.le_max_right turns turns') returned
        have handed' := typedLine_extends (handedOut_grows _ _ (Nat.le_max_left turns turns')) handed
        have typed' := (@shiftCodeTyped_extends (size - 1) [] _ _ 0 false
          (@handedOut_grows _ positive arrivals queue _ _ (Nat.le_max_left turns turns'))).2
          (by rw [handed]; exact Option.some_ne_none _)
        rw [List.length_nil, typed] at typed'
        have enough : taken ≤ taken' := by
          rw [keyboardRead, @keyboardReadLoop_eq _ positive _ _ _ _ represents] at later
          obtain ⟨state, read, same⟩ := Option.map_eq_some_iff.mp later
          have least := taken_le follows_nothing handed' read
          obtain ⟨_, _, count⟩ := state
          obtain ⟨_, _, rfl⟩ := same
          exact least
        have reads : ReadsBytes size memory (handedOut positive arrivals (max turns turns') 0 queue)
            (keyboardRead arrivals (max turns turns') size rb memory) := by
          unfold ReadsBytes
          rw [handed', later]
          exact ⟨holds, short, kept, rfl, Nat.le_antisymm few enough⟩
        have clean := (readsBytes_iff positive represents arrivals (max turns turns') some_place memory).mp reads
        exact absurd (clean.symm.trans typed') Bool.false_ne_true
  · exact fun clean => (readsLine_iff_keepsLine represents some_place clean).mpr loses.keepsLine

end Typed

/-- The call reads the line that is typed exactly when no `'6'` or `'*'` is among its bytes since it was last empty,
provided that the ring buffer drops none of them. With or without bytes that are dropped, when no such character is among
those that are left, it does so exactly when these give the same line. -/
theorem keyboardRead_readsLine_iff {capacity : Nat} (positive : 0 < capacity) {rb : RingBuffer}
    {queue : BoundedQueue UInt8 capacity} (represents : rb.Represents queue) (arrivals : Arrivals) {size : Nat}
    (some_place : 1 ≤ size) (memory : Nat → UInt8) :
    (LosesNothing positive arrivals (size - 1) queue →
        (ReadsLine size memory (typedBytes queue.elements arrivals)
            (fun turns => keyboardRead arrivals turns size rb memory) ↔
          ¬ ShiftCodeTyped (size - 1) (typedBytes queue.elements arrivals))) ∧
      ((¬ ShiftCodeTyped (size - 1) fun turns => handedOut positive arrivals turns 0 queue) →
        (ReadsLine size memory (typedBytes queue.elements arrivals)
            (fun turns => keyboardRead arrivals turns size rb memory) ↔
          KeepsLine (size - 1) (typedBytes queue.elements arrivals) fun turns =>
            handedOut positive arrivals turns 0 queue)) :=
  ⟨readsLine_iff_clean represents some_place, readsLine_iff_keepsLine represents some_place⟩

/-- A ring buffer for eight bytes. -/
def smallRing : RingBuffer := ringBufferInit (List.replicate 8 0) 8

theorem smallRing_represents : smallRing.Represents (.empty : BoundedQueue UInt8 8) :=
  ⟨ringBufferInit_holds (by decide) (by decide), by decide⟩

/-- All bytes arrive at once. -/
def atOnce (bytes : List UInt8) : Arrivals
  | 0 => bytes
  | _ => []

theorem atOnce_losesNothing {bytes : List UInt8} (few : bytes.length ≤ 8) (limit : Nat) :
    LosesNothing (by decide) (atOnce bytes) limit (.empty : BoundedQueue UInt8 8) := by
  intro turns _
  have nothing : ∀ use, 1 ≤ use → atOnce bytes use = [] := by
    intro use later
    cases use with
    | zero => exact absurd later (by decide)
    | succ use => rfl
  refine HasRoom.of_total nothing (turns + 1) ?_
  rw [arrived_turn (by decide), arrived_of_le (Nat.le_refl 1), List.append_nil]
  show 0 + bytes.length ≤ 8
  rw [Nat.zero_add]
  exact few

/-- The character `'6'` and the end of the line: the line is empty. -/
theorem keyboardRead_drops_six :
    Completes 15 (typedBytes [] (atOnce [0x36, 0x0A])) [0x36] 2 ∧
      (keyboardRead (atOnce [0x36, 0x0A]) 4 16 smallRing fun _ => 0).map (fun outcome => outcome.2) = some (0, 2) ∧
      LosesNothing (by decide) (atOnce [0x36, 0x0A]) 15 (.empty : BoundedQueue UInt8 8) ∧
      ¬ ReadsLine 16 (fun _ => 0) (typedBytes [] (atOnce [0x36, 0x0A]))
        (fun turns => keyboardRead (atOnce [0x36, 0x0A]) turns 16 smallRing fun _ => 0) := by
  have typed : Completes 15 (typedBytes [] (atOnce [0x36, 0x0A])) [0x36] 2 := ⟨1, by decide⟩
  have result : (keyboardRead (atOnce [0x36, 0x0A]) 4 16 smallRing fun _ => 0).map (fun outcome => outcome.2) =
      some (0, 2) := by decide
  refine ⟨typed, result, atOnce_losesNothing (by decide) 15, fun reads => ?_⟩
  obtain ⟨turns, memory, taken, returned, _⟩ := reads.returns [0x36] 2 typed
  obtain ⟨outcome, four, count⟩ := Option.map_eq_some_iff.mp result
  have first := keyboardRead_prefix (by decide) smallRing_represents (Nat.le_max_left turns 4) returned
  have second := keyboardRead_prefix (by decide) smallRing_represents (Nat.le_max_right turns 4) four
  obtain rfl := Option.some.inj (first.symm.trans second)
  exact absurd (congrArg Prod.fst count) (show ¬ 1 = 0 by decide)

/-- Ten bytes, the first two of which are dropped and do not matter. -/
def overflowing : List UInt8 := [0x01, 0x01, 0x61, 0x62, 0x63, 0x64, 0x65, 0x66, 0x67, 0x0D]

/-- A line of two characters behind a deleted one, and one of seven characters behind two bytes that are dropped. -/
theorem keyboardRead_readsLine_ab :
    Completes 15 (typedBytes [] (atOnce [0x36, 0x08, 0x61, 0x62, 0x0D])) [0x61, 0x62] 5 ∧
      ReadsLine 16 (fun _ => 0) (typedBytes [] (atOnce [0x36, 0x08, 0x61, 0x62, 0x0D]))
        (fun turns => keyboardRead (atOnce [0x36, 0x08, 0x61, 0x62, 0x0D]) turns 16 smallRing fun _ => 0) ∧
      Completes 15 (typedBytes [] (atOnce overflowing)) [0x61, 0x62, 0x63, 0x64, 0x65, 0x66, 0x67] 10 ∧
      ReadsLine 16 (fun _ => 0) (typedBytes [] (atOnce overflowing))
        (fun turns => keyboardRead (atOnce overflowing) turns 16 smallRing fun _ => 0) := by
  have typed : typedLine 15 [] 0 (typedBytes [] (atOnce [0x36, 0x08, 0x61, 0x62, 0x0D]) 1) = some ([0x61, 0x62], 5) := by
    decide
  have whole : typedLine 15 [] 0 (typedBytes [] (atOnce overflowing) 1) =
      some ([0x61, 0x62, 0x63, 0x64, 0x65, 0x66, 0x67], 10) := by decide
  have left : typedLine 15 [] 0 (handedOut (by decide) (atOnce overflowing) 8 0 (.empty : BoundedQueue UInt8 8)) =
      some ([0x61, 0x62, 0x63, 0x64, 0x65, 0x66, 0x67], 8) := by decide
  have roomy := (keyboardRead_readsLine_iff (by decide) smallRing_represents (atOnce [0x36, 0x08, 0x61, 0x62, 0x0D])
    (show 1 ≤ 16 by decide) fun _ => 0).1 (atOnce_losesNothing (by decide) 15)
  have dropping := (keyboardRead_readsLine_iff (by decide) smallRing_represents (atOnce overflowing)
    (show 1 ≤ 16 by decide) fun _ => 0).2
  refine ⟨⟨1, typed⟩, roomy.mpr fun codes => ?_, ⟨1, whole⟩, (dropping fun codes => ?_).mpr ⟨?_, ?_⟩⟩
  · have counts := (@shiftCodeTyped_iff 15 (typedBytes [] (atOnce [0x36, 0x08, 0x61, 0x62, 0x0D])) 1 (typedBytes_grows _)
      (by rw [typed]; exact Option.some_ne_none _)).mp codes
    exact absurd counts (by decide)
  · have counts := (@shiftCodeTyped_iff 15 _ 8 handedOut_grows (by rw [left]; exact Option.some_ne_none _)).mp codes
    exact absurd counts (by decide)
  · intro line taken complete
    obtain ⟨rfl, rfl⟩ := Prod.mk.inj ((completes_iff (typedBytes_grows _) whole line taken).mp complete)
    exact ⟨8, by decide, 8, left⟩
  · exact fun nothing => absurd ⟨1, whole⟩ (nothing _ _)

end KeblaOS.Syscall
