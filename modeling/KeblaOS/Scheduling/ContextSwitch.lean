import Mathlib.Data.Finset.Card
import KeblaOS.Scheduling.RoundRobin

/-!
# Thread creation between timer ticks

`schedule` takes `current_thread` for the thread whose registers it is given.
`add_thread` lets `current_thread` point to the new thread, while another one keeps
executing; the next tick then saves the executing thread's registers in the new thread's
record. The system below keeps the executing thread and the context every thread is to
resume with beside the kernel's records, and compares the two.
-/

namespace KeblaOS.Scheduling

/-- The kernel together with the thread that really executes and the context each thread
should continue with: the one of its last preemption, or its initial one. -/
structure System where
  kernel : Kernel
  executing : UInt64
  expected : UInt64 → Registers

/-- A call of `create_thread` with the thread it returns, or a timer tick that interrupts
the executing thread with some registers. -/
inductive Event where
  | create (request : ThreadRequest) (thread : UInt64)
  | tick (registers : Registers)

/-- A call of `create_thread` that did not return null. -/
def Event.creates : Event → Bool
  | .create _ thread => thread != 0
  | .tick _ => false

inductive SystemStep (system : System) : Event → System → Prop where
  | create {process request thread kernel} (running : system.kernel.currentProcess = some process)
      (fresh : ∀ cells, ThreadList system.kernel process cells → request.block ∉ cells)
      (returned : createThread system.kernel process request = some (thread, kernel)) :
      SystemStep system (.create request thread)
        { system with
          kernel := kernel
          expected := if thread = 0 then system.expected
            else Function.update system.expected thread
              (initialRegisters request.stack request.function request.arg) }
  | tick {registers resumed kernel} (returned : schedule system.kernel registers = (some resumed, kernel)) :
      SystemStep system (.tick registers)
        ⟨kernel, resumed, Function.update system.expected system.executing registers⟩

/-- A tick that returns the context the resumed thread should continue with and stores
registers for no thread but the executing one. -/
def TickRight (before after : System) : Prop :=
  (after.kernel.thread after.executing).registers = after.expected after.executing ∧
    ∀ thread, thread ≠ before.executing →
      (after.kernel.thread thread).registers = (before.kernel.thread thread).registers

/-- The records hold the contexts the threads should continue with. -/
structure ContextsKept (system : System) (process : Process) (cells : List UInt64) : Prop where
  threads : ThreadList system.kernel process cells
  executing : system.executing ∈ cells
  contexts : ∀ thread ∈ cells, (system.kernel.thread thread).registers = system.expected thread

section Create

variable {kernel : Kernel} {process : Process} {cells : List UInt64}

/-- A list of 64-bit addresses without repetition is no longer than there are addresses. -/
theorem length_le_addressCount (distinct : cells.Nodup) : cells.length ≤ addressCount := by
  have images : (cells.map UInt64.toNat).Nodup := distinct.map fun _ _ => UInt64.toNat_inj.mp
  have bounded : (cells.map UInt64.toNat).toFinset ⊆ Finset.range addressCount := by
    intro value member
    obtain ⟨address, _, rfl⟩ := List.mem_map.mp (List.mem_toFinset.mp member)
    rw [Finset.mem_range]
    exact address.toNat_lt
  have card := Finset.card_le_card bounded
  rw [List.toFinset_card_of_nodup images, List.length_map, Finset.card_range] at card
  exact card

/-- The loop of `add_thread` stops at the last thread of the list. -/
theorem lastThread_eq {start last : UInt64} {fuel : Nat} {front : List UInt64}
    (linked : Linked (fun address => (kernel.thread address).next) (· = 0) start (front ++ [last]))
    (enough : front.length < fuel) : lastThread kernel fuel start = some last := by
  induction front generalizing start fuel with
  | nil =>
      obtain ⟨rfl, ends⟩ := linked.stop_of_singleton
      obtain ⟨fuel, rfl⟩ := Nat.exists_eq_succ_of_ne_zero (Nat.ne_of_gt enough)
      rw [lastThread, if_pos ends]
  | cons head tail ih =>
      obtain ⟨rfl, continues, rest⟩ := linked.tail_of_ne_nil (by simp)
      obtain ⟨fuel, rfl⟩ := Nat.exists_eq_succ_of_ne_zero (Nat.ne_of_gt (Nat.zero_lt_of_lt enough))
      rw [lastThread, if_neg continues]
      exact ih rest (by simpa using enough)

/-- The records after hanging a thread behind the last one of a list. -/
def hangThread (thread : UInt64 → Thread) (cells : List UInt64) (address : UInt64) : UInt64 → Thread :=
  match cells.getLast? with
  | none => thread
  | some last => Function.update thread last { thread last with next := address }

theorem hangThread_next (thread : UInt64 → Thread) (cells : List UInt64) (address : UInt64) :
    (fun other => (hangThread thread cells address other).next) =
      Listed.hang (fun other => (thread other).next) cells address := by
  funext other
  unfold hangThread Listed.hang
  cases cells.getLast? with
  | none => rfl
  | some last =>
      simp only [Function.update_apply]
      split_ifs <;> rfl

theorem hangThread_registers (thread : UInt64 → Thread) (cells : List UInt64) (address other : UInt64) :
    (hangThread thread cells address other).registers = (thread other).registers := by
  unfold hangThread
  cases cells.getLast? with
  | none => rfl
  | some last =>
      simp only [Function.update_apply]
      split_ifs with same
      · rw [same]
      · rfl

theorem hangThread_of_notMem {thread : UInt64 → Thread} {address other : UInt64} (outside : other ∉ cells) :
    hangThread thread cells address other = thread other := by
  unfold hangThread
  cases isLast : cells.getLast? with
  | none => rfl
  | some last =>
      have different : other ≠ last := by
        rintro rfl
        exact outside (List.mem_of_getLast? isLast)
      exact Function.update_of_ne different _ _

/-- `add_thread` hangs the thread behind the last one, if there is one, and makes it the
current one. -/
theorem addThread_eq_hangThread (thread : UInt64)
    (listed : Listed (fun address => (kernel.thread address).next) 0 process.threads cells) :
    addThread kernel process thread = some
      { kernel with
        thread := hangThread kernel.thread cells thread
        currentProcess := some ⟨cells.head?.getD thread, thread⟩ } := by
  unfold addThread
  rcases List.eq_nil_or_concat cells with rfl | ⟨front, last, rfl⟩
  · rw [if_pos listed.eq_null]
    rfl
  · rw [List.concat_eq_append] at listed ⊢
    have linked := listed.linked (by simp)
    obtain ⟨_, shape⟩ := linked.eq_cons
    have nonempty : process.threads ≠ 0 := by
      intro null
      exact absurd (listed.eq_nil null) (by simp)
    have short := length_le_addressCount linked.nodup
    have walk : lastThread kernel addressCount process.threads = some last :=
      lastThread_eq linked (by rw [List.length_append, List.length_singleton] at short; omega)
    have first : (front ++ [last]).head?.getD thread = process.threads := by rw [shape]; rfl
    rw [if_neg nonempty, walk, Option.map_some, first, hangThread, List.getLast?_append_of_ne_nil _ (by simp)]
    rfl

/-- `add_thread` to a process that has threads. -/
theorem addThread_eq {thread : UInt64} (nonempty : process.threads ≠ 0)
    (linked : Linked (fun address => (kernel.thread address).next) (· = 0) process.threads cells)
    (fresh : thread ∉ cells) (nonnull : thread ≠ 0) (ends : (kernel.thread thread).next = 0) :
    ∃ after, addThread kernel process thread = some after ∧
      ThreadList after { process with currentThread := thread } (cells ++ [thread]) ∧
      ∀ address, (after.thread address).registers = (kernel.thread address).registers := by
  have listed := Listed.of_linked linked nonempty
  have first : cells.head?.getD thread = process.threads := by
    obtain ⟨_, shape⟩ := linked.eq_cons
    rw [shape]
    rfl
  have appended := listed.append nonnull fresh ends
  rw [← hangThread_next, first] at appended
  refine ⟨_, addThread_eq_hangThread thread listed, ⟨?_, nonempty, appended.linked (by simp), by simp⟩, ?_⟩
  · rw [first]
  · exact hangThread_registers _ _ _

/-- A successful `create_thread` appends the new thread, with its initial registers, and
makes it the current one. -/
theorem createThread_cases (threads : ThreadList kernel process cells) (request : ThreadRequest)
    (fresh : request.block ∉ cells) :
    createThread kernel process request = some (0, kernel) ∨
      ∃ after, createThread kernel process request = some (request.block, after) ∧
        request.block ≠ 0 ∧
        ThreadList after { process with currentThread := request.block } (cells ++ [request.block]) ∧
        ∀ address, (after.thread address).registers = if address = request.block then
          initialRegisters request.stack request.function request.arg
          else (kernel.thread address).registers := by
  unfold createThread
  by_cases noBlock : request.block = 0
  · rw [if_pos noBlock]
    exact .inl rfl
  · rw [if_neg noBlock]
    by_cases noStack : request.stack = 0
    · rw [if_pos noStack]
      exact .inl rfl
    · rw [if_neg noStack]
      right
      let prepared : Kernel :=
        { kernel.setThread request.block (newThread kernel request) with
          nextFreeTid := kernel.nextFreeTid + 1 }
      have elsewhere : ∀ address, address ≠ request.block →
          prepared.thread address = kernel.thread address := fun address different =>
        Function.update_of_ne different _ _
      have here : prepared.thread request.block = newThread kernel request := Function.update_self _ _ _
      have linked : Linked (fun address => (prepared.thread address).next) (· = 0) process.threads cells := by
        refine threads.linked.congr fun address member => ?_
        have different : address ≠ request.block := by
          rintro rfl
          exact fresh member
        rw [elsewhere address different]
      obtain ⟨after, added, listed, registers⟩ :=
        addThread_eq threads.nonempty linked fresh noBlock (by rw [here, newThread])
      have returned : (addThread prepared process request.block).map (fun kernel => (request.block, kernel)) =
          some (request.block, after) := by rw [added, Option.map_some]
      refine ⟨after, returned, noBlock, listed, fun address => ?_⟩
      rw [registers]
      split_ifs with same
      · rw [same, here, newThread]
      · rw [elsewhere address same]

end Create

section Runs

variable {system next : System} {process : Process} {cells : List UInt64}

/-- Creating a thread keeps the contexts; unless it fails, the executing thread is no
longer the current one. -/
theorem ContextsKept.create {request : ThreadRequest} {thread : UInt64}
    (kept : ContextsKept system process cells) (step : SystemStep system (.create request thread) next) :
    (thread = 0 ∧ next = system) ∨ (thread ≠ 0 ∧ next.executing ≠ thread ∧
      ContextsKept next { process with currentThread := thread } (cells ++ [thread])) := by
  cases step with
  | create running fresh returned =>
      obtain rfl := Option.some.inj (running.symm.trans kept.threads.current)
      have outside := fresh cells kept.threads
      rcases createThread_cases kept.threads request outside with failed |
          ⟨after, created, nonnull, threads, registers⟩
      · obtain ⟨rfl, rfl⟩ := Prod.mk.inj (Option.some.inj (returned.symm.trans failed))
        exact .inl ⟨rfl, by rw [if_pos rfl]⟩
      · obtain ⟨rfl, rfl⟩ := Prod.mk.inj (Option.some.inj (returned.symm.trans created))
        have notNew : ∀ other ∈ cells, other ≠ request.block := by
          rintro other member rfl
          exact outside member
        refine .inr ⟨nonnull, notNew _ kept.executing, threads,
          List.mem_append_left _ kept.executing, fun other member => ?_⟩
        dsimp only
        rw [registers, if_neg nonnull, Function.update_apply]
        rcases List.mem_append.mp member with old | new
        · rw [if_neg (notNew other old), if_neg (notNew other old), kept.contexts other old]
        · rw [if_pos (List.mem_singleton.mp new), if_pos (List.mem_singleton.mp new)]

/-- A tick while the executing thread is the current one is right and keeps the contexts. -/
theorem ContextsKept.tick {registers : Registers} (kept : ContextsKept system process cells)
    (synced : process.currentThread = system.executing)
    (step : SystemStep system (.tick registers) next) :
    TickRight system next ∧
      ContextsKept next { process with currentThread := next.executing } cells := by
  obtain ⟨i, bounded, position⟩ := List.getElem_of_mem kept.threads.member
  have position : cells[i]? = some process.currentThread :=
    List.getElem?_eq_some_iff.mpr ⟨bounded, position⟩
  cases step with
  | @tick _ resumed kernel returned =>
      obtain ⟨_, _, returned', turn, switched, threads⟩ :=
        schedule_cases kept.threads registers position
      obtain ⟨same, rfl⟩ := Prod.mk.inj (returned.symm.trans returned')
      obtain rfl := Option.some.inj same
      have member := List.mem_of_getElem? turn
      rw [synced] at switched
      have contexts : ∀ thread ∈ cells, (kernel.thread thread).registers =
          Function.update system.expected system.executing registers thread := by
        intro thread member
        rw [switched.registers, Function.update_apply, kept.contexts thread member]
      refine ⟨⟨contexts _ member, fun thread different => ?_⟩, threads, member, contexts⟩
      rw [switched.registers, if_neg different]

/-- A tick while another thread is the current one stores the executing thread's
registers in the wrong record, for some registers at least. -/
theorem ContextsKept.exists_tick_wrong (kept : ContextsKept system process cells)
    (displaced : process.currentThread ≠ system.executing) :
    ∃ registers next, SystemStep system (.tick registers) next ∧ ¬ TickRight system next := by
  obtain ⟨i, bounded, position⟩ := List.getElem_of_mem kept.threads.member
  have position : cells[i]? = some process.currentThread :=
    List.getElem?_eq_some_iff.mpr ⟨bounded, position⟩
  let registers : Registers :=
    { (system.kernel.thread process.currentThread).registers with
      rax := (system.kernel.thread process.currentThread).registers.rax + 1 }
  obtain ⟨resumed, kernel, returned, _, switched, _⟩ := schedule_cases kept.threads registers position
  refine ⟨registers, _, .tick returned, fun right => ?_⟩
  have unchanged := right.2 process.currentThread displaced
  dsimp only at unchanged
  rw [switched.registers, if_pos rfl] at unchanged
  have rax := congrArg Registers.rax unchanged
  simp [registers] at rax

/-- No tick comes after a successful `create_thread`. -/
def NoTickAfterCreate (events : List Event) : Prop :=
  ∀ front created back, events = front ++ created :: back → created.creates = true →
    ∀ registers, Event.tick registers ∉ back

theorem NoTickAfterCreate.of_snoc {events : List Event} {event : Event}
    (calm : NoTickAfterCreate (events ++ [event])) : NoTickAfterCreate events := by
  intro front created back split creates registers member
  exact calm front created (back ++ [event]) (by rw [split]; simp) creates registers
    (List.mem_append_left _ member)

/-- As long as no tick follows a creation the contexts are kept, and the executing thread
is the current one exactly when no thread was created. -/
theorem contextsKept_of_run {start : System} {events : List Event}
    (kept : ContextsKept start process cells) (synced : process.currentThread = start.executing)
    (run : Run SystemStep start events system) (calm : NoTickAfterCreate events) :
    ∃ process' cells', ContextsKept system process' cells' ∧
      (process'.currentThread = system.executing ↔ ∀ event ∈ events, event.creates = false) := by
  induction run with
  | nil => exact ⟨process, cells, kept, by simpa using synced⟩
  | @snoc events before event after _ step ih =>
      obtain ⟨process', cells', kept', current⟩ := ih calm.of_snoc
      cases event with
      | create request thread =>
          rcases kept'.create step with ⟨rfl, rfl⟩ | ⟨nonnull, displaced, kept''⟩
          · refine ⟨process', cells', kept', current.trans ?_⟩
            rw [List.forall_mem_append, List.forall_mem_singleton]
            exact ⟨fun none => ⟨none, rfl⟩, fun both => both.1⟩
          · refine ⟨_, _, kept'', ?_⟩
            constructor
            · exact fun same => absurd same.symm displaced
            · intro none
              have failed := none (.create request thread) (by simp)
              simp [Event.creates, nonnull] at failed
      | tick registers =>
          have none : ∀ earlier ∈ events, earlier.creates = false := by
            intro earlier member
            by_contra creates
            obtain ⟨front, back, rfl⟩ := List.append_of_mem member
            exact calm front earlier (back ++ [.tick registers]) (by simp) (by simpa using creates)
              registers (by simp)
          obtain ⟨_, kept''⟩ := kept'.tick (current.mpr none) step
          refine ⟨_, _, kept'', fun _ => ?_, fun _ => rfl⟩
          intro event member
          rcases List.mem_append.mp member with old | new
          · exact none event old
          · rw [List.mem_singleton.mp new]
            rfl

end Runs

/-- Up to the first tick behind a thread creation, the ticks of a run are right for all
register values exactly as long as no thread has been created. -/
theorem ticks_right_iff_no_create {start system : System} {process : Process} {cells : List UInt64}
    {events : List Event} (kept : ContextsKept start process cells)
    (synced : process.currentThread = start.executing) (run : Run SystemStep start events system)
    (calm : NoTickAfterCreate events) :
    (∀ registers next, SystemStep system (.tick registers) next → TickRight system next) ↔
      ∀ event ∈ events, event.creates = false := by
  obtain ⟨process', cells', kept', current⟩ := contextsKept_of_run kept synced run calm
  rw [← current]
  constructor
  · intro right
    by_contra displaced
    obtain ⟨registers, next, step, wrong⟩ := kept'.exists_tick_wrong displaced
    exact wrong (right registers next step)
  · intro synced' registers next step
    exact (kept'.tick synced' step).1

/-- The two threads of `twoThreads`, the first one executing. -/
def twoThreadsSystem : System where
  kernel := twoThreads
  executing := 1
  expected thread := (twoThreads.thread thread).registers

theorem twoThreadsSystem_contextsKept : ContextsKept twoThreadsSystem ⟨1, 1⟩ [1, 2] where
  threads := twoThreads_threadList
  executing := by decide
  contexts _ _ := rfl

/-- Before any thread is created, a tick on the two threads is right. -/
theorem ticks_right_twoThreads :
    ∃ next, SystemStep twoThreadsSystem (.tick (initialRegisters 7 7 7)) next ∧ TickRight twoThreadsSystem next := by
  have calm : NoTickAfterCreate [] := by
    intro front created back split
    simp at split
  have scheduled : schedule twoThreads (initialRegisters 7 7 7) =
      (some 2, (schedule twoThreads (initialRegisters 7 7 7)).2) := Prod.ext (by decide +kernel) rfl
  have right := (ticks_right_iff_no_create twoThreadsSystem_contextsKept rfl .nil calm).mpr (by simp)
  exact ⟨_, .tick scheduled, right _ _ (.tick scheduled)⟩

/-- A third thread is created at address 3 while thread 1 executes; the next tick stores
thread 1's registers in the new record and leaves thread 1's own record as it was. -/
theorem create_then_tick_wrong :
    ∃ created ticked,
      SystemStep twoThreadsSystem (.create ⟨[], 100, 5, 3, 4096⟩ 3) created ∧
      SystemStep created (.tick (initialRegisters 7 7 7)) ticked ∧
      (created.kernel.thread 3).registers = initialRegisters 4096 100 5 ∧
      (ticked.kernel.thread 3).registers = initialRegisters 7 7 7 ∧
      ticked.expected 1 = initialRegisters 7 7 7 ∧
      (ticked.kernel.thread 1).registers ≠ initialRegisters 7 7 7 ∧ ¬ TickRight created ticked := by
  let request : ThreadRequest := ⟨[], 100, 5, 3, 4096⟩
  let kernel := ((createThread twoThreads ⟨1, 1⟩ request).getD (0, twoThreads)).2
  have returned : createThread twoThreads ⟨1, 1⟩ request = some (3, kernel) := by
    have thread : (createThread twoThreads ⟨1, 1⟩ request).map (·.1) = some 3 := by decide +kernel
    obtain ⟨result, found, first⟩ := Option.map_eq_some_iff.mp thread
    show _ = some (3, ((createThread twoThreads ⟨1, 1⟩ request).getD (0, twoThreads)).2)
    rw [found, Option.getD_some, ← first]
  have fresh : ∀ cells, ThreadList twoThreads ⟨1, 1⟩ cells → request.block ∉ cells := by
    intro cells threads
    rw [← twoThreads_threadList.linked.unique threads.linked]
    decide
  let created : System := ⟨kernel, 1, Function.update twoThreadsSystem.expected 3
    (initialRegisters 4096 100 5)⟩
  let resumed := schedule kernel (initialRegisters 7 7 7)
  have scheduled : schedule kernel (initialRegisters 7 7 7) = (some 1, resumed.2) :=
    Prod.ext (by decide +kernel) rfl
  let ticked : System := ⟨resumed.2, 1, Function.update created.expected 1 (initialRegisters 7 7 7)⟩
  have overwritten : (ticked.kernel.thread 3).registers = initialRegisters 7 7 7 := by decide +kernel
  have initial : (created.kernel.thread 3).registers = initialRegisters 4096 100 5 := by decide +kernel
  refine ⟨created, ticked, .create rfl fresh returned, .tick scheduled, initial, overwritten,
    by decide +kernel, by decide +kernel, fun right => ?_⟩
  have unchanged := right.2 3 (by decide)
  rw [overwritten, initial] at unchanged
  exact absurd unchanged (by decide +kernel)

end KeblaOS.Scheduling
