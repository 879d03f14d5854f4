import KeblaOS.Memory.KernelHeap
import KeblaOS.Scheduling.ThreadLifecycle

/-!
# What `delete_thread` frees

The base of a thread's stack is not kept: `delete_thread` takes the saved stack pointer for the top of
the stack. `create_thread` saves the top there, and `schedule` the stack pointer of the moment. The
system below keeps with each live thread its stack and the stack pointer that was saved last, and
compares the pages that are freed with the pages of the thread. The records are those saved as long as
no copy of a name runs through them.
-/

namespace KeblaOS.Scheduling

open Memory (KernelHeap)

/-! ## Pages -/

/-- The addresses that `kheap_free` passes to `vm_free`. -/
def Block.freed (block : Block) : List UInt64 :=
  if block.address = 0 ∨ block.size = 0 then []
  else (List.range (KernelHeap.pageTurns block.size)).map fun i => block.address + 4096 * UInt64.ofNat i

/-- The pages of these addresses. -/
def Block.pages (block : Block) : List Nat := block.freed.map fun va => va.toNat / 4096

theorem kheapFreeLoop_eq_foldlM (va : UInt64) (count : Nat) (machine : Memory.Machine) :
    KernelHeap.kheapFreeLoop va count machine =
      ((List.range count).map fun i => va + 4096 * UInt64.ofNat i).foldlM Memory.vmFree machine := by
  induction count generalizing va machine with
  | zero => rfl
  | succ count ih =>
      have addresses : ((List.range count).map fun i => va + 4096 + 4096 * UInt64.ofNat i) =
          ((List.range count).map Nat.succ).map fun i => va + 4096 * UInt64.ofNat i := by
        rw [List.map_map]
        exact List.map_congr_left fun i _ => (Memory.add_pages_succ va i).symm
      have rest : KernelHeap.kheapFreeLoop (va + 4096) count =
          (((List.range count).map Nat.succ).map fun i => va + 4096 * UInt64.ofNat i).foldlM Memory.vmFree := by
        funext machine
        rw [ih, addresses]
      rw [KernelHeap.kheapFreeLoop, rest, List.range_succ_eq_map, List.map_cons, List.foldlM_cons, Memory.add_pages_zero,
        Option.bind_eq_bind]

/-- `kheap_free` calls `vm_free` for the addresses of the block. -/
theorem kheapFree_eq_foldlM (heap : KernelHeap) (block : Block) :
    heap.kheapFree block.address block.size =
      (block.freed.foldlM Memory.vmFree heap.machine).map fun machine => { heap with machine := machine } := by
  rw [KernelHeap.kheapFree, Block.freed]
  by_cases nothing : block.address = 0 ∨ block.size = 0
  · rw [if_pos nothing, if_pos nothing]
    rfl
  · rw [if_neg nothing, if_neg nothing, kheapFreeLoop_eq_foldlM]

/-- The pages of a range of the size of a stack. -/
theorem mem_stackPages {base : UInt64} (nonnull : base ≠ 0) (page : Nat) :
    page ∈ Block.pages ⟨base, threadStackSize⟩ ↔ ∃ i < 4, page = (base.toNat / 4096 + i) % 4503599627370496 := by
  have turns : KernelHeap.pageTurns threadStackSize = 4 := by decide
  have some_page : ¬ (base = 0 ∨ threadStackSize = 0) := not_or.mpr ⟨nonnull, by decide⟩
  have bound := base.toNat_lt
  have place : ∀ i < 4, (base + 4096 * UInt64.ofNat i).toNat / 4096 = (base.toNat / 4096 + i) % 4503599627370496 := by
    intro i small
    simp only [UInt64.toNat_add, UInt64.toNat_mul, UInt64.toNat_ofNat', UInt64.reduceToNat]
    omega
  rw [Block.pages, Block.freed, if_neg some_page, turns]
  simp only [List.map_map, List.mem_map, List.mem_range, Function.comp_apply]
  constructor
  · rintro ⟨i, small, rfl⟩
    exact ⟨i, small, place i small⟩
  · rintro ⟨i, small, rfl⟩
    exact ⟨i, small, place i small⟩

/-- Two ranges of the size of a stack share all their pages only when they begin in the same one. -/
theorem stackPages_subset_iff {base base' : UInt64} (nonnull : base ≠ 0) (nonnull' : base' ≠ 0) :
    (∀ page ∈ Block.pages ⟨base, threadStackSize⟩, page ∈ Block.pages ⟨base', threadStackSize⟩) ↔
      base'.toNat / 4096 = base.toNat / 4096 := by
  have bound := base.toNat_lt
  have bound' := base'.toNat_lt
  simp only [mem_stackPages nonnull, mem_stackPages nonnull']
  constructor
  · intro within
    obtain ⟨i, small, first⟩ := within _ ⟨0, by decide, rfl⟩
    obtain ⟨j, small', last⟩ := within _ ⟨3, by decide, rfl⟩
    omega
  · rintro same page ⟨i, small, rfl⟩
    exact ⟨i, small, by rw [same]⟩

/-- A thread record has one page. -/
theorem recordPages {thread : UInt64} (nonnull : thread ≠ 0) :
    Block.pages ⟨thread, threadSize⟩ = [thread.toNat / 4096] := by
  have turns : KernelHeap.pageTurns threadSize = 1 := by decide
  have some_page : ¬ (thread = 0 ∨ threadSize = 0) := not_or.mpr ⟨nonnull, by decide⟩
  rw [Block.pages, Block.freed, if_neg some_page, turns, List.range_one, List.map_singleton, List.map_singleton,
    Memory.add_pages_zero]

/-! ## What the calls do to the saved registers -/

namespace Table

variable {table after : Table}

/-- The thread whose record `schedule` saves the registers in; 0 when there is none. -/
def running (table : Table) : UInt64 :=
  if table.currentProcess = 0 then 0 else (table.process table.currentProcess).currentThread

theorem thread_update (table : Table) (process : UInt64) (kernel : Kernel) :
    (table.update process kernel).thread = kernel.thread := by
  unfold update
  cases kernel.currentProcess <;> rfl

/-- A record replaced by one with the same registers. -/
theorem registers_update {thread : UInt64 → Thread} {address : UInt64} {record : Thread}
    (kept : record.registers = (thread address).registers) (other : UInt64) :
    (Function.update thread address record other).registers = (thread other).registers := by
  by_cases same : other = address
  · rw [same, Function.update_self, kept]
  · rw [Function.update_of_ne same]

theorem scheduleKernel_registers {kernel : Kernel} {process : Process} (current : kernel.currentProcess = some process)
    (registers : Registers) (other : UInt64) :
    ((Scheduling.schedule kernel registers).2.thread other).registers =
      if process.currentThread ≠ 0 ∧ other = process.currentThread then registers else (kernel.thread other).registers := by
  rw [Scheduling.schedule, current]
  dsimp only
  by_cases null : process.currentThread = 0
  · rw [if_pos null, if_neg (fun running => running.1 null)]
  · rw [if_neg null]
    -- the record resumed gets its status only
    refine Eq.trans (registers_update (by rfl) other) ?_
    unfold Kernel.setThread
    dsimp only
    by_cases same : other = process.currentThread
    · rw [same, Function.update_self, if_pos ⟨null, rfl⟩]
    · rw [Function.update_of_ne same, if_neg (fun running => same running.2)]

/-- `schedule` saves the registers in one record. -/
theorem schedule_registers (registers : Registers) (other : UInt64) :
    ((table.schedule registers).2.thread other).registers =
      if table.running ≠ 0 ∧ other = table.running then registers else (table.thread other).registers := by
  unfold schedule running
  dsimp only
  rw [thread_update]
  by_cases idle : table.currentProcess = 0
  · have unscheduled : Scheduling.schedule (table.view table.currentProcess) registers =
        (none, table.view table.currentProcess) := by
      rw [Scheduling.schedule, view, if_pos idle]
    rw [unscheduled, if_pos idle, if_neg (fun running => running.1 rfl)]
    rfl
  · have current : (table.view table.currentProcess).currentProcess =
        some (table.process table.currentProcess).toProcess := if_neg idle
    rw [scheduleKernel_registers current, if_neg idle]
    rfl

theorem addThread_registers {kernel finish : Kernel} {process : Process} {thread : UInt64}
    (added : addThread kernel process thread = some finish) (other : UInt64) :
    (finish.thread other).registers = (kernel.thread other).registers := by
  unfold addThread at added
  by_cases empty : process.threads = 0
  · rw [if_pos empty] at added
    rw [← Option.some.inj added]
  · rw [if_neg empty] at added
    obtain ⟨last, _, rfl⟩ := Option.map_eq_some_iff.mp added
    exact registers_update (by rfl) other

theorem newThread_registers {kernel : Kernel} {request : ThreadRequest} (nonnull : request.block ≠ 0) (other : UInt64) :
    (Function.update kernel.thread request.block (newThread kernel request) other).registers =
      if request.block ≠ 0 ∧ other = request.block then initialRegisters request.stack request.function request.arg
      else (kernel.thread other).registers := by
  by_cases same : other = request.block
  · rw [if_pos ⟨nonnull, same⟩, same, Function.update_self, newThread]
  · rw [if_neg (fun new => same new.2), Function.update_of_ne same]

/-- `create_thread` prepares the registers of the new thread, if there is one, and no others. -/
theorem createThread_registers {parent thread : UInt64} {request : ThreadRequest}
    (created : table.createThread parent request = some (thread, after)) :
    ∀ other, (after.thread other).registers =
      if thread ≠ 0 ∧ other = request.block then initialRegisters request.stack request.function request.arg
      else (table.thread other).registers := by
  intro other
  unfold createThread at created
  by_cases noStack : request.block ≠ 0 ∧ request.stack = 0
  · rw [if_pos noStack] at created
    obtain ⟨rfl, rfl⟩ := Prod.mk.inj (Option.some.inj created)
    rw [if_neg (fun returned => returned.1 rfl)]
    rfl
  · rw [if_neg noStack] at created
    by_cases orphan : request.block ≠ 0 ∧ parent = 0
    · rw [if_pos orphan] at created
      obtain ⟨rfl, rfl⟩ := Prod.mk.inj (Option.some.inj created)
      exact newThread_registers orphan.1 other
    · rw [if_neg orphan] at created
      obtain ⟨⟨made, kernel⟩, listed, pair⟩ := Option.map_eq_some_iff.mp created
      obtain ⟨rfl, rfl⟩ := Prod.mk.inj pair
      dsimp only
      rw [thread_update]
      unfold Scheduling.createThread at listed
      by_cases noBlock : request.block = 0
      · rw [if_pos noBlock] at listed
        obtain ⟨rfl, rfl⟩ := Prod.mk.inj (Option.some.inj listed)
        rw [if_neg (fun returned => returned.1 rfl)]
        rfl
      · have stacked : request.stack ≠ 0 := fun missing => noStack ⟨noBlock, missing⟩
        rw [if_neg noBlock, if_neg stacked] at listed
        obtain ⟨finish, added, pair⟩ := Option.map_eq_some_iff.mp listed
        obtain ⟨rfl, rfl⟩ := Prod.mk.inj pair
        rw [addThread_registers added]
        exact newThread_registers noBlock other

/-- `delete_thread` frees the block below the saved stack pointer and the record. -/
theorem deleteThread_kept {thread : UInt64} {pointer : NamePointer} (nonnull : thread ≠ 0)
    (harmless : pointer.Harmless (table.thread thread).name) (own : pointer.meets thread threadSize = false)
    (deleted : table.deleteThread pointer thread = some after) :
    after.freed = table.freed ++ table.threadBlocks thread ∧
      ∀ other, pointer.meets other threadSize = false →
        (after.thread other).registers = (table.thread other).registers := by
  cases removed : table.removeThread thread with
  | none =>
      rw [deleteThread, if_neg nonnull, removed] at deleted
      exact absurd deleted (Option.some_ne_none _).symm
  | some unlinked =>
      rw [deleteThread_of_removed nonnull harmless own removed] at deleted
      obtain rfl := Option.some.inj deleted
      obtain ⟨freed, record⟩ := removeThread_kept removed
      refine ⟨?_, fun other spared => ?_⟩
      · have registers : (unlinked.thread thread).registers = (table.thread thread).registers := by rw [record thread]
        rw [free, threadBlocks, registers, ← threadBlocks]
        exact congrArg (· ++ table.threadBlocks thread) freed
      · refine (congrArg Thread.registers (overwrite_thread spared)).trans ?_
        rw [record other]

end Table

/-! ## Runs -/

/-- A live thread, its stack, and the stack pointer that `schedule` has saved in it last. -/
structure StackedThread where
  thread : UInt64
  stack : UInt64
  interrupted : Option UInt64
deriving DecidableEq

namespace StackedThread

/-- The block that `create_thread` allocated as the stack. -/
def stackBlock (own : StackedThread) : Block := ⟨own.stack, threadStackSize⟩

/-- The block of the thread itself. -/
def recordBlock (own : StackedThread) : Block := ⟨own.thread, threadSize⟩

/-- The pages of a thread and of its stack. -/
def pages (own : StackedThread) : List Nat := own.stackBlock.pages ++ own.recordBlock.pages

/-- What `kheap_alloc` promises of the two blocks: pages inside the address space, which are not the
same. -/
structure Placed (own : StackedThread) : Prop where
  thread : own.thread ≠ 0
  stack : own.stack ≠ 0
  aligned : own.thread.toNat % 4096 = 0 ∧ own.stack.toNat % 4096 = 0
  inside : own.stack.toNat + 0x4000 ≤ 18446744073709551616
  apart : ∀ page ∈ own.stackBlock.pages, page ∉ own.recordBlock.pages

/-- No page belongs to both threads. -/
def Apart (own other : StackedThread) : Prop := ∀ page ∈ own.pages, page ∉ other.pages

theorem Apart.symm {own other : StackedThread} (apart : own.Apart other) : other.Apart own :=
  fun page there here => apart page here there

/-- The thread after `schedule` has saved a stack pointer in the record at this address. -/
def interrupt (own : StackedThread) (thread rsp : UInt64) : StackedThread :=
  if own.thread = thread then { own with interrupted := some rsp } else own

@[simp] theorem interrupt_thread (own : StackedThread) (thread rsp : UInt64) :
    (own.interrupt thread rsp).thread = own.thread := by
  unfold interrupt
  split_ifs <;> rfl

@[simp] theorem interrupt_stack (own : StackedThread) (thread rsp : UInt64) :
    (own.interrupt thread rsp).stack = own.stack := by
  unfold interrupt
  split_ifs <;> rfl

@[simp] theorem interrupt_pages (own : StackedThread) (thread rsp : UInt64) :
    (own.interrupt thread rsp).pages = own.pages := by
  simp only [pages, stackBlock, recordBlock, interrupt_thread, interrupt_stack]

theorem Placed.interrupt {own : StackedThread} (placed : own.Placed) (thread rsp : UInt64) :
    (own.interrupt thread rsp).Placed := by
  unfold StackedThread.interrupt
  split_ifs
  · exact { placed with }
  · exact placed

end StackedThread

/-- The records and the live threads. -/
structure StackSystem where
  table : Table
  live : List StackedThread

inductive StackCall where
  | create (parent : UInt64) (request : ThreadRequest)
  | delete (own : StackedThread) (pointer : NamePointer)
  | schedule (registers : Registers)

/-- A call: `create_thread` with blocks from the heap, or without one of them, `delete_thread` of a live
thread, or `schedule` with any registers. -/
inductive StackStep (before : StackSystem) : StackCall → StackSystem → Prop where
  | create {parent request table} (placed : StackedThread.Placed ⟨request.block, request.stack, none⟩)
      (fresh : ∀ other ∈ before.live, StackedThread.Apart ⟨request.block, request.stack, none⟩ other)
      (returned : before.table.createThread parent request = some (request.block, table)) :
      StackStep before (.create parent request) ⟨table, ⟨request.block, request.stack, none⟩ :: before.live⟩
  | refused {parent request table} (returned : before.table.createThread parent request = some (0, table)) :
      StackStep before (.create parent request) ⟨table, before.live⟩
  | delete {own pointer table} (alive : own ∈ before.live)
      (returned : before.table.deleteThread pointer own.thread = some table) :
      StackStep before (.delete own pointer) ⟨table, before.live.erase own⟩
  | schedule {registers} :
      StackStep before (.schedule registers)
        ⟨(before.table.schedule registers).2,
          before.live.map fun own => own.interrupt before.table.running registers.iretRsp⟩

/-- The pages freed by a call. -/
def freedPages (before after : Table) : List Nat := (after.freed.drop before.freed.length).flatMap Block.pages

/-- `delete_thread` frees the pages of the thread and of its stack, and none of another live thread. -/
def StackCall.Sound (before after : StackSystem) : StackCall → Prop
  | .delete own _ =>
      (∀ page, page ∈ freedPages before.table after.table ↔ page ∈ own.pages) ∧
        ∀ other ∈ after.live, ∀ page ∈ freedPages before.table after.table, page ∉ other.pages
  | _ => True

/-- Nothing has been saved in the record of a thread to be deleted, or a stack pointer in the page that begins
at the top of its stack. -/
def StackCall.Fits : StackCall → Prop
  | .delete own _ => ∀ rsp, own.interrupted = some rsp → (rsp - threadStackSize).toNat / 4096 = own.stack.toNat / 4096
  | _ => True

/-- The name of the thread is copied without harm, and past the records of all live threads. -/
def StackCall.CopiesAside (before : StackSystem) : StackCall → Prop
  | .delete own pointer =>
      pointer.Harmless (before.table.thread own.thread).name ∧
        pointer.Spares (before.live.map StackedThread.thread) []
  | _ => True

structure AsideStackStep (before : StackSystem) (call : StackCall) (after : StackSystem) : Prop where
  step : StackStep before call after
  aside : call.CopiesAside before

structure SoundStackStep (before : StackSystem) (call : StackCall) (after : StackSystem) : Prop where
  step : AsideStackStep before call after
  sound : call.Sound before after

structure FittingStackStep (before : StackSystem) (call : StackCall) (after : StackSystem) : Prop where
  step : AsideStackStep before call after
  fits : call.Fits

/-- The blocks of the live threads are apart, and each record holds the stack pointer saved last. -/
structure StackSystem.Saved (system : StackSystem) : Prop where
  placed : ∀ own ∈ system.live, own.Placed
  apart : system.live.Pairwise StackedThread.Apart
  saved : ∀ own ∈ system.live,
    (system.table.thread own.thread).registers.iretRsp = own.interrupted.getD (own.stack + threadStackSize)

section Steps

variable {before after : StackSystem} {call : StackCall} {own : StackedThread}

/-- Two live threads have different records. -/
theorem StackedThread.Apart.thread_ne {other : StackedThread} (apart : own.Apart other) (placed : own.Placed) :
    own.thread ≠ other.thread := by
  intro same
  have here : own.thread.toNat / 4096 ∈ own.recordBlock.pages := by
    rw [StackedThread.recordBlock, recordPages placed.thread]
    exact List.mem_singleton_self _
  refine apart _ (List.mem_append_right _ here) (List.mem_append_right _ ?_)
  rw [StackedThread.recordBlock, ← same]
  exact here

theorem StackSystem.Saved.step (holds : before.Saved) (taken : AsideStackStep before call after) : after.Saved := by
  obtain ⟨step, aside⟩ := taken
  cases step with
  | @create parent request table placed fresh returned =>
      have registers := Table.createThread_registers returned
      refine ⟨?_, List.pairwise_cons.mpr ⟨fresh, holds.apart⟩, ?_⟩
      · rintro own (_ | ⟨_, there⟩)
        · exact placed
        · exact holds.placed own there
      · rintro own (_ | ⟨_, there⟩)
        · rw [registers, if_pos ⟨placed.thread, rfl⟩]
          rfl
        · have different := (fresh own there).thread_ne placed
          rw [registers, if_neg (fun new => different new.2.symm)]
          exact holds.saved own there
  | refused returned =>
      refine ⟨holds.placed, holds.apart, fun own there => ?_⟩
      rw [Table.createThread_registers returned, if_neg (fun new => new.1 rfl)]
      exact holds.saved own there
  | @delete own pointer table alive returned =>
      have spared : ∀ other ∈ before.live, pointer.meets other.thread threadSize = false := fun other there =>
        aside.2.thread other.thread (List.mem_map.mpr ⟨other, there, rfl⟩)
      have kept := Table.deleteThread_kept (holds.placed own alive).thread aside.1 (spared own alive) returned
      refine ⟨fun other there => holds.placed other (List.mem_of_mem_erase there),
        holds.apart.sublist List.erase_sublist, fun other there => ?_⟩
      rw [kept.2 other.thread (spared other (List.mem_of_mem_erase there))]
      exact holds.saved other (List.mem_of_mem_erase there)
  | @schedule registers =>
      refine ⟨?_, ?_, ?_⟩
      · rintro _ there
        obtain ⟨own, live, rfl⟩ := List.mem_map.mp there
        exact (holds.placed own live).interrupt _ _
      · refine List.pairwise_map.mpr (holds.apart.imp fun apart page here => ?_)
        rw [StackedThread.interrupt_pages] at here ⊢
        exact apart page here
      · rintro _ there
        obtain ⟨own, live, rfl⟩ := List.mem_map.mp there
        rw [Table.schedule_registers, StackedThread.interrupt_thread]
        by_cases running : own.thread = before.table.running
        · have nonnull : before.table.running ≠ 0 := running ▸ (holds.placed own live).thread
          rw [if_pos ⟨nonnull, running⟩, StackedThread.interrupt, if_pos running]
          rfl
        · rw [if_neg (fun saved => running saved.2), StackedThread.interrupt, if_neg running]
          exact holds.saved own live

/-- The two blocks have the pages of the thread exactly when the first one begins in the page of the stack. -/
theorem threadBlocks_pages_iff {table : Table} (placed : own.Placed) :
    (∀ page, page ∈ (table.threadBlocks own.thread).flatMap Block.pages ↔ page ∈ own.pages) ↔
      ((table.thread own.thread).registers.iretRsp - threadStackSize).toNat / 4096 = own.stack.toNat / 4096 := by
  have blocks : (table.threadBlocks own.thread).flatMap Block.pages =
      Block.pages ⟨(table.thread own.thread).registers.iretRsp - threadStackSize, threadStackSize⟩ ++
        own.recordBlock.pages := by
    rw [Table.threadBlocks, List.flatMap_cons, List.flatMap_singleton, StackedThread.recordBlock]
  rw [blocks]
  generalize (table.thread own.thread).registers.iretRsp - threadStackSize = base
  have stackNonnull := placed.stack
  have stackStart : own.stack.toNat / 4096 ≠ 0 := by
    have positive : own.stack.toNat ≠ 0 := fun zero => placed.stack (UInt64.toNat_inj.mp zero)
    have aligned := placed.aligned.2
    omega
  -- the pages of the stack are not those of the record, so they have to come from the first block
  have stackPages : (∀ page, page ∈ Block.pages ⟨base, threadStackSize⟩ ++ own.recordBlock.pages ↔ page ∈ own.pages) →
      ∀ page ∈ own.stackBlock.pages, page ∈ Block.pages ⟨base, threadStackSize⟩ := by
    intro same page there
    rcases List.mem_append.mp ((same page).mpr (List.mem_append_left _ there)) with freed | record
    · exact freed
    · exact absurd record (placed.apart page there)
  by_cases null : base = 0
  · have first : own.stack.toNat / 4096 ∈ own.stackBlock.pages := by
      have bound := own.stack.toNat_lt
      exact (mem_stackPages stackNonnull _).mpr ⟨0, by decide, by omega⟩
    refine iff_of_false (fun same => ?_) ?_
    · have freed := stackPages same _ first
      rw [Block.pages, Block.freed, if_pos (.inl null)] at freed
      exact List.not_mem_nil freed
    · rw [null]
      exact stackStart.symm
  · constructor
    · intro same
      exact (stackPages_subset_iff stackNonnull null).mp (stackPages same)
    · intro starts page
      have forth := (stackPages_subset_iff null stackNonnull).mpr starts.symm page
      have back := (stackPages_subset_iff stackNonnull null).mpr starts page
      rw [StackedThread.pages, List.mem_append, List.mem_append]
      exact or_congr_left ⟨forth, back⟩

/-- The other live threads are apart from the one deleted. -/
theorem StackSystem.Saved.apart_erase (holds : before.Saved) (alive : own ∈ before.live) {other : StackedThread}
    (left : other ∈ before.live.erase own) : own.Apart other := by
  have moved : (own :: before.live.erase own).Pairwise StackedThread.Apart :=
    holds.apart.perm (List.perm_cons_erase alive) StackedThread.Apart.symm
  exact (List.pairwise_cons.mp moved).1 other left

/-- A call is sound exactly when it fits. -/
theorem StackSystem.Saved.sound_iff (holds : before.Saved) (taken : AsideStackStep before call after) :
    call.Sound before after ↔ call.Fits := by
  obtain ⟨step, aside⟩ := taken
  cases step with
  | create => exact Iff.rfl
  | refused => exact Iff.rfl
  | schedule => exact Iff.rfl
  | @delete own pointer table alive returned =>
      have placed := holds.placed own alive
      have spared : pointer.meets own.thread threadSize = false :=
        aside.2.thread own.thread (List.mem_map.mpr ⟨own, alive, rfl⟩)
      have freed : freedPages before.table table = (before.table.threadBlocks own.thread).flatMap Block.pages := by
        rw [freedPages, (Table.deleteThread_kept placed.thread aside.1 spared returned).1, List.drop_left]
      have exactly : (StackCall.delete own pointer).Sound before ⟨table, before.live.erase own⟩ ↔
          ∀ page, page ∈ (before.table.threadBlocks own.thread).flatMap Block.pages ↔ page ∈ own.pages := by
        unfold StackCall.Sound
        dsimp only
        rw [freed]
        refine and_iff_left_of_imp fun same other left page there => ?_
        exact holds.apart_erase alive left page ((same page).mp there)
      rw [exactly, threadBlocks_pages_iff placed, holds.saved own alive]
      unfold StackCall.Fits
      dsimp only
      cases own.interrupted with
      | none =>
          refine iff_of_true ?_ nofun
          rw [Option.getD_none, UInt64.add_sub_cancel]
      | some rsp =>
          rw [Option.getD_some]
          constructor
          · intro starts _ saved
            rwa [← Option.some.inj saved]
          · intro starts
            exact starts rsp rfl

end Steps

/-- In every run of a system that starts without threads and copies no name into a record, each call is
sound exactly when it fits. A `delete_thread` whose copy faults does not return. -/
theorem stack_run_sound {start : Table} {calls : List StackCall} {system : StackSystem}
    (run : Run AsideStackStep ⟨start, []⟩ calls system) :
    (Run SoundStackStep ⟨start, []⟩ calls system ↔ Run FittingStackStep ⟨start, []⟩ calls system) ∧
      (∀ call next, AsideStackStep system call next → (call.Sound system next ↔ call.Fits)) ∧
      ∀ own ∈ system.live, ∀ (pointer : NamePointer), ∀ k < threadNameMaxLen,
        pointer.writable (pointer.byte k) = false → ∀ next, ¬ StackStep system (.delete own pointer) next := by
  have initial : StackSystem.Saved ⟨start, []⟩ := ⟨by simp, .nil, by simp⟩
  have saved := run.invariant StackSystem.Saved initial fun holds taken => holds.step taken
  refine ⟨⟨fun run => ?_, fun run => ?_⟩, fun call next step => saved.sound_iff step, ?_⟩
  · exact run.imp StackSystem.Saved initial (fun holds taken => holds.step taken.step)
      fun holds taken => ⟨taken.step, (holds.sound_iff taken.step).mp taken.sound⟩
  · exact run.imp StackSystem.Saved initial (fun holds taken => holds.step taken.step)
      fun holds taken => ⟨taken.step, (holds.sound_iff taken.step).mpr taken.fits⟩
  · intro own alive pointer k small unwritable next step
    cases step with
    | delete _ returned =>
        have faults := @Table.deleteThread_of_unwritable system.table pointer _ _ (saved.placed own alive).thread small
          unwritable
        exact nomatch faults.symm.trans returned

/-- The table after `create_thread`. -/
def stackedTable : Table := ((oneProcess.createThread 1 ⟨[], 100, 5, 0x2000, 0x10000⟩).getD (0, oneProcess)).2

/-- The system after that thread has been interrupted. -/
def interruptedSystem (registers : Registers) : StackSystem :=
  ⟨(stackedTable.schedule registers).2, [⟨0x2000, 0x10000, some registers.iretRsp⟩]⟩

theorem interrupted_run (registers : Registers) :
    Run FittingStackStep ⟨oneProcess, []⟩ [.create 1 ⟨[], 100, 5, 0x2000, 0x10000⟩, .schedule registers]
      (interruptedSystem registers) := by
  have create : StackStep ⟨oneProcess, []⟩ (.create 1 ⟨[], 100, 5, 0x2000, 0x10000⟩)
      ⟨stackedTable, [⟨0x2000, 0x10000, none⟩]⟩ :=
    .create ⟨by decide, by decide, by decide, by decide, by decide⟩ (fun _ impossible => nomatch impossible)
      (eq_some_of_map_fst _ (by decide +kernel))
  have schedule : StackStep ⟨stackedTable, [⟨0x2000, 0x10000, none⟩]⟩ (.schedule registers)
      (interruptedSystem registers) := by
    have running : stackedTable.running = 0x2000 := by decide +kernel
    have saved : [(⟨0x2000, 0x10000, none⟩ : StackedThread)].map
        (fun own => own.interrupt stackedTable.running registers.iretRsp) =
          [⟨0x2000, 0x10000, some registers.iretRsp⟩] := by
      rw [running]
      rfl
    rw [interruptedSystem, ← saved]
    exact .schedule
  exact (Run.nil.snoc ⟨⟨create, trivial⟩, trivial⟩).snoc ⟨⟨schedule, trivial⟩, trivial⟩

theorem interrupted_aside (registers : Registers) :
    StackCall.CopiesAside (interruptedSystem registers)
      (.delete ⟨0x2000, 0x10000, some registers.iretRsp⟩ sparePointer) := by
  have threads : (interruptedSystem registers).live.map StackedThread.thread = [0x2000] := rfl
  have spares : sparePointer.Spares [0x2000] [] := .of_all (by decide +kernel) (by decide)
  have name : ((interruptedSystem registers).table.thread 0x2000).name = [] := rfl
  refine ⟨?_, threads ▸ spares⟩
  exact name ▸ sparePointer_harmless

/-- A thread that was interrupted with an empty stack. -/
theorem stack_run_sound_empty :
    ∃ system, Run SoundStackStep ⟨oneProcess, []⟩
      [.create 1 ⟨[], 100, 5, 0x2000, 0x10000⟩, .schedule (initialRegisters 0x10000 7 7),
        .delete ⟨0x2000, 0x10000, some 0x14000⟩ sparePointer] system := by
  have delete : StackStep (interruptedSystem (initialRegisters 0x10000 7 7))
      (.delete ⟨0x2000, 0x10000, some 0x14000⟩ sparePointer) _ :=
    .delete List.mem_cons_self (eq_some_getD_of_isSome oneProcess (by decide +kernel))
  have fits : StackCall.Fits (.delete ⟨0x2000, 0x10000, some 0x14000⟩ sparePointer) := by
    intro rsp saved
    rw [← Option.some.inj saved]
    decide
  have fitting := (interrupted_run (initialRegisters 0x10000 7 7)).snoc ⟨⟨delete, interrupted_aside _⟩, fits⟩
  have run := fitting.imp (fun _ => True) trivial (fun _ _ => trivial) fun _ taken => taken.step
  exact ⟨_, (stack_run_sound run).1.mpr fitting⟩

/-- A thread that was interrupted with 4096 bytes on its stack: the page below the stack is freed, and the
last page of the stack is not. -/
theorem deleteThread_frees_below :
    ∃ scheduled system, Run StackStep ⟨oneProcess, []⟩
        [.create 1 ⟨[], 100, 5, 0x2000, 0x10000⟩, .schedule (initialRegisters 0xF000 7 7)] scheduled ∧
      StackStep scheduled (.delete ⟨0x2000, 0x10000, some 0x13000⟩ sparePointer) system ∧
      freedPages scheduled.table system.table = [15, 16, 17, 18, 2] ∧
      ¬ StackCall.Sound scheduled system (.delete ⟨0x2000, 0x10000, some 0x13000⟩ sparePointer) := by
  have fitting := interrupted_run (initialRegisters 0xF000 7 7)
  have run : Run StackStep ⟨oneProcess, []⟩ _ _ :=
    fitting.imp (fun _ => True) trivial (fun _ _ => trivial) fun _ taken => taken.step.step
  have delete : StackStep (interruptedSystem (initialRegisters 0xF000 7 7))
      (.delete ⟨0x2000, 0x10000, some 0x13000⟩ sparePointer) _ :=
    .delete List.mem_cons_self (eq_some_getD_of_isSome oneProcess (by decide +kernel))
  have freed : freedPages (interruptedSystem (initialRegisters 0xF000 7 7)).table
      (((interruptedSystem (initialRegisters 0xF000 7 7)).table.deleteThread sparePointer 0x2000).getD oneProcess) =
        [15, 16, 17, 18, 2] := by decide +kernel
  refine ⟨_, _, run, delete, freed, fun sound => ?_⟩
  have below := (sound.1 15).mp (by rw [freed]; decide)
  exact absurd below (by decide)

end KeblaOS.Scheduling
