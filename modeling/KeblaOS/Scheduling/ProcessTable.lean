import KeblaOS.Scheduling.Thread

/-!
# The process table

All process and thread records together, with the functions of `process.c` and `thread.c`
that link, unlink and delete them. A thread record is the one of `Thread.lean` and its
parent pointer stands beside it; `create_thread` and `schedule` work on the records as one
process sees them. Every block handed to `kheap_free` is logged. The pointer through which
`delete_thread` copies the name of the thread is never set: what it points to is an argument
here. The loops take fuel as in `add_thread`.
-/

namespace KeblaOS.Scheduling

/-- `process_t`. -/
structure ProcessRecord extends Process where
  pid : UInt64
  status : Status
  name : List UInt8
  next : UInt64
  cpuTime : UInt64
deriving DecidableEq

/-- The arguments of a `kheap_free`. -/
structure Block where
  address : UInt64
  size : UInt64
deriving DecidableEq

/-- `THREAD_STACK_SIZE`. -/
def threadStackSize : UInt64 := 0x4000

/-- `sizeof(thread_t)`. -/
def threadSize : UInt64 := 312

/-- `sizeof(process_t)`. -/
def processSize : UInt64 := 112

/-- The records by address, the globals of `process.c` and `thread.c`, and the blocks
freed so far. -/
structure Table where
  thread : UInt64 → Thread
  parent : UInt64 → UInt64
  process : UInt64 → ProcessRecord
  processesList : UInt64
  currentProcess : UInt64
  nextFreeTid : UInt64
  nextFreePid : UInt64
  freed : List Block

/-- `THREAD_NAME_MAX_LEN`. -/
def threadNameMaxLen : Nat := 64

/-- The value of `name` in a call of `delete_thread`, and the memory there. -/
structure NamePointer where
  name : UInt64
  /-- The bytes that can be written. -/
  writable : UInt64 → Bool
  /-- The bytes that can still be read when the blocks of the thread are freed. -/
  readable : UInt64 → Bool
  /-- The bytes that the kernel uses besides the records: code, stack, globals, page tables. -/
  kernel : UInt64 → Bool
  /-- What comes of it when some of these are overwritten. -/
  corrupted : Table → Option Table
  /-- What is found in records that the copy runs through. -/
  thread : UInt64 → Thread
  parent : UInt64 → UInt64
  process : UInt64 → ProcessRecord

namespace NamePointer

/-- The address of a byte behind the pointer. -/
def byte (pointer : NamePointer) (k : Nat) : UInt64 := pointer.name + UInt64.ofNat k

/-- The copy runs through so many bytes at an address. -/
def meets (pointer : NamePointer) (address size : UInt64) : Bool :=
  (List.range threadNameMaxLen).any fun k => pointer.byte k - address < size

end NamePointer

namespace Table

/-- The records behind the copy. -/
def overwrite (table : Table) (pointer : NamePointer) : Table :=
  { table with
    thread := fun address =>
      if pointer.meets address threadSize then pointer.thread address else table.thread address
    parent := fun address =>
      if pointer.meets address threadSize then pointer.parent address else table.parent address
    process := fun address =>
      if pointer.meets address processSize then pointer.process address else table.process address }

/-- The `memcpy` through `name`; a page fault halts the kernel. -/
def copyName (table : Table) (pointer : NamePointer) : Option Table :=
  if ¬ (List.range threadNameMaxLen).all fun k => pointer.writable (pointer.byte k) then none
  else if (List.range threadNameMaxLen).any fun k => pointer.kernel (pointer.byte k) then pointer.corrupted table
  else some (table.overwrite pointer)

/-- The last message reads the copy up to its null byte. -/
def printName (table : Table) (pointer : NamePointer) (name : List UInt8) : Option Table :=
  if (List.range ((name.takeWhile (· ≠ 0)).length + 1)).all fun k => pointer.readable (pointer.byte k) then some table
  else none

/-- Assignment through a thread pointer. -/
def setThread (table : Table) (address : UInt64) (thread : Thread) : Table :=
  { table with thread := Function.update table.thread address thread }

/-- Assignment through a process pointer. -/
def setProcess (table : Table) (address : UInt64) (process : ProcessRecord) : Table :=
  { table with process := Function.update table.process address process }

/-- `kheap_free`. -/
def free (table : Table) (blocks : List Block) : Table :=
  { table with freed := table.freed ++ blocks }

/-- The records as the functions on one process see them. -/
def view (table : Table) (process : UInt64) : Kernel where
  thread := table.thread
  currentProcess := if process = 0 then none else some (table.process process).toProcess
  nextFreeTid := table.nextFreeTid

/-- The table after a function on one process. -/
def update (table : Table) (process : UInt64) (kernel : Kernel) : Table :=
  let table := { table with thread := kernel.thread, nextFreeTid := kernel.nextFreeTid }
  match kernel.currentProcess with
  | none => table
  | some record => table.setProcess process { table.process process with toProcess := record }

/-- `create_thread`: a null parent leaves the new thread unlisted. -/
def createThread (table : Table) (parent : UInt64) (request : ThreadRequest) :
    Option (UInt64 × Table) :=
  if request.block ≠ 0 ∧ request.stack = 0 then some (0, table.free [⟨request.block, threadSize⟩])
  else if request.block ≠ 0 ∧ parent = 0 then
    let table := table.setThread request.block (newThread (table.view parent) request)
    some (request.block, { table with
      nextFreeTid := table.nextFreeTid + 1
      parent := Function.update table.parent request.block 0 })
  else
    (Scheduling.createThread (table.view parent) (table.process parent).toProcess request).map
      fun (thread, kernel) =>
        (thread, { table.update parent kernel with
          parent := if thread = 0 then table.parent else Function.update table.parent thread parent })

/-- `schedule`, on `current_process`. -/
def schedule (table : Table) (registers : Registers) : Option UInt64 × Table :=
  let (resumed, kernel) := Scheduling.schedule (table.view table.currentProcess) registers
  (resumed, table.update table.currentProcess kernel)

/-- The loop of `remove_thread` that lets the thread in front point past the removed one. -/
def unlinkThread (table : Table) (thread : UInt64) : Nat → UInt64 → Option Table
  | 0, _ => none
  | fuel + 1, current =>
      if current = 0 then some table
      else if (table.thread current).next = thread then
        some (table.setThread current { table.thread current with next := (table.thread thread).next })
      else table.unlinkThread thread fuel (table.thread current).next

/-- `remove_thread`. -/
def removeThread (table : Table) (thread : UInt64) : Option Table :=
  let parent := table.parent thread
  if thread = 0 ∨ parent = 0 then some table
  else
    let unlinked :=
      if (table.process parent).threads = thread then
        some (table.setProcess parent
          { table.process parent with threads := (table.thread thread).next })
      else table.unlinkThread thread addressCount (table.process parent).threads
    unlinked.map fun table =>
      let table := table.setThread thread { table.thread thread with next := 0 }
      { table with parent := Function.update table.parent thread 0 }

/-- `delete_thread`. -/
def deleteThread (table : Table) (pointer : NamePointer) (thread : UInt64) : Option Table :=
  if thread = 0 then some table
  else do
    let table ← table.removeThread thread
    let name := (table.thread thread).name
    let table ← table.copyName pointer
    let table := table.free [⟨(table.thread thread).registers.iretRsp - threadStackSize, threadStackSize⟩,
      ⟨thread, threadSize⟩]
    table.printName pointer name

/-- `add_process`: new processes come first. -/
def addProcess (table : Table) (process : UInt64) : Table :=
  if process = 0 then table
  else
    { table.setProcess process { table.process process with next := table.processesList } with
      processesList := process }

/-- The loop of `remove_process`. -/
def unlinkProcess (table : Table) (process : UInt64) : Nat → UInt64 → UInt64 → Option Table
  | 0, _, _ => none
  | fuel + 1, prev, current =>
      if current = 0 then some table
      else if current = process then
        if prev ≠ 0 then
          some (table.setProcess prev
            { table.process prev with next := (table.process current).next })
        else some { table with processesList := (table.process current).next }
      else table.unlinkProcess process fuel current (table.process current).next

/-- `remove_process`. -/
def removeProcess (table : Table) (process : UInt64) : Option Table :=
  if process = 0 then some table
  else table.unlinkProcess process addressCount 0 table.processesList

/-- The record `create_process` fills in. -/
def newProcess (table : Table) (name : List UInt8) : ProcessRecord where
  threads := 0
  currentThread := 0
  pid := table.nextFreePid
  status := .ready
  name := name.take 63
  next := 0
  cpuTime := 0

/-- `create_process`, with the block `kheap_alloc` hands it. -/
def createProcess (table : Table) (name : List UInt8) (block : UInt64) : UInt64 × Table :=
  if block = 0 then (0, table)
  else
    let table := table.setProcess block (table.newProcess name)
    (block, { table with nextFreePid := table.nextFreePid + 1 }.addProcess block)

/-- The loop of `delete_process` that deletes the threads from the first one on, each with
its own value of `name`. -/
def deleteThreads (process : UInt64) : Nat → (Nat → NamePointer) → Table → Option Table
  | 0, _, _ => none
  | fuel + 1, pointers, table =>
      let thread := (table.process process).threads
      if thread = 0 then some table
      else
        let table := table.setProcess process
          { table.process process with threads := (table.thread thread).next }
        (table.deleteThread (pointers 0) thread).bind
          (deleteThreads process fuel fun turn => pointers (turn + 1))

/-- `delete_process`. -/
def deleteProcess (table : Table) (pointers : Nat → NamePointer) (process : UInt64) : Option Table :=
  if process = 0 then some table
  else do
    let table ← table.removeProcess process
    let table ← deleteThreads process addressCount pointers table
    return table.free [⟨process, processSize⟩]

/-- The loop of `get_process_by_pid`. -/
def findPid (table : Table) (pid : UInt64) : Nat → UInt64 → Option UInt64
  | 0, _ => none
  | fuel + 1, current =>
      if current = 0 then some 0
      else if (table.process current).pid = pid then some current
      else table.findPid pid fuel (table.process current).next

/-- `get_process_by_pid`. -/
def getProcessByPid (table : Table) (pid : UInt64) : Option UInt64 :=
  table.findPid pid addressCount table.processesList

end Table

end KeblaOS.Scheduling
