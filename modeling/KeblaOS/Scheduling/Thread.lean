import Mathlib.Logic.Function.Basic

/-!
# Threads and the round-robin switch

The thread records of a process and the two functions that change them while the process
runs: `create_thread` of `thread.c` and `schedule` of `process.c`. Records live at 64-bit
addresses and `0` is the null pointer. Memory comes from `kheap_alloc`; its results are
arguments here. The loop over the thread list takes fuel for every address there is, so it
runs out only on a list that never ends.
-/

namespace KeblaOS.Scheduling

/-- `registers_t`. -/
structure Registers where
  gs : UInt64
  fs : UInt64
  es : UInt64
  ds : UInt64
  rax : UInt64
  rbx : UInt64
  rcx : UInt64
  rdx : UInt64
  rbp : UInt64
  rdi : UInt64
  rsi : UInt64
  r8 : UInt64
  r9 : UInt64
  r10 : UInt64
  r11 : UInt64
  r12 : UInt64
  r13 : UInt64
  r14 : UInt64
  r15 : UInt64
  intNo : UInt64
  errCode : UInt64
  iretRip : UInt64
  iretCs : UInt64
  iretRflags : UInt64
  iretRsp : UInt64
  iretSs : UInt64
deriving DecidableEq

/-- `status_t`. -/
inductive Status where
  | ready
  | running
  | dead
  | sleeping
deriving DecidableEq

/-- `thread_t`. The parent is the process below. -/
structure Thread where
  tid : UInt64
  status : Status
  name : List UInt8
  next : UInt64
  cpuTime : UInt64
  registers : Registers
deriving DecidableEq

/-- The two fields of `process_t` the functions below use. -/
structure Process where
  threads : UInt64
  currentThread : UInt64
deriving DecidableEq

/-- Thread records by address, `*current_process` unless the pointer is null, and
`next_free_tid`. -/
structure Kernel where
  thread : UInt64 → Thread
  currentProcess : Option Process
  nextFreeTid : UInt64

/-- Assignment through a thread pointer. -/
def Kernel.setThread (kernel : Kernel) (address : UInt64) (thread : Thread) : Kernel :=
  { kernel with thread := Function.update kernel.thread address thread }

/-- `schedule`: the thread whose saved registers it returns a pointer to, unless it
returns null. -/
def schedule (kernel : Kernel) (registers : Registers) : Option UInt64 × Kernel :=
  match kernel.currentProcess with
  | none => (none, kernel)
  | some process =>
      let current := process.currentThread
      if current = 0 then (none, kernel)
      else
        let kernel := kernel.setThread current
          { kernel.thread current with registers := registers, status := .ready }
        let next := (kernel.thread current).next
        let next := if next = 0 then process.threads else next
        let kernel := kernel.setThread next { kernel.thread next with status := .running }
        (some next, { kernel with currentProcess := some { process with currentThread := next } })

/-- Number of 64-bit addresses. -/
def addressCount : Nat := 0x10000000000000000

/-- The loop of `add_thread` that finds the last thread of the list. -/
def lastThread (kernel : Kernel) : Nat → UInt64 → Option UInt64
  | 0, _ => none
  | fuel + 1, last =>
      if (kernel.thread last).next = 0 then some last
      else lastThread kernel fuel (kernel.thread last).next

/-- `add_thread`, for a thread whose parent is the current process. -/
def addThread (kernel : Kernel) (process : Process) (thread : UInt64) : Option Kernel :=
  if process.threads = 0 then
    some { kernel with currentProcess := some ⟨thread, thread⟩ }
  else
    (lastThread kernel addressCount process.threads).map fun last =>
      let kernel := kernel.setThread last { kernel.thread last with next := thread }
      { kernel with currentProcess := some { process with currentThread := thread } }

/-- The registers `create_thread` prepares: the function starts with its argument on an
empty stack. -/
def initialRegisters (stack function arg : UInt64) : Registers where
  gs := 0
  fs := 0
  es := 0
  ds := 0
  rax := 0
  rbx := 0
  rcx := 0
  rdx := 0
  rbp := 0
  rdi := arg
  rsi := 0
  r8 := 0
  r9 := 0
  r10 := 0
  r11 := 0
  r12 := 0
  r13 := 0
  r14 := 0
  r15 := 0
  intNo := 0
  errCode := 0
  iretRip := function
  iretCs := 0x08
  iretRflags := 0x202
  iretRsp := stack + 0x4000
  iretSs := 0x10

/-- Arguments of `create_thread` and the two blocks `kheap_alloc` hands it. -/
structure ThreadRequest where
  name : List UInt8
  function : UInt64
  arg : UInt64
  block : UInt64
  stack : UInt64

/-- The record `create_thread` fills in. -/
def newThread (kernel : Kernel) (request : ThreadRequest) : Thread where
  tid := kernel.nextFreeTid
  status := .ready
  name := request.name.take 63
  next := 0
  cpuTime := 0
  registers := initialRegisters request.stack request.function request.arg

/-- `create_thread` on the current process: the new thread, or null when a block is
missing. -/
def createThread (kernel : Kernel) (process : Process) (request : ThreadRequest) :
    Option (UInt64 × Kernel) :=
  if request.block = 0 then some (0, kernel)
  else if request.stack = 0 then
    -- The counter is incremented and decremented again; the record is given back.
    some (0, kernel)
  else
    let kernel :=
      { kernel.setThread request.block (newThread kernel request) with
        nextFreeTid := kernel.nextFreeTid + 1 }
    (addThread kernel process request.block).map fun kernel => (request.block, kernel)

end KeblaOS.Scheduling
