import KeblaOS.Scheduling.ContextSwitch
import KeblaOS.Scheduling.ProcessTable

/-!
# The threads of one process

`create_thread` appends to the list of its process and `delete_thread` takes the thread
out, wherever it stands. `add_thread` and `schedule` also move `current_thread`, but
`delete_thread` leaves it alone: after the current thread is deleted the pointer names a
freed record. The copy of its name goes wherever an uninitialised pointer points to. The
system below keeps the live threads in creation order beside the table.
-/

namespace KeblaOS.Scheduling

/-- The copy of a name and its last reading neither fault nor touch what the kernel uses
besides the records. -/
structure NamePointer.Harmless (pointer : NamePointer) (name : List UInt8) : Prop where
  writable : ∀ k < threadNameMaxLen, pointer.writable (pointer.byte k) = true
  kernel : ∀ k < threadNameMaxLen, pointer.kernel (pointer.byte k) = false
  readable : ∀ k ≤ (name.takeWhile (· ≠ 0)).length, pointer.readable (pointer.byte k) = true

/-- The copy runs through none of these records. -/
structure NamePointer.Spares (pointer : NamePointer) (threads processes : List UInt64) : Prop where
  thread : ∀ thread ∈ threads, pointer.meets thread threadSize = false
  process : ∀ process ∈ processes, pointer.meets process processSize = false

theorem NamePointer.Spares.of_all {pointer : NamePointer} {threads processes : List UInt64}
    (threadsApart : threads.all fun thread => !pointer.meets thread threadSize)
    (processesApart : processes.all fun process => !pointer.meets process processSize) :
    pointer.Spares threads processes :=
  ⟨by simpa using threadsApart, by simpa using processesApart⟩

namespace Table

/-- The `next` pointers of the thread records. -/
def nextThread (table : Table) (thread : UInt64) : UInt64 := (table.thread thread).next

/-- The list behind the `threads` pointer of a process. -/
def ThreadsAt (table : Table) (process : UInt64) (cells : List UInt64) : Prop :=
  Listed table.nextThread 0 (table.process process).threads cells

/-- The table `create_thread` leaves behind. -/
def withThread (table : Table) (parent : UInt64) (request : ThreadRequest) (cells : List UInt64) :
    Table :=
  { table with
    thread := hangThread
      (Function.update table.thread request.block (newThread (table.view parent) request)) cells
      request.block
    process := Function.update table.process parent
      { table.process parent with
        toProcess := ⟨cells.head?.getD request.block, request.block⟩ }
    nextFreeTid := table.nextFreeTid + 1
    parent := Function.update table.parent request.block parent }

/-- The two blocks `delete_thread` frees. -/
def threadBlocks (table : Table) (thread : UInt64) : List Block :=
  [⟨(table.thread thread).registers.iretRsp - threadStackSize, threadStackSize⟩, ⟨thread, threadSize⟩]

/-- A thread taken out of the list `cells` of a process. -/
structure ThreadUnlinked (before : Table) (process thread : UInt64) (cells : List UInt64)
    (after : Table) : Prop where
  listed : after.ThreadsAt process (cells.erase thread)
  process : ∃ threads, after.process = Function.update before.process process
    { before.process process with threads := threads }
  elsewhere : ∀ other ∉ cells, after.thread other = before.thread other
  registers : ∀ other, (after.thread other).registers = (before.thread other).registers
  parent : after.parent = before.parent
  processesList : after.processesList = before.processesList
  currentProcess : after.currentProcess = before.currentProcess
  nextFreePid : after.nextFreePid = before.nextFreePid
  freed : after.freed = before.freed

/-- What `remove_thread` does once the thread is out of the list. -/
def clearThread (table : Table) (thread : UInt64) : Table :=
  { table.setThread thread { table.thread thread with next := 0 } with
    parent := Function.update table.parent thread 0 }

/-- What `delete_thread` does once the thread is out of the list, if its pointer does no harm. -/
def dispose (table : Table) (pointer : NamePointer) (thread : UInt64) : Table :=
  ((table.clearThread thread).overwrite pointer).free (table.threadBlocks thread)

variable {table after : Table} {pointer : NamePointer} {process thread : UInt64} {cells : List UInt64}

/-! ## The copy of the name -/

theorem overwrite_thread (spared : pointer.meets thread threadSize = false) :
    (table.overwrite pointer).thread thread = table.thread thread := by
  simp only [overwrite, spared, Bool.false_eq_true, if_false]

theorem overwrite_parent (spared : pointer.meets thread threadSize = false) :
    (table.overwrite pointer).parent thread = table.parent thread := by
  simp only [overwrite, spared, Bool.false_eq_true, if_false]

theorem overwrite_process (spared : pointer.meets process processSize = false) :
    (table.overwrite pointer).process process = table.process process := by
  simp only [overwrite, spared, Bool.false_eq_true, if_false]

theorem copyName_of_harmless {name : List UInt8} (harmless : pointer.Harmless name) :
    table.copyName pointer = some (table.overwrite pointer) := by
  have written : (List.range threadNameMaxLen).all (fun k => pointer.writable (pointer.byte k)) = true :=
    List.all_eq_true.mpr fun k member => harmless.writable k (List.mem_range.mp member)
  have unused : ¬ (List.range threadNameMaxLen).any (fun k => pointer.kernel (pointer.byte k)) = true := by
    intro used
    obtain ⟨k, member, kernel⟩ := List.any_eq_true.mp used
    exact Bool.false_ne_true ((harmless.kernel k (List.mem_range.mp member)).symm.trans kernel)
  rw [copyName, if_neg (fun fault => fault written), if_neg unused]

theorem copyName_of_unwritable {k : Nat} (small : k < threadNameMaxLen)
    (unwritable : pointer.writable (pointer.byte k) = false) : table.copyName pointer = none := by
  refine if_pos fun written => Bool.false_ne_true ?_
  exact unwritable.symm.trans (List.all_eq_true.mp written k (List.mem_range.mpr small))

theorem printName_of_harmless {name : List UInt8} (harmless : pointer.Harmless name) :
    table.printName pointer name = some table :=
  if_pos (List.all_eq_true.mpr fun k member => harmless.readable k (Nat.le_of_lt_succ (List.mem_range.mp member)))

/-! ## The two operations on the list -/

/-- A null-terminated list leaves room for the null pointer among the addresses. -/
theorem length_lt_addressCount {next : UInt64 → UInt64} {start : UInt64}
    (listed : Listed next 0 start cells) : cells.length < addressCount := by
  have distinct : (0 :: cells).Nodup := List.nodup_cons.mpr ⟨listed.null_notMem, listed.nodup⟩
  exact length_le_addressCount distinct

/-- `create_thread` with blocks from the heap appends the thread. -/
theorem createThread_eq {request : ThreadRequest} (parented : process ≠ 0) (block : request.block ≠ 0)
    (stack : request.stack ≠ 0) (listed : table.ThreadsAt process cells) (fresh : request.block ∉ cells) :
    table.createThread process request = some (request.block, table.withThread process request cells) := by
  let prepared : Kernel :=
    { (table.view process).setThread request.block (newThread (table.view process) request) with
      nextFreeTid := table.nextFreeTid + 1 }
  have kept : Listed (fun address => (prepared.thread address).next) 0
      (table.process process).toProcess.threads cells := by
    refine listed.congr fun address member => ?_
    have different : address ≠ request.block := by
      rintro rfl
      exact fresh member
    exact congrArg Thread.next (Function.update_of_ne different _ _)
  have added := addThread_eq_hangThread request.block kept
  unfold createThread Scheduling.createThread
  rw [if_neg (fun failed => stack failed.2), if_neg (fun orphan => parented orphan.2), if_neg block,
    if_neg stack]
  show ((addThread prepared _ request.block).map _).map _ = _
  rw [added, Option.map_some, Option.map_some]
  dsimp only
  rw [if_neg block]
  rfl

/-- The thread list `create_thread` leaves behind. -/
theorem ThreadsAt.withThread {request : ThreadRequest} (listed : table.ThreadsAt process cells)
    (block : request.block ≠ 0) (fresh : request.block ∉ cells) :
    (table.withThread process request cells).ThreadsAt process (cells ++ [request.block]) := by
  have kept : Listed (fun address => (Function.update table.thread request.block
      (newThread (table.view process) request) address).next) 0 (table.process process).threads cells := by
    refine listed.congr fun address member => ?_
    have different : address ≠ request.block := by
      rintro rfl
      exact fresh member
    exact congrArg Thread.next (Function.update_of_ne different _ _)
  have ends : (Function.update table.thread request.block (newThread (table.view process) request)
      request.block).next = 0 := by
    rw [Function.update_self]
    rfl
  have appended := kept.append block fresh ends
  rw [← hangThread_next] at appended
  unfold ThreadsAt
  simp only [Table.withThread, Function.update_self]
  exact appended

/-- The search finds nothing to change for a thread that is not behind another one. -/
theorem unlinkThread_of_notMem {start : UInt64} {fuel : Nat} (listed : Listed table.nextThread 0 start cells)
    (nonnull : thread ≠ 0) (outside : thread ∉ cells.tail) (enough : cells.length < fuel) :
    table.unlinkThread thread fuel start = some table := by
  induction listed generalizing fuel with
  | nil =>
      obtain ⟨fuel, rfl⟩ := Nat.exists_eq_succ_of_ne_zero (Nat.ne_of_gt enough)
      rw [unlinkThread, if_pos rfl]
  | @cons cell rest cellNonnull tail ih =>
      obtain ⟨fuel, rfl⟩ := Nat.exists_eq_succ_of_ne_zero (Nat.ne_of_gt (Nat.zero_lt_of_lt enough))
      have different : (table.thread cell).next ≠ thread := by
        rintro rfl
        rcases (Listed.cons cellNonnull tail).next_mem_or_null List.mem_cons_self with behind | null
        · exact outside behind
        · exact nonnull null
      rw [unlinkThread, if_neg cellNonnull, if_neg different]
      exact ih (fun member => outside (List.mem_of_mem_tail member)) (by simpa using enough)

/-- The search stops at the thread in front. -/
theorem unlinkThread_eq {start before : UInt64} {fuel : Nat} {front back : List UInt64}
    (listed : Listed table.nextThread 0 start (front ++ before :: thread :: back))
    (enough : front.length < fuel) :
    table.unlinkThread thread fuel start = some (table.setThread before
      { table.thread before with next := (table.thread thread).next }) := by
  have follows : (table.thread before).next = thread := listed.next_eq
  induction front generalizing start fuel with
  | nil =>
      obtain ⟨fuel, rfl⟩ := Nat.exists_eq_succ_of_ne_zero (Nat.ne_of_gt enough)
      obtain ⟨rfl, nonnull, _⟩ := listed.cons_inv
      rw [unlinkThread, if_neg nonnull, if_pos follows]
  | cons head front ih =>
      obtain ⟨fuel, rfl⟩ := Nat.exists_eq_succ_of_ne_zero (Nat.ne_of_gt (Nat.zero_lt_of_lt enough))
      obtain ⟨rfl, nonnull, tail⟩ := listed.cons_inv
      -- Another thread in front would make the removed one occur twice.
      have different : (table.thread start).next ≠ thread := by
        intro same
        have next : (table.thread start).next ∈ front ++ [before] := by
          cases front with
          | nil => exact List.mem_singleton.mpr tail.cons_inv.1
          | cons second others => exact List.mem_append_left _ (by rw [← nextThread, tail.cons_inv.1]; simp)
        have distinct : ((front ++ [before]) ++ thread :: back).Nodup := by simpa using tail.nodup
        exact (List.nodup_append.mp distinct).2.2 _ (same ▸ next) thread (by simp) rfl
      rw [unlinkThread, if_neg nonnull, if_neg different]
      exact ih tail (by simpa using enough)

/-! `remove_thread` changes links only. -/

/-- A record whose link is replaced. -/
theorem thread_update_next {thread : UInt64 → Thread} {address next : UInt64} (other : UInt64) :
    Function.update thread address { thread address with next := next } other =
      { thread other with
        next := (Function.update thread address { thread address with next := next } other).next } := by
  by_cases same : other = address
  · rw [same, Function.update_self]
  · rw [Function.update_of_ne same]

theorem unlinkThread_kept {current : UInt64} {fuel : Nat}
    (unlinked : table.unlinkThread thread fuel current = some after) :
    after.freed = table.freed ∧
      ∀ other, after.thread other = { table.thread other with next := (after.thread other).next } := by
  induction fuel generalizing current with
  | zero => exact nomatch unlinked
  | succ fuel ih =>
      unfold unlinkThread at unlinked
      by_cases ends : current = 0
      · rw [if_pos ends] at unlinked
        obtain rfl := Option.some.inj unlinked
        exact ⟨rfl, fun _ => rfl⟩
      · rw [if_neg ends] at unlinked
        by_cases found : (table.thread current).next = thread
        · rw [if_pos found] at unlinked
          obtain rfl := Option.some.inj unlinked
          exact ⟨rfl, thread_update_next⟩
        · rw [if_neg found] at unlinked
          exact ih unlinked

theorem removeThread_kept (removed : table.removeThread thread = some after) :
    after.freed = table.freed ∧
      ∀ other, after.thread other = { table.thread other with next := (after.thread other).next } := by
  unfold removeThread at removed
  dsimp only at removed
  by_cases nothing : thread = 0 ∨ table.parent thread = 0
  · rw [if_pos nothing] at removed
    obtain rfl := Option.some.inj removed
    exact ⟨rfl, fun _ => rfl⟩
  · rw [if_neg nothing] at removed
    obtain ⟨unlinked, linked, rfl⟩ := Option.map_eq_some_iff.mp removed
    have kept : unlinked.freed = table.freed ∧
        ∀ other, unlinked.thread other = { table.thread other with next := (unlinked.thread other).next } := by
      split_ifs at linked with first
      · obtain rfl := Option.some.inj linked
        exact ⟨rfl, fun _ => rfl⟩
      · exact unlinkThread_kept linked
    refine ⟨kept.1, fun other => (thread_update_next other).trans ?_⟩
    rw [kept.2 other]
    rfl

/-- `delete_thread` behind `remove_thread`, with a pointer that does no harm. -/
theorem deleteThread_of_removed (nonnull : thread ≠ 0) (harmless : pointer.Harmless (table.thread thread).name)
    (own : pointer.meets thread threadSize = false) (removed : table.removeThread thread = some after) :
    table.deleteThread pointer thread = some ((after.overwrite pointer).free (after.threadBlocks thread)) := by
  have name : (after.thread thread).name = (table.thread thread).name := by rw [(removeThread_kept removed).2 thread]
  rw [deleteThread, if_neg nonnull, removed]
  simp only [Option.bind_eq_bind, Option.bind_some, name, copyName_of_harmless harmless]
  rw [printName_of_harmless harmless, overwrite_thread own, threadBlocks]

/-- `delete_thread` faults when a byte behind its pointer cannot be written. -/
theorem deleteThread_of_unwritable {k : Nat} (nonnull : thread ≠ 0) (small : k < threadNameMaxLen)
    (unwritable : pointer.writable (pointer.byte k) = false) : table.deleteThread pointer thread = none := by
  rw [deleteThread, if_neg nonnull]
  cases table.removeThread thread with
  | none => rfl
  | some removed =>
      simp only [Option.bind_eq_bind, Option.bind_some, copyName_of_unwritable small unwritable, Option.bind_none]

/-- `remove_thread` on a thread with a parent: one of the two ways to unlink it, then the
record is cleared. -/
theorem removeThread_eq (nonnull : thread ≠ 0) (parent : table.parent thread = process) (parented : process ≠ 0) :
    table.removeThread thread =
      (if (table.process process).threads = thread then
        some (table.setProcess process
          { table.process process with threads := (table.thread thread).next })
      else table.unlinkThread thread addressCount (table.process process).threads).map
        fun table => table.clearThread thread := by
  unfold removeThread
  rw [parent]
  dsimp only
  rw [if_neg (by simp [nonnull, parented])]
  rfl

theorem threadBlocks_clearThread : (table.clearThread thread).threadBlocks thread = table.threadBlocks thread := by
  simp only [threadBlocks, clearThread, setThread, Function.update_self]

/-- `delete_thread` on a thread that its process no longer lists. -/
theorem deleteThread_unlisted (nonnull : thread ≠ 0) (parent : table.parent thread = process)
    (parented : process ≠ 0) (listed : table.ThreadsAt process cells) (outside : thread ∉ cells)
    (harmless : pointer.Harmless (table.thread thread).name) (own : pointer.meets thread threadSize = false) :
    table.deleteThread pointer thread = some (table.dispose pointer thread) := by
  have notFirst : (table.process process).threads ≠ thread := by
    rintro rfl
    cases cells with
    | nil => exact nonnull listed.eq_null
    | cons => exact outside (by rw [listed.cons_inv.1]; exact List.mem_cons_self)
  have searched := unlinkThread_of_notMem listed nonnull
    (fun member => outside (List.mem_of_mem_tail member)) (length_lt_addressCount listed)
  have removed : table.removeThread thread = some (table.clearThread thread) := by
    rw [removeThread_eq nonnull parent parented, if_neg notFirst, searched, Option.map_some]
  rw [deleteThread_of_removed nonnull harmless own removed, threadBlocks_clearThread, dispose]

/-- The first thread is unlinked by letting the process point past it. -/
theorem threadUnlinked_first {rest : List UInt64} (listed : table.ThreadsAt process (thread :: rest)) :
    ThreadUnlinked table process thread (thread :: rest) (table.setProcess process
      { table.process process with threads := (table.thread thread).next }) where
  listed := by
    rw [List.erase_cons_head]
    unfold ThreadsAt
    simp only [setProcess, Function.update_self]
    exact listed.cons_inv.2.2
  process := ⟨_, rfl⟩
  elsewhere _ _ := rfl
  registers _ := rfl
  parent := rfl
  processesList := rfl
  currentProcess := rfl
  nextFreePid := rfl
  freed := rfl

/-- A later thread is unlinked by letting the one in front point past it. -/
theorem threadUnlinked_later {before : UInt64} {front back : List UInt64}
    (listed : table.ThreadsAt process (front ++ before :: thread :: back)) :
    ThreadUnlinked table process thread (front ++ before :: thread :: back) (table.setThread before
      { table.thread before with next := (table.thread thread).next }) where
  listed := by
    have distinct : ((front ++ [before]) ++ thread :: back).Nodup := by simpa using listed.nodup
    have outside : thread ∉ front ++ [before] := fun earlier =>
      (List.nodup_append.mp distinct).2.2 thread earlier thread (by simp) rfl
    have erased : (front ++ before :: thread :: back).erase thread = front ++ before :: back := by
      rw [show front ++ before :: thread :: back = (front ++ [before]) ++ thread :: back by simp,
        List.erase_append_right _ outside, List.erase_cons_head]
      simp
    rw [erased]
    refine (Listed.unlink listed).congr fun other _ => ?_
    simp only [nextThread, setThread, Function.update_apply]
    split_ifs <;> rfl
  process := ⟨(table.process process).threads, (Function.update_eq_self _ _).symm⟩
  elsewhere other outside := by
    have different : other ≠ before := by
      rintro rfl
      exact outside (by simp)
    exact Function.update_of_ne different _ _
  registers other := by
    simp only [setThread, Function.update_apply]
    split_ifs with same
    · rw [same]
    · rfl
  parent := rfl
  processesList := rfl
  currentProcess := rfl
  nextFreePid := rfl
  freed := rfl

/-- `delete_thread` on a listed thread unlinks and disposes of it. -/
theorem deleteThread_listed (parent : table.parent thread = process) (parented : process ≠ 0)
    (listed : table.ThreadsAt process cells) (member : thread ∈ cells)
    (harmless : pointer.Harmless (table.thread thread).name) (own : pointer.meets thread threadSize = false) :
    ∃ unlinked, table.deleteThread pointer thread = some (unlinked.dispose pointer thread) ∧
      ThreadUnlinked table process thread cells unlinked := by
  have nonnull : thread ≠ 0 := by
    rintro rfl
    exact listed.null_notMem member
  suffices removal : ∃ unlinked, table.removeThread thread = some (unlinked.clearThread thread) ∧
      ThreadUnlinked table process thread cells unlinked by
    obtain ⟨unlinked, removed, taken⟩ := removal
    refine ⟨unlinked, ?_, taken⟩
    rw [deleteThread_of_removed nonnull harmless own removed, threadBlocks_clearThread, dispose]
  rw [removeThread_eq nonnull parent parented]
  obtain ⟨front, back, rfl⟩ := List.append_of_mem member
  rcases List.eq_nil_or_concat front with rfl | ⟨front, before, rfl⟩
  · rw [if_pos listed.cons_inv.1]
    exact ⟨_, rfl, threadUnlinked_first listed⟩
  · rw [List.concat_eq_append, List.append_assoc, List.singleton_append] at listed ⊢
    have distinct : ((front ++ [before]) ++ thread :: back).Nodup := by simpa using listed.nodup
    have notFirst : (table.process process).threads ≠ thread := by
      intro first
      have start : (table.process process).threads ∈ front ++ [before] := by
        cases front with
        | nil => exact List.mem_singleton.mpr listed.cons_inv.1
        | cons => exact List.mem_append_left _ (by rw [listed.cons_inv.1]; exact List.mem_cons_self)
      exact (List.nodup_append.mp distinct).2.2 _ (first ▸ start) thread (by simp) rfl
    have enough : front.length < addressCount := by
      have short := length_lt_addressCount listed
      simp only [List.length_append, List.length_cons] at short
      omega
    rw [if_neg notFirst, unlinkThread_eq listed enough, Option.map_some]
    exact ⟨_, rfl, threadUnlinked_later listed⟩

/-- Disposing of a thread leaves the lists it is not in alone, as far as the pointer does. -/
theorem ThreadsAt.dispose {other : UInt64} (listed : table.ThreadsAt process cells) (outside : other ∉ cells)
    (spares : pointer.Spares cells [process]) : (table.dispose pointer other).ThreadsAt process cells := by
  have start : ((table.dispose pointer other).process process) = table.process process :=
    overwrite_process (spares.process process (List.mem_singleton_self process))
  unfold ThreadsAt
  rw [start]
  refine Listed.congr listed fun cell member => ?_
  have different : cell ≠ other := by
    rintro rfl
    exact outside member
  have kept : (table.dispose pointer other).thread cell = table.thread cell :=
    (overwrite_thread (spares.thread cell member)).trans (Function.update_of_ne different _ _)
  exact congrArg Thread.next kept

/-- `schedule` moves `current_thread` along the list, if there is a current thread. -/
theorem schedule_cases (current : table.currentProcess = 0 ∨ table.currentProcess = process)
    (listed : table.ThreadsAt process cells) (registers : Registers)
    (member : (table.process process).currentThread = 0 ∨ (table.process process).currentThread ∈ cells) :
    (table.schedule registers).2 = table ∨
      ∃ resumed ∈ cells, ∃ thread,
        (table.schedule registers).2 =
          { table with
            thread := thread
            process := Function.update table.process process
              { table.process process with currentThread := resumed } } ∧
        ∀ other, (thread other).next = table.nextThread other := by
  unfold schedule
  by_cases idle : table.currentProcess = 0
  · left
    have none : (table.view table.currentProcess).currentProcess = none := if_pos idle
    unfold Scheduling.schedule
    rw [none]
    dsimp only
    rw [update, none]
    rfl
  · obtain rfl := current.resolve_left idle
    by_cases noThread : (table.process table.currentProcess).currentThread = 0
    · left
      simp only [view, Scheduling.schedule, if_neg idle, if_pos noThread, update, setProcess]
      rw [Function.update_eq_self]
    · right
      have member := member.resolve_left noThread
      have linked := Listed.linked listed (List.ne_nil_of_mem member)
      have nonempty : (table.process table.currentProcess).threads ≠ 0 := by
        intro null
        rw [Listed.eq_nil listed null] at member
        exact List.not_mem_nil member
      have threads : ThreadList (table.view table.currentProcess)
          (table.process table.currentProcess).toProcess cells :=
        ⟨if_neg idle, nonempty, linked, member⟩
      obtain ⟨i, bounded, position⟩ := List.getElem_of_mem member
      obtain ⟨resumed, after, returned, turn, switched, threads'⟩ :=
        Scheduling.schedule_cases threads registers (List.getElem?_eq_some_iff.mpr ⟨bounded, position⟩)
      have tid : after.nextFreeTid = table.nextFreeTid := by
        have same := congrArg (fun result => result.2.nextFreeTid) returned
        dsimp only at same
        rw [← same]
        unfold Scheduling.schedule
        rw [threads.current]
        dsimp only
        rw [if_neg noThread]
        rfl
      refine ⟨resumed, List.mem_of_getElem? turn, after.thread, ?_, switched.next⟩
      rw [returned]
      simp only [update, threads'.current, tid, setProcess]

end Table

/-! ## Runs on one process -/

/-- The table and the live threads of the process, in the order they were created. -/
structure ThreadSystem where
  table : Table
  live : List UInt64

inductive ThreadCall where
  | create (request : ThreadRequest)
  | delete (thread : UInt64) (pointer : NamePointer)
  | schedule (registers : Registers)

/-- One call. The heap hands out blocks that are neither null nor in use, and only live
threads are deleted. -/
inductive ThreadStep (process : UInt64) (system : ThreadSystem) : ThreadCall → ThreadSystem → Prop where
  | create {request thread table} (block : request.block ≠ 0) (stack : request.stack ≠ 0)
      (fresh : request.block ∉ system.live)
      (returned : system.table.createThread process request = some (thread, table)) :
      ThreadStep process system (.create request) ⟨table, system.live ++ [thread]⟩
  | delete {thread pointer table} (live : thread ∈ system.live)
      (returned : system.table.deleteThread pointer thread = some table) :
      ThreadStep process system (.delete thread pointer) ⟨table, system.live.erase thread⟩
  | schedule {registers} : ThreadStep process system (.schedule registers)
      ⟨(system.table.schedule registers).2, system.live⟩

/-- The list of the process is its live threads, each once and in creation order, and
`current_thread` is null or one of them. -/
structure ListsLive (process : UInt64) (system : ThreadSystem) : Prop where
  listed : system.table.ThreadsAt process system.live
  once : system.live.Nodup
  current : (system.table.process process).currentThread = 0 ∨
    (system.table.process process).currentThread ∈ system.live

/-- The call does not delete the current thread. -/
def SparesCurrent (process : UInt64) (system : ThreadSystem) (call : ThreadCall) : Prop :=
  ∀ thread pointer, call = .delete thread pointer → (system.table.process process).currentThread ≠ thread

/-- A copy of the name of a thread does no harm and runs through no record of the process
and its live threads. -/
structure SparesRecords (process : UInt64) (system : ThreadSystem) (thread : UInt64) (pointer : NamePointer) :
    Prop where
  harmless : pointer.Harmless (system.table.thread thread).name
  records : pointer.Spares system.live [process]

/-- The copy that the call makes runs through no record. -/
def CopiesAside (process : UInt64) (system : ThreadSystem) (call : ThreadCall) : Prop :=
  ∀ thread pointer, call = .delete thread pointer → SparesRecords process system thread pointer

/-- A call that does not delete the current thread and copies nothing into the records. -/
structure SparingStep (process : UInt64) (system : ThreadSystem) (call : ThreadCall) (next : ThreadSystem) :
    Prop where
  step : ThreadStep process system call next
  aside : CopiesAside process system call
  spares : SparesCurrent process system call

/-- What the calls on one process keep besides. -/
structure ThreadSystem.Owned (process : UInt64) (system : ThreadSystem) : Prop where
  lists : ListsLive process system
  parent : ∀ thread ∈ system.live, system.table.parent thread = process
  currentProcess : system.table.currentProcess = 0 ∨ system.table.currentProcess = process

namespace ThreadSystem.Owned

variable {process : UInt64} {system next : ThreadSystem}

theorem create {request : ThreadRequest} (owned : system.Owned process) (parented : process ≠ 0)
    (step : ThreadStep process system (.create request) next) : next.Owned process := by
  cases step with
  | create block stack fresh returned =>
      obtain ⟨rfl, rfl⟩ := Prod.mk.inj (Option.some.inj (returned.symm.trans
        (Table.createThread_eq parented block stack owned.lists.listed fresh)))
      have listed := owned.lists.listed.withThread block fresh
      refine ⟨⟨listed, listed.nodup, .inr ?_⟩, fun thread member => ?_, owned.currentProcess⟩
      · simp [Table.withThread]
      · rcases List.mem_append.mp member with old | new
        · have different : thread ≠ request.block := by
            rintro rfl
            exact fresh old
          exact (Function.update_of_ne different _ _).trans (owned.parent thread old)
        · rw [List.mem_singleton.mp new]
          exact Function.update_self _ _ _

theorem schedule {registers : Registers} (owned : system.Owned process)
    (step : ThreadStep process system (.schedule registers) next) : next.Owned process := by
  cases step with
  | schedule =>
      rcases Table.schedule_cases owned.currentProcess owned.lists.listed registers owned.lists.current with
        same | ⟨resumed, member, thread, shape, links⟩
      · rw [same]
        exact owned
      · rw [shape]
        refine ⟨⟨?_, owned.lists.once, .inr (by simpa using member)⟩, owned.parent, owned.currentProcess⟩
        unfold Table.ThreadsAt
        simp only [Function.update_self]
        exact owned.lists.listed.congr fun other _ => links other

/-- Deleting a thread keeps the list right; `current_thread` stays what it was. -/
theorem delete_cases {thread : UInt64} {pointer : NamePointer} (owned : system.Owned process)
    (parented : process ≠ 0) (step : ThreadStep process system (.delete thread pointer) next)
    (aside : SparesRecords process system thread pointer) :
    next.live = system.live.erase thread ∧ next.table.ThreadsAt process next.live ∧
      (next.table.process process).currentThread = (system.table.process process).currentThread ∧
      (∀ other ∈ next.live, next.table.parent other = process) ∧
      next.table.currentProcess = system.table.currentProcess := by
  cases step with
  | delete live returned =>
      have once := owned.lists.once
      obtain ⟨unlinked, deleted, taken⟩ := Table.deleteThread_listed (owned.parent _ live) parented
        owned.lists.listed live aside.harmless (aside.records.thread _ live)
      obtain rfl := Option.some.inj (returned.symm.trans deleted)
      obtain ⟨threads, processes⟩ := taken.process
      have left : pointer.Spares (system.live.erase thread) [process] :=
        ⟨fun other member => aside.records.thread other (List.mem_of_mem_erase member), aside.records.process⟩
      refine ⟨rfl, taken.listed.dispose once.not_mem_erase left, ?_, fun other member => ?_, taken.currentProcess⟩
      · have kept : ((unlinked.dispose pointer thread).process process) = unlinked.process process :=
          Table.overwrite_process (left.process process (List.mem_singleton_self process))
        rw [kept, processes, Function.update_self]
      · have different : other ≠ thread := by
          rintro rfl
          exact once.not_mem_erase member
        refine (Table.overwrite_parent (left.thread other member)).trans ?_
        refine (Function.update_of_ne different _ _).trans ?_
        rw [taken.parent]
        exact owned.parent other (List.mem_of_mem_erase member)

theorem delete {thread : UInt64} {pointer : NamePointer} (owned : system.Owned process) (parented : process ≠ 0)
    (step : ThreadStep process system (.delete thread pointer) next)
    (aside : SparesRecords process system thread pointer)
    (spares : (system.table.process process).currentThread ≠ thread) : next.Owned process := by
  obtain ⟨live, listed, current, parent, currentProcess⟩ := owned.delete_cases parented step aside
  refine ⟨⟨listed, listed.nodup, ?_⟩, parent, by rw [currentProcess]; exact owned.currentProcess⟩
  rw [current, live]
  exact owned.lists.current.imp_right fun member => (List.mem_erase_of_ne spares).mpr member

/-- A call that copies nothing into the records keeps the list and `current_thread` right
exactly when it does not delete the current thread. -/
theorem listsLive_iff {call : ThreadCall} (owned : system.Owned process) (parented : process ≠ 0)
    (step : ThreadStep process system call next) (aside : CopiesAside process system call) :
    ListsLive process next ↔ SparesCurrent process system call := by
  cases call with
  | create request =>
      exact ⟨fun _ _ _ impossible => (nomatch impossible), fun _ => (owned.create parented step).lists⟩
  | schedule registers =>
      exact ⟨fun _ _ _ impossible => (nomatch impossible), fun _ => (owned.schedule step).lists⟩
  | delete thread pointer =>
      have aside := aside thread pointer rfl
      constructor
      · intro lists other _ deletes same
        obtain ⟨rfl, rfl⟩ := ThreadCall.delete.inj deletes
        obtain ⟨live, _, current, _⟩ := owned.delete_cases parented step aside
        have deleted : thread ∈ system.live := by
          cases step with
          | delete member => exact member
        rcases lists.current with null | member
        · rw [current, same] at null
          exact owned.lists.listed.null_notMem (null ▸ deleted)
        · rw [current, same, live] at member
          exact owned.lists.once.not_mem_erase member
      · intro spares
        exact (owned.delete parented step aside (spares thread pointer rfl)).lists

theorem sparingStep {call : ThreadCall} (owned : system.Owned process) (parented : process ≠ 0)
    (step : SparingStep process system call next) : next.Owned process := by
  obtain ⟨step, aside, spares⟩ := step
  cases call with
  | create request => exact owned.create parented step
  | delete thread pointer => exact owned.delete parented step (aside thread pointer rfl) (spares thread pointer rfl)
  | schedule registers => exact owned.schedule step

/-- Every call on live threads returns, if the copy does no harm. -/
theorem exists_step (owned : system.Owned process) (parented : process ≠ 0) :
    (∀ request : ThreadRequest, request.block ≠ 0 → request.stack ≠ 0 → request.block ∉ system.live →
      ∃ next, ThreadStep process system (.create request) next) ∧
    (∀ thread ∈ system.live, ∀ pointer, SparesRecords process system thread pointer →
      ∃ next, ThreadStep process system (.delete thread pointer) next) ∧
    ∀ registers, ∃ next, ThreadStep process system (.schedule registers) next := by
  refine ⟨fun request block stack fresh => ?_, fun thread live pointer aside => ?_, fun registers => ⟨_, .schedule⟩⟩
  · exact ⟨_, .create block stack fresh
      (Table.createThread_eq parented block stack owned.lists.listed fresh)⟩
  · obtain ⟨unlinked, deleted, _⟩ := Table.deleteThread_listed (owned.parent thread live) parented
      owned.lists.listed live aside.harmless (aside.records.thread thread live)
    exact ⟨_, .delete live deleted⟩

end ThreadSystem.Owned

/-- Every call returns in every state that a process without threads reaches while no call
deletes the current thread or copies anything into the records; there the list is the live
threads in creation order and `current_thread` is null or one of them. A further call that
copies nothing into the records keeps this exactly when it does not delete the current thread. A
`delete_thread` whose copy faults does not return. -/
theorem sparing_run_listsLive {process : UInt64} {start : Table} (parented : process ≠ 0)
    (empty : (start.process process).toProcess = ⟨0, 0⟩)
    (single : start.currentProcess = 0 ∨ start.currentProcess = process)
    {calls : List ThreadCall} {system : ThreadSystem}
    (run : Run (SparingStep process) ⟨start, []⟩ calls system) :
    ListsLive process system ∧
      (∀ call next, ThreadStep process system call next → CopiesAside process system call →
        (ListsLive process next ↔ SparesCurrent process system call)) ∧
      (∀ thread ∈ system.live, ∀ (pointer : NamePointer), ∀ k < threadNameMaxLen,
        pointer.writable (pointer.byte k) = false → ∀ next, ¬ ThreadStep process system (.delete thread pointer) next) ∧
      (∀ request : ThreadRequest, request.block ≠ 0 → request.stack ≠ 0 → request.block ∉ system.live →
        ∃ next, ThreadStep process system (.create request) next) ∧
      (∀ thread ∈ system.live, ∀ pointer, SparesRecords process system thread pointer →
        ∃ next, ThreadStep process system (.delete thread pointer) next) ∧
      ∀ registers, ∃ next, ThreadStep process system (.schedule registers) next := by
  have initial : ThreadSystem.Owned process ⟨start, []⟩ := by
    refine ⟨⟨?_, List.nodup_nil, .inl (congrArg Process.currentThread empty)⟩, by simp, single⟩
    show Listed _ 0 (start.process process).toProcess.threads []
    rw [empty]
    exact .nil
  have owned := run.invariant (ThreadSystem.Owned process) initial fun owned step =>
    owned.sparingStep parented step
  refine ⟨owned.lists, fun call next step aside => owned.listsLive_iff parented step aside, ?_,
    owned.exists_step parented⟩
  intro thread live pointer k small unwritable next step
  have nonnull : thread ≠ 0 := by
    rintro rfl
    exact owned.lists.listed.null_notMem live
  cases step with
  | delete _ returned => exact nomatch (Table.deleteThread_of_unwritable nonnull small unwritable).symm.trans returned

/-- A table with one process at address 1 that has no threads. -/
def oneProcess : Table where
  thread _ := ⟨0, .ready, [], 0, 0, initialRegisters 0 0 0⟩
  parent _ := 0
  process _ := ⟨⟨0, 0⟩, 0, .ready, [], 0, 0⟩
  processesList := 1
  currentProcess := 1
  nextFreeTid := 0
  nextFreePid := 1
  freed := []

/-- A pointer into a page that nothing uses. -/
def sparePointer : NamePointer where
  name := 0x500000
  writable address := 0x500000 ≤ address ∧ address < 0x501000
  readable address := 0x500000 ≤ address ∧ address < 0x501000
  kernel _ := false
  corrupted _ := none
  thread _ := ⟨0, .dead, [], 0, 0, initialRegisters 0 0 0⟩
  parent _ := 0
  process _ := ⟨⟨0, 0⟩, 0, .dead, [], 0, 0⟩

theorem sparePointer_harmless : sparePointer.Harmless [] :=
  ⟨by decide +kernel, by decide +kernel, by decide +kernel⟩

/-- Two threads are created, `schedule` goes back to the first one and the second one is
deleted. -/
theorem sparing_run_listsLive_delete :
    ∃ system, Run (SparingStep 1) ⟨oneProcess, []⟩
        [.create ⟨[], 100, 5, 2, 4096⟩, .create ⟨[], 100, 6, 3, 8192⟩, .schedule (initialRegisters 7 7 7),
          .delete 3 sparePointer] system ∧
      system.live = [2] ∧ ListsLive 1 system := by
  let first := ((oneProcess.createThread 1 ⟨[], 100, 5, 2, 4096⟩).getD (0, oneProcess)).2
  let second := ((first.createThread 1 ⟨[], 100, 6, 3, 8192⟩).getD (0, oneProcess)).2
  let scheduled := (second.schedule (initialRegisters 7 7 7)).2
  let deleted := (scheduled.deleteThread sparePointer 3).getD oneProcess
  have createFirst : SparingStep 1 ⟨oneProcess, []⟩ (.create ⟨[], 100, 5, 2, 4096⟩) ⟨first, [2]⟩ :=
    ⟨.create (by decide) (by decide) (by decide) (eq_some_of_map_fst _ (by decide +kernel)),
      fun _ _ impossible => (nomatch impossible), fun _ _ impossible => (nomatch impossible)⟩
  have createSecond : SparingStep 1 ⟨first, [2]⟩ (.create ⟨[], 100, 6, 3, 8192⟩) ⟨second, [2, 3]⟩ :=
    ⟨.create (by decide) (by decide) (by decide) (eq_some_of_map_fst _ (by decide +kernel)),
      fun _ _ impossible => (nomatch impossible), fun _ _ impossible => (nomatch impossible)⟩
  have schedule : SparingStep 1 ⟨second, [2, 3]⟩ (.schedule (initialRegisters 7 7 7)) ⟨scheduled, [2, 3]⟩ :=
    ⟨.schedule, fun _ _ impossible => (nomatch impossible), fun _ _ impossible => (nomatch impossible)⟩
  have delete : SparingStep 1 ⟨scheduled, [2, 3]⟩ (.delete 3 sparePointer) ⟨deleted, [2]⟩ := by
    refine ⟨.delete (by decide) (eq_some_getD_of_isSome _ (by decide +kernel)), fun thread pointer same => ?_,
      fun thread pointer same => ?_⟩
    · obtain ⟨rfl, rfl⟩ := ThreadCall.delete.inj same
      have name : (scheduled.thread 3).name = [] := by decide +kernel
      exact ⟨by rw [name]; exact sparePointer_harmless, .of_all (by decide +kernel) (by decide +kernel)⟩
    · obtain ⟨rfl, rfl⟩ := ThreadCall.delete.inj same
      decide +kernel
  have run := (((Run.nil.snoc createFirst).snoc createSecond).snoc schedule).snoc delete
  have parented : (1 : UInt64) ≠ 0 := by decide
  exact ⟨_, run, rfl, (sparing_run_listsLive parented rfl (.inr rfl) run).1⟩

/-- A thread is created and deleted: the list is empty again, but `current_thread` still
points to the freed record. -/
theorem deleted_thread_stays_current :
    ∃ system, Run (ThreadStep 1) ⟨oneProcess, []⟩ [.create ⟨[], 100, 5, 2, 4096⟩, .delete 2 sparePointer] system ∧
      system.live = [] ∧ (system.table.process 1).currentThread = 2 ∧ ¬ ListsLive 1 system := by
  let created := ((oneProcess.createThread 1 ⟨[], 100, 5, 2, 4096⟩).getD (0, oneProcess)).2
  let deleted := (created.deleteThread sparePointer 2).getD oneProcess
  have create : ThreadStep 1 ⟨oneProcess, []⟩ (.create ⟨[], 100, 5, 2, 4096⟩) ⟨created, [2]⟩ :=
    .create (by decide) (by decide) (by decide) (eq_some_of_map_fst _ (by decide +kernel))
  have delete : ThreadStep 1 ⟨created, [2]⟩ (.delete 2 sparePointer) ⟨deleted, []⟩ :=
    .delete (by decide) (eq_some_getD_of_isSome _ (by decide +kernel))
  have dangling : (deleted.process 1).currentThread = 2 := by decide +kernel
  refine ⟨_, (Run.nil.snoc create).snoc delete, rfl, dangling, fun lists => ?_⟩
  rcases lists.current with null | member
  · exact absurd (dangling.symm.trans null) (by decide)
  · exact List.not_mem_nil member

end KeblaOS.Scheduling
