import Mathlib.Algebra.Group.Nat.Defs
import KeblaOS.Scheduling.ThreadLifecycle

/-!
# The process list

`create_process` puts a process in front of `processes_list`. `delete_process` unlinks it
and then deletes its threads from the first one on: it moves the `threads` pointer past
the thread before `delete_thread`, so `remove_thread` searches a list that no longer
contains the thread and changes nothing but the thread's own record. Each of these calls
copies a name through a pointer of its own, which is not initialised. The system below keeps
the live processes and the threads created for each of them beside the table.
-/

namespace KeblaOS.Scheduling

namespace Table

/-- The `next` pointers of the process records. -/
def nextProcess (table : Table) (process : UInt64) : UInt64 := (table.process process).next

/-- A process taken out of `processes_list`. -/
structure ProcessUnlinked (before : Table) (process : UInt64) (live : List UInt64) (after : Table) :
    Prop where
  listed : Listed after.nextProcess 0 after.processesList (live.erase process)
  process : ∀ other, after.process other =
    { before.process other with next := (after.process other).next }
  thread : after.thread = before.thread
  parent : after.parent = before.parent
  nextFreePid : after.nextFreePid = before.nextFreePid
  freed : after.freed = before.freed

/-- The threads of a process deleted, each of them once. The other records spared are as before. -/
structure ThreadsDeleted (before : Table) (process : UInt64) (cells threads processes : List UInt64)
    (after : Table) : Prop where
  process : ∀ other ∈ processes, after.process other = Function.update before.process process
    { before.process process with threads := 0 } other
  thread : ∀ other ∈ threads, other ∉ cells → after.thread other = before.thread other
  parent : ∀ other ∈ threads, other ∉ cells → after.parent other = before.parent other
  processesList : after.processesList = before.processesList
  nextFreePid : after.nextFreePid = before.nextFreePid
  freed : after.freed = before.freed ++ cells.flatMap before.threadBlocks

variable {table : Table} {process : UInt64} {live cells threads processes : List UInt64}

/-! ## Unlinking a process -/

/-- The search of `remove_process` stops at the process; `prev` is the one in front. -/
theorem unlinkProcess_eq {prev start : UInt64} {fuel : Nat} {front back : List UInt64}
    (listed : Listed table.nextProcess 0 start (front ++ process :: back)) (enough : front.length < fuel) :
    table.unlinkProcess process fuel prev start =
      if front.getLast?.getD prev ≠ 0 then
        some (table.setProcess (front.getLast?.getD prev)
          { table.process (front.getLast?.getD prev) with next := table.nextProcess process })
      else some { table with processesList := table.nextProcess process } := by
  induction front generalizing prev start fuel with
  | nil =>
      obtain ⟨fuel, rfl⟩ := Nat.exists_eq_succ_of_ne_zero (Nat.ne_of_gt enough)
      obtain ⟨rfl, nonnull, _⟩ := listed.cons_inv
      rw [unlinkProcess, if_neg nonnull, if_pos rfl]
      rfl
  | cons head front ih =>
      obtain ⟨fuel, rfl⟩ := Nat.exists_eq_succ_of_ne_zero (Nat.ne_of_gt (Nat.zero_lt_of_lt enough))
      obtain ⟨rfl, nonnull, tail⟩ := listed.cons_inv
      have different : start ≠ process := by
        rintro rfl
        exact (List.nodup_cons.mp listed.nodup).1 (by simp)
      rw [unlinkProcess, if_neg nonnull, if_neg different, List.getLast?_cons, Option.getD_some]
      exact ih tail (by simpa using enough)

/-- `remove_process` takes a listed process out. -/
theorem removeProcess_eq (listed : Listed table.nextProcess 0 table.processesList live)
    (member : process ∈ live) :
    ∃ after, table.removeProcess process = some after ∧ ProcessUnlinked table process live after := by
  have nonnull : process ≠ 0 := by
    rintro rfl
    exact listed.null_notMem member
  have short := length_lt_addressCount listed
  obtain ⟨front, back, rfl⟩ := List.append_of_mem member
  rw [List.length_append, List.length_cons] at short
  have enough : front.length < addressCount := by omega
  have outside : process ∉ front := fun earlier =>
    (List.nodup_append.mp listed.nodup).2.2 process earlier process (by simp) rfl
  have erased : (front ++ process :: back).erase process = front ++ back := by
    rw [List.erase_append_right _ outside, List.erase_cons_head]
  rw [removeProcess, if_neg nonnull, unlinkProcess_eq listed enough]
  rcases List.eq_nil_or_concat front with rfl | ⟨front, before, rfl⟩
  · -- The first process: `processes_list` moves past it.
    rw [if_neg (by simp)]
    refine ⟨_, rfl, ?_, fun _ => rfl, rfl, rfl, rfl, rfl⟩
    rw [erased]
    exact listed.cons_inv.2.2
  · -- A later process: the one in front points past it.
    rw [List.concat_eq_append] at listed erased ⊢
    have last : (front ++ [before]).getLast?.getD 0 = before := by
      rw [List.getLast?_concat, Option.getD_some]
    have beforeNonnull : before ≠ 0 := by
      rintro rfl
      exact listed.null_notMem (by simp)
    rw [last, if_pos beforeNonnull]
    refine ⟨_, rfl, ?_, fun other => ?_, rfl, rfl, rfl, rfl⟩
    · rw [erased, List.append_assoc, List.singleton_append]
      rw [List.append_assoc, List.singleton_append] at listed
      refine listed.unlink.congr fun other _ => ?_
      simp only [nextProcess, setProcess, Function.update_apply]
      split_ifs <;> rfl
    · simp only [setProcess, Function.update_apply]
      split_ifs with same
      · rw [same]
      · rfl

/-! ## Deleting the threads -/

/-- The copies of the names of these threads, one after the other, do no harm and run through
none of the records. -/
structure CopyNames (table : Table) (pointers : Nat → NamePointer) (cells threads processes : List UInt64) :
    Prop where
  harmless : ∀ turn thread, cells[turn]? = some thread → (pointers turn).Harmless (table.thread thread).name
  records : ∀ turn < cells.length, (pointers turn).Spares threads processes

/-- The copies behind the first one. -/
theorem CopyNames.tail {thread : UInt64} {pointers : Nat → NamePointer} {after : Table}
    (copies : table.CopyNames pointers (thread :: cells) threads processes)
    (names : ∀ other ∈ cells, (after.thread other).name = (table.thread other).name) :
    after.CopyNames (fun turn => pointers (turn + 1)) cells threads processes where
  harmless turn other place := by
    rw [names other (List.mem_of_getElem? place)]
    exact copies.harmless (turn + 1) other place
  records turn small := copies.records (turn + 1) (Nat.succ_lt_succ small)

/-- What one turn of the loop does: the first thread is deleted, and the process goes on with the others. -/
structure FirstDeleted (before : Table) (process deleted : UInt64) (rest threads processes : List UInt64)
    (after : Table) : Prop where
  remaining : after.ThreadsAt process rest
  process : ∀ other ∈ processes, after.process other = Function.update before.process process
    { before.process process with threads := (before.thread deleted).next } other
  thread : ∀ other ∈ threads, other ≠ deleted → after.thread other = before.thread other
  parent : ∀ other ∈ threads, other ≠ deleted → after.parent other = before.parent other
  processesList : after.processesList = before.processesList
  nextFreePid : after.nextFreePid = before.nextFreePid
  freed : after.freed = before.freed ++ before.threadBlocks deleted

theorem deleteThread_first {pointer : NamePointer} {thread : UInt64} (parented : process ≠ 0)
    (listed : table.ThreadsAt process (thread :: cells)) (parent : table.parent thread = process)
    (harmless : pointer.Harmless (table.thread thread).name) (spared : pointer.Spares threads processes)
    (within : ∀ other ∈ thread :: cells, other ∈ threads) (own : process ∈ processes) :
    ∃ after, (table.setProcess process { table.process process with threads := (table.thread thread).next }).deleteThread
        pointer thread = some after ∧ FirstDeleted table process thread cells threads processes after := by
  obtain ⟨first, nonnull, tail⟩ := Listed.cons_inv listed
  have outside : thread ∉ cells := (List.nodup_cons.mp (Listed.nodup listed)).1
  let advanced := table.setProcess process { table.process process with threads := (table.thread thread).next }
  have remaining : advanced.ThreadsAt process cells := by
    unfold ThreadsAt
    simp only [advanced, setProcess, Function.update_self]
    exact tail
  have aside : pointer.Spares cells [process] :=
    ⟨fun other member => spared.thread other (within other (List.mem_cons_of_mem _ member)),
      List.forall_mem_singleton.mpr (spared.process process own)⟩
  refine ⟨advanced.dispose pointer thread, ?_, remaining.dispose outside aside, fun other member => ?_,
    fun other member different => ?_, fun other member different => ?_, rfl, rfl, rfl⟩
  · exact deleteThread_unlisted nonnull parent parented remaining outside harmless
      (spared.thread thread (within thread List.mem_cons_self))
  · exact overwrite_process (spared.process other member)
  · exact (overwrite_thread (spared.thread other member)).trans (Function.update_of_ne different _ _)
  · exact (overwrite_parent (spared.thread other member)).trans (Function.update_of_ne different _ _)

/-- The loop of `delete_process` ends, and deletes each thread once, in list order. -/
theorem deleteThreads_eq {fuel : Nat} {pointers : Nat → NamePointer} (parented : process ≠ 0)
    (listed : table.ThreadsAt process cells) (parent : ∀ thread ∈ cells, table.parent thread = process)
    (copies : table.CopyNames pointers cells threads processes) (within : ∀ thread ∈ cells, thread ∈ threads)
    (own : process ∈ processes) (enough : cells.length < fuel) :
    ∃ after, deleteThreads process fuel pointers table = some after ∧
      ThreadsDeleted table process cells threads processes after := by
  induction cells generalizing table fuel pointers with
  | nil =>
      obtain ⟨fuel, rfl⟩ := Nat.exists_eq_succ_of_ne_zero (Nat.ne_of_gt enough)
      have null : (table.process process).threads = 0 := listed.eq_null
      refine ⟨table, by rw [deleteThreads, if_pos null], fun other _ => ?_, fun _ _ _ => rfl, fun _ _ _ => rfl, rfl,
        rfl, (List.append_nil _).symm⟩
      rw [← null]
      exact (congrFun (Function.update_eq_self _ _) other).symm
  | cons thread rest ih =>
      obtain ⟨fuel, rfl⟩ := Nat.exists_eq_succ_of_ne_zero (Nat.ne_of_gt (Nat.zero_lt_of_lt enough))
      obtain ⟨first, nonnull, _⟩ := Listed.cons_inv listed
      obtain ⟨next, deleted, turn⟩ := deleteThread_first parented listed (parent thread List.mem_cons_self)
        (copies.harmless 0 thread rfl) (copies.records 0 (Nat.succ_pos _)) within own
      have outside : thread ∉ rest := (List.nodup_cons.mp (Listed.nodup listed)).1
      have kept : ∀ other ∈ rest, next.thread other = table.thread other ∧ next.parent other = table.parent other := by
        intro other member
        have different : other ≠ thread := fun same => outside (same ▸ member)
        have inside := within other (List.mem_cons_of_mem _ member)
        exact ⟨turn.thread other inside different, turn.parent other inside different⟩
      have parent' : ∀ other ∈ rest, next.parent other = process := fun other member =>
        (kept other member).2.trans (parent other (List.mem_cons_of_mem _ member))
      have copies' := @CopyNames.tail _ _ _ _ _ _ next copies fun other member => by rw [(kept other member).1]
      obtain ⟨after, drained, result⟩ := ih turn.remaining parent' copies'
        (fun other member => within other (List.mem_cons_of_mem _ member)) (by simpa using enough)
      have blocks : rest.flatMap next.threadBlocks = rest.flatMap table.threadBlocks :=
        List.flatMap_congr fun other member => by rw [threadBlocks, (kept other member).1, threadBlocks]
      refine ⟨after, ?_, fun other member => ?_, fun other member notListed => ?_, fun other member notListed => ?_,
        result.processesList.trans turn.processesList, result.nextFreePid.trans turn.nextFreePid, ?_⟩
      · rw [deleteThreads]
        dsimp only
        rw [first, if_neg nonnull, deleted]
        exact drained
      · have record := turn.process process own
        rw [Function.update_self] at record
        rw [result.process other member, record]
        by_cases same : other = process
        · rw [same, Function.update_self, Function.update_self]
        · rw [Function.update_of_ne same, Function.update_of_ne same, turn.process other member,
            Function.update_of_ne same]
      · obtain ⟨different, later⟩ := not_or.mp (mt List.mem_cons.mpr notListed)
        rw [result.thread other member later, turn.thread other member different]
      · obtain ⟨different, later⟩ := not_or.mp (mt List.mem_cons.mpr notListed)
        rw [result.parent other member later, turn.parent other member different]
      · rw [result.freed, blocks, turn.freed, List.flatMap_cons, List.append_assoc]

/-- The whole of `delete_process` on a listed process: what it frees and which of the records
spared it leaves alone. -/
structure ProcessDeleted (before : Table) (deleted : UInt64) (live cells threads : List UInt64) (after : Table) :
    Prop where
  listed : Listed after.nextProcess 0 after.processesList (live.erase deleted)
  process : ∀ other ∈ live, other ≠ deleted → after.process other =
    { before.process other with next := (after.process other).next }
  thread : ∀ other ∈ threads, other ∉ cells → after.thread other = before.thread other
  parent : ∀ other ∈ threads, other ∉ cells → after.parent other = before.parent other
  nextFreePid : after.nextFreePid = before.nextFreePid
  freed : after.freed = before.freed ++ cells.flatMap before.threadBlocks ++ [⟨deleted, processSize⟩]

theorem deleteProcess_eq {pointers : Nat → NamePointer} (listed : Listed table.nextProcess 0 table.processesList live)
    (member : process ∈ live) (cellsAt : table.ThreadsAt process cells)
    (parent : ∀ thread ∈ cells, table.parent thread = process)
    (copies : table.CopyNames pointers cells threads live) (within : ∀ thread ∈ cells, thread ∈ threads) :
    ∃ after, table.deleteProcess pointers process = some after ∧
      ProcessDeleted table process live cells threads after := by
  have nonnull : process ≠ 0 := by
    rintro rfl
    exact listed.null_notMem member
  obtain ⟨unlinked, removed, taken⟩ := removeProcess_eq listed member
  have cellsAt' : unlinked.ThreadsAt process cells := by
    unfold ThreadsAt
    rw [taken.process]
    exact cellsAt.congr fun other _ => by rw [nextThread, taken.thread, nextThread]
  have parent' : ∀ thread ∈ cells, unlinked.parent thread = process := by
    rw [taken.parent]
    exact parent
  have copies' : unlinked.CopyNames pointers cells threads live := by
    refine ⟨fun turn thread place => ?_, copies.records⟩
    rw [taken.thread]
    exact copies.harmless turn thread place
  obtain ⟨drained, deleted, result⟩ :=
    deleteThreads_eq nonnull cellsAt' parent' copies' within member (length_lt_addressCount cellsAt)
  have blocks : unlinked.threadBlocks = table.threadBlocks := by
    funext thread
    rw [threadBlocks, taken.thread, threadBlocks]
  have links : ∀ other ∈ live, drained.nextProcess other = unlinked.nextProcess other := by
    intro other there
    rw [nextProcess, result.process other there, Function.update_apply]
    split_ifs with same
    · rw [same, nextProcess]
    · rfl
  refine ⟨drained.free [⟨process, processSize⟩], ?_, ?_, fun other there different => ?_,
    fun other there outside => ?_, fun other there outside => ?_, ?_, ?_⟩
  · rw [deleteProcess, if_neg nonnull, removed]
    show (deleteThreads process addressCount pointers unlinked).bind _ = _
    rw [deleted]
    rfl
  · show Listed drained.nextProcess 0 drained.processesList _
    rw [result.processesList]
    exact taken.listed.congr fun other there => links other (List.mem_of_mem_erase there)
  · show drained.process other = { table.process other with next := (drained.process other).next }
    rw [result.process other there, Function.update_of_ne different]
    exact taken.process other
  · exact (result.thread other there outside).trans (by rw [taken.thread])
  · exact (result.parent other there outside).trans (by rw [taken.parent])
  · exact result.nextFreePid.trans taken.nextFreePid
  · show drained.freed ++ _ = _
    rw [result.freed, taken.freed, blocks]

/-- `delete_process` does not return from the first copy that faults. -/
theorem deleteProcess_of_unwritable {pointers : Nat → NamePointer} {thread : UInt64} {k : Nat}
    (listed : Listed table.nextProcess 0 table.processesList live) (member : process ∈ live)
    (cellsAt : table.ThreadsAt process (thread :: cells)) (small : k < threadNameMaxLen)
    (unwritable : (pointers 0).writable ((pointers 0).byte k) = false) :
    table.deleteProcess pointers process = none := by
  have nonnull : process ≠ 0 := by
    rintro rfl
    exact listed.null_notMem member
  obtain ⟨unlinked, removed, taken⟩ := removeProcess_eq listed member
  obtain ⟨first, threadNonnull, _⟩ := Listed.cons_inv cellsAt
  have start : (unlinked.process process).threads = thread := by rw [taken.process process, first]
  obtain ⟨fuel, count⟩ : ∃ fuel, addressCount = fuel + 1 := ⟨18446744073709551615, rfl⟩
  have faulted : deleteThreads process addressCount pointers unlinked = none := by
    rw [count, deleteThreads]
    dsimp only
    rw [start, if_neg threadNonnull]
    show (Table.deleteThread _ (pointers 0) thread).bind _ = none
    rw [deleteThread_of_unwritable threadNonnull small unwritable]
    rfl
  rw [deleteProcess, if_neg nonnull, removed]
  show (deleteThreads process addressCount pointers unlinked).bind _ = none
  rw [faulted]
  rfl

/-- The loop of `get_process_by_pid` returns the first process with the pid, if any. -/
theorem findPid_eq {start pid : UInt64} {fuel : Nat} (listed : Listed table.nextProcess 0 start live)
    (enough : live.length < fuel) :
    table.findPid pid fuel start = some ((live.find? fun other => (table.process other).pid = pid).getD 0) := by
  induction listed generalizing fuel with
  | nil =>
      obtain ⟨fuel, rfl⟩ := Nat.exists_eq_succ_of_ne_zero (Nat.ne_of_gt enough)
      rw [findPid, if_pos rfl]
      rfl
  | @cons first rest nonnull tail ih =>
      obtain ⟨fuel, rfl⟩ := Nat.exists_eq_succ_of_ne_zero (Nat.ne_of_gt (Nat.zero_lt_of_lt enough))
      rw [findPid, if_neg nonnull, List.find?_cons]
      by_cases found : (table.process first).pid = pid
      · simp [found]
      · rw [if_neg found]
        have later := ih (by simpa using enough)
        rw [nextProcess] at later
        simpa [found] using later

end Table

/-! ## Runs -/

/-- The table, the live processes with the newest one first, and the threads created for
each of them. -/
structure ProcessSystem where
  table : Table
  live : List UInt64
  threads : UInt64 → List UInt64

inductive ProcessCall where
  | createProcess (name : List UInt8) (block : UInt64)
  | createThread (process : UInt64) (request : ThreadRequest)
  | deleteProcess (process : UInt64) (pointers : Nat → NamePointer)

/-- One call on live processes. The heap hands out blocks that are neither null nor in
use. -/
inductive ProcessStep (system : ProcessSystem) : ProcessCall → ProcessSystem → Prop where
  | createProcess {name block process table} (nonnull : block ≠ 0) (fresh : block ∉ system.live)
      (returned : system.table.createProcess name block = (process, table)) :
      ProcessStep system (.createProcess name block)
        ⟨table, process :: system.live, Function.update system.threads process []⟩
  | createThread {process request thread table} (live : process ∈ system.live)
      (block : request.block ≠ 0) (stack : request.stack ≠ 0)
      (fresh : ∀ other ∈ system.live, request.block ∉ system.threads other)
      (returned : system.table.createThread process request = some (thread, table)) :
      ProcessStep system (.createThread process request)
        ⟨table, system.live,
          Function.update system.threads process (system.threads process ++ [thread])⟩
  | deleteProcess {process pointers table} (live : process ∈ system.live)
      (returned : system.table.deleteProcess pointers process = some table) :
      ProcessStep system (.deleteProcess process pointers)
        ⟨table, system.live.erase process, system.threads⟩

/-- The names of the threads of a process are copied without harm, and past the records of
all live processes and threads. -/
def ProcessSystem.CopyNames (system : ProcessSystem) (process : UInt64) (pointers : Nat → NamePointer) : Prop :=
  system.table.CopyNames pointers (system.threads process) (system.live.flatMap system.threads) system.live

/-- A call that copies no name into a record. -/
structure AsideStep (system : ProcessSystem) (call : ProcessCall) (next : ProcessSystem) : Prop where
  step : ProcessStep system call next
  aside : ∀ process pointers, call = .deleteProcess process pointers → system.CopyNames process pointers

/-- The lists of the table are the live processes and their threads, and the pids in use
were all handed out. -/
structure ProcessSystem.Tabled (system : ProcessSystem) : Prop where
  listed : Listed system.table.nextProcess 0 system.table.processesList system.live
  threads : ∀ process ∈ system.live, system.table.ThreadsAt process (system.threads process)
  parent : ∀ process ∈ system.live, ∀ thread ∈ system.threads process,
    system.table.parent thread = process
  pids : (system.live.map fun process => (system.table.process process).pid).Nodup
  used : ∀ process ∈ system.live,
    (system.table.process process).pid.toNat < system.table.nextFreePid.toNat

namespace ProcessSystem.Tabled

variable {system next : ProcessSystem}

theorem nonnull (tabled : system.Tabled) {process : UInt64} (live : process ∈ system.live) : process ≠ 0 := by
  rintro rfl
  exact tabled.listed.null_notMem live

/-- The record of a new process, as it stands in the list. -/
theorem createProcess_eq {table : Table} {name : List UInt8} {block : UInt64} (nonnull : block ≠ 0) :
    table.createProcess name block = (block,
      { table with
        process := Function.update table.process block
          { table.newProcess name with next := table.processesList }
        processesList := block
        nextFreePid := table.nextFreePid + 1 }) := by
  rw [Table.createProcess, if_neg nonnull]
  dsimp only
  rw [Table.addProcess, if_neg nonnull]
  simp only [Table.setProcess, Function.update_idem, Function.update_self]

/-- A new process has a pid that no live one has, as long as the counter does not wrap. -/
theorem createProcess {name : List UInt8} {block : UInt64} (tabled : system.Tabled)
    (step : ProcessStep system (.createProcess name block) next)
    (room : system.table.nextFreePid.toNat + 1 < 2 ^ 64) :
    next.Tabled ∧ next.table.nextFreePid.toNat = system.table.nextFreePid.toNat + 1 := by
  cases step with
  | createProcess nonnull fresh returned =>
      obtain ⟨same, rfl⟩ := Prod.mk.inj (returned.symm.trans (createProcess_eq nonnull))
      obtain rfl := same.symm
      have count : (system.table.nextFreePid + 1).toNat = system.table.nextFreePid.toNat + 1 := by
        rw [UInt64.toNat_add]
        exact Nat.mod_eq_of_lt room
      have different : ∀ other ∈ system.live, other ≠ block := by
        rintro other member rfl
        exact fresh member
      have pids : system.live.map (fun process => (Function.update system.table.process block
            { system.table.newProcess name with next := system.table.processesList } process).pid) =
          system.live.map fun process => (system.table.process process).pid :=
        List.map_congr_left fun other member => by rw [Function.update_of_ne (different other member)]
      refine ⟨⟨.cons nonnull ?_, fun process live => ?_, fun process live => ?_, ?_, fun process live => ?_⟩, count⟩
      · simp only [Table.nextProcess, Function.update_self]
        exact tabled.listed.congr fun other member => by
          simp only [Table.nextProcess, Function.update_of_ne (different other member)]
      · unfold Table.ThreadsAt
        rcases List.mem_cons.mp live with rfl | old
        · simp only [Function.update_self]
          exact .nil
        · simp only [Function.update_of_ne (different process old)]
          exact tabled.threads process old
      · rcases List.mem_cons.mp live with rfl | old
        · simp
        · simp only [Function.update_of_ne (different process old)]
          exact tabled.parent process old
      · rw [List.map_cons, pids]
        dsimp only
        rw [Function.update_self]
        refine List.nodup_cons.mpr ⟨fun taken => ?_, tabled.pids⟩
        obtain ⟨other, member, same⟩ := List.mem_map.mp taken
        have earlier := tabled.used other member
        rw [same] at earlier
        exact Nat.lt_irrefl _ earlier
      · show (Function.update system.table.process block _ process).pid.toNat < _
        rw [count]
        rcases List.mem_cons.mp live with rfl | old
        · rw [Function.update_self]
          exact Nat.lt_succ_self _
        · rw [Function.update_of_ne (different process old)]
          exact Nat.lt_succ_of_lt (tabled.used process old)

theorem createThread {process : UInt64} {request : ThreadRequest} (tabled : system.Tabled)
    (step : ProcessStep system (.createThread process request) next) :
    next.Tabled ∧ next.table.nextFreePid = system.table.nextFreePid := by
  cases step with
  | createThread live block stack fresh returned =>
      have listed := tabled.threads process live
      obtain ⟨rfl, rfl⟩ := Prod.mk.inj (Option.some.inj (returned.symm.trans
        (Table.createThread_eq (tabled.nonnull live) block stack listed (fresh process live))))
      have record : ∀ other, ((system.table.withThread process request (system.threads process)).process
            other).next = (system.table.process other).next ∧
          ((system.table.withThread process request (system.threads process)).process other).pid =
            (system.table.process other).pid := by
        intro other
        simp only [Table.withThread, Function.update_apply]
        split_ifs with same
        · rw [same]
          exact ⟨rfl, rfl⟩
        · exact ⟨rfl, rfl⟩
      refine ⟨⟨?_, fun other member => ?_, fun other member thread created => ?_, ?_, fun other member => ?_⟩,
        rfl⟩
      · exact tabled.listed.congr fun other _ => (record other).1
      · by_cases same : other = process
        · subst same
          dsimp only
          rw [Function.update_self]
          exact listed.withThread block (fresh other live)
        · dsimp only
          rw [Function.update_of_ne same]
          have start : ((system.table.withThread process request (system.threads process)).process
              other).threads = (system.table.process other).threads := by
            simp only [Table.withThread, Function.update_of_ne same]
          unfold Table.ThreadsAt
          rw [start]
          refine (tabled.threads other member).congr fun thread listed' => ?_
          -- A thread of another process has another parent, so it is not in this list.
          have outside : thread ∉ system.threads process := fun shared =>
            same ((tabled.parent other member thread listed').symm.trans (tabled.parent process live thread shared))
          have different : thread ≠ request.block := by
            rintro rfl
            exact fresh other member listed'
          simp only [Table.nextThread, Table.withThread, hangThread_of_notMem outside,
            Function.update_of_ne different]
      · have old : ∀ owner ∈ system.live, thread ∈ system.threads owner →
            (system.table.withThread process request (system.threads process)).parent thread = owner := by
          intro owner owns member
          have different : thread ≠ request.block := by
            rintro rfl
            exact fresh owner owns member
          exact (Function.update_of_ne different _ _).trans (tabled.parent owner owns thread member)
        by_cases same : other = process
        · subst same
          dsimp only at created
          rw [Function.update_self] at created
          rcases List.mem_append.mp created with earlier | new
          · exact old other live earlier
          · rw [List.mem_singleton.mp new]
            exact Function.update_self _ _ _
        · dsimp only at created
          rw [Function.update_of_ne same] at created
          exact old other member created
      · have pids := funext fun other => (record other).2
        rw [pids]
        exact tabled.pids
      · rw [(record other).2]
        exact tabled.used other member

/-- `delete_process` on a live process, with copies that do no harm. -/
theorem deleteProcess_eq {process : UInt64} {pointers : Nat → NamePointer} (tabled : system.Tabled)
    (live : process ∈ system.live) (copies : system.CopyNames process pointers) :
    ∃ after, system.table.deleteProcess pointers process = some after ∧ Table.ProcessDeleted system.table process
      system.live (system.threads process) (system.live.flatMap system.threads) after :=
  Table.deleteProcess_eq tabled.listed live (tabled.threads process live) (tabled.parent process live) copies
    fun _ member => List.mem_flatMap.mpr ⟨process, live, member⟩

theorem deleteProcess {process : UInt64} {pointers : Nat → NamePointer} (tabled : system.Tabled)
    (step : ProcessStep system (.deleteProcess process pointers) next) (copies : system.CopyNames process pointers) :
    next.Tabled ∧ next.table.nextFreePid = system.table.nextFreePid := by
  cases step with
  | @deleteProcess _ _ table live returned =>
      obtain ⟨after, deleted, result⟩ := tabled.deleteProcess_eq live copies
      obtain rfl := Option.some.inj (returned.symm.trans deleted)
      have once := tabled.listed.nodup
      have different : ∀ other ∈ system.live.erase process, other ≠ process := by
        rintro other member rfl
        exact once.not_mem_erase member
      have old : ∀ other ∈ system.live.erase process, other ∈ system.live :=
        fun other member => List.mem_of_mem_erase member
      -- The threads of the other processes have other parents.
      have outside : ∀ other ∈ system.live.erase process, ∀ thread ∈ system.threads other,
          thread ∉ system.threads process := by
        intro other member thread listed shared
        exact different other member ((tabled.parent other (old other member) thread listed).symm.trans
          (tabled.parent process live thread shared))
      have pid : ∀ other ∈ system.live.erase process,
          (table.process other).pid = (system.table.process other).pid := by
        intro other member
        rw [result.process other (old other member) (different other member)]
      have among : ∀ other ∈ system.live.erase process, ∀ thread ∈ system.threads other,
          thread ∈ system.live.flatMap system.threads := fun other member thread listed =>
        List.mem_flatMap.mpr ⟨other, old other member, listed⟩
      refine ⟨⟨result.listed, fun other member => ?_, fun other member thread listed => ?_, ?_,
        fun other member => ?_⟩, result.nextFreePid⟩
      · unfold Table.ThreadsAt
        rw [result.process other (old other member) (different other member)]
        refine (tabled.threads other (old other member)).congr fun thread listed => ?_
        rw [Table.nextThread, result.thread thread (among other member thread listed)
          (outside other member thread listed), Table.nextThread]
      · show table.parent thread = other
        rw [result.parent thread (among other member thread listed) (outside other member thread listed)]
        exact tabled.parent other (old other member) thread listed
      · show ((system.live.erase process).map _).Nodup
        rw [List.map_congr_left pid]
        exact tabled.pids.sublist (List.erase_sublist.map _)
      · show (table.process other).pid.toNat < table.nextFreePid.toNat
        rw [pid other member, result.nextFreePid]
        exact tabled.used other (old other member)

/-- `get_process_by_pid` returns the live process with the pid, or null when there is
none. -/
theorem getProcessByPid (tabled : system.Tabled) (pid : UInt64) :
    ∃ found, system.table.getProcessByPid pid = some found ∧
      ((found ∈ system.live ∧ (system.table.process found).pid = pid) ∨
        (found = 0 ∧ ∀ process ∈ system.live, (system.table.process process).pid ≠ pid)) := by
  refine ⟨_, Table.findPid_eq tabled.listed (Table.length_lt_addressCount tabled.listed), ?_⟩
  cases found : system.live.find? fun other => (system.table.process other).pid = pid with
  | none => exact .inr ⟨rfl, by simpa using List.find?_eq_none.mp found⟩
  | some process =>
      exact .inl ⟨List.mem_of_find?_eq_some found, by simpa using List.find?_some found⟩

/-- A run keeps the table; the pid counter counts no more than the calls. -/
theorem of_run {start : ProcessSystem} (tabled : start.Tabled) (first : start.table.nextFreePid = 0)
    {calls : List ProcessCall} (run : Run AsideStep start calls system) (few : calls.length < 2 ^ 64) :
    system.Tabled ∧ system.table.nextFreePid.toNat ≤ calls.length := by
  induction run with
  | nil => exact ⟨tabled, by rw [first]; exact Nat.zero_le _⟩
  | @snoc calls before call after _ step ih =>
      have length : (calls ++ [call]).length = calls.length + 1 := by simp
      rw [length] at few ⊢
      obtain ⟨tabled', counted⟩ := ih (by omega)
      cases call with
      | createProcess name block =>
          obtain ⟨created, count⟩ := tabled'.createProcess step.step (by omega)
          exact ⟨created, by omega⟩
      | createThread process request =>
          obtain ⟨created, count⟩ := tabled'.createThread step.step
          exact ⟨created, by rw [count]; omega⟩
      | deleteProcess process pointers =>
          obtain ⟨deleted, count⟩ := tabled'.deleteProcess step.step (step.aside process pointers rfl)
          exact ⟨deleted, by rw [count]; omega⟩

end ProcessSystem.Tabled

/-- After fewer than `2 ^ 64` calls on an empty process list that copy no name into a record: the
list is the live processes, each once and the newest first, their pids are pairwise different,
`get_process_by_pid` finds each of them and nothing else, and `delete_process` on any of them
returns, if it copies no name into a record either, after freeing the blocks of each of its
threads once and then its own. If the first copy faults, it does not return. -/
theorem process_run_tabled {start : Table} (empty : start.processesList = 0) (first : start.nextFreePid = 0)
    {calls : List ProcessCall} {system : ProcessSystem}
    (run : Run AsideStep ⟨start, [], fun _ => []⟩ calls system) (few : calls.length < 2 ^ 64) :
    Listed system.table.nextProcess 0 system.table.processesList system.live ∧
      system.live.Nodup ∧
      (system.live.map fun process => (system.table.process process).pid).Nodup ∧
      (∀ pid, ∃ found, system.table.getProcessByPid pid = some found ∧
        ((found ∈ system.live ∧ (system.table.process found).pid = pid) ∨
          (found = 0 ∧ ∀ process ∈ system.live, (system.table.process process).pid ≠ pid))) ∧
      ∀ process ∈ system.live,
        system.table.ThreadsAt process (system.threads process) ∧ (system.threads process).Nodup ∧
        ∀ pointers,
          (system.CopyNames process pointers → ∃ after, system.table.deleteProcess pointers process = some after ∧
            after.freed = system.table.freed ++
              (system.threads process).flatMap system.table.threadBlocks ++ [⟨process, processSize⟩]) ∧
          (system.threads process ≠ [] → ∀ k < threadNameMaxLen,
            (pointers 0).writable ((pointers 0).byte k) = false →
              system.table.deleteProcess pointers process = none) := by
  have initial : ProcessSystem.Tabled ⟨start, [], fun _ => []⟩ := by
    refine ⟨?_, by simp, by simp, List.nodup_nil, by simp⟩
    show Listed _ 0 start.processesList []
    rw [empty]
    exact .nil
  obtain ⟨tabled, _⟩ := initial.of_run first run few
  refine ⟨tabled.listed, tabled.listed.nodup, tabled.pids, tabled.getProcessByPid, fun process live => ?_⟩
  have threads := tabled.threads process live
  refine ⟨threads, threads.nodup, fun pointers => ⟨fun copies => ?_, fun nonempty k small unwritable => ?_⟩⟩
  · obtain ⟨after, deleted, result⟩ := tabled.deleteProcess_eq live copies
    exact ⟨after, deleted, result.freed⟩
  · obtain ⟨thread, rest, cells⟩ := List.exists_cons_of_ne_nil nonempty
    exact Table.deleteProcess_of_unwritable tabled.listed live (cells ▸ threads) small unwritable

/-- The system after two processes have been created, the second one with a thread. -/
def twoProcesses : ProcessSystem :=
  let start : Table := { oneProcess with processesList := 0, nextFreePid := 0 }
  let first := (start.createProcess [] 0x1000).2
  let second := (first.createProcess [] 0x2000).2
  ⟨((second.createThread 0x2000 ⟨[], 100, 5, 0x3000, 0x4000⟩).getD (0, start)).2, [0x2000, 0x1000],
    Function.update (Function.update (Function.update (fun _ => []) 0x1000 []) 0x2000 []) 0x2000 [0x3000]⟩

theorem twoProcesses_run :
    Run AsideStep ⟨{ oneProcess with processesList := 0, nextFreePid := 0 }, [], fun _ => []⟩
      [.createProcess [] 0x1000, .createProcess [] 0x2000, .createThread 0x2000 ⟨[], 100, 5, 0x3000, 0x4000⟩]
      twoProcesses := by
  let start : Table := { oneProcess with processesList := 0, nextFreePid := 0 }
  let first := (start.createProcess [] 0x1000).2
  let second := (first.createProcess [] 0x2000).2
  let begun : ProcessSystem := ⟨start, [], fun _ => []⟩
  let one : ProcessSystem := ⟨first, [0x1000], Function.update begun.threads 0x1000 []⟩
  let two : ProcessSystem := ⟨second, [0x2000, 0x1000], Function.update one.threads 0x2000 []⟩
  have createFirst : ProcessStep begun (.createProcess [] 0x1000) one :=
    .createProcess (by decide) (by decide) rfl
  have createSecond : ProcessStep one (.createProcess [] 0x2000) two :=
    .createProcess (by decide) (by decide) rfl
  have fresh : ∀ other ∈ two.live, 0x3000 ∉ two.threads other :=
    List.forall_mem_cons.mpr ⟨by decide, List.forall_mem_singleton.mpr (by decide)⟩
  have createThread : ProcessStep two (.createThread 0x2000 ⟨[], 100, 5, 0x3000, 0x4000⟩) twoProcesses :=
    .createThread (by decide) (by decide) (by decide) fresh (eq_some_of_map_fst _ (by decide +kernel))
  exact ((Run.nil.snoc ⟨createFirst, fun _ _ impossible => (nomatch impossible)⟩).snoc
    ⟨createSecond, fun _ _ impossible => (nomatch impossible)⟩).snoc
    ⟨createThread, fun _ _ impossible => (nomatch impossible)⟩

/-- Two processes are created, the second one gets a thread and is deleted with it: the pid of
the first one still finds it. -/
theorem process_run_tabled_delete :
    ∃ system, Run AsideStep ⟨{ oneProcess with processesList := 0, nextFreePid := 0 }, [], fun _ => []⟩
        [.createProcess [] 0x1000, .createProcess [] 0x2000, .createThread 0x2000 ⟨[], 100, 5, 0x3000, 0x4000⟩,
          .deleteProcess 0x2000 fun _ => sparePointer] system ∧
      system.live = [0x1000] ∧ Listed system.table.nextProcess 0 system.table.processesList [0x1000] ∧
      ∃ found, system.table.getProcessByPid 0 = some found ∧
        ((found ∈ system.live ∧ (system.table.process found).pid = 0) ∨
          (found = 0 ∧ ∀ process ∈ system.live, (system.table.process process).pid ≠ 0)) := by
  let deleted := (twoProcesses.table.deleteProcess (fun _ => sparePointer) 0x2000).getD oneProcess
  have delete : ProcessStep twoProcesses (.deleteProcess 0x2000 fun _ => sparePointer)
      ⟨deleted, [0x1000], twoProcesses.threads⟩ :=
    .deleteProcess (by decide) (eq_some_getD_of_isSome _ (by decide +kernel))
  have aside : twoProcesses.CopyNames 0x2000 fun _ => sparePointer := by
    refine ⟨fun turn thread place => ?_, fun _ _ => .of_all (by decide +kernel) (by decide +kernel)⟩
    have name : ((twoProcesses.table).thread thread).name = [] := by
      have among : thread ∈ twoProcesses.threads 0x2000 := List.mem_of_getElem? place
      obtain rfl := List.mem_singleton.mp among
      decide +kernel
    rw [name]
    exact sparePointer_harmless
  have run := twoProcesses_run.snoc ⟨delete, fun process pointers same => by
    obtain ⟨rfl, rfl⟩ := ProcessCall.deleteProcess.inj same
    exact aside⟩
  have tabled := process_run_tabled rfl rfl run (by decide)
  exact ⟨_, run, rfl, tabled.1, tabled.2.2.2.1 0⟩

/-- A pointer into memory that is not mapped. -/
def wildPointer : NamePointer := { sparePointer with name := 0 }

/-- The copy of the name of the thread faults: `delete_process` does not return. -/
theorem deleteProcess_does_not_return :
    ∃ system, Run ProcessStep ⟨{ oneProcess with processesList := 0, nextFreePid := 0 }, [], fun _ => []⟩
        [.createProcess [] 0x1000, .createProcess [] 0x2000, .createThread 0x2000 ⟨[], 100, 5, 0x3000, 0x4000⟩]
        system ∧
      0x2000 ∈ system.live ∧ system.threads 0x2000 = [0x3000] ∧
      system.table.deleteProcess (fun _ => wildPointer) 0x2000 = none := by
  have run := twoProcesses_run.imp (fun _ => True) trivial (fun _ _ => trivial) fun _ taken => taken.step
  exact ⟨twoProcesses, run, by decide, by decide, Option.isNone_iff_eq_none.mp (by decide +kernel)⟩

end KeblaOS.Scheduling
