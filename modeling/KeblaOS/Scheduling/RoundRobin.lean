import Mathlib.Data.List.Rotate
import KeblaOS.Lib.Chain
import KeblaOS.Lib.Run
import KeblaOS.Scheduling.Thread

/-!
# Round robin

`schedule` saves the caller's registers in the record `current_thread` points to and goes
on to the next record of the list, from the last one back to the first. `Switched` says
what one call does to the records; the order of the turns, the `RUNNING` flag and the
saved contexts over whole runs follow from it.
-/

namespace KeblaOS.Scheduling

/-- The threads of the current process: a null-terminated list that contains
`current_thread`. -/
structure ThreadList (kernel : Kernel) (process : Process) (cells : List UInt64) : Prop where
  current : kernel.currentProcess = some process
  nonempty : process.threads ≠ 0
  linked : Linked (fun address => (kernel.thread address).next) (· = 0) process.threads cells
  member : process.currentThread ∈ cells

/-- One call of `schedule` that saves `registers` for `saved` and resumes `resumed`. -/
structure Switched (before : Kernel) (registers : Registers) (saved resumed : UInt64)
    (after : Kernel) : Prop where
  registers : ∀ address, (after.thread address).registers =
    if address = saved then registers else (before.thread address).registers
  status : ∀ address, (after.thread address).status =
    if address = resumed then .running
    else if address = saved then .ready else (before.thread address).status
  next : ∀ address, (after.thread address).next = (before.thread address).next

section Call

variable {kernel : Kernel} {process : Process} {cells : List UInt64}

theorem ThreadList.ne_zero (threads : ThreadList kernel process cells) {address : UInt64}
    (member : address ∈ cells) : address ≠ 0 := by
  obtain ⟨i, bounded, rfl⟩ := List.getElem_of_mem member
  cases i with
  | zero =>
      obtain ⟨_, rfl⟩ := threads.linked.eq_cons
      exact threads.nonempty
  | succ i =>
      obtain ⟨follows, continues⟩ := threads.linked.next_getElem bounded
      rwa [follows] at continues

/-- The thread `schedule` goes on to, seen as a position in the list. -/
theorem ThreadList.getElem?_next (threads : ThreadList kernel process cells) {i : Nat} {address : UInt64}
    (position : cells[i]? = some address) :
    cells[(i + 1) % cells.length]? = some (if (kernel.thread address).next = 0 then process.threads
      else (kernel.thread address).next) := by
  obtain ⟨bounded, rfl⟩ := List.getElem?_eq_some_iff.mp position
  by_cases inner : i + 1 < cells.length
  · obtain ⟨follows, continues⟩ := threads.linked.next_getElem inner
    rw [if_neg continues, follows, Nat.mod_eq_of_lt inner]
    exact List.getElem?_eq_getElem inner
  · have last : i + 1 = cells.length := by omega
    rw [if_pos (threads.linked.stop_getElem last), last, Nat.mod_self]
    obtain ⟨_, rfl⟩ := threads.linked.eq_cons
    rfl

/-- Every call returns a thread: the successor of the current one in cyclic order. -/
theorem schedule_cases (threads : ThreadList kernel process cells) (registers : Registers) {i : Nat}
    (position : cells[i]? = some process.currentThread) :
    ∃ resumed after, schedule kernel registers = (some resumed, after) ∧
      cells[(i + 1) % cells.length]? = some resumed ∧
      Switched kernel registers process.currentThread resumed after ∧
      ThreadList after { process with currentThread := resumed } cells := by
  have follows := threads.getElem?_next position
  have nonnull := threads.ne_zero threads.member
  unfold schedule
  rw [threads.current]
  dsimp only
  rw [if_neg nonnull]
  simp only [Kernel.setThread, Function.update_self]
  generalize (if (kernel.thread process.currentThread).next = 0 then process.threads
    else (kernel.thread process.currentThread).next) = resumed at follows ⊢
  have next : ∀ address, (Function.update (Function.update kernel.thread process.currentThread
      { kernel.thread process.currentThread with registers := registers, status := .ready }) resumed
        { Function.update kernel.thread process.currentThread
            { kernel.thread process.currentThread with registers := registers, status := .ready } resumed
          with status := .running } address).next = (kernel.thread address).next := by
    intro address
    simp only [Function.update_apply]
    split_ifs <;> simp_all
  refine ⟨resumed, _, rfl, follows, ⟨fun address => ?_, fun address => ?_, next⟩,
    rfl, threads.nonempty, ?_, List.mem_of_getElem? follows⟩
  · simp only [Function.update_apply]
    split_ifs <;> simp_all
  · simp only [Function.update_apply]
    split_ifs <;> simp_all
  · exact threads.linked.congr fun address _ => next address

end Call

/-! ## Runs of `schedule` -/

/-- A call: the registers handed in, the thread it resumes and the context it returns. -/
structure ScheduleCall where
  registers : Registers
  resumed : UInt64
  context : Registers

/-- One call of `schedule` on a kernel. -/
def ScheduleStep (kernel : Kernel) (call : ScheduleCall) (next : Kernel) : Prop :=
  schedule kernel call.registers = (some call.resumed, next) ∧
    call.context = (next.thread call.resumed).registers

/-- The thread that runs after some calls: the one resumed last. -/
def runningAfter (current : UInt64) (calls : List ScheduleCall) : UInt64 :=
  (calls.getLast?.map ScheduleCall.resumed).getD current

/-- The saves of a run: each call saves its registers for the thread that runs. -/
def saves (current : UInt64) : List ScheduleCall → List (UInt64 × Registers)
  | [] => []
  | call :: rest => (current, call.registers) :: saves call.resumed rest

/-- The registers saved last for a thread, or its original ones. -/
def lastSaved (original : UInt64 → Registers) (saved : List (UInt64 × Registers)) (thread : UInt64) :
    Registers :=
  (saved.reverse.lookup thread).getD (original thread)

theorem runningAfter_snoc (current : UInt64) (calls : List ScheduleCall) (call : ScheduleCall) :
    runningAfter current (calls ++ [call]) = call.resumed := by
  simp [runningAfter]

theorem runningAfter_cons (current : UInt64) (call : ScheduleCall) (rest : List ScheduleCall) :
    runningAfter current (call :: rest) = runningAfter call.resumed rest := by
  rcases List.eq_nil_or_concat rest with rfl | ⟨front, last, rfl⟩
  · rfl
  · rw [List.concat_eq_append, ← List.cons_append, runningAfter_snoc, runningAfter_snoc]

theorem saves_snoc (current : UInt64) (calls : List ScheduleCall) (call : ScheduleCall) :
    saves current (calls ++ [call]) =
      saves current calls ++ [(runningAfter current calls, call.registers)] := by
  induction calls generalizing current with
  | nil => rfl
  | cons first rest ih =>
      rw [List.cons_append, saves, ih, saves, List.cons_append, runningAfter_cons]

theorem lastSaved_snoc (original : UInt64 → Registers) (saved : List (UInt64 × Registers))
    (save : UInt64 × Registers) (thread : UInt64) :
    lastSaved original (saved ++ [save]) thread =
      if thread = save.1 then save.2 else lastSaved original saved thread := by
  rw [lastSaved, List.reverse_append, List.reverse_singleton, List.singleton_append, List.lookup_cons,
    lastSaved]
  by_cases same : thread = save.1
  · simp [same]
  · have unequal : (thread == save.1) = false := by simpa using same
    rw [unequal, if_neg same]

/-- No listed thread besides `running` is marked `RUNNING`. -/
def OnlyRunning (kernel : Kernel) (cells : List UInt64) (running : UInt64) : Prop :=
  ∀ thread ∈ cells, thread ≠ running → (kernel.thread thread).status ≠ .running

/-- The state a run of calls leads to. -/
structure RoundRobin (start : Kernel) (process : Process) (cells : List UInt64) (i : Nat)
    (calls : List ScheduleCall) (finish : Kernel) : Prop where
  threads : ThreadList finish ⟨process.threads, runningAfter process.currentThread calls⟩ cells
  position : cells[(i + calls.length) % cells.length]? = some (runningAfter process.currentThread calls)
  turns : ∀ k call, calls[k]? = some call → cells[(i + 1 + k) % cells.length]? = some call.resumed
  registers : ∀ thread, (finish.thread thread).registers =
    lastSaved (fun thread => (start.thread thread).registers) (saves process.currentThread calls) thread
  running : OnlyRunning start cells process.currentThread →
    OnlyRunning finish cells (runningAfter process.currentThread calls)

section Runs

variable {start finish : Kernel} {process : Process} {cells : List UInt64} {i : Nat}
  {calls : List ScheduleCall}

theorem RoundRobin.nil (threads : ThreadList start process cells)
    (position : cells[i]? = some process.currentThread) : RoundRobin start process cells i [] start where
  threads := threads
  position := by
    obtain ⟨bounded, _⟩ := List.getElem?_eq_some_iff.mp position
    rw [List.length_nil, Nat.add_zero, Nat.mod_eq_of_lt bounded]
    exact position
  turns k call impossible := by simp at impossible
  registers thread := rfl
  running only := only

/-- A further call takes the next turn and saves for the thread of the last one. -/
theorem RoundRobin.snoc {call : ScheduleCall} {next : Kernel}
    (robin : RoundRobin start process cells i calls finish) (step : ScheduleStep finish call next) :
    RoundRobin start process cells i (calls ++ [call]) next ∧
      (OnlyRunning start cells process.currentThread →
        ∀ thread ∈ cells, (next.thread thread).status = .running ↔ thread = call.resumed) := by
  obtain ⟨returned, _⟩ := step
  obtain ⟨resumed, after, returned', turn, switched, threads⟩ :=
    schedule_cases robin.threads call.registers robin.position
  obtain ⟨same, rfl⟩ := Prod.mk.inj (returned.symm.trans returned')
  obtain rfl := Option.some.inj same
  have index : ((i + calls.length) % cells.length + 1) % cells.length =
      (i + 1 + calls.length) % cells.length := by
    rw [Nat.mod_add_mod]
    congr 1
    omega
  have length : (calls ++ [call]).length = calls.length + 1 := by simp
  rw [index] at turn
  have status : OnlyRunning start cells process.currentThread →
      ∀ thread ∈ cells, (next.thread thread).status = .running ↔ thread = call.resumed := by
    intro only thread member
    rw [switched.status]
    by_cases resumed : thread = call.resumed
    · simp [resumed]
    · by_cases saved : thread = runningAfter process.currentThread calls
      · simp [saved]
      · simp [resumed, saved, robin.running only thread member saved]
  refine ⟨⟨?_, ?_, fun k other found => ?_, fun thread => ?_, fun only thread member different => ?_⟩, status⟩
  · rw [runningAfter_snoc]
    exact threads
  · rw [runningAfter_snoc, length, ← Nat.add_assoc, Nat.add_right_comm]
    exact turn
  · by_cases earlier : k < calls.length
    · rw [List.getElem?_append_left earlier] at found
      exact robin.turns k other found
    · obtain ⟨bounded, _⟩ := List.getElem?_eq_some_iff.mp found
      obtain rfl : k = calls.length := by omega
      rw [List.getElem?_concat_length] at found
      obtain rfl := Option.some.inj found
      exact turn
  · rw [switched.registers, saves_snoc, lastSaved_snoc, robin.registers]
  · rw [runningAfter_snoc] at different
    rw [Ne, status only thread member]
    exact different

theorem roundRobin_of_run (threads : ThreadList start process cells)
    (position : cells[i]? = some process.currentThread) (run : Run ScheduleStep start calls finish) :
    RoundRobin start process cells i calls finish := by
  induction run with
  | nil => exact .nil threads position
  | snoc _ step ih => exact (ih.snoc step).1

/-- Any `n` turns in a row go round the list once. -/
theorem RoundRobin.window_eq_rotate (robin : RoundRobin start process cells i calls finish)
    {front window back : List ScheduleCall} (split : calls = front ++ window ++ back)
    (length : window.length = cells.length) :
    window.map ScheduleCall.resumed = cells.rotate (i + 1 + front.length) := by
  refine List.ext_getElem (by simp [length]) fun k bounded _ => ?_
  have inWindow : k < window.length := by simpa using bounded
  have found : calls[front.length + k]? = some window[k] := by
    rw [split, List.append_assoc, List.getElem?_append_right (Nat.le_add_right _ _),
      Nat.add_sub_cancel_left, List.getElem?_append_left inWindow, List.getElem?_eq_getElem inWindow]
  have turn := robin.turns _ _ found
  obtain ⟨_, same⟩ := List.getElem?_eq_some_iff.mp turn
  rw [List.getElem_map, List.getElem_rotate, ← same]
  congr 2
  omega

end Runs

/-- Round robin over runs of any length: `n` consecutive calls resume the `n` threads once
each in cyclic list order, exactly the resumed thread is `RUNNING`, every context returned
is the one saved last, and a further call returns as well. -/
theorem schedule_roundRobin {start : Kernel} {process : Process} {cells : List UInt64} {i : Nat}
    (threads : ThreadList start process cells) (position : cells[i]? = some process.currentThread)
    {calls : List ScheduleCall} {finish : Kernel} (run : Run ScheduleStep start calls finish) :
    cells.Nodup ∧
      (∀ front window back, calls = front ++ window ++ back → window.length = cells.length →
        window.map ScheduleCall.resumed = cells.rotate (i + 1 + front.length)) ∧
      (OnlyRunning start cells process.currentThread → ∀ front call, calls = front ++ [call] →
        ∀ thread ∈ cells, (finish.thread thread).status = .running ↔ thread = call.resumed) ∧
      (∀ front call, calls = front ++ [call] →
        call.context = lastSaved (fun thread => (start.thread thread).registers)
          (saves process.currentThread calls) call.resumed) ∧
      ∀ registers, ∃ call next, call.registers = registers ∧ ScheduleStep finish call next := by
  have robin := roundRobin_of_run threads position run
  refine ⟨threads.linked.nodup, fun front window back split length => robin.window_eq_rotate split length,
    fun only front call last => ?_, fun front call last => ?_, fun registers => ?_⟩
  · cases run with
    | nil => simp at last
    | snoc prior step =>
        obtain ⟨_, same⟩ := List.append_inj' last rfl
        obtain rfl := List.singleton_inj.mp same
        exact ((roundRobin_of_run threads position prior).snoc step).2 only
  · cases run with
    | nil => simp at last
    | snoc prior step =>
        obtain ⟨_, same⟩ := List.append_inj' last rfl
        obtain rfl := List.singleton_inj.mp same
        rw [step.2, robin.registers]
  · obtain ⟨resumed, next, returned, _⟩ := schedule_cases robin.threads registers robin.position
    exact ⟨⟨registers, resumed, (next.thread resumed).registers⟩, next, rfl, returned, rfl⟩

/-- Two threads at the addresses 1 and 2, the first one running. -/
def twoThreads : Kernel where
  thread address :=
    { tid := address
      status := if address = 1 then .running else .ready
      name := []
      next := if address = 1 then 2 else 0
      cpuTime := 0
      registers := initialRegisters 0 address 0 }
  currentProcess := some ⟨1, 1⟩
  nextFreeTid := 3

theorem twoThreads_threadList : ThreadList twoThreads ⟨1, 1⟩ [1, 2] where
  current := rfl
  nonempty := by decide
  linked := .cons (by decide) (.last (by decide))
  member := by decide

/-- One call on the two threads resumes the second one with its initial registers. -/
theorem schedule_roundRobin_twoThreads :
    ∃ call finish, Run ScheduleStep twoThreads [call] finish ∧
      call.registers = initialRegisters 7 7 7 ∧ call.context = initialRegisters 0 2 0 ∧
      ∀ thread ∈ [1, 2], (finish.thread thread).status = .running ↔ thread = call.resumed := by
  have position : [(1 : UInt64), 2][0]? = some (⟨1, 1⟩ : Process).currentThread := rfl
  obtain ⟨_, _, _, _, returns⟩ :=
    schedule_roundRobin twoThreads_threadList position (Run.nil : Run ScheduleStep twoThreads [] twoThreads)
  obtain ⟨call, finish, same, step⟩ := returns (initialRegisters 7 7 7)
  have run : Run ScheduleStep twoThreads [call] finish := Run.snoc .nil step
  obtain ⟨_, window, running, context, _⟩ :=
    schedule_roundRobin twoThreads_threadList position run
  have only : OnlyRunning twoThreads [1, 2] 1 := by
    intro thread _ different
    simp [twoThreads, different]
  have resumed : call.resumed = 2 := by
    have robin := roundRobin_of_run twoThreads_threadList position run
    simpa using (robin.turns 0 call rfl).symm
  refine ⟨call, finish, run, same, ?_, running only [] call rfl⟩
  rw [context [] call rfl, resumed]
  rfl

end KeblaOS.Scheduling
