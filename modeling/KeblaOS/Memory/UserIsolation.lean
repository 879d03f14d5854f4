import KeblaOS.Memory.GetPageRun

/-!
# Which pages user mode can reach

A page is reachable from user mode when the user bit is set in all four entries of its
walk. `get_page` writes the bit of the address at every level it passes, `vm_alloc` writes
the opposite bit to the page entry. Pages of the upper half stay out of reach, because
their last directory entry does: only addresses in the same two megabytes share it. Pages
of the lower half are out of reach as well.
-/

namespace KeblaOS.Memory

/-- The lower half of the address space. -/
def LowerHalf (va : UInt64) : Prop := va < 0x0000800000000000

instance (va : UInt64) : Decidable (LowerHalf va) := inferInstanceAs (Decidable (_ < _))

/-- The user bit is set at all four levels of the walk of an address. -/
def Machine.UserReachable (machine : Machine) (root : TableBase) (va : UInt64) : Prop :=
  ∀ path ∈ (pagePath va).tails, path ≠ [] →
    (machine.entry root path).present = true ∧ (machine.entry root path).user = true

instance (machine : Machine) (root : TableBase) (va : UInt64) : Decidable (machine.UserReachable root va) :=
  inferInstanceAs (Decidable (∀ path ∈ (pagePath va).tails, path ≠ [] → _ ∧ _))

inductive VmCall where
  | vmAlloc (va : UInt64) (type : AllocationType)
  | vmFree (ptr : UInt64)
deriving DecidableEq

def VmCall.address : VmCall → UInt64
  | .vmAlloc va _ => va
  | .vmFree ptr => ptr

/-- The machine, and the addresses allocated and not freed since. -/
structure VmState where
  machine : Machine
  allocated : List UInt64

/-- A call of `vm_alloc` with a valid type or of `vm_free`; pages are freed as a whole. -/
def VmState.perform (state : VmState) : VmCall → Option VmState
  | .vmAlloc va type =>
      if type = .invalid then none
      else (vmAlloc state.machine va type).map fun machine => ⟨machine, va :: state.allocated⟩
  | .vmFree ptr =>
      (vmFree state.machine ptr).map fun machine => ⟨machine, state.allocated.filter (· >>> 12 ≠ ptr >>> 12)⟩

/-- A call with a canonical address, where `kmalloc_a` returns fresh tables. -/
structure VmStep (root : TableBase) (before : VmState) (call : VmCall) (after : VmState) : Prop where
  canonical : Canonical call.address
  supplied : ∀ va type, call = .vmAlloc va type → Supplied before.machine root va
  performed : before.perform call = some after

/-- The calls that keep user mode apart: `vm_alloc` for the upper half only, and no call for
the first page of the upper half, which the code takes for a page of the lower half. -/
def VmCall.KeepsApart : VmCall → Prop
  | .vmAlloc va _ => higherHalfStart ≤ va
  | .vmFree ptr => LowerHalf ptr ∨ higherHalfStart ≤ ptr

instance : (call : VmCall) → Decidable call.KeepsApart
  | .vmAlloc va _ => inferInstanceAs (Decidable (higherHalfStart ≤ va))
  | .vmFree _ => inferInstanceAs (Decidable (_ ∨ _))

/-- A call that keeps user mode apart and finds its tables. -/
def ApartStep (root : TableBase) (before : VmState) (call : VmCall) (after : VmState) : Prop :=
  call.KeepsApart ∧ before.machine.LowTables root call.address ∧ VmStep root before call after

/-! ## One page -/

section Page

variable {before after : Machine} {root : TableBase} {va other : UInt64} {result : Option UInt64}

/-- The last directory entry or the page entry keeps user mode out. -/
def Machine.Closed (machine : Machine) (root : TableBase) (va : UInt64) : Prop :=
  (machine.entry root (directoryPath va)).user = false ∨ (machine.entry root (pagePath va)).user = false

theorem Machine.Closed.not_userReachable (closed : before.Closed root va) : ¬ before.UserReachable root va := by
  intro reachable
  rcases closed with directory | page
  · have set := (reachable (directoryPath va) ((List.mem_tails _ _).mpr (List.suffix_cons _ _)) (by simp [directoryPath])).2
    rw [directory] at set
    exact absurd set (by decide)
  · have set := (reachable (pagePath va) ((List.mem_tails _ _).mpr List.suffix_rfl) (by simp [pagePath])).2
    rw [page] at set
    exact absurd set (by decide)

theorem directoryPath_ne_of_halves (lower : LowerHalf other) (upper : higherHalfStart ≤ va) :
    directoryPath va ≠ directoryPath other := by
  intro same
  have top : tableIndex va 39 = tableIndex other 39 := by
    simp only [directoryPath, List.cons.injEq] at same
    exact same.2.2.1
  rw [Fin.ext_iff, tableIndex_val (by decide), tableIndex_val (by decide)] at top
  unfold LowerHalf at lower
  rw [UInt64.lt_iff_toNat_lt] at lower
  rw [UInt64.le_iff_toNat_le] at upper
  have below := va.toNat_lt
  simp only [higherHalfStart, UInt64.reduceToNat] at lower upper top
  omega

/-- A call of `get_page` for an address that keeps apart leaves closed pages of the upper
half closed. -/
theorem Got.closed (got : Got before after root other result) (upper : higherHalfStart ≤ va)
    (apart : LowerHalf other ∨ higherHalfStart ≤ other) (closed : before.Closed root va) : after.Closed root va := by
  by_cases shared : directoryPath va = directoryPath other
  · have high : higherHalfStart ≤ other := by
      rcases apart with lower | high
      · exact absurd shared (directoryPath_ne_of_halves lower upper)
      · exact high
    have kernel : decide (other < higherHalfStart) = false := by
      rw [decide_eq_false_iff_not, UInt64.not_lt]
      exact high
    rcases closed with directory | page
    · left
      rw [shared] at directory ⊢
      rcases got.marked List.suffix_rfl with same | marked
      · rw [same, directory]
      · rw [marked, kernel]
    · right
      by_cases here : pagePath va = pagePath other
      · rw [here] at page ⊢
        rcases got.page with same | ⟨-, marked⟩
        · rw [same, page]
        · rw [marked, kernel]
      · rw [got.page_other here, page]
  · have page : pagePath va ≠ pagePath other := fun same => shared (List.cons.inj same).2
    unfold Machine.Closed
    rw [got.page_other page, got.others (Nat.le_succ_of_le (length_directoryPath va).le)
        (.inr (not_suffix_pagePath (pagePath_ne_directoryPath other va).symm shared (Nat.le_refl 3)))]
    exact closed

/-- A page entry without the user bit leaves pages closed. -/
theorem EntrySet.closed {entry : Entry} (set : EntrySet before after root (pagePath other) entry)
    (kernel : entry.user = false ∨ (before.entry root (directoryPath other)).user = false)
    (closed : before.Closed root va) : after.Closed root va := by
  have directory : after.entry root (directoryPath va) = before.entry root (directoryPath va) := by
    exact set.entry_other (Nat.le_succ_of_le (length_directoryPath va).le) (pagePath_ne_directoryPath other va).symm
  by_cases here : pagePath va = pagePath other
  · rcases kernel with bit | above
    · right
      rw [here, set.entry_self (length_pagePath other).le, bit]
    · left
      have shared : directoryPath va = directoryPath other := (List.cons.inj here).2
      rw [directory, shared, above]
  · unfold Machine.Closed
    rw [directory, set.entry_other (length_pagePath va).le here]
    exact closed

end Page

/-! ## Runs -/

/-- What the calls that keep apart preserve. -/
structure Apart (root : TableBase) (state : VmState) : Prop where
  cr3 : state.machine.cr3 = root.base
  tree : state.machine.IsTree root
  upper : ∀ va ∈ state.allocated, higherHalfStart ≤ va
  closed : ∀ va ∈ state.allocated, state.machine.Closed root va

/-- After the walk of `get_page` for an upper address its page is closed: the last directory
entry has lost its user bit, or there is no page table. -/
theorem Got.closed_self {before after : Machine} {root : TableBase} {va : UInt64} {result : Option UInt64}
    (got : Got before after root va result) (upper : higherHalfStart ≤ va) : after.Closed root va := by
  rcases got.walked with missing | marked
  · right
    rw [pagePath, Machine.entry, RadixLayout.entry_of_none missing]
    rfl
  · left
    rw [marked List.suffix_rfl (by simp [directoryPath]), decide_eq_false_iff_not, UInt64.not_lt]
    exact upper

theorem Apart.vmAlloc {root : TableBase} {before : VmState} {after : Machine} {va : UInt64} {type : AllocationType}
    (nonnull : root.base ≠ 0) (apart : Apart root before) (upper : higherHalfStart ≤ va)
    (low : before.machine.LowTables root va) (supplied : Supplied before.machine root va)
    (returned : Memory.vmAlloc before.machine va type = some after) :
    Apart root ⟨after, va :: before.allocated⟩ := by
  have uppers : ∀ other ∈ va :: before.allocated, higherHalfStart ≤ other := by
    intro other member
    rcases List.mem_cons.mp member with rfl | earlier
    · exact upper
    · exact apart.upper other earlier
  rcases vmAlloc_cases nonnull apart.cr3 apart.tree low supplied returned with
    ⟨-, got⟩ | ⟨between, slot, page, entry, got, -, set, -, -, -⟩
  · refine ⟨got.cr3.trans apart.cr3, got.tree, uppers, fun other member => ?_⟩
    rcases List.mem_cons.mp member with rfl | earlier
    · exact got.closed_self upper
    · exact got.closed (apart.upper other earlier) (.inr upper) (apart.closed other earlier)
  · have kernel : (between.entry root (directoryPath va)).user = false := by
      obtain ⟨⟨table, found, -⟩, -⟩ := got.found rfl
      rcases got.walked with missing | marked
      · exact absurd (missing.symm.trans found) (by simp)
      · rw [marked List.suffix_rfl (by simp [directoryPath]), decide_eq_false_iff_not, UInt64.not_lt]
        exact upper
    refine ⟨set.cr3.trans (got.cr3.trans apart.cr3), set.tree, uppers, fun other member => ?_⟩
    refine set.closed (.inr kernel) ?_
    rcases List.mem_cons.mp member with rfl | earlier
    · exact got.closed_self upper
    · exact got.closed (apart.upper other earlier) (.inr upper) (apart.closed other earlier)

theorem Apart.vmFree {root : TableBase} {before : VmState} {after : Machine} {ptr : UInt64} {allocated : List UInt64}
    (nonnull : root.base ≠ 0) (apart : Apart root before) (keeps : LowerHalf ptr ∨ higherHalfStart ≤ ptr)
    (low : before.machine.LowTables root ptr) (fewer : ∀ va ∈ allocated, va ∈ before.allocated)
    (returned : Memory.vmFree before.machine ptr = some after) :
    Apart root ⟨after, allocated⟩ := by
  have uppers : ∀ va ∈ allocated, higherHalfStart ≤ va := fun va member => apart.upper va (fewer va member)
  rcases vmFree_cases nonnull apart.cr3 apart.tree low returned with
    ⟨-, rfl⟩ | got | ⟨between, slot, page, entry, got, -, set, -, kernel⟩
  · exact ⟨apart.cr3, apart.tree, uppers, fun va member => apart.closed va (fewer va member)⟩
  · exact ⟨got.cr3.trans apart.cr3, got.tree, uppers, fun va member =>
      got.closed (uppers va member) keeps (apart.closed va (fewer va member))⟩
  · exact ⟨set.cr3.trans (got.cr3.trans apart.cr3), set.tree, uppers, fun va member =>
      set.closed (.inl kernel) (got.closed (uppers va member) keeps (apart.closed va (fewer va member)))⟩

theorem Apart.step {root : TableBase} {before after : VmState} {call : VmCall} (nonnull : root.base ≠ 0)
    (apart : Apart root before) (step : ApartStep root before call after) : Apart root after := by
  obtain ⟨keeps, low, step⟩ := step
  have performed := step.performed
  cases call with
  | vmAlloc va type =>
      unfold VmState.perform at performed
      dsimp only at performed
      split_ifs at performed with valid
      obtain ⟨machine, returned, rfl⟩ := Option.map_eq_some_iff.mp performed
      exact apart.vmAlloc nonnull keeps low (step.supplied va type rfl) returned
  | vmFree ptr =>
      obtain ⟨machine, returned, rfl⟩ := Option.map_eq_some_iff.mp performed
      exact apart.vmFree nonnull keeps low (fun va member => List.mem_of_mem_filter member) returned

/-- Every run of calls that keep apart leaves each allocated page reachable from user mode
exactly if it lies in the lower half. -/
theorem apart_run_isolated {root : TableBase} {machine : Machine} {calls : List VmCall} {finish : VmState}
    (nonnull : root.base ≠ 0) (cr3 : machine.cr3 = root.base) (tree : machine.IsTree root)
    (run : Run (ApartStep root) ⟨machine, []⟩ calls finish) :
    ∀ va ∈ finish.allocated, finish.machine.UserReachable root va ↔ LowerHalf va := by
  have apart := run.invariant (Apart root) ⟨cr3, tree, fun _ member => by simp at member, fun _ member => by simp at member⟩
    fun apart step => apart.step nonnull step
  intro va member
  have upper := apart.upper va member
  refine iff_of_false (apart.closed va member).not_userReachable fun lower => ?_
  exact directoryPath_ne_of_halves lower upper rfl

/-- Tables for the first pages of the upper half. -/
def upperMachine : Machine :=
  { pagedMachine with
      slots := fun slot =>
        if slot = 0x1800 then ⟨true, true, true, 2, false⟩
        else if slot = 0x1000 then zeroEntry
        else pagedMachine.slots slot }

/-- The top table has its present entry in the upper half. -/
theorem upperMachine_present {slot : UInt64} (present : (upperMachine.slots slot).present = true) :
    slot = 0x1800 ∨ slot = 0x2000 ∨ slot = 0x3000 := by
  by_cases upper : slot = 0x1800
  · exact .inl upper
  by_cases lower : slot = 0x1000
  · simp [upperMachine, lower, zeroEntry] at present
  simp only [upperMachine, if_neg upper, if_neg lower] at present
  exact .inr ((pagedMachine_present present).resolve_left lower)

theorem upperMachine_isChain : upperMachine.IsChain fun level => if level = 0 then 256 else 0 := by
  refine Machine.isChain_of_present fun slot _ present => ?_
  rcases upperMachine_present present with rfl | rfl | rfl
  · exact ⟨0, by decide, by decide, by decide⟩
  · exact ⟨1, by decide, by decide, by decide⟩
  · exact ⟨2, by decide, by decide, by decide⟩

/-- A page is allocated in the upper half, and another one freed. -/
theorem apart_run_isolated_upper :
    ∃ finish, Run (ApartStep pagedRoot) ⟨upperMachine, []⟩
        [.vmAlloc 0xFFFF800000001000 .data, .vmFree 0xFFFF800000002000] finish ∧
      finish.allocated = [0xFFFF800000001000] ∧
      ∀ va ∈ finish.allocated, finish.machine.UserReachable pagedRoot va ↔ LowerHalf va := by
  let start : VmState := ⟨upperMachine, []⟩
  let first := (start.perform (.vmAlloc 0xFFFF800000001000 .data)).getD start
  let second := (first.perform (.vmFree 0xFFFF800000002000)).getD first
  have firstStep : ApartStep pagedRoot start (.vmAlloc 0xFFFF800000001000 .data) first := by
    refine ⟨by decide, by decide +kernel, by decide, fun va type same => ?_, eq_some_getD_of_isSome _ (by decide +kernel)⟩
    obtain ⟨rfl, rfl⟩ := VmCall.vmAlloc.inj same
    exact .of_present (by decide +kernel) (by decide +kernel) (by decide +kernel)
  have secondStep : ApartStep pagedRoot first (.vmFree 0xFFFF800000002000) second :=
    ⟨by decide, by decide +kernel, by decide, fun _ _ same => absurd same (by simp), eq_some_getD_of_isSome _ (by decide +kernel)⟩
  have run : Run (ApartStep pagedRoot) start
      [.vmAlloc 0xFFFF800000001000 .data, .vmFree 0xFFFF800000002000] second :=
    Run.snoc (Run.snoc .nil firstStep) secondStep
  exact ⟨second, run, by decide +kernel,
    apart_run_isolated (by decide) (by decide) upperMachine_isChain.isTree run⟩

/-- A page allocated in the lower half is out of reach of user mode. -/
theorem vmAlloc_lower_unreachable :
    pagedMachine.IsTree pagedRoot ∧ pagedMachine.cr3 = pagedRoot.base ∧
      ∃ finish, Run (VmStep pagedRoot) ⟨pagedMachine, []⟩ [.vmAlloc 0x1000 .data] finish ∧
        ∃ va ∈ finish.allocated, ¬ (finish.machine.UserReachable pagedRoot va ↔ LowerHalf va) := by
  let start : VmState := ⟨pagedMachine, []⟩
  let finish := (start.perform (.vmAlloc 0x1000 .data)).getD start
  have step : VmStep pagedRoot start (.vmAlloc 0x1000 .data) finish := by
    refine ⟨by decide, fun va type same => ?_, eq_some_getD_of_isSome _ (by decide +kernel)⟩
    obtain ⟨rfl, rfl⟩ := VmCall.vmAlloc.inj same
    exact .of_present (by decide +kernel) (by decide +kernel) (by decide +kernel)
  exact ⟨pagedMachine_isChain.isTree, by decide, finish, Run.snoc .nil step, 0x1000, by decide +kernel, by decide +kernel⟩

end KeblaOS.Memory
