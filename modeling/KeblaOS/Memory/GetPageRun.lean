import KeblaOS.Memory.PageTree

/-!
# Runs of get_page

For canonical addresses the four indices determine the page. So, as long as the tables
stay a tree, pages and the entries that `get_page` returns for them correspond one to one,
over any sequence of calls. Tables from 1 TiB on are the exception: `get_page` looks for them
at the lower 40 bits of their addresses.
-/

namespace KeblaOS.Memory

/-! ## Indices -/

/-- 48-bit canonical addresses. -/
def Canonical (va : UInt64) : Prop := va < 0x0000800000000000 ∨ 0xFFFF800000000000 ≤ va

instance (va : UInt64) : Decidable (Canonical va) := inferInstanceAs (Decidable (_ ∨ _))

theorem tableIndex_val {va shift : UInt64} (small : shift.toNat < 64) :
    (tableIndex va shift).val = va.toNat / 2 ^ shift.toNat % 512 := by
  show ((va >>> shift) &&& 0x1FF).toNat = _
  rw [UInt64.toNat_and, UInt64.toNat_shiftRight, Nat.mod_eq_of_lt small, Nat.shiftRight_eq_div_pow]
  exact Nat.and_two_pow_sub_one_eq_mod _ 9

theorem toNat_shiftRight_page (va : UInt64) : (va >>> 12).toNat = va.toNat / 4096 := by
  rw [UInt64.toNat_shiftRight]
  exact Nat.shiftRight_eq_div_pow _ 12

/-- The indices of an address are the lower 36 bits of its page number. -/
theorem pagePath_eq_iff (va va' : UInt64) :
    pagePath va = pagePath va' ↔ va.toNat / 4096 % 68719476736 = va'.toNat / 4096 % 68719476736 := by
  have index : ∀ shift : UInt64, shift.toNat < 64 → (tableIndex va shift = tableIndex va' shift ↔
      va.toNat / 2 ^ shift.toNat % 512 = va'.toNat / 2 ^ shift.toNat % 512) := fun shift small => by
    rw [Fin.ext_iff, tableIndex_val small, tableIndex_val small]
  simp only [pagePath, directoryPath, List.cons.injEq, and_true]
  rw [index 12 (by decide), index 21 (by decide), index 30 (by decide), index 39 (by decide)]
  show va.toNat / 4096 % 512 = va'.toNat / 4096 % 512 ∧ va.toNat / 2097152 % 512 = va'.toNat / 2097152 % 512 ∧
    va.toNat / 1073741824 % 512 = va'.toNat / 1073741824 % 512 ∧
    va.toNat / 549755813888 % 512 = va'.toNat / 549755813888 % 512 ↔ _
  omega

/-- Canonical addresses with the same indices lie in the same page. -/
theorem pagePath_eq_iff_of_canonical {va va' : UInt64} (canonical : Canonical va) (canonical' : Canonical va') :
    pagePath va = pagePath va' ↔ va >>> 12 = va' >>> 12 := by
  have below := va.toNat_lt
  have below' := va'.toNat_lt
  unfold Canonical at canonical canonical'
  rw [UInt64.lt_iff_toNat_lt, UInt64.le_iff_toNat_le] at canonical canonical'
  simp only [UInt64.reduceToNat] at canonical canonical'
  rw [pagePath_eq_iff, ← UInt64.toNat_inj, toNat_shiftRight_page, toNat_shiftRight_page]
  omega

/-! ## What is kept -/

theorem Entry.table_congr {before after : Entry} (present : before.present = true)
    (kept : after.present = true ∧ after.frame = before.frame) : after.table = before.table := by
  unfold Entry.table
  simp only [present, kept.1, kept.2]

/-- Present entries keep their frames. -/
def Machine.Keeps (before after : Machine) (root : TableBase) : Prop :=
  ∀ path, path.length ≤ 4 → (before.entry root path).present = true →
    (after.entry root path).present = true ∧ (after.entry root path).frame = (before.entry root path).frame

theorem Machine.Keeps.refl (machine : Machine) (root : TableBase) : machine.Keeps machine root :=
  fun _ _ present => ⟨present, rfl⟩

theorem Machine.Keeps.trans {before between after : Machine} {root : TableBase} (first : before.Keeps between root)
    (second : between.Keeps after root) : before.Keeps after root := by
  intro path short present
  obtain ⟨present', frame⟩ := first path short present
  obtain ⟨present'', frame'⟩ := second path short present'
  exact ⟨present'', frame'.trans frame⟩

/-- Tables stay where they are. -/
theorem Machine.Keeps.table {before after : Machine} {root table : TableBase} {path : List (Fin 512)}
    (keeps : before.Keeps after root) (short : path.length ≤ 3) (found : before.table root path = some table) :
    after.table root path = some table := by
  cases path with
  | nil => exact found
  | cons index path =>
      rw [Machine.table_cons] at found ⊢
      have present := Entry.present_of_table found
      rw [Entry.table_congr present (keeps _ (Nat.le_succ_of_le short) present)]
      exact found

/-! ## Runs -/

/-- A call of `get_page` with `make` that returns an entry, where `kmalloc_a` returns fresh
tables. The event is the address with the slot returned. -/
structure GetPageCall (root : TableBase) (before : Machine) (event : UInt64 × UInt64) (after : Machine) : Prop where
  canonical : Canonical event.1
  fresh : TablesMade (fun machine => (kmallocA machine.pmm 4096 1).1 ≠ 0 → FreshTable machine root) before root event.1
  returned : getPage before event.1 true root.base = some (some event.2, after)

/-- Such a call where all tables on the way, old and new, lie below 1 TiB. -/
structure GetPageStep (root : TableBase) (before : Machine) (event : UInt64 × UInt64) (after : Machine) : Prop where
  canonical : Canonical event.1
  low : before.LowTables root event.1
  supplied : Supplied before root event.1
  returned : getPage before event.1 true root.base = some (some event.2, after)

/-- `kmalloc_a` returns a table whenever `get_page` asks for one, and `alloc_frame` leaves a
non-zero frame. -/
structure Served (machine : Machine) (root : TableBase) (va : UInt64) : Prop where
  tables : TablesMade (fun machine => (kmallocA machine.pmm 4096 1).1 ≠ 0) machine root va
  frame : ∀ pt after, directories machine va true root.base = (some pt, after) →
    (after.slots (tableSlot pt va 12)).present = false →
      ∃ page pmm, allocFrame after.pmm (after.slots (tableSlot pt va 12)) (va < higherHalfStart) true =
        some (page, pmm) ∧ page.frame ≠ 0

/-- A level with a table, or memory for one, goes on. -/
theorem descend_some {machine : Machine} {base va shift : UInt64} {user : Bool}
    (made : (machine.slots (tableSlot base va shift)).present = false → (kmallocA machine.pmm 4096 1).1 ≠ 0) :
    ∃ next after, descend (some base, machine) va shift true user = (some next, after) := by
  show ∃ next after, nextTable machine (tableSlot base va shift) true user = (some next, after)
  unfold nextTable
  dsimp only
  by_cases present : (machine.slots (tableSlot base va shift)).present = true
  · rw [if_pos present]
    exact ⟨_, _, rfl⟩
  · have nonnull := made (by simpa using present)
    rw [if_neg present, if_pos rfl, if_neg nonnull]
    exact ⟨_, _, rfl⟩

/-- The directory levels go on to a page table when memory is left for the tables wanted. -/
theorem directories_some {machine : Machine} {root : TableBase} {va : UInt64}
    (made : TablesMade (fun machine => (kmallocA machine.pmm 4096 1).1 ≠ 0) machine root va) :
    ∃ pt after, directories machine va true root.base = (some pt, after) := by
  obtain ⟨pdpt, first, taken⟩ := @descend_some machine root.base va 39 (va < higherHalfStart) made.pdpt
  obtain ⟨pd, second, taken'⟩ := @descend_some first pdpt va 30 (va < higherHalfStart) (made.pd pdpt first taken)
  rw [← taken] at taken'
  obtain ⟨pt, third, taken''⟩ := @descend_some second pd va 21 (va < higherHalfStart) (made.pt pd second taken')
  rw [← taken'] at taken''
  exact ⟨pt, third, taken''⟩

/-- `get_page` returns an entry when it gets the memory it asks for. -/
theorem getPage_returns {machine : Machine} {root : TableBase} {va : UInt64} (nonnull : root.base ≠ 0)
    (served : Served machine root va) :
    ∃ slot after, getPage machine va true root.base = some (some slot, after) := by
  obtain ⟨pt, third, walked⟩ := directories_some served.tables
  rw [getPage_eq_directories, if_neg nonnull, walked]
  show ∃ slot after, leafPage third (tableSlot pt va 12) _ = some (some slot, after)
  unfold leafPage
  dsimp only
  by_cases present : (third.slots (tableSlot pt va 12)).present = true
  · rw [if_pos present]
    exact ⟨_, _, rfl⟩
  · obtain ⟨page, pmm, allocated, frame⟩ := served.frame pt third walked (by simpa using present)
    rw [if_neg present, allocated, Option.map_some]
    dsimp only
    rw [if_neg frame]
    exact ⟨_, _, rfl⟩

/-- What holds after a sequence of calls: the tables are a tree, nothing present has moved,
and each entry returned is the one at the path of its address. -/
structure Traced (root : TableBase) (start : Machine) (trace : List (UInt64 × UInt64)) (machine : Machine) : Prop where
  tree : machine.IsTree root
  keeps : start.Keeps machine root
  placed : ∀ event ∈ trace, Canonical event.1 ∧
    ∃ table, machine.table root (directoryPath event.1) = some table ∧ event.2 = table.slot (tableIndex event.1 12)

theorem Traced.step {root : TableBase} {start before after : Machine} {trace : List (UInt64 × UInt64)}
    {event : UInt64 × UInt64} (nonnull : root.base ≠ 0) (traced : Traced root start trace before)
    (step : GetPageStep root before event after) :
    Traced root start (trace ++ [event]) after := by
  have got := getPage_got nonnull traced.tree step.low (fun _ => step.supplied) step.returned
  refine ⟨got.tree, traced.keeps.trans fun _ => got.kept, fun other member => ?_⟩
  rcases List.mem_append.mp member with earlier | last
  · obtain ⟨canonical, table, found, slot⟩ := traced.placed other earlier
    exact ⟨canonical, table, Machine.Keeps.table (fun _ => got.kept) (Nat.le_refl 3) found, slot⟩
  · obtain rfl := List.mem_singleton.mp last
    exact ⟨step.canonical, (got.found rfl).1⟩

theorem traced_run {root : TableBase} {start finish : Machine} {trace : List (UInt64 × UInt64)}
    (nonnull : root.base ≠ 0) (tree : start.IsTree root) (run : Run (GetPageStep root) start trace finish) :
    Traced root start trace finish := by
  induction run with
  | nil => exact ⟨tree, .refl start root, fun _ member => by simp at member⟩
  | snoc _ taken ih => exact ih.step nonnull taken

/-- Entries returned are the same exactly for addresses in the same page. -/
theorem Traced.slot_eq_iff {root : TableBase} {start machine : Machine} {trace : List (UInt64 × UInt64)}
    (traced : Traced root start trace machine) {event other : UInt64 × UInt64} (member : event ∈ trace)
    (member' : other ∈ trace) : event.2 = other.2 ↔ event.1 >>> 12 = other.1 >>> 12 := by
  obtain ⟨canonical, table, found, slot⟩ := traced.placed event member
  obtain ⟨canonical', table', found', slot'⟩ := traced.placed other member'
  rw [← pagePath_eq_iff_of_canonical canonical canonical', slot, slot']
  constructor
  · intro same
    exact RadixLayout.IsTree.path_of_slot traced.tree (Nat.le_refl 3) (Nat.le_refl 3) found' found same
  · intro same
    obtain ⟨index, directories⟩ := List.cons.inj same
    have directories : directoryPath event.1 = directoryPath other.1 := directories
    rw [directories] at found
    rw [Option.some.inj (found.symm.trans found'), index]

/-- From a tree of tables, every sequence of `get_page` calls with canonical addresses over tables
below 1 TiB keeps the tree, returns the same entry for the same page and different entries for different
pages, and leaves present entries their frames; and every further call returns an entry. -/
theorem getPage_run_tree {root : TableBase} {start finish : Machine} {trace : List (UInt64 × UInt64)}
    (nonnull : root.base ≠ 0) (tree : start.IsTree root) (run : Run (GetPageStep root) start trace finish) :
    finish.IsTree root ∧
    (∀ event ∈ trace, ∀ other ∈ trace, event.2 = other.2 ↔ event.1 >>> 12 = other.1 >>> 12) ∧
    (∀ {path table index}, path.length ≤ 3 → start.table root path = some table →
      finish.table root path = some table ∧
      ((start.slots (table.slot index)).present = true →
        (finish.slots (table.slot index)).present = true ∧
          (finish.slots (table.slot index)).frame = (start.slots (table.slot index)).frame)) ∧
    ∀ va, Canonical va → finish.LowTables root va → Supplied finish root va → Served finish root va →
      ∃ slot after, GetPageStep root finish (va, slot) after := by
  have traced := traced_run nonnull tree run
  refine ⟨traced.tree, fun event member other member' => traced.slot_eq_iff member member',
    fun {path table index} short found => ?_, fun va canonical low supplied served => ?_⟩
  · have found' := traced.keeps.table short found
    have kept := traced.keeps (index :: path) (Nat.succ_le_succ short)
    have old : start.entry root (index :: path) = start.slots (table.slot index) := RadixLayout.entry_of_table found
    have new : finish.entry root (index :: path) = finish.slots (table.slot index) := RadixLayout.entry_of_table found'
    rw [old, new] at kept
    exact ⟨found', kept⟩
  · obtain ⟨slot, after, returned⟩ := getPage_returns nonnull served
    exact ⟨slot, after, canonical, low, supplied, returned⟩

/-! ## A small tree -/

/-- The entry a level is about to look at is present. -/
def NextPresent (state : Option UInt64 × Machine) (va shift : UInt64) : Prop :=
  state.1.any (fun base => (state.2.slots (tableSlot base va shift)).present) = true

instance (state : Option UInt64 × Machine) (va shift : UInt64) : Decidable (NextPresent state va shift) :=
  inferInstanceAs (Decidable (_ = _))

/-- Where all tables are there, none is made. -/
theorem TablesMade.of_present {wanted : Machine → Prop} {machine : Machine} {root : TableBase} {va : UInt64}
    (pdpt : NextPresent (some root.base, machine) va 39)
    (pd : NextPresent (descend (some root.base, machine) va 39 true (va < higherHalfStart)) va 30)
    (pt : NextPresent (descend (descend (some root.base, machine) va 39 true (va < higherHalfStart)) va 30 true
      (va < higherHalfStart)) va 21) : TablesMade wanted machine root va := by
  have present : ∀ {state : Option UInt64 × Machine} {shift base after}, NextPresent state va shift →
      state = (some base, after) → (after.slots (tableSlot base va shift)).present = false → wanted after := by
    rintro state shift base after next rfl absent
    have there : (after.slots (tableSlot base va shift)).present = true := next
    rw [absent] at there
    exact absurd there (by decide)
  exact ⟨present pdpt rfl, fun _ _ => present pd, fun _ _ => present pt⟩

/-- The path through one entry of each table. -/
def chainPath (indices : Nat → Fin 512) : Nat → List (Fin 512)
  | 0 => []
  | level + 1 => indices level :: chainPath indices level

/-- Tables at `0x1000`, `0x2000` and so on with one present entry each, for the next table. -/
def Machine.IsChain (machine : Machine) (indices : Nat → Fin 512) : Prop :=
  ∀ level < 3, ∀ i < 512,
    (machine.slots (UInt64.ofNat (4096 * (level + 1)) + 8 * UInt64.ofNat i)).present = true →
      i = (indices level).val ∧
        ((machine.slots (UInt64.ofNat (4096 * (level + 1)) + 8 * UInt64.ofNat i)).frame <<< 12).toNat =
          4096 * (level + 2)

/-- The top table of the small machines. -/
def pagedRoot : TableBase := ⟨0x1000, by decide⟩

theorem Machine.IsChain.table {machine : Machine} {indices : Nat → Fin 512} {path : List (Fin 512)} {table : TableBase}
    (chain : machine.IsChain indices) (short : path.length ≤ 3) (found : machine.table pagedRoot path = some table) :
    path = chainPath indices path.length ∧ table.base.toNat = 4096 * (path.length + 1) := by
  induction path generalizing table with
  | nil =>
      obtain rfl := Option.some.inj found
      exact ⟨rfl, rfl⟩
  | cons index path ih =>
      rw [List.length_cons] at short
      obtain ⟨above, reached, names⟩ := RadixLayout.table_of_cons found
      have named : (machine.slots (above.slot index)).table = some table := names
      obtain ⟨zeros, base⟩ := ih (by omega) reached
      have place : above.base = UInt64.ofNat (4096 * (path.length + 1)) := by
        rw [← base, UInt64.ofNat_toNat]
      have present := Entry.present_of_table named
      rw [Entry.table, if_pos present] at named
      have value : (machine.slots (above.slot index)).frame <<< 12 = table.base := by
        rw [← Option.some.inj named]
      rw [TableBase.slot, place] at present value
      obtain ⟨here, next⟩ := chain path.length (by omega) index index.isLt present
      rw [value] at next
      refine ⟨?_, by rw [List.length_cons]; omega⟩
      rw [List.length_cons, chainPath, ← zeros]
      exact congrArg (· :: path) (Fin.ext here)

theorem Machine.IsChain.isTree {machine : Machine} {indices : Nat → Fin 512} (chain : machine.IsChain indices) :
    machine.IsTree pagedRoot := by
  intro path path' table short short' found found'
  obtain ⟨chained, base⟩ := chain.table short found
  obtain ⟨chained', base'⟩ := chain.table short' found'
  have length : path.length = path'.length := by omega
  rw [chained, chained', length]

/-- The tables are a chain when every present entry below `0x4000` is one of the path. -/
theorem Machine.isChain_of_present {machine : Machine} {indices : Nat → Fin 512}
    (only : ∀ slot : UInt64, slot.toNat < 0x4000 → (machine.slots slot).present = true →
      ∃ level < 3, slot.toNat = 4096 * (level + 1) + 8 * (indices level).val ∧
        ((machine.slots slot).frame <<< 12).toNat = 4096 * (level + 2)) : machine.IsChain indices := by
  intro level shallow i small present
  have base : (UInt64.ofNat (4096 * (level + 1))).toNat = 4096 * (level + 1) := by
    rw [UInt64.toNat_ofNat']
    omega
  have place := @toNat_tableEntry (UInt64.ofNat (4096 * (level + 1))) (by omega) i small
  rw [base] at place
  obtain ⟨level', -, here, next⟩ := only _ (by omega) present
  have index := (indices level').isLt
  obtain rfl : level = level' := by omega
  exact ⟨by omega, next⟩

theorem pagedMachine_isChain : pagedMachine.IsChain fun _ => 0 := by
  refine Machine.isChain_of_present fun slot _ present => ?_
  rcases pagedMachine_present present with rfl | rfl | rfl
  · exact ⟨0, by decide, by decide, by decide⟩
  · exact ⟨1, by decide, by decide, by decide⟩
  · exact ⟨2, by decide, by decide, by decide⟩

/-- `kmalloc_a` supplies the page table that the second two megabytes lack. -/
theorem pagedMachine_supplied : Supplied pagedMachine pagedRoot 0x200ABC := by
  have first : descend (some pagedRoot.base, pagedMachine) 0x200ABC 39 true (decide ((0x200ABC : UInt64) < higherHalfStart)) =
      (some 0x2000, pagedMachine) :=
    @nextTable_of_user pagedMachine (tableSlot 0x1000 0x200ABC 39) true true 0x2000 (by decide) (by decide)
  have second : descend (some 0x2000, pagedMachine) 0x200ABC 30 true (decide ((0x200ABC : UInt64) < higherHalfStart)) =
      (some 0x3000, pagedMachine) :=
    @nextTable_of_user pagedMachine (tableSlot 0x2000 0x200ABC 30) true true 0x3000 (by decide) (by decide)
  refine ⟨fun absent => absurd absent (by decide), fun pdpt after taken absent => ?_, fun pd after taken _ _ => ?_⟩
  · rw [first] at taken
    obtain ⟨place, rfl⟩ := Prod.mk.inj taken
    obtain rfl := Option.some.inj place
    exact absurd absent (by decide)
  · rw [first, second] at taken
    obtain ⟨-, rfl⟩ := Prod.mk.inj taken
    have table : (kmallocA pagedMachine.pmm 4096 1).1 = 0x108000 := by decide
    refine ⟨⟨by decide, fun {path table'} short found same => ?_⟩, by decide⟩
    have base := (pagedMachine_isChain.table short found).2
    rw [same, table] at base
    simp only [UInt64.reduceToNat] at base
    omega

/-- A page for which a page table is made, one in the table that was there, and one in the new table. -/
theorem getPage_run_tree_paged :
    ∃ finish, Run (GetPageStep pagedRoot) pagedMachine [(0x200ABC, 0x108000), (0x1000, 0x4008), (0x201000, 0x108008)] finish ∧
      finish.IsTree pagedRoot ∧
      ∀ event ∈ [((0x200ABC : UInt64), (0x108000 : UInt64)), (0x1000, 0x4008), (0x201000, 0x108008)],
        ∀ other ∈ [((0x200ABC : UInt64), (0x108000 : UInt64)), (0x1000, 0x4008), (0x201000, 0x108008)],
          event.2 = other.2 ↔ event.1 >>> 12 = other.1 >>> 12 := by
  let other : Option UInt64 × Machine := (none, pagedMachine)
  let first := ((getPage pagedMachine 0x200ABC true pagedRoot.base).getD other).2
  let second := ((getPage first 0x1000 true pagedRoot.base).getD other).2
  let third := ((getPage second 0x201000 true pagedRoot.base).getD other).2
  have firstStep : GetPageStep pagedRoot pagedMachine (0x200ABC, 0x108000) first :=
    ⟨by decide, by decide +kernel, pagedMachine_supplied, eq_some_of_map_fst other (by decide +kernel)⟩
  have secondStep : GetPageStep pagedRoot first (0x1000, 0x4008) second :=
    ⟨by decide, by decide +kernel, .of_present (by decide +kernel) (by decide +kernel) (by decide +kernel),
      eq_some_of_map_fst other (by decide +kernel)⟩
  have thirdStep : GetPageStep pagedRoot second (0x201000, 0x108008) third :=
    ⟨by decide, by decide +kernel, .of_present (by decide +kernel) (by decide +kernel) (by decide +kernel),
      eq_some_of_map_fst other (by decide +kernel)⟩
  have run : Run (GetPageStep pagedRoot) pagedMachine [(0x200ABC, 0x108000), (0x1000, 0x4008), (0x201000, 0x108008)] third :=
    Run.snoc (Run.snoc (Run.snoc .nil firstStep) secondStep) thirdStep
  obtain ⟨tree, entries, -⟩ := getPage_run_tree (by decide) pagedMachine_isChain.isTree run
  exact ⟨third, run, tree, entries⟩

/-- Besides the tables of `pagedMachine`, a blank table at `0x10000002000` for the addresses from
`0x8000000000` on. -/
def highMachine : Machine :=
  { pagedMachine with
      slots := fun slot => if slot = 0x1008 then ⟨true, true, true, 0x10000002, false⟩ else pagedMachine.slots slot }

theorem highMachine_isTree : highMachine.IsTree pagedRoot := by
  let next : TableBase := ⟨0x10000002000, by decide⟩
  have blank : ∀ index, highMachine.slots (next.slot index) = zeroEntry := by
    intro index
    have place := next.toNat_slot index
    have high : next.base.toNat = 0x10000002000 := by decide
    have other : ∀ slot : UInt64, slot.toNat < 0x4000 → next.slot index ≠ slot := by
      rintro slot low rfl
      omega
    simp only [highMachine, pagedMachine, if_neg (other 0x1008 (by decide)), if_neg (other 0x1000 (by decide)),
      if_neg (other 0x2000 (by decide)), if_neg (other 0x3000 (by decide))]
  have grafted : RadixLayout.Grafted pageLayout pagedMachine.slots highMachine.slots pagedRoot pagedRoot [] 1 next := by
    refine ⟨rfl, by decide, by decide, fun short found => ?_, blank, by decide, fun _ elsewhere => if_neg elsewhere⟩
    have base := (pagedMachine_isChain.table short found).2
    have high : next.base.toNat = 0x10000002000 := by decide
    have shallow : pageLayout.depth = 3 := rfl
    omega
  intro path path' table
  exact grafted.isTree pagedMachine_isChain.isTree

/-- The page at `0x8000000000` gets the entry of the page at zero. -/
theorem getPage_shares_entry :
    highMachine.IsTree pagedRoot ∧
      ∃ finish, Run (GetPageCall pagedRoot) highMachine [(0x0, 0x4000), (0x8000000000, 0x4000)] finish ∧
        ¬ ∀ event ∈ [((0x0 : UInt64), (0x4000 : UInt64)), (0x8000000000, 0x4000)],
          ∀ other ∈ [((0x0 : UInt64), (0x4000 : UInt64)), (0x8000000000, 0x4000)],
            event.2 = other.2 ↔ event.1 >>> 12 = other.1 >>> 12 := by
  let other : Option UInt64 × Machine := (none, highMachine)
  let first := ((getPage highMachine 0x0 true pagedRoot.base).getD other).2
  let second := ((getPage first 0x8000000000 true pagedRoot.base).getD other).2
  have firstStep : GetPageCall pagedRoot highMachine (0x0, 0x4000) first :=
    ⟨by decide, .of_present (by decide +kernel) (by decide +kernel) (by decide +kernel),
      eq_some_of_map_fst other (by decide +kernel)⟩
  have secondStep : GetPageCall pagedRoot first (0x8000000000, 0x4000) second :=
    ⟨by decide, .of_present (by decide +kernel) (by decide +kernel) (by decide +kernel),
      eq_some_of_map_fst other (by decide +kernel)⟩
  have run : Run (GetPageCall pagedRoot) highMachine [(0x0, 0x4000), (0x8000000000, 0x4000)] second :=
    Run.snoc (Run.snoc .nil firstStep) secondStep
  refine ⟨highMachine_isTree, second, run, fun samePages => ?_⟩
  have samePage := (samePages (0x0, 0x4000) (by simp) (0x8000000000, 0x4000) (by simp)).mp rfl
  exact absurd samePage (by decide)

end KeblaOS.Memory
