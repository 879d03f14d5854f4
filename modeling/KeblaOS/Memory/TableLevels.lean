import Mathlib.Algebra.Group.Nat.Defs
import Mathlib.Data.Set.Basic
import KeblaOS.Memory.BumpRun

/-!
# The levels of the page tables

`get_page` goes down from the base in `cr3`, one directory entry for each level, and stops where a
table is missing and none is made. A table that it makes is hung into the entry that was missing; as
long as its memory is not in use yet, the tables of the other levels stay what they were.
-/

namespace KeblaOS.Memory

/-! ## Going down -/

/-- One more level of `get_page`, after a level that may have ended the walk. -/
def descend (state : Option UInt64 × Machine) (va shift : UInt64) (make user : Bool) : Option UInt64 × Machine :=
  match state with
  | (none, machine) => (none, machine)
  | (some base, machine) => nextTable machine (tableSlot base va shift) make user

/-- The directory levels with these indices. -/
def descendAll (state : Option UInt64 × Machine) (va : UInt64) (make user : Bool) (shifts : List UInt64) :
    Option UInt64 × Machine :=
  shifts.foldl (fun state shift => descend state va shift make user) state

/-- The first bits of the indices of the three directory levels. -/
def directoryShifts : List UInt64 := [39, 30, 21]

/-- The three directory levels of `get_page`. -/
def directories (machine : Machine) (va : UInt64) (make : Bool) (pml4 : UInt64) : Option UInt64 × Machine :=
  descendAll (some pml4, machine) va make (va < higherHalfStart) directoryShifts

theorem getPage_eq_directories (machine : Machine) (va : UInt64) (make : Bool) (pml4 : UInt64) :
    getPage machine va make pml4 =
      if pml4 = 0 then some (none, machine)
      else
        match directories machine va make pml4 with
        | (none, machine) => some (none, machine)
        | (some pt, machine) => leafPage machine (tableSlot pt va 12) (va < higherHalfStart) := by
  unfold getPage directories directoryShifts
  simp only [descendAll, List.foldl_cons, List.foldl_nil]
  unfold descend
  split_ifs
  · rfl
  · dsimp only
    generalize nextTable machine (tableSlot pml4 va 39) make _ = first
    obtain ⟨_ | pdpt, machine⟩ := first
    · rfl
    · dsimp only
      generalize nextTable machine (tableSlot pdpt va 30) make _ = second
      obtain ⟨_ | pd, machine⟩ := second
      · rfl
      · rfl

theorem descendAll_none (machine : Machine) (va : UInt64) (make user : Bool) (shifts : List UInt64) :
    descendAll (none, machine) va make user shifts = (none, machine) := by
  induction shifts with
  | nil => rfl
  | cons shift shifts ih => exact ih

theorem descendAll_cons (machine : Machine) (base va shift : UInt64) (make user : Bool) (shifts : List UInt64) :
    descendAll (some base, machine) va make user (shift :: shifts) =
      descendAll (nextTable machine (tableSlot base va shift) make user) va make user shifts := rfl

/-! ## Tables and entries -/

/-- Where `get_page` looks for the table that a directory entry names. -/
def Machine.tableBelow (machine : Machine) (slot : UInt64) : Option UInt64 :=
  if (machine.slots slot).present then some (tableAddress (machine.slots slot).frame) else none

/-- The table behind the directories whose indices start at the bits given, if all are present. -/
def tableBehind (machine : Machine) (base va : UInt64) : List UInt64 → Option UInt64
  | [] => some base
  | shift :: shifts => (machine.tableBelow (tableSlot base va shift)).bind fun next => tableBehind machine next va shifts

/-- The slot of the page entry of an address, if all its tables are there. -/
def Machine.pageSlot (machine : Machine) (va : UInt64) : Option UInt64 :=
  if machine.cr3 = 0 then none
  else (tableBehind machine machine.cr3 va directoryShifts).map fun pt => tableSlot pt va 12

/-- The bases of the tables so many levels below the top. -/
def Machine.levelBases (machine : Machine) : Nat → Set UInt64
  | 0 => { base | base = machine.cr3 ∧ base ≠ 0 }
  | level + 1 => { below | ∃ base ∈ machine.levelBases level, ∃ i < 512,
      machine.tableBelow (base + 8 * UInt64.ofNat i) = some below }

/-- The slots of the entries of these tables. -/
def Machine.levelSlots (machine : Machine) (level : Nat) : Set UInt64 :=
  { slot | ∃ base ∈ machine.levelBases level, ∃ i < 512, slot = base + 8 * UInt64.ofNat i }

/-- Directory entries and page entries do not share memory: a walk goes through entries
that are no pages, and ends at a page. -/
structure Tables (machine : Machine) (pages : Set UInt64) : Prop where
  directory : ∀ level < 3, ∀ slot ∈ machine.levelSlots level, slot ∉ pages
  leaf : ∀ slot ∈ machine.levelSlots 3, slot ∈ pages

/-- An index into a table is below 512. -/
theorem tableSlot_eq (base va shift : UInt64) :
    ∃ i < 512, tableSlot base va shift = base + 8 * UInt64.ofNat i := by
  refine ⟨((va >>> shift) &&& 0x1FF).toNat, ?_, ?_⟩
  · rw [UInt64.toNat_and]
    exact Nat.lt_succ_of_le Nat.and_le_right
  · rw [UInt64.ofNat_toNat, tableSlot]

section Levels

variable {machine after : Machine} {pages : Set UInt64} {base va shift slot : UInt64} {level : Nat}

theorem tableSlot_mem (member : base ∈ machine.levelBases level) (va shift : UInt64) :
    tableSlot base va shift ∈ machine.levelSlots level := by
  obtain ⟨i, small, slot⟩ := tableSlot_eq base va shift
  exact ⟨base, member, i, small, slot⟩

theorem tableBelow_mem (member : slot ∈ machine.levelSlots level) {below : UInt64}
    (found : machine.tableBelow slot = some below) : below ∈ machine.levelBases (level + 1) := by
  obtain ⟨base, reached, i, small, rfl⟩ := member
  exact ⟨base, reached, i, small, found⟩

theorem tableBehind_mem {shifts : List UInt64} {pt : UInt64} (member : base ∈ machine.levelBases level)
    (found : tableBehind machine base va shifts = some pt) : pt ∈ machine.levelBases (level + shifts.length) := by
  induction shifts generalizing base level with
  | nil =>
      obtain rfl := Option.some.inj found
      exact member
  | cons shift shifts ih =>
      obtain ⟨next, below, rest⟩ := Option.bind_eq_some_iff.mp found
      have deeper := ih (tableBelow_mem (tableSlot_mem member va shift) below) rest
      rwa [List.length_cons, Nat.add_comm shifts.length, ← Nat.add_assoc]

/-- A walk ends at a page. -/
theorem Tables.pageSlot_mem (tables : Tables machine pages) (found : machine.pageSlot va = some slot) : slot ∈ pages := by
  unfold Machine.pageSlot at found
  split_ifs at found with null
  obtain ⟨pt, behind, rfl⟩ := Option.map_eq_some_iff.mp found
  have top : machine.cr3 ∈ machine.levelBases 0 := ⟨rfl, null⟩
  exact tables.leaf _ (tableSlot_mem (tableBehind_mem top behind) va 12)

/-- The tables above the pages are the same when the directory entries name the same tables. -/
theorem Tables.levelBases_congr (tables : Tables machine pages) (cr3 : after.cr3 = machine.cr3)
    (directories : ∀ slot ∉ pages, after.tableBelow slot = machine.tableBelow slot) (shallow : level ≤ 3) :
    after.levelBases level = machine.levelBases level := by
  induction level with
  | zero => rw [Machine.levelBases, Machine.levelBases, cr3]
  | succ level ih =>
      rw [Machine.levelBases, Machine.levelBases, ih (Nat.le_of_succ_le shallow)]
      ext below
      refine exists_congr fun base => and_congr_right fun member => exists_congr fun i => and_congr_right fun small => ?_
      rw [directories _ (tables.directory level shallow _ ⟨base, member, i, small, rfl⟩)]

/-- The tables depend on the directory entries only. -/
theorem Tables.congr (tables : Tables machine pages) (cr3 : after.cr3 = machine.cr3)
    (directories : ∀ slot ∉ pages, after.tableBelow slot = machine.tableBelow slot) : Tables after pages := by
  have slots : ∀ level ≤ 3, after.levelSlots level = machine.levelSlots level := fun level shallow => by
    rw [Machine.levelSlots, Machine.levelSlots, tables.levelBases_congr cr3 directories shallow]
  constructor
  · intro level shallow slot member
    rw [slots level (Nat.le_of_lt shallow)] at member
    exact tables.directory level shallow slot member
  · intro slot member
    rw [slots 3 (Nat.le_refl 3)] at member
    exact tables.leaf slot member

end Levels

/-! ## Levels that make no table -/

/-- No entry changed its frame or its present bit. -/
structure SameFrames (before after : Machine) : Prop where
  pmm : after.pmm = before.pmm
  cr3 : after.cr3 = before.cr3
  present : ∀ slot, (after.slots slot).present = (before.slots slot).present
  frame : ∀ slot, (after.slots slot).frame = (before.slots slot).frame

namespace SameFrames

variable {first second third : Machine}

theorem refl (machine : Machine) : SameFrames machine machine := ⟨rfl, rfl, fun _ => rfl, fun _ => rfl⟩

theorem trans (same : SameFrames first second) (same' : SameFrames second third) :
    SameFrames first third :=
  ⟨same'.pmm.trans same.pmm, same'.cr3.trans same.cr3,
    fun slot => (same'.present slot).trans (same.present slot),
    fun slot => (same'.frame slot).trans (same.frame slot)⟩

theorem tableBelow (same : SameFrames first second) (slot : UInt64) :
    second.tableBelow slot = first.tableBelow slot := by
  rw [Machine.tableBelow, Machine.tableBelow, same.present, same.frame]

theorem tableBehind (same : SameFrames first second) (base va : UInt64) (shifts : List UInt64) :
    Memory.tableBehind second base va shifts = Memory.tableBehind first base va shifts := by
  induction shifts generalizing base with
  | nil => rfl
  | cons shift shifts ih => simp only [Memory.tableBehind, same.tableBelow, ih]

theorem levelBases (same : SameFrames first second) (level : Nat) :
    second.levelBases level = first.levelBases level := by
  induction level with
  | zero => rw [Machine.levelBases, Machine.levelBases, same.cr3]
  | succ level ih => simp only [Machine.levelBases, ih, same.tableBelow]

theorem levelSlots (same : SameFrames first second) (level : Nat) :
    second.levelSlots level = first.levelSlots level := by
  rw [Machine.levelSlots, Machine.levelSlots, same.levelBases]

end SameFrames

section Walks

variable {machine : Machine} {slot va base : UInt64} {make user : Bool}

/-- A level that finds its table, or none and makes none. -/
theorem nextTable_eq (user : Bool) (kept : (machine.slots slot).present = true ∨ make = false) :
    (nextTable machine slot make user).1 = machine.tableBelow slot ∧
      SameFrames machine (nextTable machine slot make user).2 := by
  unfold nextTable Machine.tableBelow
  dsimp only
  by_cases present : (machine.slots slot).present = true
  · rw [if_pos present, if_pos present]
    refine ⟨rfl, rfl, rfl, fun other => ?_, fun other => ?_⟩
    all_goals
      by_cases same : other = slot
      · subst same
        simp [Machine.setSlot]
      · simp [Machine.setSlot, same]
  · rw [if_neg present, if_neg present, kept.resolve_left present]
    exact ⟨rfl, SameFrames.refl machine⟩

/-- A present entry with the user bit of the walk stays as it is. -/
theorem nextTable_of_user {next : UInt64} (below : machine.tableBelow slot = some next)
    (right : (machine.slots slot).user = user) : nextTable machine slot make user = (some next, machine) := by
  have present : (machine.slots slot).present = true := by
    by_contra absent
    rw [Machine.tableBelow, if_neg absent] at below
    cases below
  rw [Machine.tableBelow, if_pos present] at below
  unfold nextTable
  dsimp only
  rw [if_pos present, ← right, Machine.setSlot, Function.update_eq_self, ← below]

/-- A walk that makes no table ends at the table behind the directories. -/
theorem descendAll_walked {shifts : List UInt64} (user : Bool)
    (kept : make = false ∨ (tableBehind machine base va shifts).isSome) :
    ∃ walked, SameFrames machine walked ∧
      descendAll (some base, machine) va make user shifts = (tableBehind machine base va shifts, walked) := by
  induction shifts generalizing machine base with
  | nil => exact ⟨machine, .refl machine, rfl⟩
  | cons shift shifts ih =>
      have here : (machine.slots (tableSlot base va shift)).present = true ∨ make = false := by
        rcases kept with unmade | there
        · exact .inr unmade
        · by_cases present : (machine.slots (tableSlot base va shift)).present = true
          · exact .inl present
          · simp [tableBehind, Machine.tableBelow, present] at there
      obtain ⟨first, same⟩ := nextTable_eq user here
      rw [descendAll_cons]
      generalize nextTable machine (tableSlot base va shift) make user = state at first same
      obtain ⟨found, next⟩ := state
      dsimp only at first same
      rw [first, tableBehind]
      cases below : machine.tableBelow (tableSlot base va shift) with
      | none => exact ⟨next, same, descendAll_none next va make user shifts⟩
      | some base' =>
          rw [Option.bind_some, ← same.tableBehind]
          obtain ⟨walked, same', walk⟩ := @ih next base' (by
            rw [same.tableBehind]
            simpa only [tableBehind, below, Option.bind_some] using kept)
          exact ⟨walked, same.trans same', walk⟩

/-- `get_page`, when it makes no table, ends at the page slot of the address. -/
theorem getPage_eq (kept : make = false ∨ (machine.pageSlot va).isSome) :
    ∃ walked, SameFrames machine walked ∧
      getPage machine va make machine.cr3 =
        match machine.pageSlot va with
        | none => some (none, walked)
        | some slot => leafPage walked slot (va < higherHalfStart) := by
  rw [getPage_eq_directories]
  unfold Machine.pageSlot at kept ⊢
  by_cases off : machine.cr3 = 0
  · rw [if_pos off, if_pos off]
    exact ⟨machine, .refl machine, rfl⟩
  rw [if_neg off, if_neg off]
  rw [if_neg off, Option.isSome_map] at kept
  obtain ⟨walked, same, walk⟩ := descendAll_walked (decide (va < higherHalfStart)) kept
  refine ⟨walked, same, ?_⟩
  rw [directories, walk]
  cases tableBehind machine machine.cr3 va directoryShifts with
  | none => rfl
  | some pt => rfl

end Walks

/-! ## Base addresses -/

/-- The frame number of an entry, as an address. -/
theorem toNat_frame_shiftLeft {frame : UInt64} (small : frame.toNat < 1099511627776) :
    (frame <<< 12).toNat = frame.toNat * 4096 := by
  have shifted : frame.toNat <<< 12 = frame.toNat * 4096 := Nat.shiftLeft_eq _ _
  rw [UInt64.toNat_shiftLeft]
  show frame.toNat <<< 12 % 18446744073709551616 = frame.toNat * 4096
  rw [shifted]
  exact Nat.mod_eq_of_lt (by omega)

theorem toNat_field40 (value : UInt64) : (field40 value).toNat = value.toNat % 1099511627776 := by
  rw [field40, UInt64.toNat_and]
  exact Nat.and_two_pow_sub_one_eq_mod value.toNat 40

/-- Tables below 1 TiB are found where they are. -/
theorem tableAddress_eq {frame : UInt64} (low : frame.toNat < 268435456) : tableAddress frame = frame <<< 12 := by
  apply UInt64.toNat_inj.mp
  rw [tableAddress, toNat_field40, toNat_frame_shiftLeft (by omega)]
  exact Nat.mod_eq_of_lt (by omega)

/-- The base address of a page below 4 PiB, as a 40-bit number. -/
theorem toNat_field40_shiftRight {table : UInt64} (physical : table.toNat < 4503599627370496) :
    (field40 (table >>> 12)).toNat = table.toNat / 4096 := by
  have shifted : table.toNat >>> 12 = table.toNat / 4096 := Nat.shiftRight_eq_div_pow _ _
  rw [toNat_field40, UInt64.toNat_shiftRight]
  show table.toNat >>> 12 % 1099511627776 = _
  rw [shifted]
  omega

/-- A 40-bit base address loses nothing of the address of a table. -/
theorem field40_shift {table : UInt64} (aligned : table.toNat % 4096 = 0) (physical : table.toNat < 4503599627370496) :
    field40 (table >>> 12) <<< 12 = table := by
  have number := toNat_field40_shiftRight physical
  apply UInt64.toNat_inj.mp
  rw [toNat_frame_shiftLeft (by omega), number]
  omega

theorem tableAddress_of_table {table : UInt64} (aligned : table.toNat % 4096 = 0)
    (physical : table.toNat < 1099511627776) : tableAddress (field40 (table >>> 12)) = table := by
  have number := @toNat_field40_shiftRight table (by omega)
  rw [tableAddress_eq (by omega), field40_shift aligned (by omega)]

/-! ## Tables made on the way -/

/-- The memory manager after so many tables from `kmalloc_a`. -/
def pmmAfterTables (pmm : Pmm) : Nat → Pmm
  | 0 => pmm
  | made + 1 => pmmAfterTables (kmallocA pmm 4096 1).2 made

/-- The table after these. -/
def nthTable (pmm : Pmm) (made : Nat) : UInt64 := (kmallocA (pmmAfterTables pmm made) 4096 1).1

/-- The first missing directory entry on the way, and the number of tables wanted from there on. -/
def Machine.missingTable (machine : Machine) (base va : UInt64) : List UInt64 → Option (UInt64 × Nat)
  | [] => none
  | shift :: shifts =>
      match machine.tableBelow (tableSlot base va shift) with
      | none => some (tableSlot base va shift, shifts.length + 1)
      | some next => machine.missingTable next va shifts

/-- The memory of a table is apart from the entries that walks go through or end at. -/
structure Machine.Unused (machine : Machine) (pages : Set UInt64) (table : UInt64) : Prop where
  physical : table.toNat < 1099511627776
  pages : ∀ slot ∈ pages, ¬ slot - table < 4096
  directories : ∀ level < 3, ∀ slot ∈ machine.levelSlots level, ¬ slot - table < 4096

/-- The directory entry is one of one level only. -/
def Machine.OneLevel (machine : Machine) (slot : UInt64) : Prop :=
  ∀ level < 3, ∀ level' < 3, slot ∈ machine.levelSlots level → slot ∈ machine.levelSlots level' → level = level'

/-- The memory runs out before all missing tables are made; those made before lie in unused memory. -/
def Machine.RunsOut (machine : Machine) (pages : Set UInt64) (base va : UInt64) (shifts : List UInt64) : Prop :=
  ∃ slot wanted, machine.missingTable base va shifts = some (slot, wanted) ∧
    ∃ made < wanted, nthTable machine.pmm made = 0 ∧
      ∀ i < made, nthTable machine.pmm i ≠ 0 ∧ machine.Unused pages (nthTable machine.pmm i) ∧ machine.OneLevel slot

theorem SameFrames.missingTable {first second : Machine} (same : SameFrames first second) (base va : UInt64)
    (shifts : List UInt64) : second.missingTable base va shifts = first.missingTable base va shifts := by
  induction shifts generalizing base with
  | nil => rfl
  | cons shift shifts ih => simp only [Machine.missingTable, same.tableBelow, ih]

theorem SameFrames.runsOut {first second : Machine} {pages : Set UInt64} {base va : UInt64} {shifts : List UInt64}
    (same : SameFrames first second) (out : first.RunsOut pages base va shifts) : second.RunsOut pages base va shifts := by
  obtain ⟨slot, wanted, missing, made, fewer, last, earlier⟩ := out
  refine ⟨slot, wanted, (same.missingTable base va shifts).trans missing, made, fewer, by rw [same.pmm, last], fun i below => ?_⟩
  obtain ⟨given, unused, one⟩ := earlier i below
  rw [same.pmm]
  refine ⟨given, ⟨unused.physical, unused.pages, fun level shallow => ?_⟩, fun level shallow level' shallow' => ?_⟩
  · rw [same.levelSlots]
    exact unused.directories level shallow
  · rw [same.levelSlots, same.levelSlots]
    exact one level shallow level' shallow'

/-- `kmalloc_a` moves the head only. -/
theorem kmallocA_head (pmm : Pmm) (sz : UInt64) (align : Int) :
    ∃ head, (kmallocA pmm sz align).2 = { pmm with physMemHead := head } := by
  unfold kmallocA
  split_ifs
  · exact ⟨pmm.physMemHead, rfl⟩
  · exact ⟨_, rfl⟩

/-- `kmalloc_a` hands out a page, and the page behind it next. -/
theorem kmallocA_table {pmm : Pmm} (given : (kmallocA pmm 4096 1).1 ≠ 0) :
    (kmallocA pmm 4096 1).1.toNat % 4096 = 0 ∧
      (kmallocA pmm 4096 1).2 = { pmm with physMemHead := (kmallocA pmm 4096 1).1 + 4096 } := by
  unfold kmallocA at given ⊢
  split_ifs at given ⊢ with full
  · exact absurd rfl given
  · refine ⟨?_, rfl⟩
    have rounded := toNat_pageAlignedHead pmm.physMemHead 1
    rw [if_pos rfl] at rounded
    obtain ⟨pages, whole⟩ := dvd_roundUp 4096 pmm.physMemHead.toNat
    show (pageAlignedHead pmm.physMemHead 1).toNat % 4096 = 0
    rw [rounded, whole]
    omega

theorem pageAlignedHead_aligned {head : UInt64} (aligned : head.toNat % 4096 = 0) (align : Int) :
    pageAlignedHead head align = head := by
  have low : (head &&& 0xFFF).toNat = head.toNat % 4096 := toNat_and_powerOfTwo head 12
  rw [pageAlignedHead, if_neg]
  rintro ⟨-, unaligned⟩
  exact unaligned (UInt64.toNat_inj.mp (low.trans aligned))

/-- The table after a table is the page behind it. -/
theorem kmallocA_second {pmm : Pmm} (first : (kmallocA pmm 4096 1).1 ≠ 0)
    (second : (kmallocA (kmallocA pmm 4096 1).2 4096 1).1 ≠ 0) (low : (kmallocA pmm 4096 1).1.toNat < 1099511627776) :
    (kmallocA (kmallocA pmm 4096 1).2 4096 1).1.toNat = (kmallocA pmm 4096 1).1.toNat + 4096 := by
  obtain ⟨aligned, behind⟩ := kmallocA_table first
  have place : ((kmallocA pmm 4096 1).1 + 4096).toNat = (kmallocA pmm 4096 1).1.toNat + 4096 := by
    simp only [UInt64.toNat_add, UInt64.reduceToNat]
    omega
  have next : ((kmallocA pmm 4096 1).1 + 4096).toNat % 4096 = 0 := by omega
  rw [behind] at second ⊢
  generalize (kmallocA pmm 4096 1).1 = table at place next second ⊢
  unfold kmallocA at second ⊢
  split_ifs at second ⊢
  · exact absurd rfl second
  · exact (congrArg UInt64.toNat (pageAlignedHead_aligned next 1)).trans place

/-- Tables made one after the other lie one behind the other. -/
theorem nthTable_eq {pmm : Pmm} {made : Nat}
    (given : ∀ i ≤ made, nthTable pmm i ≠ 0 ∧ (nthTable pmm i).toNat < 1099511627776) :
    (nthTable pmm made).toNat = (nthTable pmm 0).toNat + 4096 * made := by
  induction made generalizing pmm with
  | zero => rfl
  | succ made ih =>
      obtain ⟨nonzero, low⟩ := given 0 (Nat.zero_le _)
      have second : (nthTable pmm 1).toNat = (nthTable pmm 0).toNat + 4096 :=
        kmallocA_second nonzero (given 1 (by omega)).1 low
      have rest := @ih (kmallocA pmm 4096 1).2 fun i below => given (i + 1) (Nat.succ_le_succ below)
      have same : nthTable (kmallocA pmm 4096 1).2 0 = nthTable pmm 1 := rfl
      have last : nthTable (kmallocA pmm 4096 1).2 made = nthTable pmm (made + 1) := rfl
      rw [same, last] at rest
      omega

/-- The addresses that `memset` of a table clears are those of its page. -/
theorem sub_table_lt_iff {slot table : UInt64} (aligned : table.toNat % 4096 = 0) :
    slot - table < 4096 ↔ slot.toNat / 4096 = table.toNat / 4096 := by
  have below := slot.toNat_lt
  have below' := table.toNat_lt
  rw [UInt64.lt_iff_toNat_lt, UInt64.toNat_sub]
  show (18446744073709551616 - table.toNat + slot.toNat) % 18446744073709551616 < 4096 ↔ _
  omega

theorem toNat_tableEntry {table : UInt64} (aligned : table.toNat % 4096 = 0) {i : Nat} (small : i < 512) :
    (table + 8 * UInt64.ofNat i).toNat = table.toNat + 8 * i := by
  have below := table.toNat_lt
  rw [UInt64.toNat_add, UInt64.toNat_mul, UInt64.toNat_ofNat']
  show (table.toNat + 8 * (i % 18446744073709551616) % 18446744073709551616) % 18446744073709551616 = _
  omega

theorem tableEntry_inside {table : UInt64} (aligned : table.toNat % 4096 = 0) {i : Nat} (small : i < 512) :
    table + 8 * UInt64.ofNat i - table < 4096 := by
  rw [sub_table_lt_iff aligned, toNat_tableEntry aligned small]
  omega

/-! ## A table hung into a missing entry -/

/-- What making a table for a missing entry does: the entry names the table, which is blank, and nothing
else has changed. -/
structure Hung (before after : Machine) (slot table : UInt64) : Prop where
  cr3 : after.cr3 = before.cr3
  aligned : table.toNat % 4096 = 0
  named : after.tableBelow slot = some table
  blank : ∀ i < 512, after.slots (table + 8 * UInt64.ofNat i) = zeroEntry
  elsewhere : ∀ other, other ≠ slot → ¬ other - table < 4096 → after.slots other = before.slots other

section Hanging

variable {before after : Machine} {pages : Set UInt64} {slot table : UInt64} {level : Nat}

theorem Hung.none_below (hung : Hung before after slot table) {i : Nat} (small : i < 512) :
    after.tableBelow (table + 8 * UInt64.ofNat i) = none := by
  rw [Machine.tableBelow, hung.blank i small]
  exact if_neg Bool.false_ne_true

/-- One table more, one level below the entry. -/
theorem Hung.levelBases (hung : Hung before after slot table) (unused : before.Unused pages table)
    (one : ∀ level' < 3, slot ∈ before.levelSlots level' → level' = level) {level' : Nat} (shallow : level' ≤ 3)
    {base : UInt64} (member : base ∈ after.levelBases level') :
    base ∈ before.levelBases level' ∨ level' = level + 1 ∧ base = table := by
  induction level' generalizing base with
  | zero =>
      rw [Machine.levelBases, hung.cr3] at member
      exact .inl member
  | succ level' ih =>
      obtain ⟨above, reached, i, small, below⟩ := member
      rcases ih (Nat.le_of_succ_le shallow) reached with old | ⟨rfl, rfl⟩
      · have inside : above + 8 * UInt64.ofNat i ∈ before.levelSlots level' := ⟨above, old, i, small, rfl⟩
        by_cases here : above + 8 * UInt64.ofNat i = slot
        · rw [here] at below inside
          exact .inr ⟨by rw [one level' shallow inside], Option.some.inj (below.symm.trans hung.named)⟩
        · left
          rw [Machine.tableBelow, hung.elsewhere _ here (unused.directories level' shallow _ inside)] at below
          exact ⟨above, old, i, small, below⟩
      · rw [hung.none_below small] at below
        cases below

theorem Hung.levelSlots (hung : Hung before after slot table) (unused : before.Unused pages table)
    (one : ∀ level' < 3, slot ∈ before.levelSlots level' → level' = level) {level' : Nat} (shallow : level' ≤ 3)
    {other : UInt64} (member : other ∈ after.levelSlots level') :
    other ∈ before.levelSlots level' ∨ level' = level + 1 ∧ other - table < 4096 := by
  obtain ⟨base, reached, i, small, rfl⟩ := member
  rcases hung.levelBases unused one shallow reached with old | ⟨rfl, rfl⟩
  · exact .inl ⟨base, old, i, small, rfl⟩
  · exact .inr ⟨rfl, tableEntry_inside hung.aligned small⟩

/-- A new directory keeps directory entries and page entries apart. -/
theorem Hung.tables (hung : Hung before after slot table) (tables : Tables before pages)
    (unused : before.Unused pages table) (one : ∀ level' < 3, slot ∈ before.levelSlots level' → level' = level)
    (directory : level + 1 < 3) : Tables after pages := by
  constructor
  · intro level' shallow other member page
    rcases hung.levelSlots unused one (Nat.le_of_lt shallow) member with old | ⟨-, inside⟩
    · exact tables.directory level' shallow other old page
    · exact unused.pages other page inside
  · intro other member
    rcases hung.levelSlots unused one (Nat.le_refl 3) member with old | ⟨deep, -⟩
    · exact tables.leaf other old
    · omega

/-- The tables that were there are still there. -/
theorem Hung.levelBases_mono (hung : Hung before after slot table) (unused : before.Unused pages table)
    (missing : before.tableBelow slot = none) {level' : Nat} (shallow : level' ≤ 3) {base : UInt64}
    (member : base ∈ before.levelBases level') : base ∈ after.levelBases level' := by
  induction level' generalizing base with
  | zero =>
      rw [Machine.levelBases, hung.cr3]
      exact member
  | succ level' ih =>
      obtain ⟨above, reached, i, small, below⟩ := member
      have other : above + 8 * UInt64.ofNat i ≠ slot := by
        intro here
        rw [here, missing] at below
        cases below
      refine ⟨above, ih (Nat.le_of_succ_le shallow) reached, i, small, ?_⟩
      rw [← below, Machine.tableBelow, Machine.tableBelow,
        hung.elsewhere _ other (unused.directories level' shallow _ ⟨above, reached, i, small, rfl⟩)]

/-- The entries of the new table are entries of one level. -/
theorem Hung.oneLevel (hung : Hung before after slot table) (unused : before.Unused pages table)
    (one : ∀ level' < 3, slot ∈ before.levelSlots level' → level' = level) {i : Nat} (small : i < 512) :
    ∀ level' < 3, table + 8 * UInt64.ofNat i ∈ after.levelSlots level' → level' = level + 1 := by
  intro level' shallow member
  rcases hung.levelSlots unused one (Nat.le_of_lt shallow) member with old | ⟨deeper, -⟩
  · exact absurd (tableEntry_inside hung.aligned small) (unused.directories level' shallow _ old)
  · exact deeper

/-- Memory behind the new table is as unused as it was. -/
theorem Hung.unused (hung : Hung before after slot table) (unused : before.Unused pages table)
    (one : ∀ level' < 3, slot ∈ before.levelSlots level' → level' = level) {next : UInt64}
    (later : before.Unused pages next) (aligned : next.toNat % 4096 = 0) (different : table ≠ next) :
    after.Unused pages next := by
  refine ⟨later.physical, later.pages, fun level' shallow other member inside => ?_⟩
  rcases hung.levelSlots unused one (Nat.le_of_lt shallow) member with old | ⟨-, own⟩
  · exact later.directories level' shallow other old inside
  · rw [sub_table_lt_iff hung.aligned] at own
    rw [sub_table_lt_iff aligned] at inside
    have whole := hung.aligned
    exact different (UInt64.toNat_inj.mp (by omega))

/-- One level further down memory runs out in the same way. -/
theorem Machine.RunsOut.behind {machine : Machine} {base va shift next : UInt64} {shifts : List UInt64}
    (out : machine.RunsOut pages base va (shift :: shifts))
    (below : machine.tableBelow (tableSlot base va shift) = some next) : machine.RunsOut pages next va shifts := by
  obtain ⟨slot, wanted, missing, rest⟩ := out
  rw [Machine.missingTable, below] at missing
  exact ⟨slot, wanted, missing, rest⟩

/-- The first table that is made for a missing entry, if there is memory for one. -/
theorem Machine.RunsOut.first {machine : Machine} {base va shift : UInt64} {shifts : List UInt64}
    (out : machine.RunsOut pages base va (shift :: shifts))
    (absent : machine.tableBelow (tableSlot base va shift) = none) (given : (kmallocA machine.pmm 4096 1).1 ≠ 0) :
    machine.Unused pages (kmallocA machine.pmm 4096 1).1 ∧ machine.OneLevel (tableSlot base va shift) ∧
      0 < shifts.length := by
  obtain ⟨slot, wanted, found, made, fewer, last, earlier⟩ := out
  rw [Machine.missingTable, absent] at found
  obtain ⟨rfl, rfl⟩ := Prod.mk.inj (Option.some.inj found)
  cases made with
  | zero => exact absurd last given
  | succ made =>
      obtain ⟨-, unused, single⟩ := earlier 0 (Nat.succ_pos made)
      exact ⟨unused, single, by omega⟩

/-- Behind the first table that is made, memory runs out with one table fewer. -/
theorem Hung.runsOut {base va shift : UInt64} {shifts : List UInt64}
    (hung : Hung before after (tableSlot base va shift) (kmallocA before.pmm 4096 1).1)
    (pmm : after.pmm = (kmallocA before.pmm 4096 1).2) (given : (kmallocA before.pmm 4096 1).1 ≠ 0)
    (one : ∀ level' < 3, tableSlot base va shift ∈ before.levelSlots level' → level' = level)
    (absent : before.tableBelow (tableSlot base va shift) = none)
    (out : before.RunsOut pages base va (shift :: shifts)) :
    after.RunsOut pages (kmallocA before.pmm 4096 1).1 va shifts := by
  obtain ⟨unused, -, more⟩ := out.first absent given
  obtain ⟨shift', rest, rfl⟩ : ∃ shift' rest, shifts = shift' :: rest := List.exists_cons_of_length_pos more
  obtain ⟨i, small, entry⟩ := tableSlot_eq (kmallocA before.pmm 4096 1).1 va shift'
  have bare : after.tableBelow (tableSlot (kmallocA before.pmm 4096 1).1 va shift') = none := by
    rw [entry]
    exact hung.none_below small
  obtain ⟨slot, wanted, found, made, fewer, last, earlier⟩ := out
  rw [Machine.missingTable, absent] at found
  obtain ⟨rfl, rfl⟩ := Prod.mk.inj (Option.some.inj found)
  cases made with
  | zero => exact absurd last given
  | succ made =>
      refine ⟨_, rest.length + 1, by rw [Machine.missingTable, bare], made, ?_, by rw [pmm]; exact last, fun j below => ?_⟩
      · rw [List.length_cons] at fewer
        omega
      · obtain ⟨given', unused', -⟩ := earlier (j + 1) (Nat.succ_lt_succ below)
        have later := @nthTable_eq before.pmm (j + 1) fun k within =>
          ⟨(earlier k (by omega)).1, (earlier k (by omega)).2.1.physical⟩
        have different : (kmallocA before.pmm 4096 1).1 ≠ nthTable before.pmm (j + 1) := by
          intro same
          have equal := congrArg UInt64.toNat same
          have start : nthTable before.pmm 0 = (kmallocA before.pmm 4096 1).1 := rfl
          rw [later, start] at equal
          omega
        rw [pmm, entry]
        refine ⟨given', hung.unused unused one unused' (kmallocA_table given').1 different, ?_⟩
        intro level' shallow level'' shallow' there there'
        exact (hung.oneLevel unused one small level' shallow there).trans
          (hung.oneLevel unused one small level'' shallow' there').symm

end Hanging

/-- `get_page` makes a table for a missing entry. -/
theorem nextTable_hung {machine : Machine} {slot : UInt64} (user : Bool) (missing : (machine.slots slot).present = false)
    (given : (kmallocA machine.pmm 4096 1).1 ≠ 0) (physical : (kmallocA machine.pmm 4096 1).1.toNat < 1099511627776)
    (outside : ¬ slot - (kmallocA machine.pmm 4096 1).1 < 4096) :
    ∃ after, nextTable machine slot true user = (some (kmallocA machine.pmm 4096 1).1, after) ∧
      after.pmm = (kmallocA machine.pmm 4096 1).2 ∧ Hung machine after slot (kmallocA machine.pmm 4096 1).1 := by
  have aligned := (kmallocA_table given).1
  have absent : ¬ (machine.slots slot).present = true := by simp [missing]
  unfold nextTable
  dsimp only
  generalize kmallocA machine.pmm 4096 1 = made at given physical outside aligned ⊢
  obtain ⟨table, pmm⟩ := made
  dsimp only at given physical outside aligned ⊢
  have named := tableAddress_of_table aligned physical
  rw [if_neg absent, if_pos rfl, if_neg given, named]
  refine ⟨_, rfl, rfl, rfl, aligned, ?_, fun i small => ?_, fun other different apart => ?_⟩
  · simp only [Machine.tableBelow, Machine.setSlot, Function.update_self, if_true, named]
  · have inside := tableEntry_inside aligned small
    have other : table + 8 * UInt64.ofNat i ≠ slot := by
      rintro rfl
      exact outside inside
    exact (Function.update_of_ne other _ _).trans (if_pos inside)
  · exact (Function.update_of_ne different _ _).trans (if_neg apart)

end KeblaOS.Memory
