import Mathlib.Data.List.Infix
import KeblaOS.Lib.RadixTree
import KeblaOS.Memory.Frames

/-!
# The page tables as a tree

The tables below a PML4 are a radix tree with three levels of directories. Seen by index
paths, `get_page` touches the entries on the path of its address only: directories on the
way get the user bit of the address, missing ones appear, and a missing page gets a frame.
That rests on `kmalloc_a`: a table that is in use already must not be handed out again.
-/

namespace KeblaOS.Memory

/-- The base address of a table. -/
structure TableBase where
  base : UInt64
  aligned : base.toNat % 4096 = 0
deriving DecidableEq

/-- The address of an entry of a table. -/
def TableBase.slot (table : TableBase) (index : Fin 512) : UInt64 := table.base + 8 * UInt64.ofNat index

theorem TableBase.toNat_slot (table : TableBase) (index : Fin 512) :
    (table.slot index).toNat = table.base.toNat + 8 * index := by
  have aligned := table.aligned
  have below := table.base.toNat_lt
  have small := index.isLt
  rw [TableBase.slot, UInt64.toNat_add, UInt64.toNat_mul, UInt64.toNat_ofNat']
  show (table.base.toNat + 8 * (index.val % 18446744073709551616) % 18446744073709551616) %
    18446744073709551616 = _
  omega

/-- The table an entry names. -/
def Entry.table (entry : Entry) : Option TableBase :=
  if entry.present then some ⟨entry.frame <<< 12, frame_shiftLeft_aligned _⟩ else none

/-- Four levels of tables with 512 entries each. -/
def pageLayout : RadixLayout TableBase (Fin 512) UInt64 Entry where
  slot := TableBase.slot
  child := Entry.table
  blank := zeroEntry
  depth := 3
  slot_injective := by
    intro table index table' index' same
    have value := congrArg UInt64.toNat same
    rw [table.toNat_slot, table'.toNat_slot] at value
    have aligned := table.aligned
    have aligned' := table'.aligned
    have small := index.isLt
    have small' := index'.isLt
    have bases : table.base = table'.base := UInt64.toNat_inj.mp (by omega)
    obtain ⟨base, _⟩ := table
    obtain ⟨base', _⟩ := table'
    exact ⟨by simpa using bases, Fin.ext (by simp only at bases; subst bases; omega)⟩
  child_blank := rfl

/-- The index of an address in a table, for the bits from `shift` on. -/
def tableIndex (va shift : UInt64) : Fin 512 :=
  ⟨((va >>> shift) &&& 0x1FF).toNat, by
    rw [UInt64.toNat_and]
    exact Nat.lt_succ_of_le Nat.and_le_right⟩

theorem tableSlot_eq_slot (table : TableBase) (va shift : UInt64) :
    tableSlot table.base va shift = table.slot (tableIndex va shift) := by
  rw [tableSlot, TableBase.slot, tableIndex, UInt64.ofNat_toNat]

namespace Machine

def table (machine : Machine) (root : TableBase) (path : List (Fin 512)) : Option TableBase :=
  pageLayout.table machine.slots root path

def entry (machine : Machine) (root : TableBase) (path : List (Fin 512)) : Entry :=
  pageLayout.entry machine.slots root path

/-- No table is reachable by two paths. -/
def IsTree (machine : Machine) (root : TableBase) : Prop := pageLayout.IsTree machine.slots root

end Machine

/-- The directory entries on the way to a page, and its page entry. -/
def directoryPath (va : UInt64) : List (Fin 512) := [tableIndex va 21, tableIndex va 30, tableIndex va 39]

def pagePath (va : UInt64) : List (Fin 512) := tableIndex va 12 :: directoryPath va

@[simp] theorem length_directoryPath (va : UInt64) : (directoryPath va).length = 3 := rfl

@[simp] theorem length_pagePath (va : UInt64) : (pagePath va).length = 4 := rfl

theorem pagePath_ne_directoryPath (va other : UInt64) : pagePath va ≠ directoryPath other := fun same => by
  have lengths := congrArg List.length same
  simp at lengths

/-- If the entry is present, it names a table below 1 TiB. -/
def Entry.Low (entry : Entry) : Prop := entry.present = true → entry.frame.toNat < 268435456

instance (entry : Entry) : Decidable entry.Low := inferInstanceAs (Decidable (_ → _))

/-- The directory entries on the way to a page name tables that `get_page` finds. -/
def Machine.LowTables (machine : Machine) (root : TableBase) (va : UInt64) : Prop :=
  ∀ path ∈ (directoryPath va).tails, path ≠ [] → (machine.entry root path).Low

instance (machine : Machine) (root : TableBase) (va : UInt64) : Decidable (machine.LowTables root va) :=
  inferInstanceAs (Decidable (∀ path ∈ (directoryPath va).tails, path ≠ [] → Entry.Low _))

/-! ## One level -/

/-- The table that `kmalloc_a` returns next is a page that is not in use as a table. -/
structure FreshTable (machine : Machine) (root : TableBase) : Prop where
  aligned : (kmallocA machine.pmm 4096 1).1.toNat % 4096 = 0
  unreached : ∀ {path table}, path.length ≤ 3 → machine.table root path = some table →
    table.base ≠ (kmallocA machine.pmm 4096 1).1

/-- Besides, it lies below 1 TiB. -/
structure FreshNext (machine : Machine) (root : TableBase) : Prop extends FreshTable machine root where
  physical : (kmallocA machine.pmm 4096 1).1.toNat < 1099511627776

/-- The entries that `memset` of a table clears are those of the table. -/
theorem TableBase.slot_cleared_iff (table fresh : TableBase) (index : Fin 512) :
    table.slot index - fresh.base < 4096 ↔ table = fresh := by
  have value := table.toNat_slot index
  have aligned := table.aligned
  have aligned' := fresh.aligned
  have below := table.base.toNat_lt
  have below' := fresh.base.toNat_lt
  have small := index.isLt
  have same : table = fresh ↔ table.base.toNat = fresh.base.toNat := by
    obtain ⟨base, _⟩ := table
    obtain ⟨base', _⟩ := fresh
    rw [TableBase.mk.injEq]
    exact UInt64.toNat_inj.symm
  rw [same, UInt64.lt_iff_toNat_lt, UInt64.toNat_sub, value]
  show (18446744073709551616 - fresh.base.toNat + (table.base.toNat + 8 * index)) % 18446744073709551616 < 4096 ↔ _
  omega

section Level

variable {machine after : Machine} {root table : TableBase} {path : List (Fin 512)} {index : Fin 512}
  {make user : Bool}

/-- The entry at one path is changed or made, and the entries at other paths stay the same. -/
structure EntryChange (before after : Machine) (root : TableBase) (path : List (Fin 512)) (entry : Entry) : Prop where
  cr3 : after.cr3 = before.cr3
  entries : ∀ {path'}, path'.length ≤ 4 →
    after.entry root path' = if path' = path then entry else before.entry root path'

/-- Besides, the tables are a tree afterwards. -/
structure EntrySet (before after : Machine) (root : TableBase) (path : List (Fin 512)) (entry : Entry) : Prop
    extends EntryChange before after root path entry where
  tree : after.IsTree root

/-- An entry set to another value that names the same table, or a page entry. -/
theorem Machine.IsTree.setSlot {pmm : Pmm} {entry : Entry} (tree : machine.IsTree root)
    (found : machine.table root path = some table) (short : path.length ≤ 3)
    (kept : path.length < 3 → entry.present = (machine.slots (table.slot index)).present ∧
      entry.frame = (machine.slots (table.slot index)).frame) :
    EntrySet machine ({ machine with pmm := pmm }.setSlot (table.slot index) entry) root (index :: path) entry := by
  have child : path.length < pageLayout.depth →
      pageLayout.child entry = pageLayout.child (machine.slots (pageLayout.slot table index)) := by
    intro directory
    obtain ⟨present, frame⟩ := kept directory
    show entry.table = (machine.slots (table.slot index)).table
    unfold Entry.table
    simp only [present, frame]
  exact ⟨⟨rfl, fun short' => (RadixLayout.IsTree.onlyPath tree short found).entry_update found child short'⟩,
    RadixLayout.IsTree.update tree found short child⟩

theorem Machine.table_cons (machine : Machine) (root : TableBase) (index : Fin 512) (path : List (Fin 512)) :
    machine.table root (index :: path) = (machine.entry root (index :: path)).table :=
  RadixLayout.table_cons machine.slots root index path

/-- What one level does when it goes on to a table. -/
structure Entered (before after : Machine) (root next : TableBase) (path : List (Fin 512)) (user : Bool) : Prop where
  set : ∃ entry, EntrySet before after root path entry
  user : (after.entry root path).user = user
  table : after.table root path = some next
  kept : (before.entry root path).present = true → (after.entry root path).frame = (before.entry root path).frame
  low : (before.entry root path).Low → (after.entry root path).Low

/-- A present directory entry: the walk goes on to its table, and the entry gets the user bit. -/
theorem nextTable_present (tree : machine.IsTree root) (found : machine.table root path = some table)
    (short : path.length < 3) (low : (machine.entry root (index :: path)).Low)
    (present : (machine.slots (table.slot index)).present = true) :
    ∃ next after, nextTable machine (table.slot index) make user = (some next.base, after) ∧
      Entered machine after root next (index :: path) user := by
  have here : machine.entry root (index :: path) = machine.slots (table.slot index) :=
    RadixLayout.entry_of_table found
  have set := @Machine.IsTree.setSlot machine root table path index machine.pmm
    { machine.slots (table.slot index) with user := user } tree found (Nat.le_of_lt short) fun _ => ⟨rfl, rfl⟩
  have inReach : (index :: path).length ≤ 4 := Nat.succ_le_succ (Nat.le_of_lt short)
  have value := set.entries inReach
  rw [if_pos rfl] at value
  rw [here] at low
  unfold nextTable
  dsimp only
  rw [if_pos present, tableAddress_eq (low present)]
  refine ⟨⟨_, frame_shiftLeft_aligned (machine.slots (table.slot index)).frame⟩, _, rfl, ⟨_, set⟩, by rw [value], ?_,
    fun _ => by rw [value, here], fun _ => by rw [value]; exact low⟩
  refine (RadixLayout.table_cons _ _ _ _).trans ?_
  show (Machine.entry _ root (index :: path)).table = _
  rw [value, Entry.table, if_pos present]

/-- A missing directory entry with memory for a table: the walk goes on to the fresh table. -/
theorem nextTable_fresh (tree : machine.IsTree root) (found : machine.table root path = some table)
    (short : path.length < 3) (absent : ¬ (machine.slots (table.slot index)).present = true)
    (given : (kmallocA machine.pmm 4096 1).1 ≠ 0) (fresh : FreshNext machine root) :
    ∃ next after, nextTable machine (table.slot index) true user = (some next.base, after) ∧
      Entered machine after root next (index :: path) user := by
  have here : machine.entry root (index :: path) = machine.slots (table.slot index) :=
    RadixLayout.entry_of_table found
  have aligned := fresh.aligned
  have physical := fresh.physical
  have unreached := @FreshTable.unreached _ _ fresh.toFreshTable
  unfold nextTable
  dsimp only
  generalize kmallocA machine.pmm 4096 1 = made at given aligned physical unreached ⊢
  obtain ⟨base, pmm⟩ := made
  dsimp only at given aligned physical unreached ⊢
  rw [if_neg absent, if_pos rfl, if_neg given]
  -- the directory entry lies outside of the table just cleared
  let next : TableBase := ⟨base, aligned⟩
  have other : table ≠ next := fun same => unreached (Nat.le_of_lt short) found (congrArg TableBase.base same)
  have uncleared : ∀ {table' index'}, table' ≠ next → ¬ (table'.slot index' - base < 4096) :=
    fun {table' index'} different inside => different ((table'.slot_cleared_iff next index').mp inside)
  have named : field40 (base >>> 12) <<< 12 = base := field40_shift aligned (by omega)
  let entry : Entry := { machine.slots (table.slot index) with
    present := true, rw := true, user := user, frame := field40 (base >>> 12) }
  let after := ({ machine with pmm := pmm }.clearTable base).setSlot (table.slot index) entry
  have written : after.slots (table.slot index) = entry := Function.update_self _ _ _
  have grafted : RadixLayout.Grafted pageLayout machine.slots after.slots root table path index next := by
    refine ⟨found, short, if_neg absent, fun short' found' => unreached short' found' rfl, fun index' => ?_, ?_,
      fun {table' index'} different elsewhere => ?_⟩
    · have elsewhere : next.slot index' ≠ table.slot index := fun same =>
        other (pageLayout.slot_injective same).1.symm
      exact (Function.update_of_ne elsewhere _ _).trans (if_pos ((next.slot_cleared_iff next index').mpr rfl))
    · show (after.slots (table.slot index)).table = some next
      rw [written, Entry.table, if_pos rfl]
      simp only [entry, named, next]
    · exact (Function.update_of_ne elsewhere _ _).trans (if_neg (uncleared different))
  have set : EntrySet machine after root (index :: path) entry := by
    refine ⟨⟨rfl, fun {path'} short' => ?_⟩, grafted.isTree tree⟩
    rw [← written]
    exact grafted.entry_after tree short'
  have inReach : (index :: path).length ≤ 4 := Nat.succ_le_succ (Nat.le_of_lt short)
  have value := set.entries inReach
  rw [if_pos rfl] at value
  refine ⟨next, after, ?_, ⟨_, set⟩, by rw [value], ?_, fun absurdly => ?_, fun _ _ => ?_⟩
  · have left : ({ machine with pmm := pmm }.clearTable base).slots (table.slot index) =
        machine.slots (table.slot index) := if_neg (uncleared other)
    rw [tableAddress_of_table aligned physical, left]
  · refine (grafted.table_after tree ?_).trans (if_pos rfl)
    show path.length + 1 ≤ 3
    omega
  · rw [here] at absurdly
    exact absurd absurdly absent
  · have number := @toNat_field40_shiftRight base (by omega)
    rw [value]
    show (field40 (base >>> 12)).toNat < 268435456
    omega

/-- One level goes on to a table, or ends the walk and changes no entry. -/
theorem nextTable_cases (tree : machine.IsTree root) (found : machine.table root path = some table)
    (short : path.length < 3) (low : (machine.entry root (index :: path)).Low)
    (fresh : make = true → (machine.slots (table.slot index)).present = false →
      (kmallocA machine.pmm 4096 1).1 ≠ 0 → FreshNext machine root) :
    (∃ next after, nextTable machine (table.slot index) make user = (some next.base, after) ∧
      Entered machine after root next (index :: path) user) ∨
    ∃ after, nextTable machine (table.slot index) make user = (none, after) ∧
      after.slots = machine.slots ∧ after.cr3 = machine.cr3 ∧ machine.table root (index :: path) = none := by
  by_cases present : (machine.slots (table.slot index)).present = true
  · exact .inl (nextTable_present tree found short low present)
  · have missing : machine.table root (index :: path) = none := by
      have here : machine.entry root (index :: path) = machine.slots (table.slot index) :=
        RadixLayout.entry_of_table found
      rw [Machine.table_cons, here, Entry.table, if_neg present]
    cases make with
    | false =>
        refine .inr ⟨machine, ?_, rfl, rfl, missing⟩
        rw [nextTable]
        dsimp only
        rw [if_neg present]
        rfl
    | true =>
        by_cases null : (kmallocA machine.pmm 4096 1).1 = 0
        · refine .inr ⟨{ machine with pmm := (kmallocA machine.pmm 4096 1).2 }, ?_, rfl, rfl, missing⟩
          rw [nextTable]
          dsimp only
          rw [if_neg present, if_pos rfl, if_pos null]
        · exact .inl (nextTable_fresh tree found short present null (fresh rfl (by simpa using present) null))

theorem EntryChange.entry_self {entry : Entry} (set : EntryChange machine after root path entry)
    (short : path.length ≤ 4) : after.entry root path = entry := by
  rw [set.entries short, if_pos rfl]

theorem EntryChange.entry_other {entry : Entry} {path' : List (Fin 512)} (set : EntryChange machine after root path entry)
    (short : path'.length ≤ 4) (other : path' ≠ path) : after.entry root path' = machine.entry root path' := by
  rw [set.entries short, if_neg other]

theorem Machine.table_directoryPath (machine : Machine) (root : TableBase) (va : UInt64) :
    machine.table root (directoryPath va) = (machine.entry root (directoryPath va)).table :=
  machine.table_cons root _ _

theorem Entry.present_of_table {entry : Entry} {next : TableBase} (named : entry.table = some next) :
    entry.present = true := by
  by_contra absent
  rw [Entry.table, if_neg absent] at named
  exact absurd named (by simp)

end Level

/-! ## The walk -/

section Walk

variable {before : Machine} {root : TableBase} {user make : Bool} {path : List (Fin 512)}
  {state : Option UInt64 × Machine} {va shift : UInt64}

/-- A walk along a path, which may have ended early: entries off the path are the same,
present entries keep their frames, and entries on the path have the user bit of the walk
as far as it came. -/
structure Descended (before : Machine) (root : TableBase) (user : Bool) (path : List (Fin 512))
    (state : Option UInt64 × Machine) : Prop where
  tree : state.2.IsTree root
  cr3 : state.2.cr3 = before.cr3
  others : ∀ {path'}, path'.length ≤ 4 → (path' = [] ∨ ¬ path' <:+ path) →
    state.2.entry root path' = before.entry root path'
  kept : ∀ {path'}, path'.length ≤ 4 → (before.entry root path').present = true →
    (state.2.entry root path').present = true ∧ (state.2.entry root path').frame = (before.entry root path').frame
  low : ∀ {path'}, path'.length ≤ 3 → (before.entry root path').Low → (state.2.entry root path').Low
  marked : ∀ {path'}, path' <:+ path →
    state.2.entry root path' = before.entry root path' ∨ (state.2.entry root path').user = user
  ended : state.1 = none → state.2.table root path = none
  reached : ∀ {base}, state.1 = some base → ∃ table, table.base = base ∧ state.2.table root path = some table ∧
    ∀ {path'}, path' <:+ path → path' ≠ [] → (state.2.entry root path').user = user

theorem Descended.start (tree : before.IsTree root) : Descended before root user [] (some root.base, before) where
  tree := tree
  cr3 := rfl
  others _ _ := rfl
  kept _ present := ⟨present, rfl⟩
  low _ low := low
  marked _ := .inl rfl
  ended none := absurd none (by simp)
  reached found := ⟨root, Option.some.inj found, rfl, fun above nonempty =>
    absurd (List.suffix_nil.mp above) nonempty⟩

theorem not_cons_suffix (index : Fin 512) (path : List (Fin 512)) : ¬ index :: path <:+ path := fun suffix => by
  have length := suffix.length_le
  rw [List.length_cons] at length
  omega

/-- A level that ends the walk, or comes after its end. -/
theorem Descended.stop (descended : Descended before root user path state) (short : path.length ≤ 3)
    {after : Machine} (slots : after.slots = state.2.slots) (cr3 : after.cr3 = state.2.cr3) {index : Fin 512}
    (missing : state.2.table root (index :: path) = none) :
    Descended before root user (index :: path) (none, after) := by
  have entry : ∀ path', after.entry root path' = state.2.entry root path' := fun path' => by
    rw [Machine.entry, Machine.entry, slots]
  refine ⟨?_, cr3.trans descended.cr3, fun {path'} short off => ?_, fun {path'} short present => ?_,
    fun {path'} short low => ?_, fun {path'} on => ?_, fun _ => ?_, fun found => absurd found (by simp)⟩
  · rw [Machine.IsTree, slots]
    exact descended.tree
  · rw [entry]
    exact descended.others short (off.imp_right fun off on => off (List.suffix_cons_iff.mpr (.inr on)))
  · rw [entry]
    exact descended.kept short present
  · rw [entry]
    exact descended.low short low
  · rw [entry]
    rcases List.suffix_cons_iff.mp on with rfl | above
    · have length : (index :: path).length ≤ 4 := Nat.succ_le_succ short
      exact .inl (descended.others length (.inr (not_cons_suffix index path)))
    · exact descended.marked above
  · rw [Machine.table_cons, entry, ← Machine.table_cons]
    exact missing

theorem Descended.enter {next : TableBase} {after : Machine} {index : Fin 512}
    (descended : Descended before root user path state) (short : path.length < 3)
    (entered : Entered state.2 after root next (index :: path) user)
    (above : ∀ {path'}, path' <:+ path → path' ≠ [] → (state.2.entry root path').user = user) :
    Descended before root user (index :: path) (some next.base, after) := by
  obtain ⟨entry, set⟩ := entered.set
  have length : (index :: path).length ≤ 4 := Nat.succ_le_succ (Nat.le_of_lt short)
  have others : ∀ {path'}, path' <:+ path → after.entry root path' = state.2.entry root path' := by
    intro path' suffix
    have shorter := suffix.length_le
    exact set.entry_other (by omega) fun same => not_cons_suffix index path (same ▸ suffix)
  refine ⟨set.tree, set.cr3.trans descended.cr3, fun {path'} short' off => ?_, fun {path'} short' present => ?_,
    fun {path'} short' low => ?_, fun {path'} on => ?_, fun none => absurd none (by simp),
    fun found => ⟨next, Option.some.inj found, entered.table, fun {path'} on nonempty => ?_⟩⟩
  · rcases off with rfl | off
    · rfl
    · rw [set.entry_other short' fun same => off (same ▸ List.suffix_rfl)]
      exact descended.others short' (.inr fun on => off (List.suffix_cons_iff.mpr (.inr on)))
  · obtain ⟨present', frame⟩ := descended.kept short' present
    by_cases here : path' = index :: path
    · subst here
      have named := entered.table
      rw [Machine.table_cons] at named
      exact ⟨Entry.present_of_table named, (entered.kept present').trans frame⟩
    · rw [set.entry_other short' here]
      exact ⟨present', frame⟩
  · by_cases here : path' = index :: path
    · subst here
      exact entered.low (descended.low short' low)
    · rw [set.entry_other (Nat.le_succ_of_le short') here]
      exact descended.low short' low
  · rcases List.suffix_cons_iff.mp on with rfl | suffix
    · exact .inr entered.user
    · rw [others suffix]
      exact descended.marked suffix
  · rcases List.suffix_cons_iff.mp on with rfl | suffix
    · exact entered.user
    · rw [others suffix]
      exact above suffix nonempty

/-- One more level. -/
theorem Descended.descend (descended : Descended before root user path state) (short : path.length < 3)
    (low : (before.entry root (tableIndex va shift :: path)).Low)
    (fresh : make = true → ∀ base, state.1 = some base →
      (state.2.slots (tableSlot base va shift)).present = false → (kmallocA state.2.pmm 4096 1).1 ≠ 0 →
        FreshNext state.2 root) :
    Descended before root user (tableIndex va shift :: path) (descend state va shift make user) := by
  obtain ⟨_ | base, machine⟩ := state
  · refine descended.stop (Nat.le_of_lt short) rfl rfl ?_
    have above := descended.ended rfl
    exact Option.bind_eq_none_iff.mpr fun table found => absurd (above.symm.trans found) (by simp)
  · obtain ⟨table, rfl, found, above⟩ := descended.reached rfl
    have supplied := fun made absent => fresh made table.base rfl absent
    show Descended before root user _ (nextTable machine (tableSlot table.base va shift) make user)
    rw [tableSlot_eq_slot] at supplied ⊢
    have unmoved := @Descended.others _ _ _ _ _ descended (tableIndex va shift :: path) (Nat.succ_le_succ (Nat.le_of_lt short))
      (.inr (not_cons_suffix _ _))
    rw [← unmoved] at low
    rcases nextTable_cases descended.tree found short low supplied with
      ⟨next, after, taken, entered⟩ | ⟨after, taken, slots, cr3, missing⟩
    · rw [taken]
      exact descended.enter short entered above
    · rw [taken]
      exact descended.stop (Nat.le_of_lt short) slots cr3 missing

end Walk

/-- The states in which `get_page` calls `kmalloc_a` for a missing table. -/
structure TablesMade (wanted : Machine → Prop) (machine : Machine) (root : TableBase) (va : UInt64) : Prop where
  pdpt : (machine.slots (tableSlot root.base va 39)).present = false → wanted machine
  pd : ∀ pdpt after, descend (some root.base, machine) va 39 true (va < higherHalfStart) = (some pdpt, after) →
    (after.slots (tableSlot pdpt va 30)).present = false → wanted after
  pt : ∀ pd after, descend (descend (some root.base, machine) va 39 true (va < higherHalfStart)) va 30 true
      (va < higherHalfStart) = (some pd, after) →
    (after.slots (tableSlot pd va 21)).present = false → wanted after

/-- Each table that `get_page` gets from the bump allocator is a fresh one below 1 TiB. -/
def Supplied (machine : Machine) (root : TableBase) (va : UInt64) : Prop :=
  TablesMade (fun machine => (kmallocA machine.pmm 4096 1).1 ≠ 0 → FreshNext machine root) machine root va

/-- The three directory levels of `get_page`. -/
theorem descended_directories {machine : Machine} {root : TableBase} {va : UInt64} {make : Bool}
    (tree : machine.IsTree root) (low : machine.LowTables root va) (supplied : make = true → Supplied machine root va) :
    Descended machine root (va < higherHalfStart) (directoryPath va) (directories machine va make root.base) := by
  have lows : ∀ {path}, path <:+ directoryPath va → path ≠ [] → (machine.entry root path).Low :=
    fun on nonempty => low _ ((List.mem_tails _ _).mpr on) nonempty
  unfold directoryPath at lows
  unfold directories directoryPath
  refine Descended.descend (Descended.descend (Descended.descend (.start tree) (by simp) (lows ?_ (by simp)) ?_) (by simp)
    (lows (List.suffix_cons _ _) (by simp)) ?_) (by simp) (lows List.suffix_rfl (by simp)) ?_
  · exact (List.suffix_cons _ _).trans (List.suffix_cons _ _)
  · rintro made base found absent
    obtain rfl := Option.some.inj found
    exact (supplied made).pdpt absent
  · rintro rfl base found absent
    exact (supplied rfl).pd base _ (Prod.ext found rfl) absent
  · rintro rfl base found absent
    exact (supplied rfl).pt base _ (Prod.ext found rfl) absent

/-- A level takes memory from the bump allocator only. -/
theorem nextTable_head (machine : Machine) (slot : UInt64) (make user : Bool) :
    ∃ head, (nextTable machine slot make user).2.pmm = { machine.pmm with physMemHead := head } := by
  have made := kmallocA_head machine.pmm 4096 1
  unfold nextTable
  dsimp only
  split_ifs
  · exact ⟨machine.pmm.physMemHead, rfl⟩
  · exact made
  · exact made
  · exact ⟨machine.pmm.physMemHead, rfl⟩

theorem descend_head (state : Option UInt64 × Machine) (va shift : UInt64) (make user : Bool) :
    ∃ head, (descend state va shift make user).2.pmm = { state.2.pmm with physMemHead := head } := by
  obtain ⟨_ | base, machine⟩ := state
  · exact ⟨machine.pmm.physMemHead, rfl⟩
  · exact nextTable_head machine _ make user

theorem directories_head (machine : Machine) (va : UInt64) (make : Bool) (pml4 : UInt64) :
    ∃ head, (directories machine va make pml4).2.pmm = { machine.pmm with physMemHead := head } := by
  let user : Bool := va < higherHalfStart
  obtain ⟨_, first⟩ := descend_head (some pml4, machine) va 39 make user
  obtain ⟨_, second⟩ := descend_head (descend (some pml4, machine) va 39 make user) va 30 make user
  obtain ⟨head, third⟩ := descend_head (descend (descend (some pml4, machine) va 39 make user) va 30 make user) va 21
    make user
  refine ⟨head, third.trans ?_⟩
  rw [second, first]

/-! ## get_page -/

/-- The entry that `alloc_frame` leaves. -/
theorem allocFrame_entry {pmm pmm' : Pmm} {page entry : Entry} {user isWriteable : Bool}
    (returned : allocFrame pmm page user isWriteable = some (entry, pmm')) :
    ∃ bitNo, freeFrameBitNo pmm = some bitNo ∧ setFrame pmm bitNo = some pmm' ∧
      entry = { page with
        present := true
        rw := isWriteable
        user := user
        frame := field40 ((pmm'.usableStart + bitNo * frameSize) >>> 12) } := by
  rw [allocFrame_eq] at returned
  generalize freeFrameBitNo pmm = found at returned ⊢
  cases found with
  | none => simp at returned
  | some bitNo =>
      obtain ⟨marked, set, pair⟩ := Option.map_eq_some_iff.mp returned
      obtain ⟨rfl, rfl⟩ := Prod.mk.inj pair
      exact ⟨bitNo, rfl, set, rfl⟩

/-- What a call of `get_page` does to the entries, whether it returns a page or not. -/
structure Got (before after : Machine) (root : TableBase) (va : UInt64) (result : Option UInt64) : Prop where
  tree : after.IsTree root
  cr3 : after.cr3 = before.cr3
  others : ∀ {path}, path.length ≤ 4 → (path = [] ∨ ¬ path <:+ pagePath va) →
    after.entry root path = before.entry root path
  kept : ∀ {path}, path.length ≤ 4 → (before.entry root path).present = true →
    (after.entry root path).present = true ∧ (after.entry root path).frame = (before.entry root path).frame
  low : ∀ {path}, path.length ≤ 3 → (before.entry root path).Low → (after.entry root path).Low
  marked : ∀ {path}, path <:+ directoryPath va →
    after.entry root path = before.entry root path ∨ (after.entry root path).user = decide (va < higherHalfStart)
  page : after.entry root (pagePath va) = before.entry root (pagePath va) ∨
    (before.entry root (pagePath va)).present = false ∧
      (after.entry root (pagePath va)).user = decide (va < higherHalfStart)
  walked : after.table root (directoryPath va) = none ∨ ∀ {path}, path <:+ directoryPath va → path ≠ [] →
    (after.entry root path).user = decide (va < higherHalfStart)
  supply : ∃ head,
    after.pmm = { before.pmm with physMemHead := head } ∧
      (∀ {slot}, result = some slot → (before.entry root (pagePath va)).present = true) ∨
    (before.entry root (pagePath va)).present = false ∧ ∃ bitNo, freeFrameBitNo before.pmm = some bitNo ∧
      setFrame { before.pmm with physMemHead := head } bitNo = some after.pmm
  found : ∀ {slot}, result = some slot →
    (∃ table, after.table root (directoryPath va) = some table ∧ slot = table.slot (tableIndex va 12)) ∧
    (after.entry root (pagePath va)).present = true

theorem getPage_got {before after : Machine} {root : TableBase} {va : UInt64} {make : Bool} {result : Option UInt64}
    (nonnull : root.base ≠ 0) (tree : before.IsTree root) (low : before.LowTables root va)
    (supplied : make = true → Supplied before root va)
    (returned : getPage before va make root.base = some (result, after)) : Got before after root va result := by
  have walk := descended_directories tree low supplied
  have length : (pagePath va).length ≤ 4 := Nat.le_refl 4
  obtain ⟨head, supply⟩ := directories_head before va make root.base
  rw [getPage_eq_directories, if_neg nonnull] at returned
  generalize directories before va make root.base = state at walk supply returned
  have page := walk.others length (.inr (not_cons_suffix _ _))
  have others : ∀ {path}, path.length ≤ 4 → (path = [] ∨ ¬ path <:+ pagePath va) →
      state.2.entry root path = before.entry root path := fun short off =>
    walk.others short (off.imp_right fun off on => off (List.suffix_cons_iff.mpr (.inr on)))
  obtain ⟨_ | base, walked⟩ := state
  · obtain ⟨rfl, rfl⟩ := Prod.mk.inj (Option.some.inj returned)
    exact ⟨walk.tree, walk.cr3, others, walk.kept, walk.low, walk.marked, .inl page,
      .inl (walk.ended rfl), ⟨head, .inl ⟨supply, fun found => absurd found (by simp)⟩⟩,
      fun found => absurd found (by simp)⟩
  · obtain ⟨table, rfl, reached, above⟩ := walk.reached rfl
    dsimp only at returned reached above page others
    rw [tableSlot_eq_slot] at returned
    have here : walked.entry root (pagePath va) = walked.slots (table.slot (tableIndex va 12)) :=
      RadixLayout.entry_of_table reached
    unfold leafPage at returned
    dsimp only at returned
    split_ifs at returned with present
    · -- the page is there already
      obtain ⟨rfl, rfl⟩ := Prod.mk.inj (Option.some.inj returned)
      refine ⟨walk.tree, walk.cr3, others, walk.kept, walk.low, walk.marked, .inl page, .inr above,
        ⟨head, .inl ⟨supply, fun _ => by rw [← page, here, present]⟩⟩, fun found => ?_⟩
      exact ⟨⟨table, reached, (Option.some.inj found).symm⟩, by rw [here, present]⟩
    · obtain ⟨⟨entry, pmm⟩, allocated, finished⟩ := Option.map_eq_some_iff.mp returned
      dsimp only at supply
      obtain ⟨bitNo, free, marked, written⟩ := allocFrame_entry allocated
      rw [supply] at free marked
      have given : entry.present = true ∧ entry.user = decide (va < higherHalfStart) := by
        rw [written]
        exact ⟨rfl, rfl⟩
      have set : EntrySet walked ({ walked with pmm := pmm }.setSlot (table.slot (tableIndex va 12)) entry) root
          (pagePath va) entry :=
        Machine.IsTree.setSlot walk.tree reached (Nat.le_refl 3) fun short => absurd short (Nat.lt_irrefl 3)
      have ends : after = { walked with pmm := pmm }.setSlot (table.slot (tableIndex va 12)) entry ∧
          ∀ {slot}, result = some slot → slot = table.slot (tableIndex va 12) := by
        dsimp only at finished
        split_ifs at finished with zero
        · obtain ⟨rfl, rfl⟩ := Prod.mk.inj finished
          exact ⟨rfl, fun found => absurd found (by simp)⟩
        · obtain ⟨rfl, rfl⟩ := Prod.mk.inj finished
          exact ⟨rfl, fun found => (Option.some.inj found).symm⟩
      obtain ⟨rfl, slots⟩ := ends
      have self := set.entry_self length
      have absent : (before.entry root (pagePath va)).present = false := by
        rw [← page, here]
        simpa using present
      have same : ∀ {path}, path <:+ directoryPath va →
          Machine.entry _ root path = walked.entry root path := fun {path} on =>
        set.entry_other (Nat.le_trans on.length_le (Nat.le_succ 3)) fun equal => not_cons_suffix _ _ (equal ▸ on)
      refine ⟨set.tree, set.cr3.trans walk.cr3, fun {path} short off => ?_, fun {path} short there => ?_,
        fun {path} short low => ?_, fun {path} on => ?_, .inr ⟨absent, by rw [self, given.2]⟩, .inr fun {path} on nonempty => ?_,
        ⟨head, .inr ⟨absent, bitNo, free, marked⟩⟩, fun {slot} found => ⟨⟨table, ?_, slots found⟩, by rw [self, given.1]⟩⟩
      · rw [set.entry_other short]
        · exact others short off
        · rintro rfl
          rcases off with nil | off
          · exact absurd nil (List.cons_ne_nil _ _)
          · exact off List.suffix_rfl
      · have other : path ≠ pagePath va := by
          rintro rfl
          rw [absent] at there
          exact absurd there (by decide)
        rw [set.entry_other short other]
        exact walk.kept short there
      · have other : path ≠ pagePath va := by
          rintro rfl
          rw [length_pagePath] at short
          omega
        rw [set.entry_other (Nat.le_succ_of_le short) other]
        exact walk.low short low
      · rw [same on]
        exact walk.marked on
      · rw [same on]
        exact above on nonempty
      · rw [Machine.table_directoryPath, same List.suffix_rfl, ← Machine.table_directoryPath]
        exact reached

/-! ## vm_alloc and vm_free -/

section Calls

variable {before after : Machine} {root : TableBase}

/-- The entry behind the slot that `get_page` returns is the page entry, and may be set. -/
theorem Got.page_slot {va slot : UInt64} (got : Got before after root va (some slot)) :
    after.slots slot = after.entry root (pagePath va) ∧
      ∀ pmm entry, EntrySet after ({ after with pmm := pmm }.setSlot slot entry) root (pagePath va) entry := by
  obtain ⟨⟨table, found, rfl⟩, -⟩ := got.found rfl
  exact ⟨(RadixLayout.entry_of_table found).symm, fun pmm entry =>
    Machine.IsTree.setSlot got.tree found (Nat.le_refl 3) fun short => absurd short (Nat.lt_irrefl 3)⟩

theorem not_suffix_pagePath {va : UInt64} {path : List (Fin 512)} (page : path ≠ pagePath va)
    (directory : path ≠ directoryPath va) (long : 3 ≤ path.length) : ¬ path <:+ pagePath va := by
  intro on
  rcases List.suffix_cons_iff.mp on with same | above
  · exact page same
  · exact directory (above.eq_of_length (Nat.le_antisymm above.length_le long))

/-- Page entries of other pages stay as they are. -/
theorem Got.page_other {va other : UInt64} {result : Option UInt64} (got : Got before after root va result)
    (different : pagePath other ≠ pagePath va) :
    after.entry root (pagePath other) = before.entry root (pagePath other) :=
  got.others (Nat.le_of_eq (length_pagePath other))
    (.inr (not_suffix_pagePath different (pagePath_ne_directoryPath other va) (Nat.le_succ 3)))

/-- Directory entries stay low. -/
theorem Got.lowTables {va other : UInt64} {result : Option UInt64} (got : Got before after root va result)
    (low : before.LowTables root other) : after.LowTables root other := fun path member nonempty =>
  got.low ((List.mem_tails _ _).mp member).length_le (low path member nonempty)

/-- A page entry is no directory entry. -/
theorem EntrySet.lowTables {va other : UInt64} {entry : Entry} (set : EntrySet before after root (pagePath va) entry)
    (low : before.LowTables root other) : after.LowTables root other := by
  intro path member nonempty
  have short : path.length ≤ 3 := ((List.mem_tails _ _).mp member).length_le
  rw [set.entry_other (Nat.le_succ_of_le short)]
  · exact low path member nonempty
  · rintro rfl
    rw [length_pagePath] at short
    omega

/-- `vm_alloc` gives up, or sets the page entry once more. -/
theorem vmAlloc_cases {va : UInt64} {type : AllocationType} (nonnull : root.base ≠ 0) (cr3 : before.cr3 = root.base)
    (tree : before.IsTree root) (low : before.LowTables root va) (supplied : Supplied before root va)
    (returned : vmAlloc before va type = some after) :
    getPage before va true root.base = some (none, after) ∧ Got before after root va none ∨
    ∃ between slot page entry, Got before between root va (some slot) ∧
      allocFrame between.pmm (between.entry root (pagePath va)) (higherHalfStart ≤ va) true = some (page, after.pmm) ∧
      EntrySet between after root (pagePath va) entry ∧
      entry.present = true ∧ entry.frame = page.frame ∧ entry.user = decide (higherHalfStart ≤ va) := by
  unfold vmAlloc at returned
  rw [cr3] at returned
  cases walk : getPage before va true root.base with
  | none => simp [walk] at returned
  | some outcome =>
      obtain ⟨_ | slot, between⟩ := outcome
      · rw [walk] at returned
        obtain rfl := Option.some.inj returned
        exact .inl ⟨rfl, getPage_got nonnull tree low (fun _ => supplied) walk⟩
      · have got := getPage_got nonnull tree low (fun _ => supplied) walk
        obtain ⟨here, set⟩ := got.page_slot
        rw [walk] at returned
        obtain ⟨⟨page, pmm⟩, allocated, finished⟩ := Option.map_eq_some_iff.mp returned
        obtain ⟨bitNo, -, -, written⟩ := allocFrame_entry allocated
        have given : page.present = true ∧ page.user = decide (higherHalfStart ≤ va) := by
          rw [written]
          exact ⟨rfl, rfl⟩
        rw [here] at allocated
        right
        cases type <;> obtain rfl := finished <;>
          exact ⟨between, slot, page, _, got, allocated, set pmm _, given.1, rfl, given.2⟩

/-- `vm_free` does nothing, or finds no page, or clears the page entry. -/
theorem vmFree_cases {ptr : UInt64} (nonnull : root.base ≠ 0) (cr3 : before.cr3 = root.base)
    (tree : before.IsTree root) (low : before.LowTables root ptr) (returned : vmFree before ptr = some after) :
    ptr = 0 ∧ after = before ∨ Got before after root ptr none ∨
    ∃ between slot page entry, Got before between root ptr (some slot) ∧
      freeFrame between.pmm (between.entry root (pagePath ptr)) = some (page, after.pmm) ∧
      EntrySet between after root (pagePath ptr) entry ∧ entry.present = false ∧ entry.user = false := by
  unfold vmFree at returned
  split_ifs at returned with null
  · exact .inl ⟨null, (Option.some.inj returned).symm⟩
  · right
    rw [cr3] at returned
    cases walk : getPage before ptr false root.base with
    | none => simp [walk] at returned
    | some outcome =>
        have unmade : false = true → Supplied before root ptr := fun made => absurd made (by decide)
        obtain ⟨_ | slot, between⟩ := outcome
        · rw [walk] at returned
          obtain rfl := Option.some.inj returned
          exact .inl (getPage_got nonnull tree low unmade walk)
        · have got := getPage_got nonnull tree low unmade walk
          obtain ⟨here, set⟩ := got.page_slot
          have present := (got.found rfl).2
          rw [walk] at returned
          dsimp only at returned
          rw [here, if_pos present] at returned
          obtain ⟨⟨page, pmm⟩, freed, finished⟩ := Option.map_eq_some_iff.mp returned
          obtain rfl := finished
          exact .inr ⟨between, slot, page, _, got, freed, set pmm _, rfl, rfl⟩

end Calls

end KeblaOS.Memory
