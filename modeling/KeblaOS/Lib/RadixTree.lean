import Mathlib.Logic.Function.Basic
import Mathlib.Data.List.Basic

/-!
# Radix trees in memory

Tables of entries below a root, with `depth` levels of entries that name further tables
and one level of entries that do not. A path lists the indices from the last one to the
first. `entry` is the abstract view of such a tree, one entry for every path, where the
entries of missing tables are blank: in this view changing an entry and hanging up a new
table touch a single path. That needs that no table is reached twice (`IsTree`).
-/

namespace KeblaOS

/-- How tables lie in memory, and which table an entry names. -/
structure RadixLayout (Table Index Slot Entry : Type*) where
  slot : Table → Index → Slot
  child : Entry → Option Table
  blank : Entry
  depth : Nat
  slot_injective : ∀ {table index table' index'}, slot table index = slot table' index' →
    table = table' ∧ index = index'
  child_blank : child blank = none

namespace RadixLayout

variable {Table Index Slot Entry : Type*} (layout : RadixLayout Table Index Slot Entry)

/-- The table at the end of a path. -/
def table (memory : Slot → Entry) (root : Table) : List Index → Option Table
  | [] => some root
  | index :: path => (table memory root path).bind fun table => layout.child (memory (layout.slot table index))

/-- The entry at the end of a path; blank where there is no table for it. -/
def entry (memory : Slot → Entry) (root : Table) : List Index → Entry
  | [] => layout.blank
  | index :: path =>
      match layout.table memory root path with
      | some table => memory (layout.slot table index)
      | none => layout.blank

/-- No table is reached by two paths. -/
def IsTree (memory : Slot → Entry) (root : Table) : Prop :=
  ∀ {path path' : List Index} {table : Table}, path.length ≤ layout.depth → path'.length ≤ layout.depth →
    layout.table memory root path = some table → layout.table memory root path' = some table → path = path'

variable {layout} {memory after : Slot → Entry} {root table fresh : Table} {path : List Index} {index : Index}
  {value : Entry}

theorem entry_of_table (found : layout.table memory root path = some table) :
    layout.entry memory root (index :: path) = memory (layout.slot table index) := by
  rw [entry, found]

theorem entry_of_none (missing : layout.table memory root path = none) :
    layout.entry memory root (index :: path) = layout.blank := by
  rw [entry, missing]

/-- The tables can be told from the entries. -/
theorem table_cons (memory : Slot → Entry) (root : Table) (index : Index) (path : List Index) :
    layout.table memory root (index :: path) = layout.child (layout.entry memory root (index :: path)) := by
  rw [RadixLayout.table]
  cases found : layout.table memory root path with
  | none => rw [entry_of_none found, layout.child_blank, Option.bind_none]
  | some table => rw [entry_of_table found, Option.bind_some]

/-- Above a table there are tables. -/
theorem table_of_cons (found : layout.table memory root (index :: path) = some table) :
    ∃ above, layout.table memory root path = some above ∧
      layout.child (memory (layout.slot above index)) = some table :=
  Option.bind_eq_some_iff.mp found

/-- A table is reached by one path only. -/
def OnlyPath (layout : RadixLayout Table Index Slot Entry) (memory : Slot → Entry) (root : Table) (path : List Index)
    (table : Table) : Prop :=
  ∀ path' : List Index, path'.length ≤ layout.depth → layout.table memory root path' = some table → path' = path

theorem IsTree.onlyPath (tree : layout.IsTree memory root) (short : path.length ≤ layout.depth)
    (found : layout.table memory root path = some table) : layout.OnlyPath memory root path table :=
  fun _ short' found' => tree short' short found' found

/-- Paths to one slot of such a table are the same. -/
theorem OnlyPath.path_of_slot (only : layout.OnlyPath memory root path table) {path' : List Index} {table' : Table}
    {index' : Index} (short' : path'.length ≤ layout.depth) (found' : layout.table memory root path' = some table')
    (same : layout.slot table' index' = layout.slot table index) : index' :: path' = index :: path := by
  obtain ⟨rfl, rfl⟩ := layout.slot_injective same
  rw [only path' short' found']

theorem IsTree.path_of_slot (tree : layout.IsTree memory root) {path' : List Index} {table' : Table} {index' : Index}
    (short : path.length ≤ layout.depth) (short' : path'.length ≤ layout.depth)
    (found : layout.table memory root path = some table) (found' : layout.table memory root path' = some table')
    (same : layout.slot table' index' = layout.slot table index) : index' :: path' = index :: path :=
  (tree.onlyPath short found).path_of_slot short' found' same

/-! ## Changing an entry -/

section Update

variable [DecidableEq Slot]

/-- An entry that keeps the table it names, or names none, may change. -/
theorem OnlyPath.table_update (only : layout.OnlyPath memory root path table)
    (kept : path.length < layout.depth → layout.child value = layout.child (memory (layout.slot table index)))
    {path' : List Index} (short' : path'.length ≤ layout.depth) :
    layout.table (Function.update memory (layout.slot table index) value) root path' =
      layout.table memory root path' := by
  induction path' with
  | nil => rfl
  | cons index' path' ih =>
      rw [List.length_cons] at short'
      rw [RadixLayout.table, ih (by omega), RadixLayout.table]
      refine Option.bind_congr fun table' found' => ?_
      by_cases same : layout.slot table' index' = layout.slot table index
      · have here := only.path_of_slot (by omega) found' same
        obtain ⟨rfl, rfl⟩ := List.cons.inj here
        rw [same, Function.update_self, kept (by omega)]
      · rw [Function.update_of_ne same]

theorem OnlyPath.entry_update [DecidableEq Index] (only : layout.OnlyPath memory root path table)
    (found : layout.table memory root path = some table)
    (kept : path.length < layout.depth → layout.child value = layout.child (memory (layout.slot table index)))
    {path' : List Index} (short' : path'.length ≤ layout.depth + 1) :
    layout.entry (Function.update memory (layout.slot table index) value) root path' =
      if path' = index :: path then value else layout.entry memory root path' := by
  cases path' with
  | nil => rw [if_neg (by simp)]; rfl
  | cons index' path' =>
      rw [List.length_cons] at short'
      have tables := @OnlyPath.table_update _ _ _ _ layout memory root table path index value _ only kept
        path' (by omega)
      cases found' : layout.table memory root path' with
      | none =>
          have other : index' :: path' ≠ index :: path := by
            intro same
            obtain ⟨rfl, rfl⟩ := List.cons.inj same
            rw [found] at found'
            exact absurd found' (by simp)
          rw [if_neg other, entry_of_none (tables.trans found'), entry_of_none found']
      | some table' =>
          rw [entry_of_table (tables.trans found'), entry_of_table found', Function.update_apply]
          refine if_congr ⟨fun same => only.path_of_slot (by omega) found' same, fun same => ?_⟩ rfl rfl
          obtain ⟨rfl, rfl⟩ := List.cons.inj same
          rw [Option.some.inj (found.symm.trans found')]

theorem IsTree.update (tree : layout.IsTree memory root) (found : layout.table memory root path = some table)
    (short : path.length ≤ layout.depth)
    (kept : path.length < layout.depth → layout.child value = layout.child (memory (layout.slot table index))) :
    layout.IsTree (Function.update memory (layout.slot table index) value) root := by
  intro first second table' short₁ short₂ found₁ found₂
  have only := tree.onlyPath short found
  rw [only.table_update kept short₁] at found₁
  rw [only.table_update kept short₂] at found₂
  exact tree short₁ short₂ found₁ found₂

end Update

/-! ## Hanging up a new table -/

/-- `after` has a blank table, not reached before, below an entry that named none. -/
structure Grafted (layout : RadixLayout Table Index Slot Entry) (memory after : Slot → Entry) (root table : Table)
    (path : List Index) (index : Index) (fresh : Table) : Prop where
  found : layout.table memory root path = some table
  short : path.length < layout.depth
  vacant : layout.child (memory (layout.slot table index)) = none
  unreached : ∀ {path'}, path'.length ≤ layout.depth → layout.table memory root path' ≠ some fresh
  blank : ∀ index', after (layout.slot fresh index') = layout.blank
  hung : layout.child (after (layout.slot table index)) = some fresh
  frame : ∀ {table' index'}, table' ≠ fresh → layout.slot table' index' ≠ layout.slot table index →
    after (layout.slot table' index') = memory (layout.slot table' index')

section Graft

variable {path' : List Index} {index' : Index} {table' : Table}

/-- Before, there was no table where the new one hangs. -/
theorem Grafted.table_none (grafted : Grafted layout memory after root table path index fresh) :
    layout.table memory root (index :: path) = none := by
  rw [RadixLayout.table, grafted.found, Option.bind_some, grafted.vacant]

/-- The new table does not hang below a path without a table. -/
theorem Grafted.ne_of_none (grafted : Grafted layout memory after root table path index fresh)
    (missing : layout.table memory root path' = none) : index' :: path' ≠ index :: path := by
  intro same
  obtain ⟨rfl, rfl⟩ := List.cons.inj same
  rw [grafted.found] at missing
  exact absurd missing (by simp)

/-- Every other slot of an old table belongs to another path and is unchanged. -/
theorem Grafted.other_slot (grafted : Grafted layout memory after root table path index fresh)
    (short' : path'.length ≤ layout.depth) (found' : layout.table memory root path' = some table')
    (different : layout.slot table' index' ≠ layout.slot table index) :
    index' :: path' ≠ index :: path ∧ after (layout.slot table' index') = memory (layout.slot table' index') := by
  constructor
  · intro here
    obtain ⟨rfl, rfl⟩ := List.cons.inj here
    exact different (by rw [Option.some.inj (grafted.found.symm.trans found')])
  · have old : table' ≠ fresh := by
      rintro rfl
      exact grafted.unreached short' found'
    exact grafted.frame old different

variable [DecidableEq Index]

theorem Grafted.table_after (grafted : Grafted layout memory after root table path index fresh)
    (tree : layout.IsTree memory root) {path' : List Index} (short' : path'.length ≤ layout.depth) :
    layout.table after root path' =
      if path' = index :: path then some fresh else layout.table memory root path' := by
  have short := grafted.short
  induction path' with
  | nil => rw [if_neg (by simp)]; rfl
  | cons index' path' ih =>
      rw [List.length_cons] at short'
      rw [RadixLayout.table, ih (by omega), RadixLayout.table]
      by_cases below : path' = index :: path
      · -- the new table names no tables yet, and there was none below it before
        subst below
        rw [if_pos rfl, Option.bind_some, grafted.blank, layout.child_blank, grafted.table_none, Option.bind_none,
          if_neg (by simp)]
      · rw [if_neg below]
        cases found' : layout.table memory root path' with
        | none =>
            rw [if_neg (grafted.ne_of_none found'), Option.bind_none, Option.bind_none]
        | some table' =>
            rw [Option.bind_some, Option.bind_some]
            by_cases same : layout.slot table' index' = layout.slot table index
            · have here := tree.path_of_slot (Nat.le_of_lt short) (by omega) grafted.found found' same
              rw [if_pos here, same, grafted.hung]
            · obtain ⟨other, unchanged⟩ := grafted.other_slot (by omega) found' same
              rw [if_neg other, unchanged]

/-- Seen by paths, only the entry that names the new table has changed. -/
theorem Grafted.entry_after (grafted : Grafted layout memory after root table path index fresh)
    (tree : layout.IsTree memory root) {path' : List Index} (short' : path'.length ≤ layout.depth + 1) :
    layout.entry after root path' =
      if path' = index :: path then after (layout.slot table index) else layout.entry memory root path' := by
  have short := grafted.short
  cases path' with
  | nil => rw [if_neg (by simp)]; rfl
  | cons index' path' =>
      rw [List.length_cons] at short'
      have inReach : path'.length ≤ layout.depth := by omega
      have tables := grafted.table_after tree inReach
      by_cases below : path' = index :: path
      · subst below
        rw [if_pos rfl] at tables
        rw [entry_of_table tables, grafted.blank, entry_of_none grafted.table_none, if_neg (by simp)]
      · rw [if_neg below] at tables
        cases found' : layout.table memory root path' with
        | none =>
            rw [if_neg (grafted.ne_of_none found'), entry_of_none (tables.trans found'), entry_of_none found']
        | some table' =>
            rw [entry_of_table (tables.trans found'), entry_of_table found']
            by_cases same : layout.slot table' index' = layout.slot table index
            · have here := tree.path_of_slot (Nat.le_of_lt short) (by omega) grafted.found found' same
              rw [if_pos here, same]
            · obtain ⟨other, unchanged⟩ := grafted.other_slot (by omega) found' same
              rw [if_neg other, unchanged]

theorem Grafted.isTree (grafted : Grafted layout memory after root table path index fresh)
    (tree : layout.IsTree memory root) : layout.IsTree after root := by
  intro first second table' short₁ short₂ found₁ found₂
  rw [grafted.table_after tree short₁] at found₁
  rw [grafted.table_after tree short₂] at found₂
  split_ifs at found₁ found₂ with here₁ here₂ here₂
  · rw [here₁, here₂]
  · rw [← found₁] at found₂
    exact absurd found₂ (grafted.unreached short₂)
  · rw [← found₂] at found₁
    exact absurd found₁ (grafted.unreached short₁)
  · exact tree short₁ short₂ found₁ found₂

end Graft

end RadixLayout

end KeblaOS
