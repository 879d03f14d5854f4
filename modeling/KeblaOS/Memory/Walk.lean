import KeblaOS.Memory.GetPageRun

/-!
# What the processor makes of an address

For a canonical address the processor walks four levels of tables from `cr3` down and ends
at a page entry, unless a table is missing on the way. Seen by paths these are the entries
above the page and the page entry itself. `phys_to_vir` and `vir_to_phys` are what the
kernel takes for the same translation: an offset, which the bootloader chooses.
-/

namespace KeblaOS.Memory

/-- `phys_to_vir`, with `HHDM_OFFSET`. -/
def physToVir (hhdm pa : UInt64) : UInt64 := pa + hhdm

/-- `vir_to_phys`, with `HHDM_OFFSET`. -/
def virToPhys (hhdm va : UInt64) : UInt64 :=
  if va = 0 then 0
  else if va ≤ hhdm then 0
  else va - hhdm

/-- `addr & ~0xFFF`. -/
def pageFloor (addr : UInt64) : UInt64 := addr &&& 0xFFFFFFFFFFFFF000

/-- The entries read from the table at `base` on, for indices that start at the bits given. -/
def walkFrom (machine : Machine) (base va : UInt64) : List UInt64 → List Entry
  | [] => []
  | shift :: shifts =>
      let entry := machine.slots (tableSlot base va shift)
      entry :: if entry.present then walkFrom machine (entry.frame <<< 12) va shifts else []

/-- The entries of the hardware's walk; an address that is not canonical has none. -/
def Machine.walk (machine : Machine) (va : UInt64) : List Entry :=
  if Canonical va then walkFrom machine (pageFloor machine.cr3) va [39, 30, 21, 12] else []

/-- The page entry at the end of the walk. -/
def Machine.walkedPage (machine : Machine) (va : UInt64) : Option Entry := (machine.walk va)[3]?

/-- The physical address that the processor accesses. -/
def Machine.translate (machine : Machine) (va : UInt64) : Option UInt64 :=
  (machine.walkedPage va).bind fun page =>
    if page.present then some ((page.frame <<< 12) + (va &&& 0xFFF)) else none

theorem toNat_pageFloor (addr : UInt64) : (pageFloor addr).toNat = addr.toNat / 4096 * 4096 := by
  have mask : ∀ i < 64, Nat.testBit 0xFFFFFFFFFFFFF000 i = decide (12 ≤ i) := by decide
  have shifted : addr.toNat / 4096 * 4096 = (addr.toNat >>> 12) <<< 12 := by
    rw [Nat.shiftLeft_eq, Nat.shiftRight_eq_div_pow]
  rw [shifted, pageFloor, UInt64.toNat_and]
  apply Nat.eq_of_testBit_eq
  intro i
  rw [Nat.testBit_and, Nat.testBit_shiftLeft, Nat.testBit_shiftRight]
  by_cases inside : i < 64
  · rw [show (0xFFFFFFFFFFFFF000 : UInt64).toNat = 0xFFFFFFFFFFFFF000 from rfl, mask i inside]
    by_cases high : 12 ≤ i
    · simp [high]
    · simp [high]
  · have above : addr.toNat.testBit i = false :=
      Nat.testBit_lt_two_pow (Nat.lt_of_lt_of_le addr.toNat_lt (Nat.pow_le_pow_right (by decide) (Nat.not_lt.mp inside)))
    simp [above, Nat.add_sub_cancel' (show 12 ≤ i by omega)]

/-! ## Pages after an address -/

theorem toNat_add_pages {base : UInt64} {count : Nat} (room : base.toNat + 4096 * count < 18446744073709551616) :
    (base + 4096 * UInt64.ofNat count).toNat = base.toNat + 4096 * count := by
  rw [UInt64.toNat_add, UInt64.toNat_mul, UInt64.toNat_ofNat']
  show (base.toNat + 4096 * (count % 18446744073709551616) % 18446744073709551616) % 18446744073709551616 = _
  omega

theorem add_pages_zero (base : UInt64) : base + 4096 * UInt64.ofNat 0 = base := by
  show base + 4096 * 0 = base
  rw [UInt64.mul_zero, UInt64.add_zero]

theorem add_pages_succ (base : UInt64) (count : Nat) :
    base + 4096 * UInt64.ofNat (count + 1) = base + 4096 + 4096 * UInt64.ofNat count := by
  rw [UInt64.ofNat_add]
  grind

/-! ## Walks and paths -/

section Walks

variable {machine before after : Machine} {root table table' : TableBase} {path : List (Fin 512)} {va : UInt64}

/-- A level of the walk with its table. -/
theorem walkFrom_entry {shift : UInt64} {shifts : List UInt64} (found : machine.table root path = some table) :
    walkFrom machine table.base va (shift :: shifts) =
      machine.entry root (tableIndex va shift :: path) ::
        if (machine.entry root (tableIndex va shift :: path)).present then
          walkFrom machine ((machine.entry root (tableIndex va shift :: path)).frame <<< 12) va shifts
        else [] := by
  have entry : machine.entry root (tableIndex va shift :: path) = machine.slots (table.slot (tableIndex va shift)) :=
    RadixLayout.entry_of_table found
  rw [entry, ← tableSlot_eq_slot, walkFrom]

/-- A level of the walk that goes on to the next table. -/
theorem walkFrom_table {shift : UInt64} {shifts : List UInt64} {next : TableBase}
    (found : machine.table root path = some table)
    (below : machine.table root (tableIndex va shift :: path) = some next) :
    walkFrom machine table.base va (shift :: shifts) =
      machine.entry root (tableIndex va shift :: path) :: walkFrom machine next.base va shifts := by
  rw [Machine.table_cons] at below
  have present := Entry.present_of_table below
  rw [Entry.table, if_pos present] at below
  rw [walkFrom_entry found, if_pos present, ← Option.some.inj below]

/-- With all its tables present the walk ends at the page entry. -/
theorem Machine.walkedPage_of_table (cr3 : pageFloor machine.cr3 = root.base) (canonical : Canonical va)
    (found : machine.table root (directoryPath va) = some table) :
    machine.walkedPage va = some (machine.entry root (pagePath va)) := by
  obtain ⟨pd, second, -⟩ := RadixLayout.table_of_cons found
  obtain ⟨pdpt, first, -⟩ := RadixLayout.table_of_cons second
  have start : machine.table root [] = some root := rfl
  rw [Machine.walkedPage, Machine.walk, if_pos canonical, cr3, walkFrom_table start first, walkFrom_table first second,
    walkFrom_table second found, walkFrom_entry found]
  rfl

/-- A present page is translated through its frame. -/
theorem Machine.translate_of_present (cr3 : pageFloor machine.cr3 = root.base) (canonical : Canonical va)
    (present : (machine.entry root (pagePath va)).present = true) :
    machine.translate va = some (((machine.entry root (pagePath va)).frame <<< 12) + (va &&& 0xFFF)) := by
  have reached : ∃ table, machine.table root (directoryPath va) = some table := by
    cases found : machine.table root (directoryPath va) with
    | none =>
        have blank : machine.entry root (pagePath va) = zeroEntry := RadixLayout.entry_of_none found
        rw [blank] at present
        exact absurd present (by decide)
    | some table => exact ⟨table, rfl⟩
  obtain ⟨table, found⟩ := reached
  rw [Machine.translate, Machine.walkedPage_of_table cr3 canonical found, Option.bind_some, if_pos present]

end Walks

end KeblaOS.Memory
