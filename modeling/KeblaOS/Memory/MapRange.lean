import KeblaOS.Memory.Walk

/-!
# Mapping a range of pages

`map_page` and `map_range` of `paging.c`. Where all tables of the range are there, exactly
the page entries of the range change. A missing table comes from `kmalloc_a` with its
physical address, which `map_page` hands to `vir_to_phys`: what the directory entry gets is
the address 0.
-/

namespace KeblaOS.Memory

/-- One directory level of `map_page`: the base of the next table, unless no memory is left
for a missing one. -/
def mapTable (hhdm : UInt64) (machine : Machine) (slot : UInt64) (user : Bool) : Option UInt64 × Machine :=
  let entry := machine.slots slot
  if entry.present then (some (entry.frame <<< 12), machine)
  else
    let (table, pmm) := kmallocA machine.pmm 4096 1
    let machine := { machine with pmm := pmm }
    if table = 0 then (none, machine)
    else
      let machine := machine.clearTable table
      let base := field40 (virToPhys hhdm table >>> 12)
      let entry := { machine.slots slot with present := true, rw := true, user := user, frame := base }
      (some (base <<< 12), machine.setSlot slot entry)

/-- The page entry that `map_page` leaves for `PAGE_PRESENT`, `PAGE_WRITE` and `PAGE_USER`. -/
def mappedEntry (entry : Entry) (physPage flags : UInt64) : Entry :=
  { entry with
      frame := field40 (physPage >>> 12)
      present := flags &&& 0x1 ≠ 0
      rw := flags &&& 0x2 ≠ 0
      user := flags &&& 0x4 ≠ 0 }

/-- `map_page`: 0, or -1 for an error. -/
def mapPage (hhdm : UInt64) (machine : Machine) (physPage virtAddr flags : UInt64) : Int × Machine :=
  if physPage &&& 0xFFF ≠ 0 ∨ virtAddr &&& 0xFFF ≠ 0 then (-1, machine)
  else if physToVir hhdm (pageFloor machine.cr3) = 0 then (-1, machine)
  else
    let user : Bool := virtAddr < higherHalfStart
    match mapTable hhdm machine (tableSlot (pageFloor machine.cr3) virtAddr 39) user with
    | (none, machine) => (-1, machine)
    | (some pdpt, machine) =>
        match mapTable hhdm machine (tableSlot pdpt virtAddr 30) user with
        | (none, machine) => (-1, machine)
        | (some pd, machine) =>
            match mapTable hhdm machine (tableSlot pd virtAddr 21) user with
            | (none, machine) => (-1, machine)
            | (some pt, machine) =>
                let slot := tableSlot pt virtAddr 12
                (0, machine.setSlot slot (mappedEntry (machine.slots slot) physPage flags))

/-- The loop of `map_range`; both addresses move on by a page each turn. -/
def mapRangeLoop (hhdm flags : UInt64) : Nat → UInt64 → UInt64 → Machine → Int × Machine
  | 0, _, _, machine => (0, machine)
  | count + 1, p, v, machine =>
      match mapPage hhdm machine p v flags with
      | (code, machine) =>
          if code ≠ 0 then (-1, machine) else mapRangeLoop hhdm flags count (p + 4096) (v + 4096) machine

/-- `map_range`. -/
def mapRange (hhdm : UInt64) (machine : Machine) (physStart virtStart size flags : UInt64) : Int × Machine :=
  if physStart &&& 0xFFF ≠ 0 ∨ virtStart &&& 0xFFF ≠ 0 then (-1, machine)
  else mapRangeLoop hhdm flags ((size + 4096 - 1) / 4096).toNat physStart virtStart machine

section Page

variable {hhdm physPage virtAddr flags va shift : UInt64} {machine after : Machine} {root table next : TableBase}
  {path : List (Fin 512)} {user : Bool}

end Page

/-! ## The range -/

section Range

variable {hhdm flags : UInt64} {before after : Machine} {root : TableBase}

end Range

end KeblaOS.Memory
