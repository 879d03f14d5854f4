import KeblaOS.Memory.Pmm

/-!
# Page tables

`alloc_frame`, `free_frame` and `get_page` of `paging.c` and `vm_alloc`, `vm_free` of
`vmm.c`. Directory and page entries share one layout; the bits that no function below
reads or writes are left out. The tables live in physical memory, addressed by 8-byte
slots. Each 4 KiB table is reached through its base address, whatever virtual alias the
code uses for it; `get_page` loses the bits of that address from bit 40 on.
-/

namespace KeblaOS.Memory

/-- `page_t` and `dir_entry_t`; `frame` is the 40-bit frame number or table base. -/
structure Entry where
  present : Bool
  rw : Bool
  user : Bool
  frame : UInt64
  nx : Bool
deriving DecidableEq

/-- Store into a 40-bit field. -/
def field40 (value : UInt64) : UInt64 := value &&& 0xFFFFFFFFFF

/-- `base_addr << 12`, without a cast: the shift is computed in the 40 bits of the field. -/
def tableAddress (baseAddr : UInt64) : UInt64 := field40 (baseAddr <<< 12)

/-- How the search of `alloc_frame` ends: with a bit, in its branch for want of a frame, or in the
assertion of `free_frame_bit_no`. The last two halt the kernel. -/
inductive FrameSearch where
  | found (bitNo : UInt64)
  | noFreeFrames
  | assertion
deriving DecidableEq

def searchFrame (pmm : Pmm) : FrameSearch :=
  match freeFrameBitNo pmm with
  | none => .assertion
  | some bitNo => if bitNo = 0xFFFFFFFFFFFFFFFF then .noFreeFrames else .found bitNo

/-- `alloc_frame`; `none` when the kernel halts. -/
def allocFrame (pmm : Pmm) (page : Entry) (user isWriteable : Bool) : Option (Entry × Pmm) :=
  match searchFrame pmm with
  | .noFreeFrames | .assertion => none
  | .found bitNo =>
      (setFrame pmm bitNo).map fun pmm =>
        ({ page with
            present := true
            rw := isWriteable
            user := user
            frame := field40 ((pmm.usableStart + bitNo * frameSize) >>> 12) }, pmm)

/-- `PHYS_ADDR_TO_BIT_NO`. -/
def physAddrToBitNo (pmm : Pmm) (physAddr : UInt64) : UInt64 :=
  if physAddr ≤ pmm.usableStart then 0 else (physAddr - pmm.usableStart) / frameSize

/-- `free_frame`. -/
def freeFrame (pmm : Pmm) (page : Entry) : Option (Entry × Pmm) :=
  if page.frame ≠ 0 then
    let frameAddr := page.frame <<< 12
    if pmm.usableEnd ≤ frameAddr then some ({ page with frame := 0 }, pmm)
    else (clearFrame pmm (physAddrToBitNo pmm frameAddr)).map fun pmm =>
      ({ page with frame := 0 }, pmm)
  else some (page, pmm)

/-! ## Tables -/

/-- The memory manager, the entries of all tables by the physical address of their slot,
and the base of the top table. -/
structure Machine where
  pmm : Pmm
  slots : UInt64 → Entry
  cr3 : UInt64

/-- An entry of zeroed memory. -/
def zeroEntry : Entry := ⟨false, false, false, 0, false⟩

/-- Store into one slot. -/
def Machine.setSlot (machine : Machine) (slot : UInt64) (entry : Entry) : Machine :=
  { machine with slots := Function.update machine.slots slot entry }

/-- `memset(table, 0, 4096)`. -/
def Machine.clearTable (machine : Machine) (table : UInt64) : Machine :=
  { machine with slots := fun slot => if slot - table < 4096 then zeroEntry else machine.slots slot }

/-- `HIGHER_HALF_START_ADDR`. -/
def higherHalfStart : UInt64 := 0xFFFF800000001000

/-- The slot of a virtual address in the table at `base`, for the index that starts at bit
`shift`. -/
def tableSlot (base va shift : UInt64) : UInt64 := base + 8 * ((va >>> shift) &&& 0x1FF)

/-- One directory level of `get_page`: the base of the next table, unless it is missing and
may not be made or no memory is left for it. -/
def nextTable (machine : Machine) (slot : UInt64) (make user : Bool) : Option UInt64 × Machine :=
  let entry := machine.slots slot
  if entry.present then
    (some (tableAddress entry.frame), machine.setSlot slot { entry with user := user })
  else if make then
    let (table, pmm) := kmallocA machine.pmm 4096 1
    let machine := { machine with pmm := pmm }
    if table = 0 then (none, machine)
    else
      let machine := machine.clearTable table
      let base := field40 (table >>> 12)
      let entry := { machine.slots slot with present := true, rw := true, user := user, frame := base }
      (some (tableAddress base), machine.setSlot slot entry)
  else (none, machine)

/-- The last part of `get_page`: a missing page gets a frame, whatever `make` says. -/
def leafPage (machine : Machine) (slot : UInt64) (user : Bool) : Option (Option UInt64 × Machine) :=
  let page := machine.slots slot
  if page.present then some (some slot, machine)
  else
    (allocFrame machine.pmm page user true).map fun (page, pmm) =>
      let machine := { machine with pmm := pmm }.setSlot slot page
      if page.frame = 0 then (none, machine) else (some slot, machine)

/-- `get_page`: the slot of the page entry, or null; `none` when the kernel halts. -/
def getPage (machine : Machine) (va : UInt64) (make : Bool) (pml4 : UInt64) :
    Option (Option UInt64 × Machine) :=
  if pml4 = 0 then some (none, machine)
  else
    let user : Bool := va < higherHalfStart
    match nextTable machine (tableSlot pml4 va 39) make user with
    | (none, machine) => some (none, machine)
    | (some pdpt, machine) =>
        match nextTable machine (tableSlot pdpt va 30) make user with
        | (none, machine) => some (none, machine)
        | (some pd, machine) =>
            match nextTable machine (tableSlot pd va 21) make user with
            | (none, machine) => some (none, machine)
            | (some pt, machine) => leafPage machine (tableSlot pt va 12) user

/-- `enum allocation_type`; other values of the argument are an error. -/
inductive AllocationType where
  | code
  | data
  | stack
  | invalid
deriving DecidableEq

/-- `vm_alloc`. -/
def vmAlloc (machine : Machine) (va : UInt64) (type : AllocationType) : Option Machine :=
  match getPage machine va true machine.cr3 with
  | none => none
  | some (none, machine) => some machine
  | some (some slot, machine) =>
      (allocFrame machine.pmm (machine.slots slot) (higherHalfStart ≤ va) true).map fun (page, pmm) =>
        let machine := { machine with pmm := pmm }
        match type with
        | .code => machine.setSlot slot { page with rw := false, nx := true }
        | .data => machine.setSlot slot { page with rw := true, nx := true }
        | .stack => machine.setSlot slot { page with rw := true, nx := true }
        | .invalid => machine.setSlot slot page

/-- `vm_free`. -/
def vmFree (machine : Machine) (ptr : UInt64) : Option Machine :=
  if ptr = 0 then some machine
  else
    match getPage machine ptr false machine.cr3 with
    | none => none
    | some (none, machine) => some machine
    | some (some slot, machine) =>
        let page := machine.slots slot
        if page.present then
          (freeFrame machine.pmm page).map fun (page, pmm) =>
            { machine with pmm := pmm }.setSlot slot
              { page with present := false, rw := false, user := false, frame := 0 }
        else some machine

end KeblaOS.Memory
