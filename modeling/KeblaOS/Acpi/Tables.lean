import KeblaOS.Lib.Buffer
import KeblaOS.Lib.RecordWalk
import KeblaOS.Memory.MapRange

/-!
# The loops over MADT and MCFG

`parse_madt` moves on by the length that an entry gives for itself, also by zero. `parse_mcfg`
counts buses in the same eight bits that hold the last bus of an allocation, so that the counter
never gets above 255. For each function of a bus it maps 256 MB and reads registers; those of the
base addresses it reads through `pci_read_mmconfig`, which starts from a field of the table that is
reserved. An access to memory that is not mapped halts the kernel. The loops do not change a table.
-/

namespace KeblaOS.Acpi

open Buffer
open Memory (Machine physToVir mapRange)

/-! ## Memory -/

/-- All of these values, unless one is missing. -/
def loadAll {α β : Type*} (load : α → Option β) : List α → Option (List β)
  | [] => some []
  | a :: rest =>
      match load a, loadAll load rest with
      | some value, some values => some (value :: values)
      | _, _ => none

theorem isSome_loadAll {α β : Type*} {load : α → Option β} {places : List α} :
    (loadAll load places).isSome ↔ ∀ a ∈ places, (load a).isSome := by
  induction places with
  | nil => exact iff_of_true rfl fun _ impossible => absurd impossible List.not_mem_nil
  | cons a rest ih =>
      rw [List.forall_mem_cons, ← ih, loadAll]
      cases load a with
      | none => exact iff_of_false Bool.false_ne_true fun both => Bool.false_ne_true both.1
      | some value =>
          cases loadAll load rest with
          | none => exact iff_of_false Bool.false_ne_true fun both => Bool.false_ne_true both.2
          | some values => exact iff_of_true rfl ⟨rfl, rfl⟩

/-- A table of the firmware, with what lies behind it, as far as it is mapped. -/
abbrev Table : Type := Nat → Option UInt8

/-- So many bytes of a table from an offset on. -/
def Table.number (table : Table) (offset count : Nat) : Option Nat :=
  (loadAll (fun k => table (offset + k)) (List.range count)).map leNat

def Table.u32 (table : Table) (offset : Nat) : Option UInt32 := (table.number offset 4).map UInt32.ofNat

def Table.u64 (table : Table) (offset : Nat) : Option UInt64 := (table.number offset 8).map UInt64.ofNat

/-- `header.length`. -/
def tableLength (table : Table) : Option UInt32 := table.u32 4

/-- What the parsers run on: the HHDM offset, `debug_on`, and the byte that an access reads with these page tables,
unless it faults. -/
structure Platform where
  hhdm : UInt64
  debugOn : Bool
  load : Machine → UInt64 → Option UInt8

/-- A register of 32 bits. -/
def Platform.load32 (platform : Platform) (machine : Machine) (va : UInt64) : Option UInt32 :=
  (loadAll (fun k => platform.load machine (va + k)) [0, 1, 2, 3]).map fun bytes => UInt32.ofNat (leNat bytes)

/-! ## MADT -/

/-- `madt + 1`, from the start of the table. -/
def madtEntries : Nat := 44

/-- `ioapic->ioapic_addr`; with `debug_on` the other fields are read as well. -/
def ioapicEntry (debugOn : Bool) (madt : Table) (ptr : Nat) : Option UInt32 :=
  match madt.u32 (ptr + 4) with
  | none => none
  | some ioapicAddr =>
      if debugOn then
        match madt (ptr + 2), madt.u32 (ptr + 8) with
        | some _, some _ => some ioapicAddr
        | _, _ => none
      else some ioapicAddr

/-- What a round of `parse_madt` reads of an entry: its length and the value of `ioapic_addr`. Only the entries of an I/O
APIC leave something behind. -/
def madtEntry (debugOn : Bool) (madt : Table) (ptr : Nat) (ioapicAddr : UInt32) : Option (UInt8 × UInt32) :=
  match madt ptr with
  | none => none
  | some type =>
      match if type = 0x01 then ioapicEntry debugOn madt ptr else some ioapicAddr with
      | none => none
      | some ioapicAddr =>
          match madt (ptr + 1) with
          | none => none
          | some length => some (length, ioapicAddr)

/-- A round of `parse_madt`; its state is `ptr` and `ioapic_addr`. -/
def madtRound (debugOn : Bool) (madt : Table) (state : Nat × UInt32) : Round (Nat × UInt32) UInt32 :=
  match tableLength madt with
  | none => .fault
  | some length =>
      if state.1 < length.toNat then
        match madtEntry debugOn madt state.1 state.2 with
        | none => .fault
        | some (entryLength, ioapicAddr) => .goes (state.1 + entryLength.toNat, ioapicAddr)
      else .ends state.2

/-- `parse_madt` returns. -/
def MadtParsed (debugOn : Bool) (madt : Option Table) (ioapicAddr : UInt32) : Prop :=
  ∀ table, madt = some table → Completes (madtRound debugOn table) (madtEntries, ioapicAddr)

/-- `entry->length`. -/
def entryLength (madt : Table) (ptr : Nat) : Nat := ((madt (ptr + 1)).getD 0).toNat

/-- The places of the entries `parse_madt` gets to. -/
def MadtReaches (madt : Table) (length : UInt32) : Nat → Prop :=
  Meets (fun ptr => ptr < length.toNat) (fun ptr => ptr + entryLength madt ptr) madtEntries

/-- What is read of an entry is mapped. -/
structure EntryReadable (debugOn : Bool) (madt : Table) (ptr : Nat) : Prop where
  type : (madt ptr).isSome
  length : (madt (ptr + 1)).isSome
  ioapic : madt ptr = some 0x01 → (madt.u32 (ptr + 4)).isSome ∧
    (debugOn = true → (madt (ptr + 2)).isSome ∧ (madt.u32 (ptr + 8)).isSome)

/-- Every entry that is reached can be read and has a length other than zero. -/
def EntriesAdvance (debugOn : Bool) (madt : Table) : Prop :=
  ∃ length, tableLength madt = some length ∧ ∀ ptr, MadtReaches madt length ptr → ptr < length.toNat →
    EntryReadable debugOn madt ptr ∧ entryLength madt ptr ≠ 0

/-! ## MCFG -/

/-- `mcfg_alloc_t`, as far as it is used. -/
structure Allocation where
  baseAddress : UInt64
  segmentGroup : Nat
  startBus : UInt8
  endBus : UInt8

/-- `alloc[i]`. All fields are read before the first bus. -/
def allocation (mcfg : Table) (i : UInt32) : Option Allocation :=
  match mcfg.u64 (44 + 16 * i.toNat), mcfg.number (44 + 16 * i.toNat + 8) 2, mcfg (44 + 16 * i.toNat + 10),
    mcfg (44 + 16 * i.toNat + 11) with
  | some baseAddress, some segmentGroup, some startBus, some endBus => some ⟨baseAddress, segmentGroup, startBus, endBus⟩
  | _, _, _, _ => none

/-- `num_allocations`: the difference is one of 64 bits, the quotient is cut to 32. -/
def numAllocations (length : UInt32) : UInt32 := ((length.toUInt64 - 44) / 16).toUInt32

/-- The offset of a function in configuration space. -/
def functionOffset (bus : UInt8) (device function : Nat) : UInt64 :=
  (bus.toUInt64 <<< 20) ||| (UInt64.ofNat device <<< 15) ||| (UInt64.ofNat function <<< 12)

/-- A function of a bus, with the address of its configuration space. -/
structure Place where
  allocation : UInt32
  bus : UInt8
  device : Nat
  function : Nat
  configAddr : UInt64
deriving DecidableEq

/-- The loops over the devices and functions of a bus. -/
def busPlaces (i : UInt32) (baseAddress : UInt64) (bus : UInt8) : List Place :=
  (List.range 32).flatMap fun device => (List.range 8).map fun function =>
    ⟨i, bus, device, function, baseAddress + functionOffset bus device function⟩

/-- `pci_read_mmconfig`; the global `mcfg` is the table that is parsed. -/
def pciReadMmconfig (platform : Platform) (machine : Machine) (mcfg : Option Table) (bus : UInt8) (device function : Nat)
    (offset : UInt8) : Option UInt32 :=
  match mcfg with
  | none => some 0xFFFFFFFF
  | some mcfg =>
      match mcfg.u64 36 with
      | none => none
      | some reserved =>
          platform.load32 machine (reserved + (functionOffset bus device function ||| (offset.toUInt64 &&& 0xFFF)))

/-- The registers of a device that is present: the words 2 and 3 and the base addresses. -/
structure Registers where
  reg2 : UInt32
  reg3 : UInt32
  bar : List UInt32

/-- A look at a function: the first register, and the others of a device. -/
structure Visit where
  place : Place
  reg0 : UInt32
  registers : Option Registers

/-- No device answers. -/
def NoDevice (reg0 : UInt32) : Prop := reg0 &&& 0xFFFF = 0xFFFF ∨ (reg0 >>> 16) &&& 0xFFFF = 0xFFFF

instance decidableNoDevice (reg0 : UInt32) : Decidable (NoDevice reg0) := inferInstanceAs (Decidable (_ ∨ _))

/-- The offsets of the base address registers. -/
def barOffsets : List UInt8 := [0x10, 0x14, 0x18, 0x1C, 0x20, 0x24]

/-- The page tables behind the `map_range` of a function. -/
def mapConfig (platform : Platform) (machine : Machine) (place : Place) : Machine :=
  (mapRange platform.hhdm machine place.configAddr (physToVir platform.hhdm place.configAddr) 0x10000000 0x3).2

/-- What is read of a function, when it has been mapped. -/
def readFunction (platform : Platform) (mcfg : Table) (machine : Machine) (place : Place) : Option Visit :=
  let ptr := physToVir platform.hhdm place.configAddr
  match platform.load32 machine ptr with
  | none => none
  | some reg0 =>
      if NoDevice reg0 then some ⟨place, reg0, none⟩
      else
        match platform.load32 machine (ptr + 8), platform.load32 machine (ptr + 12),
          loadAll (pciReadMmconfig platform machine (some mcfg) place.bus place.device place.function) barOffsets with
        | some reg2, some reg3, some bar => some ⟨place, reg0, some ⟨reg2, reg3, bar⟩⟩
        | _, _, _ => none

/-- Functions one after the other. -/
def visitPlaces (platform : Platform) (mcfg : Table) : List Place → Machine → Option (List Visit × Machine)
  | [], machine => some ([], machine)
  | place :: rest, machine =>
      let machine := mapConfig platform machine place
      match readFunction platform mcfg machine place with
      | none => none
      | some visit =>
          match visitPlaces platform mcfg rest machine with
          | none => none
          | some (visits, machine) => some (visit :: visits, machine)

/-- The variables of `parse_mcfg`, with the page tables; there is a `bus` inside of the loop over the buses. -/
structure McfgState where
  i : UInt32
  bus : Option UInt8
  machine : Machine
  visits : List Visit

/-- A test of one of the two outer loops of `parse_mcfg`, and what follows it. -/
def mcfgRound (platform : Platform) (mcfg : Table) (state : McfgState) : Round McfgState (List Visit) :=
  match tableLength mcfg with
  | none => .fault
  | some length =>
      match state.bus with
      | none =>
          if state.i < numAllocations length then
            match allocation mcfg state.i with
            | none => .fault
            | some alloc => .goes { state with bus := some alloc.startBus }
          else .ends state.visits
      | some bus =>
          match allocation mcfg state.i with
          | none => .fault
          | some alloc =>
              if bus ≤ alloc.endBus then
                match visitPlaces platform mcfg (busPlaces state.i alloc.baseAddress bus) state.machine with
                | none => .fault
                | some (visits, machine) =>
                    .goes { state with bus := some (bus + 1), machine := machine, visits := state.visits ++ visits }
              else .goes { state with i := state.i + 1, bus := none }

/-- The buses of an allocation in order. -/
def busRange (alloc : Allocation) : List UInt8 :=
  (List.range' alloc.startBus.toNat (alloc.endBus.toNat + 1 - alloc.startBus.toNat)).map UInt8.ofNat

/-- All functions of all buses of an allocation. -/
def allocationPlaces (mcfg : Table) (i : UInt32) : List Place :=
  match allocation mcfg i with
  | none => []
  | some alloc => (busRange alloc).flatMap (busPlaces i alloc.baseAddress)

/-- Every bus of the range of every allocation that lies in the table is visited once, function by function. -/
def VisitsOnce (mcfg : Table) (visits : List Visit) : Prop :=
  ∀ length, tableLength mcfg = some length → ∀ i : UInt32, i.toNat < (length.toNat - 44) / 16 →
    (visits.map Visit.place).filter (·.allocation = i) = allocationPlaces mcfg i

/-- `parse_mcfg` returns and has visited every bus once. -/
def McfgParsed (platform : Platform) (machine : Machine) (mcfg : Option Table) : Prop :=
  ∀ table, mcfg = some table →
    ∃ visits, EndsWith (mcfgRound platform table) ⟨0, none, machine, []⟩ visits ∧ VisitsOnce table visits

/-- What is read of a function is mapped. -/
structure FunctionReadable (platform : Platform) (mcfg : Table) (machine : Machine) (place : Place) : Prop where
  reg0 : (platform.load32 machine (physToVir platform.hhdm place.configAddr)).isSome
  registers : ∀ reg0, platform.load32 machine (physToVir platform.hhdm place.configAddr) = some reg0 → ¬ NoDevice reg0 →
    (platform.load32 machine (physToVir platform.hhdm place.configAddr + 8)).isSome ∧
      (platform.load32 machine (physToVir platform.hhdm place.configAddr + 12)).isSome ∧
      ∀ offset ∈ barOffsets,
        (pciReadMmconfig platform machine (some mcfg) place.bus place.device place.function offset).isSome

/-- What is read of each function is mapped when it has been mapped itself, behind all functions before. -/
def PlacesReadable (platform : Platform) (mcfg : Table) : List Place → Machine → Prop
  | [], _ => True
  | place :: rest, machine =>
      FunctionReadable platform mcfg (mapConfig platform machine place) place ∧
        PlacesReadable platform mcfg rest (mapConfig platform machine place)

/-- The allocations can be read and none ends at the last bus number, and what is read of their functions is mapped. -/
def RangesEnd (platform : Platform) (machine : Machine) (mcfg : Table) : Prop :=
  ∃ length, tableLength mcfg = some length ∧
    (∀ i < numAllocations length, ∃ alloc, allocation mcfg i = some alloc ∧ alloc.endBus ≠ 255) ∧
    PlacesReadable platform mcfg
      ((List.range (numAllocations length).toNat).flatMap fun k => allocationPlaces mcfg (UInt32.ofNat k)) machine

/-! ## When `parse_madt` returns -/

section Madt

variable {debugOn : Bool} {madt : Table} {length : UInt32} {ptr : Nat} {ioapicAddr : UInt32}

theorem isSome_ioapicEntry : (ioapicEntry debugOn madt ptr).isSome ↔ (madt.u32 (ptr + 4)).isSome ∧
    (debugOn = true → (madt (ptr + 2)).isSome ∧ (madt.u32 (ptr + 8)).isSome) := by
  rw [ioapicEntry]
  cases madt.u32 (ptr + 4) with
  | none => exact iff_of_false Bool.false_ne_true fun both => Bool.false_ne_true both.1
  | some ioapicAddr =>
      cases debugOn with
      | false => exact iff_of_true rfl ⟨rfl, fun impossible => absurd impossible Bool.false_ne_true⟩
      | true =>
          cases madt (ptr + 2) <;> cases madt.u32 (ptr + 8) <;> simp

/-- A round finds what it reads exactly at an entry that can be read. -/
theorem isSome_madtEntry : (madtEntry debugOn madt ptr ioapicAddr).isSome ↔ EntryReadable debugOn madt ptr := by
  rw [madtEntry]
  constructor
  · intro read
    cases here : madt ptr with
    | none => simp [here] at read
    | some type =>
        cases there : madt (ptr + 1) with
        | none =>
            rw [here, there] at read
            dsimp only at read
            split at read <;> cases read
        | some length =>
            refine ⟨by rw [here]; rfl, by rw [there]; rfl, fun ioapic => ?_⟩
            obtain rfl := Option.some.inj (here.symm.trans ioapic)
            rw [← isSome_ioapicEntry]
            rw [here] at read
            dsimp only at read
            rw [if_pos rfl] at read
            cases entry : ioapicEntry debugOn madt ptr with
            | none => simp [entry] at read
            | some ioapicAddr => rfl
  · intro readable
    obtain ⟨type, here⟩ := Option.isSome_iff_exists.mp readable.type
    obtain ⟨length, there⟩ := Option.isSome_iff_exists.mp readable.length
    have entry : (if type = 0x01 then ioapicEntry debugOn madt ptr else some ioapicAddr).isSome := by
      split
      case isTrue ioapic => exact isSome_ioapicEntry.mpr (readable.ioapic (ioapic ▸ here))
      case isFalse => rfl
    obtain ⟨address, entry⟩ := Option.isSome_iff_exists.mp entry
    rw [here, there]
    simp only [entry, Option.isSome_some]

/-- A round goes on behind an entry that can be read. -/
theorem madtRound_goes (header : tableLength madt = some length) (inside : ptr < length.toNat)
    (readable : EntryReadable debugOn madt ptr) :
    ∃ next, madtRound debugOn madt (ptr, ioapicAddr) = .goes (ptr + entryLength madt ptr, next) := by
  obtain ⟨⟨size, next⟩, entry⟩ := Option.isSome_iff_exists.mp (@isSome_madtEntry _ _ _ ioapicAddr |>.mpr readable)
  have same : entryLength madt ptr = size.toNat := by
    obtain ⟨type, here⟩ := Option.isSome_iff_exists.mp readable.type
    obtain ⟨length, there⟩ := Option.isSome_iff_exists.mp readable.length
    rw [madtEntry, here, there] at entry
    dsimp only at entry
    split at entry
    · cases entry
    · cases entry
      rw [entryLength, there, Option.getD_some]
  refine ⟨next, ?_⟩
  simp only [madtRound, header, if_pos inside, entry, same]

theorem madtRound_fault (header : tableLength madt = some length) (inside : ptr < length.toNat)
    (unreadable : ¬ EntryReadable debugOn madt ptr) : madtRound debugOn madt (ptr, ioapicAddr) = .fault := by
  have entry : madtEntry debugOn madt ptr ioapicAddr = none :=
    Option.not_isSome_iff_eq_none.mp fun read => unreadable (isSome_madtEntry.mp read)
  simp only [madtRound, header, if_pos inside, entry]

theorem madtRound_ends (header : tableLength madt = some length) (behind : ¬ ptr < length.toNat) :
    madtRound debugOn madt (ptr, ioapicAddr) = .ends ioapicAddr := by
  simp only [madtRound, header, if_neg behind]

/-- An entry of length zero is read again and again. -/
theorem madt_trapped (header : tableLength madt = some length) (inside : ptr < length.toNat)
    (empty : entryLength madt ptr = 0) : ¬ Completes (madtRound debugOn madt) (ptr, ioapicAddr) := by
  refine not_completes_of_stuck (fun state => ptr = state.1) ?_ rfl
  rintro ⟨_, ioapicAddr⟩ rfl
  by_cases readable : EntryReadable debugOn madt ptr
  · obtain ⟨next, goes⟩ := @madtRound_goes _ _ _ _ ioapicAddr header inside readable
    exact .inr ⟨_, goes, by rw [empty, Nat.add_zero]⟩
  · exact .inl (madtRound_fault header inside readable)

/-- Where the loop completes, the entry is readable and has a length. -/
theorem madt_advances (header : tableLength madt = some length) (inside : ptr < length.toNat)
    (completes : Completes (madtRound debugOn madt) (ptr, ioapicAddr)) :
    EntryReadable debugOn madt ptr ∧ entryLength madt ptr ≠ 0 := by
  refine ⟨?_, fun empty => madt_trapped header inside empty completes⟩
  by_contra unreadable
  exact not_completes_of_fault (madtRound_fault header inside unreadable) completes

/-- The loop gets to the same entries whatever it keeps of them. -/
theorem madt_completes_of_reaches (header : tableLength madt = some length)
    (completes : Completes (madtRound debugOn madt) (madtEntries, ioapicAddr)) (reaches : MadtReaches madt length ptr) :
    ∃ ioapicAddr, Completes (madtRound debugOn madt) (ptr, ioapicAddr) := by
  induction reaches with
  | refl => exact ⟨ioapicAddr, completes⟩
  | @tail ptr next _ follows ih =>
      obtain ⟨inside, rfl⟩ := follows
      obtain ⟨here, completes⟩ := ih
      obtain ⟨next, goes⟩ := @madtRound_goes _ _ _ _ here header inside (madt_advances header inside completes).1
      exact ⟨next, (completes_iff_of_goes goes).mp completes⟩

theorem madt_completes (header : tableLength madt = some length)
    (advance : ∀ ptr, MadtReaches madt length ptr → ptr < length.toNat →
      EntryReadable debugOn madt ptr ∧ entryLength madt ptr ≠ 0) (reaches : MadtReaches madt length ptr) :
    Completes (madtRound debugOn madt) (ptr, ioapicAddr) := by
  obtain ⟨left, measured⟩ : ∃ left, length.toNat - ptr = left := ⟨_, rfl⟩
  induction left using Nat.strong_induction_on generalizing ptr ioapicAddr with
  | _ left ih =>
      by_cases inside : ptr < length.toNat
      · obtain ⟨readable, progress⟩ := advance ptr reaches inside
        obtain ⟨next, goes⟩ := @madtRound_goes _ _ _ _ ioapicAddr header inside readable
        have shorter : length.toNat - (ptr + entryLength madt ptr) < left := by omega
        rw [completes_iff_of_goes goes]
        exact ih _ shorter (reaches.tail ⟨inside, rfl⟩) rfl
      · exact ⟨ioapicAddr, endsWith_of_ends (madtRound_ends header inside)⟩

/-- `parse_madt` returns exactly where every entry that it gets to can be read and has a length. -/
theorem madt_completes_iff :
    Completes (madtRound debugOn madt) (madtEntries, ioapicAddr) ↔ EntriesAdvance debugOn madt := by
  constructor
  · intro completes
    cases header : tableLength madt with
    | none =>
        have fault : madtRound debugOn madt (madtEntries, ioapicAddr) = .fault := by simp only [madtRound, header]
        exact absurd completes (not_completes_of_fault fault)
    | some length =>
        refine ⟨length, header, fun ptr reaches inside => ?_⟩
        obtain ⟨here, completes'⟩ := madt_completes_of_reaches header completes reaches
        exact madt_advances header inside completes'
  · rintro ⟨length, header, advance⟩
    exact madt_completes header advance .refl

end Madt

/-! ## What is visited -/

section Visits

variable {platform : Platform} {mcfg : Table} {machine : Machine} {place : Place}

theorem isSome_readFunction :
    (readFunction platform mcfg machine place).isSome ↔ FunctionReadable platform mcfg machine place := by
  rw [readFunction]
  cases first : platform.load32 machine (physToVir platform.hhdm place.configAddr) with
  | none =>
      refine iff_of_false Bool.false_ne_true fun readable => ?_
      have present := readable.reg0
      rw [first] at present
      cases present
  | some reg0 =>
      dsimp only
      split
      case isTrue empty =>
        refine iff_of_true rfl ⟨by rw [first]; rfl, fun other same present => absurd empty ?_⟩
        obtain rfl := Option.some.inj (first.symm.trans same)
        exact present
      case isFalse present =>
        have whole : FunctionReadable platform mcfg machine place ↔
            (platform.load32 machine (physToVir platform.hhdm place.configAddr + 8)).isSome ∧
              (platform.load32 machine (physToVir platform.hhdm place.configAddr + 12)).isSome ∧
              (loadAll (pciReadMmconfig platform machine (some mcfg) place.bus place.device place.function)
                barOffsets).isSome := by
          rw [isSome_loadAll]
          refine ⟨fun readable => readable.registers reg0 first present, fun registers => ⟨by rw [first]; rfl, ?_⟩⟩
          exact fun _ _ _ => registers
        rw [whole]
        generalize platform.load32 machine (physToVir platform.hhdm place.configAddr + 8) = reg2
        generalize platform.load32 machine (physToVir platform.hhdm place.configAddr + 12) = reg3
        generalize loadAll (pciReadMmconfig platform machine (some mcfg) place.bus place.device place.function)
          barOffsets = bar
        cases reg2 <;> cases reg3 <;> cases bar <;> simp

theorem place_of_readFunction {visit : Visit} (read : readFunction platform mcfg machine place = some visit) :
    visit.place = place := by
  rw [readFunction] at read
  split at read
  · cases read
  · split at read
    · cases read
      rfl
    · split at read <;> cases read
      rfl

theorem isSome_visitPlaces {places : List Place} :
    (visitPlaces platform mcfg places machine).isSome ↔ PlacesReadable platform mcfg places machine := by
  induction places generalizing machine with
  | nil => exact iff_of_true rfl trivial
  | cons place rest ih =>
      rw [PlacesReadable, ← isSome_readFunction, ← ih, visitPlaces]
      cases readFunction platform mcfg (mapConfig platform machine place) place with
      | none => exact iff_of_false Bool.false_ne_true fun both => Bool.false_ne_true both.1
      | some visit =>
          dsimp only
          cases visitPlaces platform mcfg rest (mapConfig platform machine place) with
          | none => exact iff_of_false Bool.false_ne_true fun both => Bool.false_ne_true both.2
          | some visited => exact iff_of_true rfl ⟨rfl, rfl⟩

/-- The visits follow the places. -/
theorem places_of_visitPlaces {places : List Place} {visits : List Visit} {after : Machine}
    (visited : visitPlaces platform mcfg places machine = some (visits, after)) : visits.map Visit.place = places := by
  induction places generalizing machine visits with
  | nil =>
      cases visited
      rfl
  | cons place rest ih =>
      rw [visitPlaces] at visited
      cases read : readFunction platform mcfg (mapConfig platform machine place) place with
      | none => simp [read] at visited
      | some visit =>
          cases later : visitPlaces platform mcfg rest (mapConfig platform machine place) with
          | none => simp [read, later] at visited
          | some found =>
              simp only [read, later, Option.some.injEq, Prod.mk.injEq] at visited
              obtain ⟨rfl, rfl⟩ := visited
              rw [List.map_cons, place_of_readFunction read, ih later]

theorem visitPlaces_append {first second : List Place} :
    visitPlaces platform mcfg (first ++ second) machine =
      (visitPlaces platform mcfg first machine).bind fun before =>
        (visitPlaces platform mcfg second before.2).map fun after => (before.1 ++ after.1, after.2) := by
  induction first generalizing machine with
  | nil => simp [visitPlaces]
  | cons place rest ih =>
      rw [List.cons_append, visitPlaces, visitPlaces]
      cases readFunction platform mcfg (mapConfig platform machine place) place with
      | none => rfl
      | some visit =>
          dsimp only
          rw [ih]
          cases visitPlaces platform mcfg rest (mapConfig platform machine place) with
          | none => rfl
          | some before =>
              obtain ⟨visits, machine⟩ := before
              simp only [Option.bind_some]
              cases visitPlaces platform mcfg second machine <;> rfl

end Visits

/-! ## When `parse_mcfg` returns -/

section Mcfg

variable {platform : Platform} {mcfg : Table} {length i : UInt32} {bus : UInt8} {alloc : Allocation}
  {machine : Machine} {visits result : List Visit}

theorem mcfgRound_enters (header : tableLength mcfg = some length) (more : i < numAllocations length)
    (read : allocation mcfg i = some alloc) :
    mcfgRound platform mcfg ⟨i, none, machine, visits⟩ = .goes ⟨i, some alloc.startBus, machine, visits⟩ := by
  simp only [mcfgRound, header, if_pos more, read]

theorem mcfgRound_ends (header : tableLength mcfg = some length) (done : ¬ i < numAllocations length) :
    mcfgRound platform mcfg ⟨i, none, machine, visits⟩ = .ends visits := by
  simp only [mcfgRound, header, if_neg done]

theorem mcfgRound_leaves (header : tableLength mcfg = some length) (read : allocation mcfg i = some alloc)
    (behind : ¬ bus ≤ alloc.endBus) :
    mcfgRound platform mcfg ⟨i, some bus, machine, visits⟩ = .goes ⟨i + 1, none, machine, visits⟩ := by
  simp only [mcfgRound, header, read, if_neg behind]

theorem mcfgRound_visits {visited : List Visit} {after : Machine} (header : tableLength mcfg = some length)
    (read : allocation mcfg i = some alloc) (inside : bus ≤ alloc.endBus)
    (here : visitPlaces platform mcfg (busPlaces i alloc.baseAddress bus) machine = some (visited, after)) :
    mcfgRound platform mcfg ⟨i, some bus, machine, visits⟩ = .goes ⟨i, some (bus + 1), after, visits ++ visited⟩ := by
  simp only [mcfgRound, header, read, if_pos inside, here]

theorem mcfgRound_fault (header : tableLength mcfg = some length) (read : allocation mcfg i = some alloc)
    (inside : bus ≤ alloc.endBus)
    (here : visitPlaces platform mcfg (busPlaces i alloc.baseAddress bus) machine = none) :
    mcfgRound platform mcfg ⟨i, some bus, machine, visits⟩ = .fault := by
  simp only [mcfgRound, header, read, if_pos inside, here]

/-- No bus number is above 255. -/
theorem mcfg_trapped (header : tableLength mcfg = some length) (read : allocation mcfg i = some alloc)
    (last : alloc.endBus = 255) : ¬ Completes (mcfgRound platform mcfg) ⟨i, some bus, machine, visits⟩ := by
  refine not_completes_of_stuck (fun state => state.i = i ∧ ∃ bus, state.bus = some bus) ?_ ⟨rfl, bus, rfl⟩
  rintro ⟨_, _, machine, visits⟩ ⟨rfl, bus, rfl⟩
  have inside : bus ≤ alloc.endBus := by
    rw [last, UInt8.le_iff_toNat_le]
    exact Nat.le_of_lt_succ bus.toNat_lt
  cases here : visitPlaces platform mcfg (busPlaces _ alloc.baseAddress bus) machine with
  | none => exact .inl (mcfgRound_fault header read inside here)
  | some visited => exact .inr ⟨_, mcfgRound_visits header read inside here, rfl, bus + 1, rfl⟩

/-- The loop over the buses from one of them on. -/
theorem mcfg_buses (header : tableLength mcfg = some length) (read : allocation mcfg i = some alloc)
    (ends : alloc.endBus ≠ 255) :
    EndsWith (mcfgRound platform mcfg) ⟨i, some bus, machine, visits⟩ result ↔
      ∃ visited, visitPlaces platform mcfg (((List.range' bus.toNat (alloc.endBus.toNat + 1 - bus.toNat)).map
          UInt8.ofNat).flatMap (busPlaces i alloc.baseAddress)) machine = some visited ∧
        EndsWith (mcfgRound platform mcfg) ⟨i + 1, none, visited.2, visits ++ visited.1⟩ result := by
  have small : alloc.endBus.toNat < 255 := by
    have bound := alloc.endBus.toNat_lt
    have other : alloc.endBus.toNat ≠ 255 := fun equal => ends (UInt8.toNat_inj.mp equal)
    omega
  obtain ⟨left, measured⟩ : ∃ left, alloc.endBus.toNat + 1 - bus.toNat = left := ⟨_, rfl⟩
  induction left generalizing bus machine visits with
  | zero =>
      have behind : ¬ bus ≤ alloc.endBus := by
        rw [UInt8.le_iff_toNat_le]
        omega
      rw [endsWith_iff_of_goes (mcfgRound_leaves header read behind), measured]
      simp [visitPlaces]
  | succ left ih =>
      have inside : bus ≤ alloc.endBus := by
        rw [UInt8.le_iff_toNat_le]
        omega
      have next : (bus + 1).toNat = bus.toNat + 1 := by
        have one : (1 : UInt8).toNat = 1 := rfl
        rw [UInt8.toNat_add, one]
        omega
      have rest : alloc.endBus.toNat + 1 - (bus + 1).toNat = left := by omega
      rw [measured, List.range'_succ, List.map_cons, List.flatMap_cons, UInt8.ofNat_toNat, visitPlaces_append]
      cases here : visitPlaces platform mcfg (busPlaces i alloc.baseAddress bus) machine with
      | none =>
          refine iff_of_false (fun ended => ?_) (by simp)
          exact not_completes_of_fault (mcfgRound_fault header read inside here) ⟨result, ended⟩
      | some visited =>
          refine (endsWith_iff_of_goes (mcfgRound_visits header read inside here)).trans ((ih rest).trans ?_)
          rw [rest, next, Option.bind_some]
          constructor
          · rintro ⟨later, there, ended⟩
            exact ⟨_, by rw [there, Option.map_some], by rwa [← List.append_assoc]⟩
          · rintro ⟨_, both, ended⟩
            obtain ⟨later, there, rfl⟩ := Option.map_eq_some_iff.mp both
            exact ⟨later, there, by rwa [List.append_assoc]⟩

/-- One turn of the loop over the allocations. -/
theorem mcfg_turn (header : tableLength mcfg = some length) (more : i < numAllocations length)
    (read : allocation mcfg i = some alloc) (ends : alloc.endBus ≠ 255) :
    EndsWith (mcfgRound platform mcfg) ⟨i, none, machine, visits⟩ result ↔
      ∃ visited, visitPlaces platform mcfg (allocationPlaces mcfg i) machine = some visited ∧
        EndsWith (mcfgRound platform mcfg) ⟨i + 1, none, visited.2, visits ++ visited.1⟩ result := by
  rw [endsWith_iff_of_goes (mcfgRound_enters header more read), mcfg_buses header read ends, allocationPlaces, read]
  rfl

/-- A loop that returns can read its allocation, which does not go up to the last bus. -/
theorem mcfg_range_ends (header : tableLength mcfg = some length) (more : i < numAllocations length)
    (completes : Completes (mcfgRound platform mcfg) ⟨i, none, machine, visits⟩) :
    ∃ alloc, allocation mcfg i = some alloc ∧ alloc.endBus ≠ 255 := by
  cases read : allocation mcfg i with
  | none =>
      have fault : mcfgRound platform mcfg ⟨i, none, machine, visits⟩ = .fault := by
        simp only [mcfgRound, header, if_pos more, read]
      exact absurd completes (not_completes_of_fault fault)
  | some alloc =>
      refine ⟨alloc, rfl, fun last => ?_⟩
      rw [completes_iff_of_goes (mcfgRound_enters header more read)] at completes
      exact mcfg_trapped header read last completes

/-- The functions of the allocations from one of them on. -/
def placesFrom (mcfg : Table) (i count : Nat) : List Place :=
  (List.range' i (count - i)).flatMap fun k => allocationPlaces mcfg (UInt32.ofNat k)

/-- The loop over the allocations from one of them on. -/
theorem mcfg_ends_iff (header : tableLength mcfg = some length) (inside : i.toNat ≤ (numAllocations length).toNat) :
    EndsWith (mcfgRound platform mcfg) ⟨i, none, machine, visits⟩ result ↔
      (∀ k < numAllocations length, i ≤ k → ∃ alloc, allocation mcfg k = some alloc ∧ alloc.endBus ≠ 255) ∧
        ∃ visited, visitPlaces platform mcfg (placesFrom mcfg i.toNat (numAllocations length).toNat) machine =
          some visited ∧ result = visits ++ visited.1 := by
  obtain ⟨left, measured⟩ : ∃ left, (numAllocations length).toNat - i.toNat = left := ⟨_, rfl⟩
  induction left generalizing i machine visits with
  | zero =>
      have done : ¬ i < numAllocations length := by
        rw [UInt32.lt_iff_toNat_lt]
        omega
      have ended := endsWith_of_ends (@mcfgRound_ends platform mcfg length i machine visits header done)
      have none : ∀ k < numAllocations length, i ≤ k → ∃ alloc, allocation mcfg k = some alloc ∧ alloc.endBus ≠ 255 :=
        fun k below behind => absurd (UInt32.lt_of_le_of_lt behind below) done
      rw [placesFrom, measured]
      simp only [List.range'_zero, List.flatMap_nil, visitPlaces, Option.some.injEq, exists_eq_left', List.append_nil]
      exact ⟨fun ended' => ⟨none, ended'.unique ended⟩, fun both => both.2 ▸ ended⟩
  | succ left ih =>
      have more : i < numAllocations length := UInt32.lt_iff_toNat_lt.mpr (by omega)
      have next : (i + 1).toNat = i.toNat + 1 := by
        have bound := (numAllocations length).toNat_lt
        have one : (1 : UInt32).toNat = 1 := rfl
        rw [UInt32.toNat_add, one]
        omega
      have rest : (numAllocations length).toNat - (i + 1).toNat = left := by omega
      have places : placesFrom mcfg i.toNat (numAllocations length).toNat =
          allocationPlaces mcfg i ++ placesFrom mcfg (i + 1).toNat (numAllocations length).toNat := by
        rw [placesFrom, placesFrom, measured, rest, next, List.range'_succ, List.flatMap_cons, UInt32.ofNat_toNat]
      have turn : (∃ alloc, allocation mcfg i = some alloc ∧ alloc.endBus ≠ 255) →
          (EndsWith (mcfgRound platform mcfg) ⟨i, none, machine, visits⟩ result ↔
            ∃ visited, visitPlaces platform mcfg (allocationPlaces mcfg i) machine = some visited ∧
              EndsWith (mcfgRound platform mcfg) ⟨i + 1, none, visited.2, visits ++ visited.1⟩ result) :=
        fun ⟨_, read, ends⟩ => mcfg_turn header more read ends
      have step : ∀ k, i ≤ k ↔ k = i ∨ i + 1 ≤ k := fun k => by
        rw [UInt32.le_iff_toNat_le, UInt32.le_iff_toNat_le, next, ← UInt32.toNat_inj]
        omega
      rw [places, visitPlaces_append]
      constructor
      · intro ended
        have first := mcfg_range_ends header more ⟨result, ended⟩
        obtain ⟨visited, here, later⟩ := (turn first).mp ended
        obtain ⟨others, found, there, same⟩ := (ih (by omega) rest).mp later
        refine ⟨fun k below behind => ?_, (visited.1 ++ found.1, found.2), ?_, ?_⟩
        · rcases (step k).mp behind with rfl | behind
          · exact first
          · exact others k below behind
        · rw [here, Option.bind_some, there, Option.map_some]
        · rw [same, List.append_assoc]
      · rintro ⟨all, visited, both, same⟩
        obtain ⟨before, here, both⟩ := Option.bind_eq_some_iff.mp both
        obtain ⟨found, there, rfl⟩ := Option.map_eq_some_iff.mp both
        refine (turn (all i more (UInt32.le_refl i))).mpr ⟨before, here, (ih (by omega) rest).mpr ?_⟩
        refine ⟨fun k below behind => all k below ((step k).mpr (.inr behind)), found, there, ?_⟩
        rw [same, List.append_assoc]

theorem mem_allocationPlaces {place : Place} (member : place ∈ allocationPlaces mcfg i) : place.allocation = i := by
  rw [allocationPlaces] at member
  split at member
  · cases member
  · obtain ⟨bus, -, member⟩ := List.mem_flatMap.mp member
    obtain ⟨device, -, member⟩ := List.mem_flatMap.mp member
    obtain ⟨function, -, rfl⟩ := List.mem_map.mp member
    rfl

/-- The functions of one allocation among those of many. -/
theorem filter_allocationPlaces {count : Nat} (small : count ≤ 2 ^ 32) :
    ((List.range count).flatMap fun k => allocationPlaces mcfg (UInt32.ofNat k)).filter (·.allocation = i) =
      if i.toNat < count then allocationPlaces mcfg i else [] := by
  induction count with
  | zero => rfl
  | succ count ih =>
      have last : (UInt32.ofNat count).toNat = count := UInt32.toNat_ofNat_of_lt' (show count < 4294967296 by omega)
      rw [List.range_succ, List.flatMap_append, List.filter_append, ih (by omega), List.flatMap_cons, List.flatMap_nil,
        List.append_nil]
      by_cases here : i = UInt32.ofNat count
      · have all : (allocationPlaces mcfg i).filter (·.allocation = i) = allocationPlaces mcfg i :=
          List.filter_eq_self.mpr fun place member => decide_eq_true (mem_allocationPlaces member)
        have index : i.toNat = count := by rw [here, last]
        rw [← here, all, if_neg (by omega), if_pos (by omega), List.nil_append]
      · have none : (allocationPlaces mcfg (UInt32.ofNat count)).filter (·.allocation = i) = [] := by
          refine List.filter_eq_nil_iff.mpr fun place member same => here ?_
          rw [← of_decide_eq_true same, mem_allocationPlaces member]
        have other : i.toNat ≠ count := fun equal => here (UInt32.toNat_inj.mp (equal.trans last.symm))
        rw [none, List.append_nil]
        exact if_congr (by omega) rfl rfl

/-- The loop goes through all allocations of the table. -/
theorem tableAllocations_le (length : UInt32) : (length.toNat - 44) / 16 ≤ (numAllocations length).toNat := by
  have bound := length.toNat_lt
  have header : (44 : UInt64).toNat = 44 := rfl
  have size : (16 : UInt64).toNat = 16 := rfl
  rw [numAllocations, UInt64.toNat_toUInt32, UInt64.toNat_div, UInt64.toNat_sub, UInt32.toNat_toUInt64, header, size]
  omega

/-- `parse_mcfg` returns exactly where what it reads is mapped and no allocation goes up to the last bus,
and then it visits the buses once. -/
theorem mcfg_parsed_iff :
    (∃ visits, EndsWith (mcfgRound platform mcfg) ⟨0, none, machine, []⟩ visits ∧ VisitsOnce mcfg visits) ↔
      RangesEnd platform machine mcfg := by
  have places : ∀ count, placesFrom mcfg (0 : UInt32).toNat count =
      (List.range count).flatMap fun k => allocationPlaces mcfg (UInt32.ofNat k) := fun count => by
    rw [placesFrom, UInt32.toNat_zero, Nat.sub_zero, ← List.range_eq_range']
  constructor
  · rintro ⟨visits, ended, -⟩
    cases header : tableLength mcfg with
    | none =>
        have fault : mcfgRound platform mcfg ⟨0, none, machine, []⟩ = .fault := by simp only [mcfgRound, header]
        exact absurd ⟨visits, ended⟩ (not_completes_of_fault fault)
    | some length =>
        obtain ⟨all, visited, here, -⟩ := (mcfg_ends_iff header (Nat.zero_le _)).mp ended
        refine ⟨length, header, fun k below => all k below (UInt32.le_iff_toNat_le.mpr (Nat.zero_le _)), ?_⟩
        rw [← isSome_visitPlaces, ← places, here]
        rfl
  · rintro ⟨length, header, all, readable⟩
    rw [← isSome_visitPlaces, ← places] at readable
    obtain ⟨visited, here⟩ := Option.isSome_iff_exists.mp readable
    have ended := (@mcfg_ends_iff platform mcfg length 0 machine [] visited.1 header (Nat.zero_le _)).mpr
      ⟨fun k below _ => all k below, visited, here, rfl⟩
    refine ⟨visited.1, ended, fun other header' i inside => ?_⟩
    obtain rfl := Option.some.inj (header.symm.trans header')
    have bound := (numAllocations length).toNat_lt
    have reached := tableAllocations_le length
    rw [places_of_visitPlaces here, places, filter_allocationPlaces (by omega), if_pos (by omega)]

end Mcfg

/-- Both parsers return, and the buses are visited once, exactly where no MADT entry that is reached has
the length zero, no allocation of the MCFG goes up to bus 255 and all that is read is mapped. -/
theorem tables_parsed_iff (platform : Platform) (machine : Machine) (madt mcfg : Option Table) (ioapicAddr : UInt32) :
    MadtParsed platform.debugOn madt ioapicAddr ∧ McfgParsed platform machine mcfg ↔
      (∀ table, madt = some table → EntriesAdvance platform.debugOn table) ∧
        ∀ table, mcfg = some table → RangesEnd platform machine table :=
  and_congr (forall₂_congr fun _ _ => madt_completes_iff) (forall₂_congr fun _ _ => mcfg_parsed_iff)

/-- A table with one record behind its header: an allocation of the buses 0 to 255, or an entry of
length zero. -/
def shortTable (lastBus : UInt8) (offset : Nat) : Option UInt8 :=
  if offset = 4 then some 60 else if offset = 44 + 11 then some lastBus else if offset < 60 then some 0 else none

/-- An entry of length zero keeps `parse_madt`, and the range of all buses keeps `parse_mcfg`, also where all of
memory can be read. -/
theorem parsers_do_not_return :
    ¬ MadtParsed false (some (shortTable 0)) 0 ∧
      ¬ McfgParsed ⟨0, false, fun _ _ => some 0xFF⟩ Memory.pagedMachine (some (shortTable 255)) := by
  have header : ∀ lastBus, tableLength (shortTable lastBus) = some 60 := fun _ => rfl
  refine ⟨fun parsed => ?_, fun parsed => ?_⟩
  · exact madt_trapped (header 0) (by decide) (by decide) (parsed _ rfl)
  · obtain ⟨visits, ended, -⟩ := parsed _ rfl
    obtain ⟨alloc, read, ends⟩ := @mcfg_range_ends _ _ _ 0 _ _ (header 255) (by decide) ⟨visits, ended⟩
    have whole : allocation (shortTable 255) 0 = some ⟨0, 0, 0, 255⟩ := rfl
    obtain rfl := Option.some.inj (whole.symm.trans read)
    exact ends rfl

end KeblaOS.Acpi
