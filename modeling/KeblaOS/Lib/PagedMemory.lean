import KeblaOS.Lib.Buffer

/-!
# Memory in pages of 4 KiB

Bytes by virtual address, of which those in mapped pages can be read and written. An
access that touches an unmapped page faults and has no result. `read` and `write` are the
total functions behind `load` and `store`; the `read_write` lemmas say which reads notice
which writes, and `maps` remembers how often each page has been mapped.
-/

namespace KeblaOS

structure PagedMemory where
  mapped : Nat → Bool
  maps : Nat → Nat
  bytes : Nat → UInt8

namespace PagedMemory

variable {memory : PagedMemory} {address len : Nat}

/-- The bytes of a range, whether they can be accessed or not. -/
def read (memory : PagedMemory) (address len : Nat) : List UInt8 :=
  (List.range len).map fun i => memory.bytes (address + i)

def write (memory : PagedMemory) (address : Nat) (data : List UInt8) : PagedMemory :=
  { memory with
      bytes := fun byte =>
        if address ≤ byte ∧ byte < address + data.length then data.getD (byte - address) 0
        else memory.bytes byte }

/-- Every byte of the range lies in a mapped page. -/
def Accessible (memory : PagedMemory) (address len : Nat) : Prop :=
  ∀ i < len, memory.mapped ((address + i) / 4096) = true

instance (memory : PagedMemory) (address len : Nat) : Decidable (memory.Accessible address len) :=
  inferInstanceAs (Decidable (∀ i < len, _))

/-- Read a range, unless it faults. -/
def load (memory : PagedMemory) (address len : Nat) : Option (List UInt8) :=
  if memory.Accessible address len then some (memory.read address len) else none

/-- Write a range, unless it faults. -/
def store (memory : PagedMemory) (address : Nat) (data : List UInt8) : Option PagedMemory :=
  if memory.Accessible address data.length then some (memory.write address data) else none

/-- Map a page, which then has the contents given. -/
def mapPage (memory : PagedMemory) (contents : Nat → UInt8) (page : Nat) : PagedMemory where
  mapped := Function.update memory.mapped page true
  maps := Function.update memory.maps page (memory.maps page + 1)
  bytes := fun byte => if byte / 4096 = page then contents byte else memory.bytes byte

def unmapPage (memory : PagedMemory) (page : Nat) : PagedMemory :=
  { memory with mapped := Function.update memory.mapped page false }

/-! ## Reads and writes -/

@[simp] theorem length_read : (memory.read address len).length = len := by simp [read]

theorem getElem?_read {i : Nat} (inside : i < len) :
    (memory.read address len)[i]? = some (memory.bytes (address + i)) := by
  simp [read, inside]

/-- A read depends on the bytes of its range only. -/
theorem read_congr {other : PagedMemory} {address' : Nat}
    (same : ∀ i < len, memory.bytes (address + i) = other.bytes (address' + i)) :
    memory.read address len = other.read address' len :=
  List.map_congr_left fun i member => same i (List.mem_range.mp member)

theorem take_read {count : Nat} (short : count ≤ len) :
    (memory.read address len).take count = memory.read address count := by
  rw [read, ← List.map_take, List.take_range, Nat.min_eq_left short, read]

theorem bytes_write_of_inside {data : List UInt8} {i : Nat} (inside : i < data.length) :
    (memory.write address data).bytes (address + i) = data[i] := by
  show (if _ then _ else _) = _
  rw [if_pos ⟨Nat.le_add_right _ _, by omega⟩, Nat.add_sub_cancel_left,
    List.getD_eq_getElem?_getD, List.getElem?_eq_getElem inside, Option.getD_some]

theorem bytes_write_of_outside {data : List UInt8} {byte : Nat}
    (outside : byte < address ∨ address + data.length ≤ byte) :
    (memory.write address data).bytes byte = memory.bytes byte :=
  if_neg (by omega)

theorem read_write_self (memory : PagedMemory) (address : Nat) (data : List UInt8) :
    (memory.write address data).read address data.length = data := by
  refine List.ext_getElem (by simp) fun i _ there => ?_
  simp only [read, List.getElem_map, List.getElem_range]
  exact bytes_write_of_inside there

theorem read_write_apart {data : List UInt8} {start : Nat}
    (apart : start + len ≤ address ∨ address + data.length ≤ start) :
    (memory.write address data).read start len = memory.read start len :=
  read_congr fun i inside => bytes_write_of_outside (by omega)

/-- A write into a part of the range read. -/
theorem read_write_within {data : List UInt8} {offset : Nat} (fits : offset + data.length ≤ len) :
    (memory.write (address + offset) data).read address len =
      Buffer.overwrite (memory.read address len) offset data := by
  refine List.ext_getElem? fun i => ?_
  rw [Buffer.getElem?_overwrite (by rwa [length_read])]
  by_cases inside : i < len
  · rw [getElem?_read inside]
    split_ifs with written
    · have place : address + i = address + offset + (i - offset) := by omega
      have within : i - offset < data.length := by omega
      rw [place, bytes_write_of_inside within, List.getElem?_eq_getElem within]
    · rw [getElem?_read inside, bytes_write_of_outside (by omega)]
  · rw [if_neg (by omega)]
    simp [read, inside]

/-- A write into what has just been written. -/
theorem write_write_within {data data' : List UInt8} {offset : Nat}
    (fits : offset + data'.length ≤ data.length) :
    (memory.write address data).write (address + offset) data' =
      memory.write address (Buffer.overwrite data offset data') := by
  have length := Buffer.length_overwrite fits
  have same : ((memory.write address data).write (address + offset) data').bytes =
      (memory.write address (Buffer.overwrite data offset data')).bytes := by
    funext byte
    by_cases inside : address ≤ byte ∧ byte < address + data.length
    · obtain ⟨i, rfl⟩ := Nat.exists_eq_add_of_le inside.1
      have here : i < data.length := by omega
      rw [bytes_write_of_inside (by omega), ← Option.some_inj, ← List.getElem?_eq_getElem,
        Buffer.getElem?_overwrite fits]
      split_ifs with written
      · have place : address + i = address + offset + (i - offset) := by omega
        have within : i - offset < data'.length := by omega
        rw [place, bytes_write_of_inside within, List.getElem?_eq_getElem within]
      · rw [bytes_write_of_outside (by omega), bytes_write_of_inside here, List.getElem?_eq_getElem here]
    · rw [bytes_write_of_outside (by omega), bytes_write_of_outside (by omega), bytes_write_of_outside (by omega)]
  exact congrArg (fun bytes => { memory with bytes := bytes }) same

/-- A part of what is read. -/
theorem read_eq_slice {offset count : Nat} (inside : offset + count ≤ len) :
    memory.read (address + offset) count = Buffer.slice (memory.read address len) offset count := by
  refine List.ext_getElem? fun i => ?_
  rw [Buffer.slice, List.getElem?_take, List.getElem?_drop]
  split_ifs with here
  · rw [getElem?_read here, getElem?_read (by omega), Nat.add_assoc]
  · rw [List.getElem?_eq_none (by rw [length_read]; omega)]

theorem load_of_accessible (accessible : memory.Accessible address len) :
    memory.load address len = some (memory.read address len) := if_pos accessible

theorem store_of_accessible {data : List UInt8} (accessible : memory.Accessible address data.length) :
    memory.store address data = some (memory.write address data) := if_pos accessible

/-- What can be written can be written again. -/
@[simp] theorem accessible_write {start : Nat} {data : List UInt8} :
    (memory.write start data).Accessible address len ↔ memory.Accessible address len := Iff.rfl

/-- A range inside mapped pages. -/
theorem Accessible.of_pages {first pages : Nat}
    (mapped : ∀ page, first ≤ page → page < first + pages → memory.mapped page = true)
    (lower : 4096 * first ≤ address) (upper : address + len ≤ 4096 * (first + pages)) :
    memory.Accessible address len :=
  fun i inside => mapped _ (by omega) (by omega)

theorem Accessible.mono {start count : Nat} (accessible : memory.Accessible address len)
    (lower : address ≤ start) (upper : start + count ≤ address + len) :
    memory.Accessible start count := by
  intro i inside
  have place : start + i = address + (start - address + i) := by omega
  rw [place]
  exact accessible _ (by omega)

/-! ## Pages -/

theorem bytes_mapPage_of_other {contents : Nat → UInt8} {page byte : Nat} (other : byte / 4096 ≠ page) :
    (memory.mapPage contents page).bytes byte = memory.bytes byte := if_neg other

/-- Map `count` pages from `first` on. -/
def mapPages (memory : PagedMemory) (contents : Nat → UInt8) (first : Nat) : Nat → PagedMemory
  | 0 => memory
  | count + 1 => (memory.mapPage contents first).mapPages contents (first + 1) count

/-- Unmap `count` pages from `first` on. -/
def unmapPages (memory : PagedMemory) (first : Nat) : Nat → PagedMemory
  | 0 => memory
  | count + 1 => (memory.unmapPage first).unmapPages (first + 1) count

theorem mapped_mapPages (memory : PagedMemory) (contents : Nat → UInt8) (first count page : Nat) :
    (memory.mapPages contents first count).mapped page =
      if first ≤ page ∧ page < first + count then true else memory.mapped page := by
  induction count generalizing memory first with
  | zero => rw [if_neg (by omega), mapPages]
  | succ count ih =>
      rw [mapPages, ih, mapPage]
      by_cases here : page = first
      · subst here
        simp
      · simp only [Function.update_of_ne here]
        congr 1
        exact propext ⟨by omega, by omega⟩

theorem maps_mapPages (memory : PagedMemory) (contents : Nat → UInt8) (first count page : Nat) :
    (memory.mapPages contents first count).maps page =
      if first ≤ page ∧ page < first + count then memory.maps page + 1 else memory.maps page := by
  induction count generalizing memory first with
  | zero => rw [if_neg (by omega), mapPages]
  | succ count ih =>
      rw [mapPages, ih, mapPage]
      by_cases here : page = first
      · subst here
        simp
      · simp only [Function.update_of_ne here]
        congr 1
        exact propext ⟨by omega, by omega⟩

theorem bytes_mapPages_of_before {contents : Nat → UInt8} {first count byte : Nat}
    (before : byte < 4096 * first) :
    (memory.mapPages contents first count).bytes byte = memory.bytes byte := by
  induction count generalizing memory first with
  | zero => rfl
  | succ count ih =>
      have later : byte < 4096 * (first + 1) := by omega
      have other : byte / 4096 ≠ first := by omega
      rw [mapPages, ih later, bytes_mapPage_of_other other]

theorem mapped_unmapPages (memory : PagedMemory) (first count page : Nat) :
    (memory.unmapPages first count).mapped page =
      if first ≤ page ∧ page < first + count then false else memory.mapped page := by
  induction count generalizing memory first with
  | zero => rw [if_neg (by omega), unmapPages]
  | succ count ih =>
      rw [unmapPages, ih, unmapPage]
      by_cases here : page = first
      · subst here
        simp
      · simp only [Function.update_of_ne here]
        congr 1
        exact propext ⟨by omega, by omega⟩

@[simp] theorem maps_unmapPages (memory : PagedMemory) (first count : Nat) :
    (memory.unmapPages first count).maps = memory.maps := by
  induction count generalizing memory first with
  | zero => rfl
  | succ count ih => exact ih _ _

@[simp] theorem bytes_unmapPages (memory : PagedMemory) (first count : Nat) :
    (memory.unmapPages first count).bytes = memory.bytes := by
  induction count generalizing memory first with
  | zero => rfl
  | succ count ih => exact ih _ _

/-! ## Words -/

/-- A 64-bit little-endian load. -/
def loadWord (memory : PagedMemory) (address : Nat) : Option Nat := (memory.load address 8).map Buffer.leNat

def storeWord (memory : PagedMemory) (address value : Nat) : Option PagedMemory :=
  memory.store address (Buffer.leBytes 8 value)

end PagedMemory

end KeblaOS
