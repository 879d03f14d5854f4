import Mathlib.Data.List.DropRight
import Mathlib.Data.List.GetD
import KeblaOS.Fat32.Cluster

/-!
# Names and directory slots

A directory is a sequence of 32-byte slots. This module has the byte level: the C
strings of names and paths, the 8.3 form of a name, and the two layouts a slot can have,
`DirEntry` and `LFNEntry`. A C string is the list of its bytes without the final zero.
-/

namespace KeblaOS.Fat32

open KeblaOS.Buffer

/-! ## Names -/

/-- `'/'`. -/
def slash : UInt8 := 0x2F

/-- `'.'`. -/
def dot : UInt8 := 0x2E

/-- `' '`. -/
def space : UInt8 := 0x20

/-- `islower`. -/
def isLower (c : UInt8) : Bool := 0x61 ≤ c && c ≤ 0x7A

/-- `toupper`. -/
def toUpper (c : UInt8) : UInt8 := if isLower c then c - 0x20 else c

/-- Characters at the start of a field that was filled with blanks. -/
def blankPadded (width : Nat) (chars : List UInt8) : List UInt8 :=
  chars ++ List.replicate (width - chars.length) space

/-- `fat32_format_83_name`: eight characters in front of the first dot, three behind it. -/
def fat32Format83Name (name : List UInt8) : List UInt8 :=
  let base := ((name.takeWhile (· ≠ dot)).take 8).map toUpper
  let extension := (((name.dropWhile (· ≠ dot)).drop 1).take 3).map toUpper
  blankPadded 8 base ++ blankPadded 3 extension

/-- `fat32_lfn_checksum`. -/
def fat32LfnChecksum (shortName : List UInt8) : UInt8 :=
  shortName.foldl (fun sum c => (if sum &&& 1 ≠ 0 then (0x80 : UInt8) else 0) + (sum >>> 1) + c) 0

/-- `fat32_needs_lfn`. -/
def fat32NeedsLfn (name : List UInt8) : Bool :=
  12 < name.length || name.any fun c => isLower c || c == space

/-- The tokens `strtok(path, "/")` returns one after the other. -/
def pathTokens (path : List UInt8) : List (List UInt8) := (path.splitOn slash).filter (· ≠ [])

/-- The component behind the last slash, the whole path if there is none. -/
def lastComponent (path : List UInt8) : List UInt8 := path.rtakeWhile (· ≠ slash)

/-- The part of a path up to its last slash. -/
def directoryPart (path : List UInt8) : List UInt8 := path.rdropWhile (· ≠ slash)

/-! ## Slots -/

/-- The 32 bytes of a directory slot. -/
abbrev Slot := List UInt8

/-- The slots of a directory cluster. -/
def slotsOf (buffer : List UInt8) : List Slot := chunks 32 buffer

namespace Slot

/-- `DIR_Name[0]`. -/
def firstByte (slot : Slot) : UInt8 := slot.getD 0 0

/-- `DIR_Name`. -/
def name (slot : Slot) : List UInt8 := slot.take 11

/-- `DIR_Attr`. -/
def attr (slot : Slot) : UInt8 := slot.getD 11 0

/-- `DIR_FstClusHI` and `DIR_FstClusLO` together. -/
def firstCluster (slot : Slot) : Nat :=
  leNat (slice slot 20 2) <<< 16 ||| leNat (slice slot 26 2)

/-- `DIR_FileSize`. -/
def fileSize (slot : Slot) : Nat := leNat (slice slot 28 4)

/-- `LDIR_Ord` without the mark of the last entry. -/
def order (slot : Slot) : Nat := (slot.firstByte &&& 0x1F).toNat

/-- Sixteen-bit units stored from a byte position on. -/
def unitsAt (slot : Slot) (pos count : Nat) : List Nat :=
  (List.range count).map fun i => leNat (slice slot (pos + 2 * i) 2)

/-- `LDIR_Name1`, `LDIR_Name2` and `LDIR_Name3`. -/
def units (slot : Slot) : List Nat := slot.unitsAt 1 5 ++ slot.unitsAt 14 6 ++ slot.unitsAt 28 2

end Slot

/-- `ATTR_VOLUME_ID`. -/
def attrVolumeId : UInt8 := 0x08

/-- `ATTR_DIRECTORY`. -/
def attrDirectory : UInt8 := 0x10

/-- `ATTR_ARCHIVE`. -/
def attrArchive : UInt8 := 0x20

/-- `ATTR_LONG_NAME`. -/
def attrLongName : UInt8 := 0x0F

/-- The mark of a deleted slot. -/
def deletedMark : UInt8 := 0xE5

/-- A cleared `DirEntry` with a name, attribute, first cluster and size stored in it. -/
def shortSlot (shortName : List UInt8) (attr : UInt8) (firstCluster fileSize : Nat) : Slot :=
  shortName ++ [attr] ++ List.replicate 8 (0 : UInt8) ++ leBytes 2 (firstCluster >>> 16 &&& 0xFFFF) ++
    List.replicate 4 (0 : UInt8) ++ leBytes 2 (firstCluster &&& 0xFFFF) ++ leBytes 4 fileSize

/-- The unit stored for position `idx` of a long name; a `char` is sign-extended. -/
def lfnUnit (name : List UInt8) (idx : Nat) : Nat :=
  match name[idx]? with
  | some c => if c < 0x80 then c.toNat else 0xFF00 + c.toNat
  | none => if idx = name.length then 0x0000 else 0xFFFF

/-- `LDIR_Ord` of the slot with number `order` out of `count`. -/
def lfnOrd (count order : Nat) : UInt8 :=
  if order = count then UInt8.ofNat order ||| 0x40 else UInt8.ofNat order

/-- The `LFNEntry` that holds thirteen characters of a long name. -/
def lfnSlot (name : List UInt8) (checksum : UInt8) (count order : Nat) : Slot :=
  let unit j := leBytes 2 (lfnUnit name ((order - 1) * 13 + j))
  [lfnOrd count order] ++ (List.range 5).flatMap unit ++ [attrLongName, 0, checksum] ++
    (List.range 6).flatMap (fun j => unit (5 + j)) ++ [0, 0] ++
    (List.range 2).flatMap (fun j => unit (11 + j))

/-- Number of long-name slots of a name. -/
def lfnCount (name : List UInt8) : Nat := if fat32NeedsLfn name then (name.length + 12) / 13 else 0

/-- The slots `fat32_create_dir_entry` writes: the long name from its end to its start, then
the short entry. -/
def entrySlots (name : List UInt8) (attr : UInt8) (firstCluster fileSize : Nat) : List Slot :=
  let shortName := fat32Format83Name name
  let count := lfnCount name
  (List.range count).map (fun i => lfnSlot name (fat32LfnChecksum shortName) count (count - i)) ++
    [shortSlot shortName attr firstCluster fileSize]

/-! ## Reading back what was stored -/

/-- A character is kept by `toupper` or becomes a capital letter. -/
theorem toUpper_cases (c : UInt8) : toUpper c = c ∨ 0x41 ≤ (toUpper c).toNat ∧ (toUpper c).toNat ≤ 0x5A := by
  unfold toUpper
  split_ifs with lower
  · rw [isLower, Bool.and_eq_true, decide_eq_true_eq, decide_eq_true_eq, UInt8.le_iff_toNat_le,
      UInt8.le_iff_toNat_le] at lower
    have least : (0x61 : UInt8).toNat = 97 := rfl
    have greatest : (0x7A : UInt8).toNat = 122 := rfl
    have blank : (0x20 : UInt8).toNat = 32 := rfl
    right
    rw [UInt8.toNat_sub_of_le _ _ (UInt8.le_iff_toNat_le.mpr (by omega))]
    omega
  · exact .inl rfl

theorem toUpper_ne {c other : UInt8} (different : c ≠ other) (noLetter : other.toNat < 0x41) :
    toUpper c ≠ other := by
  rcases toUpper_cases c with kept | ⟨lower, _⟩
  · rwa [kept]
  · rintro rfl
    omega

/-- The first byte of an 8.3 name is a blank or a character of the name in front of a dot. -/
theorem fat32Format83Name_firstByte (name : List UInt8) :
    (fat32Format83Name name).getD 0 0 = space ∨
      ∃ c ∈ name, c ≠ dot ∧ (fat32Format83Name name).getD 0 0 = toUpper c := by
  unfold fat32Format83Name
  dsimp only
  cases front : name.takeWhile (· ≠ dot) with
  | nil =>
      left
      rfl
  | cons c rest =>
      right
      have member : c ∈ name.takeWhile (· ≠ dot) := by
        rw [front]
        exact List.mem_cons_self
      refine ⟨c, List.takeWhile_sublist _ |>.subset member, by simpa using List.mem_takeWhile_imp member, ?_⟩
      simp [blankPadded]

theorem length_blankPadded {width : Nat} {chars : List UInt8} (fits : chars.length ≤ width) :
    (blankPadded width chars).length = width := by
  simp only [blankPadded, List.length_append, List.length_replicate]
  omega

@[simp] theorem length_fat32Format83Name (name : List UInt8) : (fat32Format83Name name).length = 11 := by
  unfold fat32Format83Name
  dsimp only
  rw [List.length_append, length_blankPadded, length_blankPadded]
  · simp
  · simp

section ShortSlot

variable {shortName : List UInt8} {attr : UInt8} {first size : Nat}

theorem length_shortSlot (full : shortName.length = 11) : (shortSlot shortName attr first size).length = 32 := by
  simp [shortSlot, full]

theorem shortSlot_name (full : shortName.length = 11) : (shortSlot shortName attr first size).name = shortName := by
  simp only [shortSlot, Slot.name, List.append_assoc]
  rw [← full, List.take_left]

theorem shortSlot_firstByte (full : shortName.length = 11) :
    (shortSlot shortName attr first size).firstByte = shortName.getD 0 0 := by
  simp only [shortSlot, Slot.firstByte, List.append_assoc]
  rw [List.getD_append _ _ _ _ (by omega)]

theorem shortSlot_attr (full : shortName.length = 11) : (shortSlot shortName attr first size).attr = attr := by
  simp only [shortSlot, Slot.attr, List.append_assoc]
  rw [List.getD_append_right _ _ _ _ (by omega), full]
  rfl

/-- The two halves of a 32-bit number. -/
theorem halves_eq {value : Nat} (bounded : value < 4294967296) :
    (value >>> 16 &&& 0xFFFF) <<< 16 ||| (value &&& 0xFFFF) = value := by
  have low : value &&& 0xFFFF = value % 2 ^ 16 := Nat.and_two_pow_sub_one_eq_mod value 16
  have high : value >>> 16 &&& 0xFFFF = value / 2 ^ 16 := by
    have mask : value >>> 16 &&& 0xFFFF = (value >>> 16) % 2 ^ 16 := Nat.and_two_pow_sub_one_eq_mod _ 16
    rw [mask, Nat.shiftRight_eq_div_pow]
    exact Nat.mod_eq_of_lt (by omega)
  rw [low, high, ← Nat.shiftLeft_add_eq_or_of_lt (Nat.mod_lt _ (by decide)), Nat.shiftLeft_eq]
  omega

/-- The places of the number fields. -/
theorem shortSlot_fields (attr : UInt8) (first size : Nat) (full : shortName.length = 11) :
    slice (shortSlot shortName attr first size) 20 2 = leBytes 2 (first >>> 16 &&& 0xFFFF) ∧
      slice (shortSlot shortName attr first size) 26 2 = leBytes 2 (first &&& 0xFFFF) ∧
      slice (shortSlot shortName attr first size) 28 4 = leBytes 4 size := by
  simp (disch := simp only [length_leBytes, List.length_replicate, List.length_singleton, Nat.reduceLeDiff,
      Nat.reduceAdd, le_refl, full]) only
    [shortSlot, List.append_assoc, slice_append_right, slice_append_left, slice_whole, length_leBytes,
      List.length_replicate, List.length_singleton, full, Nat.reduceSub, and_self]

theorem shortSlot_firstCluster (full : shortName.length = 11) (bounded : first < 4294967296) :
    (shortSlot shortName attr first size).firstCluster = first := by
  obtain ⟨high, low, _⟩ := shortSlot_fields attr first size full
  rw [Slot.firstCluster, high, low, leNat_leBytes_of_lt (lt_of_le_of_lt Nat.and_le_right (by decide)),
    leNat_leBytes_of_lt (lt_of_le_of_lt Nat.and_le_right (by decide)), halves_eq bounded]

/-- A first cluster has 32 bits. -/
theorem Slot.firstCluster_lt (slot : Slot) : slot.firstCluster < 4294967296 := by
  have half : ∀ pos, leNat (slice slot pos 2) < 65536 := by
    intro pos
    have bytes := leNat_lt (slice slot pos 2)
    have few : (slice slot pos 2).length ≤ 2 := by
      rw [length_slice]
      exact Nat.min_le_left _ _
    exact lt_of_lt_of_le bytes (Nat.pow_le_pow_right (by decide) few)
  rw [Slot.firstCluster, ← Nat.shiftLeft_add_eq_or_of_lt (half 26), Nat.shiftLeft_eq]
  have high := half 20
  have low := half 26
  omega

theorem shortSlot_fileSize (full : shortName.length = 11) (bounded : size < 4294967296) :
    (shortSlot shortName attr first size).fileSize = size := by
  obtain ⟨_, _, bytes⟩ := shortSlot_fields attr first size full
  rw [Slot.fileSize, bytes]
  exact leNat_leBytes_of_lt bounded

end ShortSlot

section LfnSlot

variable {name : List UInt8} {checksum : UInt8} {count order : Nat}

theorem lfnUnit_lt (name : List UInt8) (idx : Nat) : lfnUnit name idx < 65536 := by
  unfold lfnUnit
  cases name[idx]? with
  | none =>
      dsimp only
      split_ifs <;> decide
  | some c =>
      have small := c.toNat_lt
      dsimp only
      split_ifs <;> omega

theorem length_lfnSlot : (lfnSlot name checksum count order).length = 32 := by
  simp [lfnSlot, List.range_succ]

theorem lfnSlot_firstByte : (lfnSlot name checksum count order).firstByte = lfnOrd count order := by
  simp [lfnSlot, Slot.firstByte]

theorem lfnSlot_attr : (lfnSlot name checksum count order).attr = attrLongName := by
  simp [lfnSlot, Slot.attr, List.range_succ, leBytes]

/-- The units of a long-name slot are the thirteen characters that were stored. -/
theorem lfnSlot_units :
    (lfnSlot name checksum count order).units =
      (List.range 13).map fun j => lfnUnit name ((order - 1) * 13 + j) := by
  have stored : ∀ idx, leNat (leBytes 2 (lfnUnit name idx)) = lfnUnit name idx :=
    fun idx => leNat_leBytes_of_lt (lfnUnit_lt name idx)
  simp only [leBytes] at stored
  simp [lfnSlot, Slot.units, Slot.unitsAt, List.range_succ, leBytes, slice, stored]

end LfnSlot

end KeblaOS.Fat32
