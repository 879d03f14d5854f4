import Mathlib.Data.UInt
import KeblaOS.Ext2.Format
import Mathlib.Order.Interval.Set.Disjoint

/-!
# Formatting a VSFS volume

`vsfs_mkfs` computes the sizes of its regions in 32-bit arithmetic and places them one behind the
other, with the data region last. The product `total_sectors * SECTOR_SIZE` wraps from `2 ^ 23`
sectors on. A volume that is too small for the reserved blocks is reported and formatted all the
same. Of the disk the number of sectors is kept, which `kebla_disk_write` compares with the end
of a transfer; the drive itself takes every transfer.
-/

namespace KeblaOS.Vsfs

open KeblaOS.Buffer
open KeblaOS.Fat32 (Disk)

/-! ## Transfers -/

/-- `kebla_disk_write` on a disk with a number of sectors. -/
def keblaDiskWrite (disk : Disk) (sectors lba : UInt64) (count : UInt32) (buffer : List UInt8) : Option Disk :=
  if count = 0 then none
  else if sectors < lba + count.toUInt64 then none
  else some (Ext2.keblaDiskWrite disk lba count.toNat buffer)

/-- `BLOCK_SIZE`. -/
def blockSize : UInt32 := 4096

/-- `SECTOR_SIZE`. -/
def sectorSize : UInt32 := 512

/-- `block_to_lba`. -/
def blockToLba (blockNo : UInt32) : UInt32 := blockNo * blockSize / sectorSize

/-- `write_block`. -/
def writeBlock (disk : Disk) (sectors : UInt64) (lbaOffset blockNo count : UInt32) (buffer : List UInt8) :
    Option Disk :=
  keblaDiskWrite disk sectors (lbaOffset + blockToLba blockNo).toUInt64 (count * blockSize / sectorSize) buffer

/-! ## The superblock -/

/-- `superblock_t`. -/
structure Superblock where
  magic : UInt32
  name : List UInt8
  startLba : UInt32
  bytePerBlock : UInt32
  totalBlocks : UInt32
  reservedBlocks : UInt32
  totalInodes : UInt32
  numSuperBlock : UInt32
  numInodeBitmap : UInt32
  numInodeTable : UInt32
  numDataBitmap : UInt32
  inodeBitmapBlock : UInt32
  dataBitmapBlock : UInt32
  inodeTableBlock : UInt32
  dataRegionBlock : UInt32
deriving DecidableEq

/-- The superblock as it lies in memory. -/
def Superblock.bytes (sb : Superblock) : List UInt8 :=
  leBytes 4 sb.magic.toNat ++ sb.name ++
    [sb.startLba, sb.bytePerBlock, sb.totalBlocks, sb.reservedBlocks, sb.totalInodes, sb.numSuperBlock,
      sb.numInodeBitmap, sb.numInodeTable, sb.numDataBitmap, sb.inodeBitmapBlock, sb.dataBitmapBlock,
      sb.inodeTableBlock, sb.dataRegionBlock].flatMap fun field => leBytes 4 field.toNat

/-- `MAX_FILES`. -/
def maxFiles : UInt32 := 256

/-- `sizeof(inode_t)`. -/
def inodeBytes : UInt32 := 116

/-- `total_blocks`. -/
def totalBlocks (totalSectors : UInt32) : UInt32 := totalSectors * sectorSize / blockSize

/-- `inode_bitmap_blocks`. -/
def inodeBitmapBlocks : UInt32 := ((maxFiles + 7) / 8 + blockSize) / blockSize

/-- `data_bitmap_bytes`. -/
def dataBitmapBytes (totalSectors : UInt32) : UInt32 := (totalBlocks totalSectors - 1 - inodeBitmapBlocks + 7) / 8

/-- `data_bitmap_blocks`. -/
def dataBitmapBlocks (totalSectors : UInt32) : UInt32 := (dataBitmapBytes totalSectors + blockSize) / blockSize

/-- `inode_table_blocks`. -/
def inodeTableBlocks : UInt32 := (maxFiles * inodeBytes + blockSize) / blockSize

/-- The superblock that `vsfs_mkfs` fills in. -/
def newSuperblock (startLba : UInt64) (totalSectors : UInt32) : Superblock where
  magic := 0x20240218
  name := [0x56, 0x53, 0x46, 0x53, 0x20, 0x20, 0x20, 0]
  startLba := startLba.toUInt32
  bytePerBlock := blockSize
  totalBlocks := totalBlocks totalSectors
  reservedBlocks := 1 + inodeBitmapBlocks + dataBitmapBlocks totalSectors + inodeTableBlocks
  totalInodes := maxFiles
  numSuperBlock := 1
  numInodeBitmap := inodeBitmapBlocks
  numInodeTable := inodeTableBlocks
  numDataBitmap := dataBitmapBlocks totalSectors
  inodeBitmapBlock := 1
  dataBitmapBlock := 1 + inodeBitmapBlocks
  inodeTableBlock := 1 + inodeBitmapBlocks + dataBitmapBlocks totalSectors
  dataRegionBlock := 1 + inodeBitmapBlocks + dataBitmapBlocks totalSectors + inodeTableBlocks

/-! ## The formatter -/

/-- Cleared blocks. -/
def zeroes (count : UInt32) : List UInt8 := List.replicate (blockSize * count).toNat 0

/-- `vsfs_mkfs`: its result, the superblock in memory and the disk. The block of the superblock is
written from its record and what lies behind that in memory. -/
def vsfsMkfs (disk : Disk) (sectors startLba : UInt64) (totalSectors : UInt32) (heap : Nat → UInt8) :
    Bool × Superblock × Disk :=
  let lbaOffset := startLba.toUInt32
  let sb := newSuperblock startLba totalSectors
  match writeBlock disk sectors lbaOffset 0 1 (sb.bytes ++ (List.range 4032).map heap) with
  | none => (false, sb, disk)
  | some disk =>
      match writeBlock disk sectors lbaOffset sb.inodeBitmapBlock sb.numInodeBitmap (zeroes inodeBitmapBlocks) with
      | none => (false, sb, disk)
      | some disk =>
          match writeBlock disk sectors lbaOffset sb.dataBitmapBlock sb.numDataBitmap (zeroes sb.numDataBitmap) with
          | none => (false, sb, disk)
          | some disk =>
              match writeBlock disk sectors lbaOffset sb.inodeTableBlock sb.numInodeTable (zeroes sb.numInodeTable) with
              | none => (false, sb, disk)
              | some disk => (true, sb, disk)

/-! ## Layouts -/

/-- The blocks of the regions of a volume. -/
def Superblock.regions (sb : Superblock) : List (Set Nat) :=
  [Set.Ico 0 sb.numSuperBlock.toNat,
    Set.Ico sb.inodeBitmapBlock.toNat (sb.inodeBitmapBlock.toNat + sb.numInodeBitmap.toNat),
    Set.Ico sb.dataBitmapBlock.toNat (sb.dataBitmapBlock.toNat + sb.numDataBitmap.toNat),
    Set.Ico sb.inodeTableBlock.toNat (sb.inodeTableBlock.toNat + sb.numInodeTable.toNat),
    Set.Ico sb.dataRegionBlock.toNat sb.totalBlocks.toNat]

/-- The superblock describes a volume of this many sectors: no block is in two regions, none is
outside of the volume, and the data bitmap has a bit for every block of the data region. -/
structure ValidLayout (sb : Superblock) (totalSectors : UInt32) : Prop where
  total : sb.totalBlocks.toNat = totalSectors.toNat * 512 / 4096
  apart : sb.regions.Pairwise Disjoint
  inside : ∀ region ∈ sb.regions, region ⊆ Set.Ico 0 sb.totalBlocks.toNat
  bits : sb.totalBlocks.toNat - sb.dataRegionBlock.toNat ≤ 8 * (sb.numDataBitmap.toNat * sb.bytePerBlock.toNat)

/-- The disk has the sectors of everything that is written. -/
def Writable (sectors startLba : UInt64) (totalSectors : UInt32) : Prop :=
  ∀ extent ∈ [(0, 1), (1, 1), (2, dataBitmapBlocks totalSectors), (2 + dataBitmapBlocks totalSectors, 8)],
    (startLba.toUInt32 + 8 * extent.1).toUInt64 + (8 * extent.2).toUInt64 ≤ sectors

/-! ## Sizes -/

section Sizes

variable (totalSectors : UInt32)

theorem toNat_totalBlocks : (totalBlocks totalSectors).toNat = totalSectors.toNat * 512 % 2 ^ 32 / 4096 := rfl

theorem totalBlocks_lt : (totalBlocks totalSectors).toNat < 2 ^ 20 := by
  rw [toNat_totalBlocks]
  omega

/-- The two subtractions before the rounding never wrap for good. -/
theorem toNat_dataBitmapBytes : (dataBitmapBytes totalSectors).toNat = ((totalBlocks totalSectors).toNat + 5) / 8 := by
  have sum : totalBlocks totalSectors - 1 - inodeBitmapBlocks + 7 = totalBlocks totalSectors + 5 := by
    have one : inodeBitmapBlocks = 1 := by decide
    rw [one]
    grind
  have small := totalBlocks_lt totalSectors
  have exact_ : (totalBlocks totalSectors + 5).toNat = (totalBlocks totalSectors).toNat + 5 := by
    rw [UInt32.toNat_add]
    exact Nat.mod_eq_of_lt (by change _ + 5 < _; omega)
  rw [dataBitmapBytes, sum, UInt32.toNat_div, exact_]
  rfl

theorem toNat_dataBitmapBlocks :
    (dataBitmapBlocks totalSectors).toNat = (((totalBlocks totalSectors).toNat + 5) / 8 + 4096) / 4096 := by
  have bytes := toNat_dataBitmapBytes totalSectors
  have small := totalBlocks_lt totalSectors
  have sum : (dataBitmapBytes totalSectors + blockSize).toNat = (dataBitmapBytes totalSectors).toNat + 4096 := by
    rw [UInt32.toNat_add]
    exact Nat.mod_eq_of_lt (by change _ + 4096 < _; omega)
  rw [dataBitmapBlocks, UInt32.toNat_div, sum, bytes]
  rfl

theorem dataBitmapBlocks_bounds :
    1 ≤ (dataBitmapBlocks totalSectors).toNat ∧ (dataBitmapBlocks totalSectors).toNat ≤ 33 := by
  have value := toNat_dataBitmapBlocks totalSectors
  have small := totalBlocks_lt totalSectors
  omega

/-- The first block of the inode table. -/
theorem toNat_inodeTableBlock :
    (2 + dataBitmapBlocks totalSectors).toNat = 2 + (dataBitmapBlocks totalSectors).toNat := by
  have bounds := dataBitmapBlocks_bounds totalSectors
  rw [UInt32.toNat_add]
  exact Nat.mod_eq_of_lt (by change 2 + _ < _; omega)

end Sizes

/-! ## When the layout is valid -/

section Layout

variable (startLba : UInt64) (totalSectors : UInt32)

/-- The regions behind the superblock: a bitmap of one block, the data bitmap, an inode table of
eight blocks and the data region. -/
theorem regions_newSuperblock :
    (newSuperblock startLba totalSectors).regions =
      [Set.Ico 0 1, Set.Ico 1 2, Set.Ico 2 (2 + (dataBitmapBlocks totalSectors).toNat),
        Set.Ico (2 + (dataBitmapBlocks totalSectors).toNat) (10 + (dataBitmapBlocks totalSectors).toNat),
        Set.Ico (10 + (dataBitmapBlocks totalSectors).toNat) (totalBlocks totalSectors).toNat] := by
  have bounds := dataBitmapBlocks_bounds totalSectors
  have table := toNat_inodeTableBlock totalSectors
  have data : (2 + dataBitmapBlocks totalSectors + 8).toNat = 10 + (dataBitmapBlocks totalSectors).toNat := by
    rw [UInt32.toNat_add, table]
    change (2 + _ + 8) % 2 ^ 32 = _
    omega
  have size : 2 + (dataBitmapBlocks totalSectors).toNat + (8 : UInt32).toNat = 10 + (dataBitmapBlocks totalSectors).toNat := by
    change 2 + _ + 8 = _
    omega
  have inodeBitmap : inodeBitmapBlocks = 1 := by decide
  have inodeTable : inodeTableBlocks = 8 := by decide
  have two : (1 : UInt32) + 1 = 2 := by decide
  simp only [Superblock.regions, newSuperblock, inodeBitmap, inodeTable, two, table, data, size]
  rfl

/-- The total is right exactly when its product does not wrap. -/
theorem totalBlocks_exact_iff :
    (totalBlocks totalSectors).toNat = totalSectors.toNat * 512 / 4096 ↔ totalSectors.toNat < 2 ^ 23 := by
  rw [toNat_totalBlocks]
  omega

/-- Regions one behind the other have no block in common. -/
theorem regions_pairwise (bitmap total : Nat) :
    [Set.Ico 0 1, Set.Ico 1 2, Set.Ico 2 (2 + bitmap), Set.Ico (2 + bitmap) (10 + bitmap),
      Set.Ico (10 + bitmap) total].Pairwise Disjoint := by
  simp only [List.pairwise_cons, List.mem_cons, List.not_mem_nil, or_false, forall_eq_or_imp, forall_eq,
    Set.Ico_disjoint_Ico, List.Pairwise.nil, IsEmpty.forall_iff, implies_true, and_true]
  omega

/-- Whatever the sector count, the layout is valid exactly when the product does not wrap and the
inode table ends inside of the volume. -/
theorem validLayout_iff :
    ValidLayout (newSuperblock startLba totalSectors) totalSectors ↔ 88 ≤ totalSectors ∧ totalSectors < 2 ^ 23 := by
  have regions := regions_newSuperblock startLba totalSectors
  have bounds := dataBitmapBlocks_bounds totalSectors
  have blocks := toNat_totalBlocks totalSectors
  have bitmap := toNat_dataBitmapBlocks totalSectors
  constructor
  · intro valid
    have small := (totalBlocks_exact_iff totalSectors).mp valid.total
    refine ⟨UInt32.le_iff_toNat_le.mpr ?_, UInt32.lt_iff_toNat_lt.mpr small⟩
    have table := valid.inside (Set.Ico (2 + (dataBitmapBlocks totalSectors).toNat)
      (10 + (dataBitmapBlocks totalSectors).toNat)) (by rw [regions]; simp)
    -- the last block of the inode table is a block of the volume
    have last : 9 + (dataBitmapBlocks totalSectors).toNat ∈ Set.Ico (2 + (dataBitmapBlocks totalSectors).toNat)
        (10 + (dataBitmapBlocks totalSectors).toNat) := Set.mem_Ico.mpr (by omega)
    have inside : 9 + (dataBitmapBlocks totalSectors).toNat < (totalBlocks totalSectors).toNat := (table last).2
    change 88 ≤ _
    omega
  · rintro ⟨large, small⟩
    have large' : 88 ≤ totalSectors.toNat := UInt32.le_iff_toNat_le.mp large
    have small' : totalSectors.toNat < 2 ^ 23 := UInt32.lt_iff_toNat_lt.mp small
    have total := (totalBlocks_exact_iff totalSectors).mpr small'
    refine ⟨total, ?_, ?_, ?_⟩
    · rw [regions]
      exact regions_pairwise _ _
    · intro region member
      rw [regions] at member
      simp only [List.mem_cons, List.not_mem_nil, or_false] at member
      change region ⊆ Set.Ico 0 (totalBlocks totalSectors).toNat
      rcases member with rfl | rfl | rfl | rfl | rfl <;> apply Set.Ico_subset_Ico <;> omega
    · change (totalBlocks totalSectors).toNat - _ ≤ 8 * ((dataBitmapBlocks totalSectors).toNat * 4096)
      omega

end Layout

/-! ## When the formatter succeeds -/

section Writes

variable {disk : Disk} {sectors startLba : UInt64} {totalSectors lbaOffset blockNo count : UInt32} {buffer : List UInt8}

/-- Sectors of a small number of blocks. -/
theorem sectors_of_blocks (small : blockNo.toNat < 2 ^ 20) : blockNo * blockSize / sectorSize = 8 * blockNo := by
  apply UInt32.toNat_inj.mp
  rw [UInt32.toNat_div, UInt32.toNat_mul, UInt32.toNat_mul]
  change blockNo.toNat * 4096 % 2 ^ 32 / 512 = 8 * blockNo.toNat % 2 ^ 32
  omega

/-- Whether a transfer succeeds depends on its place only. -/
theorem writeBlock_isSome_iff (near : blockNo.toNat < 2 ^ 20) (some : 1 ≤ count.toNat) (few : count.toNat < 2 ^ 20) :
    (writeBlock disk sectors lbaOffset blockNo count buffer).isSome ↔
      (lbaOffset + 8 * blockNo).toUInt64 + (8 * count).toUInt64 ≤ sectors := by
  have positive : 8 * count ≠ 0 := by
    intro zero
    have value := congrArg UInt32.toNat zero
    rw [UInt32.toNat_mul] at value
    change 8 * count.toNat % 2 ^ 32 = 0 at value
    omega
  rw [writeBlock, blockToLba, sectors_of_blocks near, sectors_of_blocks few, keblaDiskWrite, if_neg positive]
  split_ifs with beyond
  · simpa using beyond
  · simpa using UInt64.not_lt.mp beyond

/-- The formatter hands out the superblock it computed, whatever the disk does. -/
theorem vsfsMkfs_superblock (heap : Nat → UInt8) :
    (vsfsMkfs disk sectors startLba totalSectors heap).2.1 = newSuperblock startLba totalSectors := by
  unfold vsfsMkfs
  dsimp only
  split
  · rfl
  · split
    · rfl
    · split
      · rfl
      · split <;> rfl

theorem writeBlock_eq_none_iff (near : blockNo.toNat < 2 ^ 20) (some : 1 ≤ count.toNat) (few : count.toNat < 2 ^ 20) :
    writeBlock disk sectors lbaOffset blockNo count buffer = none ↔
      ¬ (lbaOffset + 8 * blockNo).toUInt64 + (8 * count).toUInt64 ≤ sectors := by
  rw [← writeBlock_isSome_iff near some few, Option.not_isSome_iff_eq_none]

/-- It returns true exactly when the disk has all sectors it writes. -/
theorem vsfsMkfs_result_iff (heap : Nat → UInt8) :
    (vsfsMkfs disk sectors startLba totalSectors heap).1 = true ↔ Writable sectors startLba totalSectors := by
  have bounds := dataBitmapBlocks_bounds totalSectors
  have table := toNat_inodeTableBlock totalSectors
  have one : inodeBitmapBlocks = 1 := by decide
  have eight : inodeTableBlocks = 8 := by decide
  have two : (1 : UInt32) + 1 = 2 := by decide
  simp only [Writable, List.mem_cons, List.not_mem_nil, or_false, forall_eq_or_imp, forall_eq]
  unfold vsfsMkfs
  dsimp only [newSuperblock]
  rw [one, eight, two]
  split
  case h_1 failed =>
    have beyond := (writeBlock_eq_none_iff (by decide) (by decide) (by decide)).mp failed
    exact iff_of_false Bool.false_ne_true fun writable => beyond writable.1
  case h_2 written =>
    have superblock := (writeBlock_isSome_iff (by decide) (by decide) (by decide)).mp (Option.isSome_of_eq_some written)
    split
    case h_1 failed =>
      have beyond := (writeBlock_eq_none_iff (by decide) (by decide) (by decide)).mp failed
      exact iff_of_false Bool.false_ne_true fun writable => beyond writable.2.1
    case h_2 written =>
      have inodeBitmap := (writeBlock_isSome_iff (by decide) (by decide) (by decide)).mp
        (Option.isSome_of_eq_some written)
      split
      case h_1 failed =>
        have beyond := (writeBlock_eq_none_iff (by decide) bounds.1 (by omega)).mp failed
        exact iff_of_false Bool.false_ne_true fun writable => beyond writable.2.2.1
      case h_2 written =>
        have dataBitmap := (writeBlock_isSome_iff (by decide) bounds.1 (by omega)).mp (Option.isSome_of_eq_some written)
        split
        case h_1 failed =>
          have beyond := (writeBlock_eq_none_iff (by omega) (by decide) (by decide)).mp failed
          exact iff_of_false Bool.false_ne_true fun writable => beyond writable.2.2.2
        case h_2 written =>
          have inodeTable := (writeBlock_isSome_iff (by omega) (by decide) (by decide)).mp
            (Option.isSome_of_eq_some written)
          exact iff_of_true rfl ⟨superblock, inodeBitmap, dataBitmap, inodeTable⟩

end Writes

/-- A successful `vsfs_mkfs` leaves a valid layout exactly for 88 to `2 ^ 23 - 1` sectors. -/
theorem vsfsMkfs_layout_iff (disk : Disk) (sectors startLba : UInt64) (totalSectors : UInt32) (heap : Nat → UInt8) :
    ((vsfsMkfs disk sectors startLba totalSectors heap).1 = true →
        ValidLayout (vsfsMkfs disk sectors startLba totalSectors heap).2.1 totalSectors) ↔
      ¬ Writable sectors startLba totalSectors ∨ (88 ≤ totalSectors ∧ totalSectors < 2 ^ 23) := by
  rw [vsfsMkfs_superblock, vsfsMkfs_result_iff, validLayout_iff]
  exact imp_iff_not_or

/-- A volume of 64 sectors and one of `2 ^ 23`, on disks that are large enough: the inode table of
the first ends behind it, and the second has no blocks at all. -/
theorem vsfsMkfs_invalid_layouts :
    (vsfsMkfs Fat32.blankDisk 4096 2048 64 fun _ => 0).1 = true ∧
      (vsfsMkfs Fat32.blankDisk 4096 2048 64 fun _ => 0).2.1.totalBlocks = 8 ∧
      (vsfsMkfs Fat32.blankDisk 4096 2048 64 fun _ => 0).2.1.dataRegionBlock = 11 ∧
      ¬ ValidLayout (vsfsMkfs Fat32.blankDisk 4096 2048 64 fun _ => 0).2.1 64 ∧
      (vsfsMkfs Fat32.blankDisk 8388608 0 8388608 fun _ => 0).1 = true ∧
      (vsfsMkfs Fat32.blankDisk 8388608 0 8388608 fun _ => 0).2.1.totalBlocks = 0 ∧
      ¬ ValidLayout (vsfsMkfs Fat32.blankDisk 8388608 0 8388608 fun _ => 0).2.1 8388608 := by
  refine ⟨vsfsMkfs_result_iff _ |>.mpr ?_, ?_, ?_, ?_, vsfsMkfs_result_iff _ |>.mpr ?_, ?_, ?_⟩
  · simp only [Writable, List.mem_cons, List.not_mem_nil, or_false, forall_eq_or_imp, forall_eq]
    decide
  · rw [vsfsMkfs_superblock]
    decide
  · rw [vsfsMkfs_superblock]
    decide
  · rw [vsfsMkfs_superblock, validLayout_iff]
    decide
  · simp only [Writable, List.mem_cons, List.not_mem_nil, or_false, forall_eq_or_imp, forall_eq]
    decide
  · rw [vsfsMkfs_superblock]
    decide
  · rw [vsfsMkfs_superblock, validLayout_iff]
    decide

end KeblaOS.Vsfs
