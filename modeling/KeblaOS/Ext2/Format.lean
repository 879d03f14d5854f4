import KeblaOS.Fat32.Format

/-!
# Formatting an ext2 volume

`create_ext2_fs` writes six structures of 1024 bytes, each at a fixed distance from the
start of the volume: superblock, group descriptor, block bitmap, inode bitmap, the first
piece of the inode table and the root directory. Their counters follow from the number of
sectors in 32- and 16-bit arithmetic. Transfers always succeed. Sector numbers are 64-bit
and a transfer of several sectors counts up from the first one. Of the records the fields
are kept that some function here assigns or reads; the others stay zero.

An inode number is one more than its bit in the bitmap. The formatter sets the bits 1 and
2 for the inodes 1 and 2, so inode 1 stays free in the bitmap of every volume.
-/

namespace KeblaOS.Ext2

open KeblaOS.Buffer
open KeblaOS.Fat32 (Disk sectorAt length_sectorAt sectorAt_of_le ofNat_leNat_leBytes_two
  ofNat_leNat_leBytes_four)

/-! ## Transfers -/

/-- `kebla_disk_read`: the bytes it leaves in the buffer. -/
def keblaDiskRead (disk : Disk) (lba : UInt64) (count : Nat) : List UInt8 :=
  (List.range count).flatMap fun i => disk.sector (lba + UInt64.ofNat i).toNat

/-- `kebla_disk_write`. -/
def keblaDiskWrite (disk : Disk) (lba : UInt64) (count : Nat) (buffer : List UInt8) : Disk where
  sector x :=
    if x < 2 ^ 64 ∧ (UInt64.ofNat x - lba).toNat < count then
      sectorAt buffer (UInt64.ofNat x - lba).toNat
    else disk.sector x
  length_sector x := by
    split
    · exact length_sectorAt _ _
    · exact disk.length_sector x

/-! ## Records -/

/-- `ext2_superblock_t`. -/
structure Superblock where
  sInodesCount : UInt32
  sBlocksCount : UInt32
  sRBlocksCount : UInt32
  sFreeBlocksCount : UInt32
  sFreeInodesCount : UInt32
  sFirstDataBlock : UInt32
  sLogBlockSize : UInt32
  sBlocksPerGroup : UInt32
  sInodesPerGroup : UInt32
  sMagic : UInt16
  sRevLevel : UInt32
  sFirstIno : UInt32
  sInodeSize : UInt16
deriving DecidableEq

/-- `ext2_group_desc_t`. -/
structure GroupDesc where
  bgBlockBitmap : UInt32
  bgInodeBitmap : UInt32
  bgInodeTable : UInt32
  bgFreeBlocksCount : UInt16
  bgFreeInodesCount : UInt16
  bgUsedDirsCount : UInt16
deriving DecidableEq

/-- `ext2_inode_t`. -/
structure Inode where
  iMode : UInt16
  iUid : UInt16
  iSize : UInt32
  iGid : UInt16
  iLinksCount : UInt16
  iBlocks : UInt32
  iBlock : List UInt32
deriving DecidableEq

/-- `ext2_dir_entry_t`. -/
structure DirEntry where
  inode : UInt32
  recLen : UInt16
  nameLen : UInt8
  fileType : UInt8
  name : List UInt8
deriving DecidableEq

/-- The superblock as it lies in memory. -/
def Superblock.bytes (super : Superblock) : List UInt8 :=
  leBytes 4 super.sInodesCount.toNat ++ (leBytes 4 super.sBlocksCount.toNat ++
    (leBytes 4 super.sRBlocksCount.toNat ++ (leBytes 4 super.sFreeBlocksCount.toNat ++
    (leBytes 4 super.sFreeInodesCount.toNat ++ (leBytes 4 super.sFirstDataBlock.toNat ++
    (leBytes 4 super.sLogBlockSize.toNat ++ (leBytes 4 0 ++ (leBytes 4 super.sBlocksPerGroup.toNat ++
    (leBytes 4 0 ++ (leBytes 4 super.sInodesPerGroup.toNat ++ (leBytes 12 0 ++
    (leBytes 2 super.sMagic.toNat ++ (leBytes 18 0 ++ (leBytes 4 super.sRevLevel.toNat ++ (leBytes 4 0 ++
    (leBytes 4 super.sFirstIno.toNat ++ leBytes 2 super.sInodeSize.toNat))))))))))))))))

/-- Superblock read from a buffer. -/
def loadSuperblock (buffer : List UInt8) : Superblock where
  sInodesCount := UInt32.ofNat (leNat (slice buffer 0 4))
  sBlocksCount := UInt32.ofNat (leNat (slice buffer 4 4))
  sRBlocksCount := UInt32.ofNat (leNat (slice buffer 8 4))
  sFreeBlocksCount := UInt32.ofNat (leNat (slice buffer 12 4))
  sFreeInodesCount := UInt32.ofNat (leNat (slice buffer 16 4))
  sFirstDataBlock := UInt32.ofNat (leNat (slice buffer 20 4))
  sLogBlockSize := UInt32.ofNat (leNat (slice buffer 24 4))
  sBlocksPerGroup := UInt32.ofNat (leNat (slice buffer 32 4))
  sInodesPerGroup := UInt32.ofNat (leNat (slice buffer 40 4))
  sMagic := UInt16.ofNat (leNat (slice buffer 56 2))
  sRevLevel := UInt32.ofNat (leNat (slice buffer 76 4))
  sFirstIno := UInt32.ofNat (leNat (slice buffer 84 4))
  sInodeSize := UInt16.ofNat (leNat (slice buffer 88 2))

/-- The group descriptor as it lies in memory. -/
def GroupDesc.bytes (group : GroupDesc) : List UInt8 :=
  leBytes 4 group.bgBlockBitmap.toNat ++ (leBytes 4 group.bgInodeBitmap.toNat ++
    (leBytes 4 group.bgInodeTable.toNat ++ (leBytes 2 group.bgFreeBlocksCount.toNat ++
    (leBytes 2 group.bgFreeInodesCount.toNat ++ (leBytes 2 group.bgUsedDirsCount.toNat ++ leBytes 14 0)))))

/-- Group descriptor read from a buffer. -/
def loadGroupDesc (buffer : List UInt8) : GroupDesc where
  bgBlockBitmap := UInt32.ofNat (leNat (slice buffer 0 4))
  bgInodeBitmap := UInt32.ofNat (leNat (slice buffer 4 4))
  bgInodeTable := UInt32.ofNat (leNat (slice buffer 8 4))
  bgFreeBlocksCount := UInt16.ofNat (leNat (slice buffer 12 2))
  bgFreeInodesCount := UInt16.ofNat (leNat (slice buffer 14 2))
  bgUsedDirsCount := UInt16.ofNat (leNat (slice buffer 16 2))

/-- The inode as it lies in memory. -/
def Inode.bytes (inode : Inode) : List UInt8 :=
  leBytes 2 inode.iMode.toNat ++ (leBytes 2 inode.iUid.toNat ++ (leBytes 4 inode.iSize.toNat ++
    (leBytes 16 0 ++ (leBytes 2 inode.iGid.toNat ++ (leBytes 2 inode.iLinksCount.toNat ++
    (leBytes 4 inode.iBlocks.toNat ++ (leBytes 8 0 ++
    (inode.iBlock.flatMap (fun block => leBytes 4 block.toNat) ++ leBytes 28 0))))))))

/-- Inode read from a buffer. -/
def loadInode (buffer : List UInt8) : Inode where
  iMode := UInt16.ofNat (leNat (slice buffer 0 2))
  iUid := UInt16.ofNat (leNat (slice buffer 2 2))
  iSize := UInt32.ofNat (leNat (slice buffer 4 4))
  iGid := UInt16.ofNat (leNat (slice buffer 24 2))
  iLinksCount := UInt16.ofNat (leNat (slice buffer 26 2))
  iBlocks := UInt32.ofNat (leNat (slice buffer 28 4))
  iBlock := (List.range 15).map fun i => UInt32.ofNat (leNat (slice buffer (40 + 4 * i) 4))

/-- The directory entry as it lies in memory. -/
def DirEntry.bytes (entry : DirEntry) : List UInt8 :=
  leBytes 4 entry.inode.toNat ++ (leBytes 2 entry.recLen.toNat ++ (entry.nameLen :: entry.fileType :: entry.name))

/-- Directory entry read from a buffer. -/
def loadDirEntry (buffer : List UInt8) : DirEntry where
  inode := UInt32.ofNat (leNat (slice buffer 0 4))
  recLen := UInt16.ofNat (leNat (slice buffer 4 2))
  nameLen := buffer.getD 6 0
  fileType := buffer.getD 7 0
  name := slice buffer 8 (buffer.getD 6 0).toNat

/-! ## The formatter -/

/-- `EXT2_BLOCK_SIZE`. -/
def blockSize : Nat := 4096

/-- A cleared block with some bytes at its beginning. -/
def blockOf (bytes : List UInt8) : List UInt8 := bytes ++ List.replicate (blockSize - bytes.length) 0

/-- `total_blocks`. -/
def totalBlocks (totalSectors : UInt64) : UInt32 := (totalSectors / 8).toUInt32

/-- `TOTAL_GROUPS`. -/
def totalGroups (blocks : UInt32) : UInt32 := (blocks + 32768 - 1) / 32768

/-- The superblock of a volume. -/
def newSuperblock (totalSectors : UInt64) : Superblock :=
  let blocks := totalBlocks totalSectors
  let groups := totalGroups blocks
  let inodes := groups * 8192
  { sInodesCount := inodes
    sBlocksCount := blocks
    sRBlocksCount := 0
    -- Two bitmaps and 256 blocks of the inode table for each group.
    sFreeBlocksCount := blocks - (groups * (1 + 1 + 256) + 2)
    sFreeInodesCount := inodes - 1
    sFirstDataBlock := 0
    sLogBlockSize := 2
    sBlocksPerGroup := 32768
    sInodesPerGroup := 8192
    sMagic := 0xEF53
    sRevLevel := 0
    sFirstIno := 2
    sInodeSize := 128 }

/-- The group descriptor of a volume. -/
def newGroupDesc (totalSectors : UInt64) : GroupDesc where
  bgBlockBitmap := 3
  bgInodeBitmap := 4
  bgInodeTable := 5
  bgFreeBlocksCount := (totalBlocks totalSectors - 10).toUInt16
  bgFreeInodesCount := (totalGroups (totalBlocks totalSectors) * 8192 - 1).toUInt16
  bgUsedDirsCount := 1

/-- The block bitmap: the first ten blocks are used. -/
def newBlockBitmap : List UInt8 :=
  (List.range 10).foldl (fun bitmap i =>
    bitmap.set (i / 8) (bitmap.getD (i / 8) 0 ||| (1 <<< UInt8.ofNat (i % 8)))) (List.replicate blockSize 0)

/-- The inode bitmap. -/
def newInodeBitmap : List UInt8 := blockOf [0x06]

/-- The inode of the root directory. -/
def rootInode : Inode where
  iMode := 0x4000 ||| 0o755
  iUid := 0
  iSize := 4096
  iGid := 0
  iLinksCount := 2
  iBlocks := 2
  iBlock := (5 + 256) :: List.replicate 14 0

/-- `.` and `..` of the root directory. -/
def dotEntry : DirEntry := ⟨2, 12, 1, 2, [0x2E]⟩

def dotdotEntry : DirEntry := ⟨2, 4096 - 12, 2, 2, [0x2E, 0x2E]⟩

/-- The data block of the root directory. -/
def rootBlock : List UInt8 := blockOf (dotEntry.bytes ++ List.replicate 3 0 ++ dotdotEntry.bytes)

/-- The structures in the order they are written, with their distance from the start of the
volume. -/
def structures (totalSectors : UInt64) : List (UInt64 × List UInt8) :=
  [(2, blockOf (newSuperblock totalSectors).bytes), (4, blockOf (newGroupDesc totalSectors).bytes),
    (6, newBlockBitmap), (8, newInodeBitmap), (10, blockOf (List.replicate 128 0 ++ rootInode.bytes)),
    (9 * 2, rootBlock)]

/-- `create_ext2_fs`: whether it succeeds, and the disk afterwards. -/
def createExt2Fs (disk : Disk) (startLba totalSectors : UInt64) : Bool × Disk :=
  if totalSectors < 100 then (false, disk)
  else
    (true, (structures totalSectors).foldl
      (fun disk item => keblaDiskWrite disk (startLba + item.1) 2 item.2) disk)

/-! ## What is written where -/

/-- Reading and writing at distances from the same start. -/
theorem keblaDiskWrite_sector (disk : Disk) (startLba distance k : UInt64) {count : Nat} (buffer : List UInt8)
    (fits : distance.toNat + count ≤ 2 ^ 64) :
    (keblaDiskWrite disk (startLba + distance) count buffer).sector (startLba + k).toNat =
      if distance.toNat ≤ k.toNat ∧ k.toNat < distance.toNat + count then
        sectorAt buffer (k.toNat - distance.toNat)
      else disk.sector (startLba + k).toNat := by
  have offset : UInt64.ofNat (startLba + k).toNat - (startLba + distance) = k - distance := by
    rw [UInt64.ofNat_toNat, ← UInt64.toNat_inj]
    simp only [UInt64.toNat_sub, UInt64.toNat_add]
    omega
  have bounded : (startLba + k).toNat < 2 ^ 64 := UInt64.toNat_lt _
  have kBound := k.toNat_lt
  have difference : (k - distance).toNat = (2 ^ 64 - distance.toNat + k.toNat) % 2 ^ 64 := UInt64.toNat_sub _ _
  show (if _ ∧ _ then _ else _) = _
  rw [offset]
  by_cases inside : distance.toNat ≤ k.toNat ∧ k.toNat < distance.toNat + count
  · have same : (k - distance).toNat = k.toNat - distance.toNat := by omega
    rw [if_pos ⟨bounded, by omega⟩, if_pos inside, same]
  · rw [if_neg (by omega), if_neg inside]

/-- A structure covers a sector of the volume. -/
def covers (k : Nat) (item : UInt64 × List UInt8) : Bool :=
  item.1.toNat ≤ k && k < item.1.toNat + 2

/-- The sectors after some structures were written: the last one that covers a sector
counts. -/
theorem foldl_keblaDiskWrite_sector {items : List (UInt64 × List UInt8)} (disk : Disk) (startLba k : UInt64)
    (fits : ∀ item ∈ items, item.1.toNat + 2 ≤ 2 ^ 64) :
    (items.foldl (fun disk item => keblaDiskWrite disk (startLba + item.1) 2 item.2) disk).sector
        (startLba + k).toNat =
      ((items.reverse.find? (covers k.toNat)).map fun item => sectorAt item.2 (k.toNat - item.1.toNat)).getD
        (disk.sector (startLba + k).toNat) := by
  induction items generalizing disk with
  | nil => rfl
  | cons item rest ih =>
      rw [List.foldl_cons, ih _ fun other member => fits other (List.mem_cons_of_mem _ member),
        List.reverse_cons, List.find?_append]
      cases later : rest.reverse.find? (covers k.toNat) with
      | some other => rfl
      | none =>
          rw [Option.map_none, Option.getD_none, Option.none_or, List.find?_singleton,
            keblaDiskWrite_sector _ _ _ _ _ (fits item List.mem_cons_self)]
          by_cases here : item.1.toNat ≤ k.toNat ∧ k.toNat < item.1.toNat + 2
          · rw [if_pos here, if_pos (by simpa [covers] using here)]
            rfl
          · rw [if_neg here, if_neg (by simpa [covers] using here)]
            rfl

/-- The sectors of the volume that the formatter writes. -/
def imageSector (totalSectors : UInt64) (k : Nat) : Option (List UInt8) :=
  ((structures totalSectors).reverse.find? (covers k)).map fun item => sectorAt item.2 (k - item.1.toNat)

theorem createExt2Fs_sector {totalSectors : UInt64} (large : ¬ totalSectors < 100) (disk : Disk)
    (startLba k : UInt64) :
    (createExt2Fs disk startLba totalSectors).2.sector (startLba + k).toNat =
      (imageSector totalSectors k.toNat).getD (disk.sector (startLba + k).toNat) := by
  rw [createExt2Fs, if_neg large]
  refine foldl_keblaDiskWrite_sector disk startLba k fun item member => ?_
  simp only [structures, List.mem_cons, List.not_mem_nil, or_false] at member
  rcases member with rfl | rfl | rfl | rfl | rfl | rfl <;> simp

/-! ## Accounting -/

/-- `bitmap[i / 8] & (1 << (i % 8))`. -/
def bitSet (bitmap : List UInt8) (i : Nat) : Bool := (bitmap.getD (i / 8) 0).toNat.testBit (i % 8)

/-- Number of clear bits below `total`. -/
def clearBits (bitmap : List UInt8) (total : Nat) : Nat := (List.range total).countP fun i => !bitSet bitmap i

/-- The loop of `ext2_alloc_inode` and `ext2_alloc_block`: the first clear bit below
`total`. -/
def allocBit (bitmap : List UInt8) (total : Nat) : Option Nat :=
  (List.range total).find? fun i => !bitSet bitmap i

/-- The accounting of a formatted volume: free counts in range and equal to the clear bits
of the bitmaps, and nothing the formatter uses marked free. Blocks count in the formatter's
own units of two sectors. -/
structure Accounted (disk : Disk) (startLba : UInt64) : Prop where
  freeBlocks : (loadSuperblock (disk.sector (startLba + 2).toNat)).sFreeBlocksCount ≤
    (loadSuperblock (disk.sector (startLba + 2).toNat)).sBlocksCount
  freeInodes : (loadSuperblock (disk.sector (startLba + 2).toNat)).sFreeInodesCount ≤
    (loadSuperblock (disk.sector (startLba + 2).toNat)).sInodesCount
  superBlocks : (loadSuperblock (disk.sector (startLba + 2).toNat)).sFreeBlocksCount.toNat =
    clearBits (keblaDiskRead disk (startLba + 6) 2)
      (loadSuperblock (disk.sector (startLba + 2).toNat)).sBlocksCount.toNat
  superInodes : (loadSuperblock (disk.sector (startLba + 2).toNat)).sFreeInodesCount.toNat =
    clearBits (keblaDiskRead disk (startLba + 8) 2)
      (loadSuperblock (disk.sector (startLba + 2).toNat)).sInodesCount.toNat
  groupBlocks : (loadGroupDesc (disk.sector (startLba + 4).toNat)).bgFreeBlocksCount.toNat =
    clearBits (keblaDiskRead disk (startLba + 6) 2)
      (loadSuperblock (disk.sector (startLba + 2).toNat)).sBlocksCount.toNat
  groupInodes : (loadGroupDesc (disk.sector (startLba + 4).toNat)).bgFreeInodesCount.toNat =
    clearBits (keblaDiskRead disk (startLba + 8) 2)
      (loadSuperblock (disk.sector (startLba + 2).toNat)).sInodesCount.toNat
  usedBlocks : ∀ block ∈ [1, 2, 3, 4, 5, 9], bitSet (keblaDiskRead disk (startLba + 6) 2) block = true
  usedInodes : ∀ inode ∈ [1, 2], bitSet (keblaDiskRead disk (startLba + 8) 2) (inode - 1) = true

/-- The first sector of a read is what its buffer starts with. -/
theorem getD_keblaDiskRead (disk : Disk) (lba : UInt64) (count i : Nat) (inside : i < 512) :
    (keblaDiskRead disk lba (count + 1)).getD i 0 = (disk.sector lba.toNat).getD i 0 := by
  rw [keblaDiskRead, List.range_succ_eq_map, List.flatMap_cons, List.getD_append]
  · rw [show lba + UInt64.ofNat 0 = lba from UInt64.add_zero lba]
  · rw [disk.length_sector]
    exact inside

/-- Inode 1 stays free in the inode bitmap of every volume. -/
theorem inodeBitmap_bit_zero {totalSectors : UInt64} (large : ¬ totalSectors < 100) (disk : Disk)
    (startLba : UInt64) :
    bitSet (keblaDiskRead (createExt2Fs disk startLba totalSectors).2 (startLba + 8) 2) 0 = false := by
  have sector : (createExt2Fs disk startLba totalSectors).2.sector (startLba + 8).toNat =
      sectorAt newInodeBitmap 0 := createExt2Fs_sector large disk startLba 8
  rw [bitSet, Nat.zero_div, getD_keblaDiskRead _ _ _ _ (by decide), sector]
  decide

/-- The accounting is wrong on every volume: inode 1 is marked free, and the next
`ext2_alloc_inode` on its bitmap hands it out. -/
theorem createExt2Fs_not_accounted (disk : Disk) (startLba totalSectors : UInt64)
    (large : ¬ totalSectors < 100) :
    ¬ Accounted (createExt2Fs disk startLba totalSectors).2 startLba ∧
      ∀ total > 0,
        allocBit (keblaDiskRead (createExt2Fs disk startLba totalSectors).2 (startLba + 8) 2) total = some 0 := by
  have free := inodeBitmap_bit_zero large disk startLba
  constructor
  · intro accounted
    have used := accounted.usedInodes 1 (by simp)
    rw [free] at used
    exact absurd used (by simp)
  · intro total positive
    obtain ⟨total, rfl⟩ := Nat.exists_eq_succ_of_ne_zero (Nat.ne_of_gt positive)
    rw [allocBit, List.range_succ_eq_map, List.find?_cons, free]
    rfl

/-- The smallest volume. -/
theorem createExt2Fs_not_accounted_hundred :
    ¬ Accounted (createExt2Fs Fat32.blankDisk 0 100).2 0 :=
  (createExt2Fs_not_accounted Fat32.blankDisk 0 100 (by decide)).1

/-- On a volume of 100 sectors the inode bitmap has the bit of inode 1 clear, while the bit
of inode 3 is set. -/
theorem inode_one_marked_free :
    (createExt2Fs Fat32.blankDisk 0 100).1 = true ∧
      bitSet (keblaDiskRead (createExt2Fs Fat32.blankDisk 0 100).2 (0 + 8) 2) 0 = false ∧
      bitSet (keblaDiskRead (createExt2Fs Fat32.blankDisk 0 100).2 (0 + 8) 2) 2 = true ∧
      ¬ Accounted (createExt2Fs Fat32.blankDisk 0 100).2 0 := by
  have large : ¬ (100 : UInt64) < 100 := by decide
  have free := inodeBitmap_bit_zero large Fat32.blankDisk 0
  have sector : (createExt2Fs Fat32.blankDisk 0 100).2.sector (0 + 8 : UInt64).toNat =
      sectorAt newInodeBitmap 0 := createExt2Fs_sector large Fat32.blankDisk 0 8
  refine ⟨by rw [createExt2Fs, if_neg large], free, ?_, fun accounted => ?_⟩
  · rw [bitSet, getD_keblaDiskRead _ _ _ _ (by decide), sector]
    decide
  · have used := accounted.usedInodes 1 (by simp)
    rw [free] at used
    exact absurd used (by simp)

end KeblaOS.Ext2
