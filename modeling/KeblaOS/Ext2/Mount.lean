import KeblaOS.Ext2.Format

/-!
# Mounting an ext2 volume

`ext2_mount` and the readers address structures by block numbers. The superblock says that
a block has 4096 bytes, so block 1 is the eight sectors from distance 8 on. That is where
the formatter, which counts in blocks of 1024 bytes, put the inode bitmap; the reader takes
it for the group descriptors and finds the inode table at block 0, in sectors the formatter
never wrote. `ext2_mount` also reads that block into an array sized for the group
descriptors, which is shorter than a block on a volume with fewer than 128 groups.
-/

namespace KeblaOS.Ext2

open KeblaOS.Buffer
open KeblaOS.Fat32 (Disk sectorAt length_sectorAt sectorAt_of_le ofNat_leNat_leBytes_two
  ofNat_leNat_leBytes_four)

/-- The fields of `ext2_fs_t` the readers use. -/
structure Ext2Fs where
  startLba : UInt64
  blockSize : UInt32
  super : Superblock
  /-- The bytes of the `groups` array. -/
  groups : List UInt8

/-- Why a mount does not succeed: it returns false, or it writes past an allocation. -/
inductive MountError where
  | badMagic
  | noMemory
  | overrun
deriving DecidableEq

/-- `ext2_read_block`: the bytes it reads, unless it returns false. -/
def ext2ReadBlock (disk : Disk) (fs : Ext2Fs) (block : UInt32) : Option (List UInt8) :=
  if fs.super.sBlocksCount ≤ block then none
  else
    let lba := fs.startLba + block.toUInt64 * (fs.blockSize / 512).toUInt64
    some (keblaDiskRead disk lba (fs.blockSize / 512).toNat)

/-- `ext2_mount`. The group descriptors are read into an array of `group_count` of them,
and `malloc` has no blocks of size zero. -/
def ext2Mount (disk : Disk) (startLba : UInt64) : Except MountError Ext2Fs :=
  let super := loadSuperblock (keblaDiskRead disk (startLba + 2) 2)
  if super.sMagic ≠ 0xEF53 then .error .badMagic
  else
    let blockSize := 1024 <<< super.sLogBlockSize
    let groupCount := (super.sBlocksCount + super.sBlocksPerGroup - 1) / super.sBlocksPerGroup
    if groupCount = 0 then .error .noMemory
    else
      let groups := List.replicate (groupCount.toNat * 32) 0
      let gdBlock := if blockSize = 1024 then 2 else 1
      let fs : Ext2Fs := ⟨startLba, blockSize, super, groups⟩
      match ext2ReadBlock disk fs gdBlock with
      | none => .ok fs
      | some bytes =>
          if bytes.length ≤ groups.length then .ok { fs with groups := overwrite groups 0 bytes }
          else .error .overrun

/-- `ext2_read_inode`: the inode it reads, unless it returns false. -/
def ext2ReadInode (disk : Disk) (fs : Ext2Fs) (inodeNo : UInt32) : Option Inode :=
  let group := (inodeNo - 1) / fs.super.sInodesPerGroup
  let index := (inodeNo - 1) % fs.super.sInodesPerGroup
  let inodeTable := (loadGroupDesc (slice fs.groups (32 * group.toNat) 32)).bgInodeTable
  let inodeSize := fs.super.sInodeSize.toUInt32
  let block := inodeTable + (index * inodeSize) / fs.blockSize
  let offset := (index * inodeSize) % fs.blockSize
  (ext2ReadBlock disk fs block).map fun bytes => loadInode (slice bytes offset.toNat 128)

/-- The inode is a directory of one block. -/
def Inode.IsBlockDirectory (inode : Inode) : Prop :=
  inode.iMode &&& 0xF000 = 0x4000 ∧ inode.iSize = 4096

/-- The block starts with the two entries of the root directory. -/
def StartsWithDots (block : List UInt8) : Prop :=
  loadDirEntry block = dotEntry ∧ loadDirEntry (block.drop 12) = dotdotEntry

/-- A mount succeeds and inode 2 is a directory of one block whose block starts with the
entries the formatter wrote. -/
def RootReadable (disk : Disk) (startLba : UInt64) : Prop :=
  ∃ fs, ext2Mount disk startLba = .ok fs ∧
    ∃ inode, ext2ReadInode disk fs 2 = some inode ∧ inode.IsBlockDirectory ∧
      ∃ block, ext2ReadBlock disk fs (inode.iBlock.getD 0 0) = some block ∧ StartsWithDots block

/-- There is an array of group descriptors, and it holds a whole block or block 1 is none of the volume, so
that nothing is read into it. -/
def GroupsFit (blocks : UInt32) : Prop :=
  totalGroups blocks ≠ 0 ∧ (blocks ≤ 1 ∨ 128 ≤ totalGroups blocks)

/-- The inode the reader finds as number 2: it lies in the first sector of the volume. -/
def foundInode (disk : Disk) (startLba : UInt64) : Inode :=
  loadInode (slice (disk.sector startLba.toNat) 128 128)

/-- The disk held such an inode before it was formatted, and its first block held the
entries of the root directory, in a sector the formatter leaves alone. -/
structure RootFoundBefore (disk : Disk) (startLba : UInt64) (blocks : UInt32) : Prop where
  directory : (foundInode disk startLba).IsBlockDirectory
  inside : (foundInode disk startLba).iBlock.getD 0 0 < blocks
  elsewhere : (foundInode disk startLba).iBlock.getD 0 0 ≠ 1
  dots : StartsWithDots
    (disk.sector (startLba + ((foundInode disk startLba).iBlock.getD 0 0).toUInt64 * 8).toNat)

/-! ## Reading what was written -/

/-- A read starts with its first sector. -/
theorem keblaDiskRead_succ (disk : Disk) (lba : UInt64) (count : Nat) :
    ∃ rest, keblaDiskRead disk lba (count + 1) = disk.sector lba.toNat ++ rest := by
  refine ⟨(List.map Nat.succ (List.range count)).flatMap fun i => disk.sector (lba + UInt64.ofNat i).toNat, ?_⟩
  rw [keblaDiskRead, List.range_succ_eq_map, List.flatMap_cons]
  rw [show lba + UInt64.ofNat 0 = lba from UInt64.add_zero lba]

theorem length_keblaDiskRead (disk : Disk) (lba : UInt64) (count : Nat) :
    (keblaDiskRead disk lba count).length = 512 * count := by
  have sized : ∀ sector ∈ (List.range count).map fun i => disk.sector (lba + UInt64.ofNat i).toNat,
      sector.length = 512 := by
    intro sector member
    obtain ⟨i, _, rfl⟩ := List.mem_map.mp member
    exact disk.length_sector _
  rw [keblaDiskRead, List.flatMap_def, length_flatten_of_forall sized, List.length_map, List.length_range]

/-- The first sector of a block that starts with a short record. -/
theorem sectorAt_blockOf {bytes : List UInt8} (short : bytes.length ≤ 512) :
    sectorAt (blockOf bytes) 0 = bytes ++ List.replicate (512 - bytes.length) 0 := by
  have long : (blockOf bytes).length = 4096 := by
    rw [blockOf, List.length_append, List.length_replicate, blockSize]
    omega
  rw [sectorAt_of_le (by omega), slice, Nat.mul_zero, List.drop_zero, blockOf, List.take_append,
    List.take_of_length_le short, List.take_replicate]
  congr 2
  simp only [blockSize]
  omega

theorem Superblock.length_bytes (super : Superblock) : super.bytes.length = 90 := by
  simp [Superblock.bytes]

theorem loadSuperblock_bytes (super : Superblock) (rest : List UInt8) :
    loadSuperblock (super.bytes ++ rest) = super := by
  have front : loadSuperblock (super.bytes ++ rest) = loadSuperblock super.bytes := by
    have length := super.length_bytes
    simp (disch := omega) only [loadSuperblock, slice_append_left]
  rw [front]
  cases super
  simp (disch := simp only [length_leBytes, Nat.reduceLeDiff, Nat.reduceAdd, le_refl]) only [loadSuperblock,
    Superblock.bytes, slice_append_right, slice_append_left, slice_whole, length_leBytes,
    ofNat_leNat_leBytes_two, ofNat_leNat_leBytes_four, Nat.reduceSub]

/-- Only the first bytes of a block decide about an entry. -/
theorem loadDirEntry_append {front : List UInt8} (rest : List UInt8) (long : 263 ≤ front.length) :
    loadDirEntry (front ++ rest) = loadDirEntry front := by
  have nameLen : (front ++ rest).getD 6 0 = front.getD 6 0 := List.getD_append _ _ _ _ (by omega)
  have fileType : (front ++ rest).getD 7 0 = front.getD 7 0 := List.getD_append _ _ _ _ (by omega)
  have short := (front.getD 6 0).toNat_lt
  unfold loadDirEntry
  rw [nameLen, fileType, slice_append_left (by omega), slice_append_left (by omega), slice_append_left (by omega)]

theorem startsWithDots_append {sector : List UInt8} (rest : List UInt8) (full : sector.length = 512) :
    StartsWithDots (sector ++ rest) ↔ StartsWithDots sector := by
  unfold StartsWithDots
  rw [loadDirEntry_append rest (by omega), List.drop_append_of_le_length (by omega),
    loadDirEntry_append rest (by rw [List.length_drop]; omega)]

section Formatted

variable {disk : Disk} {startLba totalSectors : UInt64}

/-- The disk after formatting. -/
def formatted (disk : Disk) (startLba totalSectors : UInt64) : Disk :=
  (createExt2Fs disk startLba totalSectors).2

theorem loadSuperblock_formatted (large : ¬ totalSectors < 100) :
    loadSuperblock (keblaDiskRead (formatted disk startLba totalSectors) (startLba + 2) 2) =
      newSuperblock totalSectors := by
  obtain ⟨rest, read⟩ := keblaDiskRead_succ (formatted disk startLba totalSectors) (startLba + 2) 1
  have sector : (formatted disk startLba totalSectors).sector (startLba + 2).toNat =
      sectorAt (blockOf (newSuperblock totalSectors).bytes) 0 := createExt2Fs_sector large disk startLba 2
  rw [read, sector, sectorAt_blockOf (by rw [Superblock.length_bytes]; decide), List.append_assoc,
    loadSuperblock_bytes]

/-- The file system a mount of the formatted volume starts from. -/
def mountedFs (startLba totalSectors : UInt64) (groups : List UInt8) : Ext2Fs :=
  ⟨startLba, 4096, newSuperblock totalSectors, groups⟩

/-- Blocks of the mounted volume are eight sectors. -/
theorem ext2ReadBlock_mounted (groups : List UInt8) (block : UInt32) :
    ext2ReadBlock disk (mountedFs startLba totalSectors groups) block =
      if totalBlocks totalSectors ≤ block then none
      else some (keblaDiskRead disk (startLba + block.toUInt64 * 8) 8) := by
  have eight : (4096 : UInt32) / 512 = 8 := by decide
  unfold ext2ReadBlock
  simp only [mountedFs, eight]
  rfl

/-- The mount, branch by branch. -/
theorem ext2Mount_formatted (large : ¬ totalSectors < 100) :
    ext2Mount (formatted disk startLba totalSectors) startLba =
      if totalGroups (totalBlocks totalSectors) = 0 then .error .noMemory
      else
        let groups := List.replicate ((totalGroups (totalBlocks totalSectors)).toNat * 32) 0
        if totalBlocks totalSectors ≤ 1 then .ok (mountedFs startLba totalSectors groups)
        else if 128 ≤ totalGroups (totalBlocks totalSectors) then
          .ok (mountedFs startLba totalSectors (overwrite groups 0
            (keblaDiskRead (formatted disk startLba totalSectors) (startLba + 1 * 8) 8)))
        else .error .overrun := by
  have magic : ¬ (newSuperblock totalSectors).sMagic ≠ 0xEF53 := fun different => different rfl
  have size : (1024 : UInt32) <<< (newSuperblock totalSectors).sLogBlockSize = 4096 := by
    show (1024 : UInt32) <<< 2 = 4096
    decide
  have count : ((newSuperblock totalSectors).sBlocksCount + (newSuperblock totalSectors).sBlocksPerGroup - 1) /
      (newSuperblock totalSectors).sBlocksPerGroup = totalGroups (totalBlocks totalSectors) := rfl
  have descriptors : ¬ (4096 : UInt32) = 1024 := by decide
  unfold ext2Mount
  rw [loadSuperblock_formatted large]
  dsimp only
  rw [if_neg magic, count, size, if_neg descriptors]
  by_cases empty : totalGroups (totalBlocks totalSectors) = 0
  · rw [if_pos empty, if_pos empty]
  · rw [if_neg empty, if_neg empty]
    generalize zeroes : List.replicate ((totalGroups (totalBlocks totalSectors)).toNat * 32) (0 : UInt8) = groups
    have capacity : groups.length = (totalGroups (totalBlocks totalSectors)).toNat * 32 := by
      rw [← zeroes, List.length_replicate]
    have read := @ext2ReadBlock_mounted (formatted disk startLba totalSectors) startLba totalSectors groups 1
    rw [mountedFs] at read
    rw [read]
    by_cases small : totalBlocks totalSectors ≤ 1
    · rw [if_pos small, if_pos small]
      rfl
    · rw [if_neg small, if_neg small]
      dsimp only
      rw [length_keblaDiskRead, capacity]
      by_cases fits : 128 ≤ totalGroups (totalBlocks totalSectors)
      · have fits' : 128 ≤ (totalGroups (totalBlocks totalSectors)).toNat := UInt32.le_iff_toNat_le.mp fits
        rw [if_pos (by omega), if_pos fits]
        rfl
      · have short : ¬ 128 ≤ (totalGroups (totalBlocks totalSectors)).toNat := fun long =>
          fits (UInt32.le_iff_toNat_le.mpr long)
        rw [if_neg (by omega), if_neg fits]

/-- Either way the descriptors name block 0 as the inode table. -/
theorem ext2Mount_formatted_fit (large : ¬ totalSectors < 100) (fit : GroupsFit (totalBlocks totalSectors)) :
    ∃ groups, ext2Mount (formatted disk startLba totalSectors) startLba =
        .ok (mountedFs startLba totalSectors groups) ∧
      (loadGroupDesc (slice groups 0 32)).bgInodeTable = 0 := by
  obtain ⟨nonempty, room⟩ := fit
  rw [ext2Mount_formatted large, if_neg nonempty]
  dsimp only
  by_cases small : totalBlocks totalSectors ≤ 1
  · rw [if_pos small]
    refine ⟨_, rfl, ?_⟩
    simp only [loadGroupDesc, slice, List.drop_replicate, List.take_replicate, Fat32.leNat_replicate_zero]
    rfl
  · rw [if_neg small, if_pos (room.resolve_left small)]
    refine ⟨_, rfl, ?_⟩
    have sector : (formatted disk startLba totalSectors).sector (startLba + 1 * 8).toNat =
        sectorAt newInodeBitmap 0 := createExt2Fs_sector large disk startLba 8
    obtain ⟨rest, read⟩ := keblaDiskRead_succ (formatted disk startLba totalSectors) (startLba + 1 * 8) 7
    have long : (sectorAt newInodeBitmap 0).length = 512 := length_sectorAt _ _
    rw [read, sector, overwrite, List.take_zero, List.nil_append, List.append_assoc,
      slice_append_left (by omega)]
    decide

theorem ext2Mount_formatted_unfit (large : ¬ totalSectors < 100)
    (unfit : ¬ GroupsFit (totalBlocks totalSectors)) (fs : Ext2Fs) :
    ext2Mount (formatted disk startLba totalSectors) startLba ≠ .ok fs := by
  rw [ext2Mount_formatted large]
  dsimp only
  split_ifs with empty small fits
  · simp
  · exact absurd ⟨empty, .inl small⟩ unfit
  · exact absurd ⟨empty, .inr fits⟩ unfit
  · simp

/-- The reader's inode 2: bytes 128 to 255 of the first sector of the volume, which the
formatter did not write. -/
theorem ext2ReadInode_formatted {groups : List UInt8} (large : ¬ totalSectors < 100)
    (table : (loadGroupDesc (slice groups 0 32)).bgInodeTable = 0) (nonempty : totalBlocks totalSectors ≠ 0) :
    ext2ReadInode (formatted disk startLba totalSectors) (mountedFs startLba totalSectors groups) 2 =
      some (foundInode disk startLba) := by
  have sector : (formatted disk startLba totalSectors).sector (startLba + 0).toNat =
      disk.sector (startLba + 0).toNat := createExt2Fs_sector large disk startLba 0
  rw [UInt64.add_zero] at sector
  have inside : ¬ totalBlocks totalSectors ≤ 0 := by
    intro none
    exact nonempty (UInt32.le_antisymm none (UInt32.zero_le))
  obtain ⟨rest, read⟩ := keblaDiskRead_succ (formatted disk startLba totalSectors) startLba 7
  have block : ext2ReadBlock (formatted disk startLba totalSectors) (mountedFs startLba totalSectors groups) 0 =
      some (disk.sector startLba.toNat ++ rest) := by
    rw [ext2ReadBlock_mounted, if_neg inside]
    show some (keblaDiskRead _ (startLba + 0 * 8) 8) = _
    rw [UInt64.zero_mul, UInt64.add_zero, read, sector]
  have perGroup : (mountedFs startLba totalSectors groups).super.sInodesPerGroup = 8192 := rfl
  have inodeSize : (mountedFs startLba totalSectors groups).super.sInodeSize.toUInt32 = 128 := rfl
  have size : (mountedFs startLba totalSectors groups).blockSize = 4096 := rfl
  have listed : (mountedFs startLba totalSectors groups).groups = groups := rfl
  have group : ((2 : UInt32) - 1) / 8192 = 0 := by decide
  have tableBlock : (0 : UInt32) + (2 - 1) % 8192 * 128 / 4096 = 0 := by decide
  have offset : ((2 : UInt32) - 1) % 8192 * 128 % 4096 = 128 := by decide
  have full := disk.length_sector startLba.toNat
  unfold ext2ReadInode
  dsimp only
  rw [perGroup, inodeSize, size, listed, group, UInt32.toNat_zero, Nat.mul_zero, table, tableBlock, offset, block,
    Option.map_some, foundInode]
  congr 2
  exact slice_append_left (by simp [full])

/-- The formatter writes the first sector of no block of eight sectors but block 1. -/
theorem imageSector_block {block : Nat} (different : block ≠ 1) :
    imageSector totalSectors (block * 8) = none := by
  rw [imageSector, Option.map_eq_none_iff, List.find?_eq_none]
  intro item member
  simp only [structures, List.mem_reverse, List.mem_cons, List.not_mem_nil, or_false] at member
  rcases member with rfl | rfl | rfl | rfl | rfl | rfl <;> simp [covers] <;> omega

/-- A block of the mounted volume starts as it did before formatting, except block 1. -/
theorem startsWithDots_formatted {groups : List UInt8} (large : ¬ totalSectors < 100) (block : UInt32) :
    (∃ bytes, ext2ReadBlock (formatted disk startLba totalSectors) (mountedFs startLba totalSectors groups) block =
        some bytes ∧ StartsWithDots bytes) ↔
      block < totalBlocks totalSectors ∧ block ≠ 1 ∧
        StartsWithDots (disk.sector (startLba + block.toUInt64 * 8).toNat) := by
  obtain ⟨rest, read⟩ := keblaDiskRead_succ (formatted disk startLba totalSectors)
    (startLba + block.toUInt64 * 8) 7
  have distance : (block.toUInt64 * 8).toNat = block.toNat * 8 := by
    have bounded := block.toNat_lt
    rw [UInt64.toNat_mul, UInt32.toNat_toUInt64]
    show block.toNat * 8 % 2 ^ 64 = _
    omega
  have sector := createExt2Fs_sector large disk startLba (block.toUInt64 * 8)
  rw [distance] at sector
  have full := (formatted disk startLba totalSectors).length_sector (startLba + block.toUInt64 * 8).toNat
  rw [ext2ReadBlock_mounted, read]
  by_cases outside : totalBlocks totalSectors ≤ block
  · rw [if_pos outside]
    simp only [reduceCtorEq, false_and, exists_false, false_iff]
    exact fun inside => absurd (UInt32.lt_of_lt_of_le inside.1 outside) (UInt32.lt_irrefl _)
  · rw [if_neg outside]
    simp only [Option.some.injEq, exists_eq_left', startsWithDots_append rest full]
    have inside : block < totalBlocks totalSectors := UInt32.not_le.mp outside
    by_cases one : block = 1
    · -- Block 1 is the inode bitmap.
      subst one
      have bitmap : (formatted disk startLba totalSectors).sector (startLba + (1 : UInt32).toUInt64 * 8).toNat =
          sectorAt newInodeBitmap 0 := sector
      rw [bitmap]
      simp only [ne_eq, not_true_eq_false, false_and, and_false, iff_false]
      intro dots
      exact absurd dots.1 (by decide)
    · have different : block.toNat ≠ 1 := fun same => one (UInt32.toNat_inj.mp same)
      rw [imageSector_block different, Option.getD_none] at sector
      rw [formatted, sector]
      simp [inside, one]

end Formatted

theorem rootReadable_formatted_iff {disk : Disk} {startLba totalSectors : UInt64} (large : ¬ totalSectors < 100) :
    RootReadable (formatted disk startLba totalSectors) startLba ↔
      GroupsFit (totalBlocks totalSectors) ∧
        RootFoundBefore disk startLba (totalBlocks totalSectors) := by
  by_cases fit : GroupsFit (totalBlocks totalSectors)
  · obtain ⟨groups, mounted, table⟩ := @ext2Mount_formatted_fit disk startLba _ large fit
    have nonempty : totalBlocks totalSectors ≠ 0 := by
      intro none
      exact fit.1 (by rw [none]; decide)
    have inode := @ext2ReadInode_formatted disk startLba totalSectors groups large table nonempty
    have dots := @startsWithDots_formatted disk startLba totalSectors groups large
      ((foundInode disk startLba).iBlock.getD 0 0)
    constructor
    · rintro ⟨fs, mounted', inode', found, directory, starts⟩
      obtain rfl := Except.ok.inj (mounted'.symm.trans mounted)
      obtain rfl := Option.some.inj (found.symm.trans inode)
      obtain ⟨inside, elsewhere, before⟩ := dots.mp starts
      exact ⟨fit, directory, inside, elsewhere, before⟩
    · rintro ⟨_, before⟩
      exact ⟨_, mounted, _, inode, before.directory, dots.mpr ⟨before.inside, before.elsewhere, before.dots⟩⟩
  · constructor
    · rintro ⟨fs, mounted, _⟩
      exact absurd mounted (ext2Mount_formatted_unfit large fit fs)
    · exact fun both => absurd both.1 fit

/-- After a successful `create_ext2_fs` the root directory can be read exactly when the
group descriptors fit and the disk held a root directory where the reader looks before it
was formatted. -/
theorem rootReadable_iff_foundBefore (disk : Disk) (startLba totalSectors : UInt64)
    (accepted : (createExt2Fs disk startLba totalSectors).1 = true) :
    RootReadable (createExt2Fs disk startLba totalSectors).2 startLba ↔
      GroupsFit (totalBlocks totalSectors) ∧
        RootFoundBefore disk startLba (totalBlocks totalSectors) := by
  refine rootReadable_formatted_iff fun small => ?_
  rw [createExt2Fs, if_pos small] at accepted
  exact absurd accepted (by simp)

/-- A sector that holds the two entries and, at the place of inode 2, a directory whose
first block is block 0. -/
def rootImage : List UInt8 :=
  sectorAt (dotEntry.bytes ++ List.replicate 3 0 ++ dotdotEntry.bytes ++ List.replicate 106 0 ++
    { rootInode with iBlock := List.replicate 15 0 }.bytes) 0

/-- A disk that held this image in every sector can be read after it is formatted with
`2 ^ 25` sectors. -/
theorem rootReadable_rootImage :
    RootReadable (createExt2Fs ⟨fun _ => rootImage, fun _ => length_sectorAt _ _⟩ 0 33554432).2 0 := by
  refine (rootReadable_iff_foundBefore ⟨fun _ => rootImage, fun _ => length_sectorAt _ _⟩ 0 33554432
    (by decide)).mpr ⟨by unfold GroupsFit; decide, ⟨?_, ?_, ?_, ?_⟩⟩
  · unfold Inode.IsBlockDirectory foundInode
    decide +kernel
  · decide +kernel
  · decide +kernel
  · unfold StartsWithDots
    decide +kernel

/-- A blank disk formatted with `2 ^ 25` sectors: the mount succeeds, and inode 2 has mode
zero. -/
theorem blank_root_not_readable :
    (createExt2Fs Fat32.blankDisk 0 33554432).1 = true ∧
      (∃ fs, ext2Mount (createExt2Fs Fat32.blankDisk 0 33554432).2 0 = .ok fs ∧
        ext2ReadInode (createExt2Fs Fat32.blankDisk 0 33554432).2 fs 2 =
          some (foundInode Fat32.blankDisk 0)) ∧
      (foundInode Fat32.blankDisk 0).iMode = 0 ∧
      ¬ RootReadable (createExt2Fs Fat32.blankDisk 0 33554432).2 0 := by
  have large : ¬ (33554432 : UInt64) < 100 := by decide
  have fit : GroupsFit (totalBlocks 33554432) := by
    unfold GroupsFit
    decide
  obtain ⟨groups, mounted, table⟩ := @ext2Mount_formatted_fit Fat32.blankDisk 0 _ large fit
  refine ⟨by rw [createExt2Fs, if_neg large],
    ⟨_, mounted, ext2ReadInode_formatted large table (by decide)⟩, by decide +kernel, fun readable => ?_⟩
  have before := (rootReadable_formatted_iff large).mp readable
  exact absurd before.2.directory.1 (by decide +kernel)

end KeblaOS.Ext2
