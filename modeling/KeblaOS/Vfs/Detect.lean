import KeblaOS.Ext2.Mount

/-!
# Detecting file systems

`detect_filesystem` compares bytes at fixed places of sector 0, of the boot sector of the
first MBR partition, of the ext2 superblock and of the ISO 9660 descriptor. For ext2 it
reads the 1024 bytes of the superblock into a buffer of 1536 bytes and looks for the magic
number at offset 1024 + 0x38, behind the bytes it read; what stands there is an argument
of the model.
-/

namespace KeblaOS.Vfs

open KeblaOS.Buffer
open KeblaOS.Fat32 (Disk Bpb sectorAt sectorAt_of_le volumeBpb volumeBpb_sized loadBpb_bytes
  createFat32Volume createFat32Volume_boot)
open KeblaOS.Ext2 (Superblock GroupDesc createExt2Fs createExt2Fs_sector imageSector covers structures blockOf keblaDiskRead
  length_keblaDiskRead)

/-- The values of `VFS_TYPE` that `detect_filesystem` returns. -/
inductive VfsType where
  | fat12
  | fat16
  | fat32
  | exfat
  | ext2
  | ntfs
  | iso9660
  | raw
deriving DecidableEq

/-- `memcmp` of the bytes at an offset with a text. -/
def textAt (sector : List UInt8) (offset : Nat) (text : List UInt8) : Bool :=
  slice sector offset text.length = text

/-- `FAT32`. -/
def fat32Text : List UInt8 := [0x46, 0x41, 0x54, 0x33, 0x32]

/-- `FAT16`. -/
def fat16Text : List UInt8 := [0x46, 0x41, 0x54, 0x31, 0x36]

/-- `FAT12`. -/
def fat12Text : List UInt8 := [0x46, 0x41, 0x54, 0x31, 0x32]

/-- `EXFAT` and three blanks. -/
def exfatText : List UInt8 := [0x45, 0x58, 0x46, 0x41, 0x54, 0x20, 0x20, 0x20]

/-- `NTFS` and four blanks. -/
def ntfsText : List UInt8 := [0x4E, 0x54, 0x46, 0x53, 0x20, 0x20, 0x20, 0x20]

/-- `CD001`. -/
def cd001Text : List UInt8 := [0x43, 0x44, 0x30, 0x30, 0x31]

/-- The FAT tests on a boot sector. -/
def detectFat (sector : List UInt8) : Option VfsType :=
  if textAt sector 0x52 fat32Text ∨ textAt sector 0x36 fat32Text then some .fat32
  else if textAt sector 0x36 fat16Text then some .fat16
  else if textAt sector 0x36 fat12Text then some .fat12
  else none

/-- The MBR signature and a type in the first partition entry. -/
def hasPartition (sector : List UInt8) : Bool :=
  sector.getD 510 0 = 0x55 && sector.getD 511 0 = 0xAA && sector.getD (0x1BE + 4) 0 ≠ 0

/-- `start_lba` of the first partition entry. -/
def partitionLba (sector : List UInt8) : Nat := leNat (slice sector (0x1BE + 8) 4)

/-- `detect_filesystem`, on a disk whose reads succeed; `behind` is the part of `extbuf`
that nothing was read into. -/
def detectFilesystem (disk : Disk) (behind : List UInt8) : VfsType :=
  let sector := disk.sector 0
  let partition := if hasPartition sector then detectFat (disk.sector (partitionLba sector)) else none
  match partition.or (detectFat sector) with
  | some type => type
  | none =>
      if textAt sector 0x03 exfatText then .exfat
      else if textAt sector 0x03 ntfsText then .ntfs
      else
        let extbuf := keblaDiskRead disk 2 2 ++ behind
        if leNat (slice extbuf (1024 + 0x38) 2) = 0xEF53 then .ext2
        else if textAt (disk.sector 16) 0x01 cd001Text then .iso9660
        else .raw

/-- No signature of another file system where the detector looks before ext2. -/
structure Unsigned (disk : Disk) : Prop where
  boot : detectFat (disk.sector 0) = none
  partition : detectFat (disk.sector (partitionLba (disk.sector 0))) = none
  exfat : textAt (disk.sector 0) 0x03 exfatText = false
  ntfs : textAt (disk.sector 0) 0x03 ntfsText = false

/-- The formatters and the detector agree on a disk, for the sizes each formatter accepts. -/
structure Agree (disk : Disk) (fatSectors : UInt32) (ext2Sectors : UInt64) (behind : List UInt8) : Prop where
  fat32 : ∀ bpb after, createFat32Volume disk 0 fatSectors = some (bpb, after) →
    detectFilesystem after behind = .fat32
  ext2 : (createExt2Fs disk 0 ext2Sectors).1 = true →
    detectFilesystem (createExt2Fs disk 0 ext2Sectors).2 behind = .ext2

/-! ## FAT32 -/

theorem getD_of_slice {buffer : List UInt8} {pos : Nat} {byte : UInt8} (there : slice buffer pos 1 = [byte]) :
    buffer.getD pos 0 = byte := by
  have head := congrArg List.head? there
  rw [slice, List.head?_take, if_neg (by decide), List.head?_drop] at head
  rw [List.getD_eq_getElem?_getD, head]
  rfl

/-- The file system text of a boot sector lies where the detector looks for it. -/
theorem Bpb.slice_filSysType {bpb : Bpb} (sized : bpb.Sized) : slice bpb.bytes 0x52 8 = bpb.filSysType :=
  congrArg Bpb.filSysType (loadBpb_bytes sized)

/-- The place of the first partition's type is inside the boot code. -/
theorem Bpb.slice_partitionType {bpb : Bpb} (sized : bpb.Sized) :
    slice bpb.bytes (0x1BE + 4) 1 = slice bpb.bootCode 360 1 := by
  have code : slice bpb.bytes 90 420 = bpb.bootCode := congrArg Bpb.bootCode (loadBpb_bytes sized)
  rw [← code, slice_slice (by decide)]

/-- A FAT32 boot sector without boot code is recognised by its own text. -/
theorem detectFilesystem_boot {disk : Disk} {sectors : UInt32} (boot : disk.sector 0 = (volumeBpb 0 sectors).bytes)
    (behind : List UInt8) : detectFilesystem disk behind = .fat32 := by
  have sized := volumeBpb_sized 0 sectors
  have unpartitioned : hasPartition (disk.sector 0) = false := by
    have zero : slice (disk.sector 0) (0x1BE + 4) 1 = [0] := by
      rw [boot, Bpb.slice_partitionType sized]
      rfl
    have type : (disk.sector 0).getD (0x1BE + 4) 0 = 0 := getD_of_slice zero
    rw [hasPartition, type]
    simp
  have text : slice (disk.sector 0) 0x52 5 = fat32Text := by
    have whole := congrArg (List.take 5) (Bpb.slice_filSysType sized)
    rw [slice, List.take_take, ← boot] at whole
    exact whole
  have fat : detectFat (disk.sector 0) = some .fat32 := if_pos (.inl (decide_eq_true text))
  unfold detectFilesystem
  simp only [unpartitioned, fat, Bool.false_eq_true, if_false, Option.none_or]

/-! ## ext2 -/

/-- A sector with zero bytes at the two places is no FAT boot sector. -/
theorem detectFat_eq_none {sector : List UInt8} (first : slice sector 0x36 1 = [0])
    (second : slice sector 0x52 1 = [0]) : detectFat sector = none := by
  have absent : ∀ {offset rest}, slice sector offset 1 = [0] → textAt sector offset (0x46 :: rest) = false := by
    intro offset rest zero
    rw [textAt, decide_eq_false_iff_not]
    intro same
    have head := congrArg (List.take 1) same
    rw [slice, List.take_take, List.length_cons, Nat.min_eq_left (by omega)] at head
    rw [slice, head] at zero
    exact absurd zero (by simp)
  unfold detectFat fat32Text fat16Text fat12Text
  simp [absent first, absent second]

/-- No FAT text in the two sectors of a block that reach the disk. -/
def Unmarked (block : List UInt8) : Prop :=
  ∀ pos ∈ [0x36, 0x52, 512 + 0x36, 512 + 0x52], slice block pos 1 = [0]

theorem slice_blockOf {bytes : List UInt8} {pos : Nat} (behind : bytes.length ≤ pos) (inside : pos < 4096) :
    slice (blockOf bytes) pos 1 = [0] := by
  rw [blockOf, slice_append_right behind, slice, List.drop_replicate, List.take_replicate, Ext2.blockSize,
    Nat.min_eq_left (by omega)]
  rfl

theorem Unmarked.blockOf {bytes : List UInt8} (short : bytes.length ≤ 0x36) : Unmarked (blockOf bytes) := by
  intro pos member
  have places : pos = 0x36 ∨ pos = 0x52 ∨ pos = 512 + 0x36 ∨ pos = 512 + 0x52 := by simpa using member
  exact slice_blockOf (by omega) (by omega)

theorem Superblock.unmarked (super : Superblock) : Unmarked (Ext2.blockOf super.bytes) := by
  have length : super.bytes.length = 90 := by simp [Superblock.bytes]
  intro pos member
  have places : pos = 0x36 ∨ pos = 0x52 ∨ pos = 512 + 0x36 ∨ pos = 512 + 0x52 := by simpa using member
  rcases places with rfl | rfl | rfl | rfl
  · rw [Ext2.blockOf, slice_append_left (by omega)]
    simp (disch := simp only [length_leBytes, Nat.reduceLeDiff, Nat.reduceAdd, le_refl]) only [Superblock.bytes,
      slice_append_right, slice_append_left, length_leBytes, Nat.reduceSub]
    rfl
  · rw [Ext2.blockOf, slice_append_left (by omega)]
    simp (disch := simp only [length_leBytes, Nat.reduceLeDiff, Nat.reduceAdd, le_refl]) only [Superblock.bytes,
      slice_append_right, slice_append_left, length_leBytes, Nat.reduceSub]
    rfl
  · exact slice_blockOf (by omega) (by omega)
  · exact slice_blockOf (by omega) (by omega)

/-- Nothing the formatter writes carries a FAT text. -/
theorem structures_unmarked (totalSectors : UInt64) : ∀ item ∈ structures totalSectors, Unmarked item.2 := by
  intro item member
  simp only [structures, List.mem_cons, List.not_mem_nil, or_false] at member
  rcases member with rfl | rfl | rfl | rfl | rfl | rfl
  · exact Superblock.unmarked _
  · exact Unmarked.blockOf (by simp [GroupDesc.bytes])
  · intro pos
    revert pos
    decide +kernel
  · exact Unmarked.blockOf (by decide)
  · intro pos
    revert pos
    decide +kernel
  · exact Unmarked.blockOf (by decide)

theorem structures_length (totalSectors : UInt64) : ∀ item ∈ structures totalSectors, 1024 ≤ item.2.length := by
  have padded : ∀ bytes : List UInt8, 1024 ≤ (blockOf bytes).length := by
    intro bytes
    rw [blockOf, List.length_append, List.length_replicate, Ext2.blockSize]
    omega
  intro item member
  simp only [structures, List.mem_cons, List.not_mem_nil, or_false] at member
  rcases member with rfl | rfl | rfl | rfl | rfl | rfl
  · exact padded _
  · exact padded _
  · decide +kernel
  · exact padded _
  · exact padded _
  · exact padded _

/-- No sector of the image is a FAT boot sector. -/
theorem imageSector_detectFat {totalSectors : UInt64} {k : Nat} {sector : List UInt8}
    (image : imageSector totalSectors k = some sector) : detectFat sector = none := by
  obtain ⟨item, found, rfl⟩ := Option.map_eq_some_iff.mp image
  have member := List.mem_reverse.mp (List.mem_of_find?_eq_some found)
  have covered := List.find?_some found
  rw [covers, Bool.and_eq_true, decide_eq_true_eq, decide_eq_true_eq] at covered
  have unmarked := structures_unmarked totalSectors item member
  have sized := structures_length totalSectors item member
  have there : ∀ pos, pos + 1 ≤ 512 →
      slice (sectorAt item.2 (k - item.1.toNat)) pos 1 = slice item.2 (512 * (k - item.1.toNat) + pos) 1 := by
    intro pos inside
    rw [sectorAt_of_le (by omega), slice_slice inside]
  obtain first | second : k - item.1.toNat = 0 ∨ k - item.1.toNat = 1 := by omega
  · refine detectFat_eq_none ?_ ?_
    · rw [there _ (by decide), first]
      exact unmarked 0x36 (by decide)
    · rw [there _ (by decide), first]
      exact unmarked 0x52 (by decide)
  · refine detectFat_eq_none ?_ ?_
    · rw [there _ (by decide), second]
      exact unmarked (512 + 0x36) (by decide)
    · rw [there _ (by decide), second]
      exact unmarked (512 + 0x52) (by decide)

section Formatted

variable {disk : Disk} {totalSectors : UInt64}

theorem createExt2Fs_boot (large : ¬ totalSectors < 100) :
    (createExt2Fs disk 0 totalSectors).2.sector 0 = disk.sector 0 :=
  createExt2Fs_sector large disk 0 0

/-- Formatting puts no FAT boot sector anywhere. -/
theorem createExt2Fs_detectFat (large : ¬ totalSectors < 100) {lba : Nat} (bounded : lba < 2 ^ 64)
    (clean : detectFat (disk.sector lba) = none) :
    detectFat ((createExt2Fs disk 0 totalSectors).2.sector lba) = none := by
  have written := createExt2Fs_sector large disk 0 (UInt64.ofNat lba)
  rw [UInt64.zero_add, UInt64.toNat_ofNat_of_lt' bounded] at written
  rw [written]
  cases image : imageSector totalSectors lba with
  | none => exact clean
  | some sector => exact imageSector_detectFat image

theorem partitionLba_lt (sector : List UInt8) : partitionLba sector < 2 ^ 64 := by
  have width := leNat_lt (slice sector (0x1BE + 8) 4)
  have short : (slice sector (0x1BE + 8) 4).length ≤ 4 := by
    rw [length_slice]
    omega
  calc
    partitionLba sector < 256 ^ (slice sector (0x1BE + 8) 4).length := width
    _ ≤ 256 ^ 4 := Nat.pow_le_pow_right (by decide) short
    _ ≤ 2 ^ 64 := by decide

/-- The read of the superblock ends where the detector looks for the magic number. -/
theorem slice_extbuf (behind : List UInt8) :
    slice (keblaDiskRead disk 2 2 ++ behind) (1024 + 0x38) 2 = slice behind 0x38 2 := by
  have length : (keblaDiskRead disk 2 2).length = 1024 := length_keblaDiskRead disk 2 2
  rw [slice_append_right (by omega), length]

/-- What the detector says about a formatted ext2 volume. -/
theorem detectFilesystem_ext2_iff (unsigned : Unsigned disk) (large : ¬ totalSectors < 100) (behind : List UInt8) :
    detectFilesystem (createExt2Fs disk 0 totalSectors).2 behind = .ext2 ↔
      leNat (slice behind 0x38 2) = 0xEF53 := by
  have same : (createExt2Fs disk 0 totalSectors).2.sector 0 = disk.sector 0 := createExt2Fs_boot large
  have partition : detectFat ((createExt2Fs disk 0 totalSectors).2.sector (partitionLba (disk.sector 0))) = none :=
    createExt2Fs_detectFat large (partitionLba_lt _) unsigned.partition
  unfold detectFilesystem
  simp only [same, partition, unsigned.boot, unsigned.exfat, unsigned.ntfs, ite_self, Option.none_or,
    Bool.false_eq_true, if_false, slice_extbuf]
  by_cases magic : leNat (slice behind 0x38 2) = 0xEF53
  · rw [if_pos magic]
    exact iff_of_true rfl magic
  · rw [if_neg magic]
    refine iff_of_false ?_ magic
    split <;> exact nofun

end Formatted

/-- The FAT32 formatter and the detector always agree; the ext2 formatter and the detector
do when the bytes behind the superblock read happen to be the magic number. -/
theorem agree_iff_magic_behind (disk : Disk) (unsigned : Unsigned disk) (fatSectors : UInt32) (ext2Sectors : UInt64)
    (behind : List UInt8) :
    Agree disk fatSectors ext2Sectors behind ↔
      (¬ ext2Sectors < 100 → leNat (slice behind 0x38 2) = 0xEF53) := by
  constructor
  · intro agree large
    refine (detectFilesystem_ext2_iff unsigned large behind).mp (agree.ext2 ?_)
    rw [createExt2Fs, if_neg large]
  · intro magic
    refine ⟨?_, ?_⟩
    · intro bpb after formatted
      obtain ⟨written, created, boot⟩ := createFat32Volume_boot disk fatSectors
      obtain ⟨rfl, rfl⟩ := Prod.mk.inj (Option.some.inj (created.symm.trans formatted))
      exact detectFilesystem_boot boot behind
    · intro accepted
      have large : ¬ ext2Sectors < 100 := by
        intro small
        rw [createExt2Fs, if_pos small] at accepted
        exact Bool.false_ne_true accepted
      exact (detectFilesystem_ext2_iff unsigned large behind).mpr (magic large)

theorem blankDisk_unsigned : Unsigned Fat32.blankDisk :=
  ⟨by decide +kernel, by decide +kernel, by decide +kernel, by decide +kernel⟩

theorem agree_blankDisk_magic_behind :
    Agree Fat32.blankDisk 4096 100 (List.replicate 0x38 0 ++ [0x53, 0xEF] ++ List.replicate 454 0) :=
  (agree_iff_magic_behind Fat32.blankDisk blankDisk_unsigned 4096 100 _).mpr fun _ => by decide +kernel

/-- A formatted ext2 volume on a blank disk is not recognised when the buffer held zeros. -/
theorem blank_ext2_not_detected :
    Unsigned Fat32.blankDisk ∧ (createExt2Fs Fat32.blankDisk 0 100).1 = true ∧
      detectFilesystem (createExt2Fs Fat32.blankDisk 0 100).2 (List.replicate 512 0) ≠ .ext2 := by
  refine ⟨blankDisk_unsigned, rfl, fun detected => ?_⟩
  have magic := (detectFilesystem_ext2_iff blankDisk_unsigned (by decide) _).mp detected
  exact absurd magic (by decide +kernel)

end KeblaOS.Vfs
