import KeblaOS.Fat32.Directory
import KeblaOS.Fat32.Transfer

/-!
# Formatting and mounting

`create_fat32_volume` writes the boot sector with its backup, the FSInfo sector, both FATs
and a run of zeroes, in this order and each at a position computed in its own way;
`fat32_mount` reads the boot sector back and stores the volume label. The last write of
the formatter is meant for the root directory. It goes to sector `BPB_RootClus` of the
volume, not to the first sector of that cluster, so it leaves the root directory as it was
and, with clusters of 16 sectors, erases the backup of the boot sector.
-/

namespace KeblaOS.Fat32

open KeblaOS.Buffer

/-! ## The boot sector as bytes -/

/-- The boot sector record as it lies in memory. -/
def Bpb.bytes (bpb : Bpb) : List UInt8 :=
  bpb.jmpBoot ++ (bpb.oemName ++ (leBytes 2 bpb.bytsPerSec.toNat ++ (leBytes 1 bpb.secPerClus.toNat ++
    (leBytes 2 bpb.rsvdSecCnt.toNat ++ (leBytes 1 bpb.numFATs.toNat ++ (leBytes 2 bpb.rootEntCnt.toNat ++
    (leBytes 2 bpb.totSec16.toNat ++ (leBytes 1 bpb.media.toNat ++ (leBytes 2 bpb.fatSz16.toNat ++
    (leBytes 2 bpb.secPerTrk.toNat ++ (leBytes 2 bpb.numHeads.toNat ++ (leBytes 4 bpb.hiddSec.toNat ++
    (leBytes 4 bpb.totSec32.toNat ++ (leBytes 4 bpb.fatSz32.toNat ++ (leBytes 2 bpb.extFlags.toNat ++
    (leBytes 2 bpb.fsVer.toNat ++ (leBytes 4 bpb.rootClus.toNat ++ (leBytes 2 bpb.fsInfo.toNat ++
    (leBytes 2 bpb.bkBootSec.toNat ++ (bpb.reserved ++ (leBytes 1 bpb.drvNum.toNat ++ (leBytes 1 bpb.reserved1.toNat ++
    (leBytes 1 bpb.bootSig.toNat ++ (leBytes 4 bpb.volID.toNat ++ (bpb.volLab ++ (bpb.filSysType ++
    (bpb.bootCode ++ leBytes 2 bpb.signature.toNat)))))))))))))))))))))))))))

/-- `memcpy(bpb, sector, sizeof(BPB))`. -/
def loadBpb (sector : List UInt8) : Bpb where
  jmpBoot := slice sector 0 3
  oemName := slice sector 3 8
  bytsPerSec := UInt16.ofNat (leNat (slice sector 11 2))
  secPerClus := UInt8.ofNat (leNat (slice sector 13 1))
  rsvdSecCnt := UInt16.ofNat (leNat (slice sector 14 2))
  numFATs := UInt8.ofNat (leNat (slice sector 16 1))
  rootEntCnt := UInt16.ofNat (leNat (slice sector 17 2))
  totSec16 := UInt16.ofNat (leNat (slice sector 19 2))
  media := UInt8.ofNat (leNat (slice sector 21 1))
  fatSz16 := UInt16.ofNat (leNat (slice sector 22 2))
  secPerTrk := UInt16.ofNat (leNat (slice sector 24 2))
  numHeads := UInt16.ofNat (leNat (slice sector 26 2))
  hiddSec := UInt32.ofNat (leNat (slice sector 28 4))
  totSec32 := UInt32.ofNat (leNat (slice sector 32 4))
  fatSz32 := UInt32.ofNat (leNat (slice sector 36 4))
  extFlags := UInt16.ofNat (leNat (slice sector 40 2))
  fsVer := UInt16.ofNat (leNat (slice sector 42 2))
  rootClus := UInt32.ofNat (leNat (slice sector 44 4))
  fsInfo := UInt16.ofNat (leNat (slice sector 48 2))
  bkBootSec := UInt16.ofNat (leNat (slice sector 50 2))
  reserved := slice sector 52 12
  drvNum := UInt8.ofNat (leNat (slice sector 64 1))
  reserved1 := UInt8.ofNat (leNat (slice sector 65 1))
  bootSig := UInt8.ofNat (leNat (slice sector 66 1))
  volID := UInt32.ofNat (leNat (slice sector 67 4))
  volLab := slice sector 71 11
  filSysType := slice sector 82 8
  bootCode := slice sector 90 420
  signature := UInt16.ofNat (leNat (slice sector 510 2))

/-- The arrays of the record have their declared sizes. -/
structure Bpb.Sized (bpb : Bpb) : Prop where
  jmpBoot : bpb.jmpBoot.length = 3
  oemName : bpb.oemName.length = 8
  reserved : bpb.reserved.length = 12
  volLab : bpb.volLab.length = 11
  filSysType : bpb.filSysType.length = 8
  bootCode : bpb.bootCode.length = 420

theorem ofNat_leNat_leBytes_one (value : UInt8) : UInt8.ofNat (leNat (leBytes 1 value.toNat)) = value := by
  rw [leNat_leBytes_of_lt value.toNat_lt, UInt8.ofNat_toNat]

theorem ofNat_leNat_leBytes_two (value : UInt16) : UInt16.ofNat (leNat (leBytes 2 value.toNat)) = value := by
  rw [leNat_leBytes_of_lt value.toNat_lt, UInt16.ofNat_toNat]

theorem ofNat_leNat_leBytes_four (value : UInt32) : UInt32.ofNat (leNat (leBytes 4 value.toNat)) = value := by
  rw [leNat_leBytes_of_lt value.toNat_lt, UInt32.ofNat_toNat]

theorem Bpb.length_bytes {bpb : Bpb} (sized : bpb.Sized) : bpb.bytes.length = 512 := by
  simp [Bpb.bytes, sized.jmpBoot, sized.oemName, sized.reserved, sized.volLab, sized.filSysType, sized.bootCode]

theorem loadBpb_bytes {bpb : Bpb} (sized : bpb.Sized) : loadBpb bpb.bytes = bpb := by
  obtain ⟨jmpBoot, oemName, reserved, volLab, filSysType, bootCode⟩ := sized
  cases bpb
  simp only at jmpBoot oemName reserved volLab filSysType bootCode
  simp (disch := simp only [length_leBytes, Nat.reduceLeDiff, Nat.reduceAdd, le_refl, *]) only [loadBpb, Bpb.bytes,
    slice_append_right, slice_append_left, slice_whole, length_leBytes, jmpBoot, oemName, reserved, volLab,
    filSysType, bootCode, ofNat_leNat_leBytes_one, ofNat_leNat_leBytes_two, ofNat_leNat_leBytes_four,
    Nat.reduceSub]

/-! ## The formatter -/

/-- The sector `create_fsinfo_sector` builds. -/
def fsinfoSector : List UInt8 :=
  leBytes 4 0x41615252 ++ List.replicate 480 0 ++ leBytes 4 0x61417272 ++ leBytes 4 0xFFFFFFFF ++
    leBytes 4 0xFFFFFFFF ++ List.replicate 12 0 ++ leBytes 4 0xAA550000

/-- The first sector of a FAT: the media entry, a reserved entry and the end of the root
directory's chain. -/
def firstFatSectorImage : List UInt8 :=
  leBytes 4 0x0FFFFFF8 ++ leBytes 4 0x0FFFFFFF ++ leBytes 4 0x0FFFFFFF ++ List.replicate 500 0

/-- `MAX_BATCH_SECTORS`. -/
def maxBatchSectors : Nat := 64

/-- The loop of `initialize_fat_tables` that clears the sectors behind the first one. -/
def clearFatLoop (fatStart fatSectorSize : Nat) : Nat → Disk → Nat → Option Disk
  | 0, _, _ => none
  | fuel + 1, disk, sectorsWritten =>
      if sectorsWritten < fatSectorSize then
        let sectorsToWrite := min maxBatchSectors (fatSectorSize - sectorsWritten)
        clearFatLoop fatStart fatSectorSize fuel
          (disk.write (fatStart + sectorsWritten) sectorsToWrite (List.replicate (maxBatchSectors * 512) 0))
          (sectorsWritten + sectorsToWrite)
      else some disk

/-- `initialize_fat_tables`. -/
def initializeFatTables (disk : Disk) (fatStart fatSectorSize : Nat) : Option Disk :=
  clearFatLoop fatStart fatSectorSize (fatSectorSize + 1) (disk.write fatStart 1 firstFatSectorImage) 1

/-- `create_fat32_volume`: the block it leaves in `bpb` and the disk. -/
def createFat32Volume (disk : Disk) (startLba sectors : UInt32) : Option (Bpb × Disk) :=
  let bpb := volumeBpb startLba sectors
  let disk := disk.write startLba.toNat 1 bpb.bytes
  let disk := disk.write (u32 (startLba.toNat + 6)) 1 bpb.bytes
  let disk := disk.write (u32 (startLba.toNat + 1)) 1 fsinfoSector
  let fatSectorSize := bpb.fatSz32.toNat
  let fats := (List.range bpb.numFATs.toNat).foldlM (fun disk fatNum =>
    let fatStart := u32 (u32 (startLba.toNat + bpb.rsvdSecCnt.toNat) + u32 (fatNum * fatSectorSize))
    initializeFatTables disk fatStart fatSectorSize) disk
  fats.map fun disk =>
    (bpb, disk.write (u32 (startLba.toNat + bpb.rootClus.toNat)) bpb.secPerClus.toNat
      (List.replicate (512 * bpb.secPerClus.toNat) 0))

/-! ## Mounting -/

/-- The label entry `fat32_set_volume_label` stores; `label` has the eleven bytes at the
given address. -/
def labelSlot (label : List UInt8) : Slot :=
  shortSlot ((List.range 11).map fun i =>
    if label.getD i 0 ≠ 0 ∧ label.getD i 0 ≠ dot then toUpper (label.getD i 0) else space) attrVolumeId 0 0

/-- `fat32_set_volume_label`: the first free or label slot of the root's first cluster. -/
def fat32SetVolumeLabel (vol : Volume) (label : List UInt8) : Option Volume :=
  let root := getRootDirCluster vol.bpb
  let buffer := fat32ReadCluster vol root
  ((slotsOf buffer).findIdx? fun slot =>
      slot.attr = attrVolumeId ∨ slot.firstByte = 0 ∨ slot.firstByte = deletedMark).map fun index =>
    fat32WriteCluster vol root (overwrite buffer (32 * index) (labelSlot label))

/-- `fat32_mount`, without the copy of the FAT that nothing reads; `none` is `false`. -/
def fat32Mount (disk : Disk) (freeClusterNo startLba : Nat) (label : List UInt8) : Option Volume :=
  let bpb := loadBpb (disk.sector startLba)
  let vol : Volume := ⟨bpb, disk, getRootDirCluster bpb, freeClusterNo⟩
  if getBytesPerSector bpb ≠ 512 ∨ getFatSizeInSectors bpb = 0 ∨ getTotalNoFat bpb = 0 ∨
      getSectorsPerCluster bpb = 0 ∨ bpb.totSec32.toNat = 0 then none
  else fat32SetVolumeLabel vol label

/-! ## What the formatter writes -/

/-- A sector of zeroes. -/
def zeroSector : List UInt8 := List.replicate 512 0

theorem sectorAt_replicate_zero (count index : Nat) :
    sectorAt (List.replicate count 0) index = zeroSector := by
  refine List.eq_replicate_iff.mpr ⟨length_sectorAt _ _, fun byte member => ?_⟩
  rcases List.mem_append.mp (List.mem_of_mem_take member) with inside | behind
  · exact List.eq_of_mem_replicate (List.mem_of_mem_drop (List.mem_of_mem_take inside))
  · exact List.eq_of_mem_replicate behind

/-- A run of cleared sectors. -/
theorem sector_write_zero (disk : Disk) (lba count size : Nat) (x : Nat) :
    (disk.write lba count (List.replicate size 0)).sector x =
      if lba ≤ x ∧ x < lba + count then zeroSector else disk.sector x := by
  rw [sector_write, sectorAt_replicate_zero]

/-- The batches clear all sectors of the FAT from `sectorsWritten` on. -/
theorem clearFatLoop_sector (fatStart : Nat) (disk : Disk) {fatSectorSize fuel sectorsWritten : Nat}
    (enough : fatSectorSize - sectorsWritten < fuel) :
    ∃ after, clearFatLoop fatStart fatSectorSize fuel disk sectorsWritten = some after ∧
      ∀ x, after.sector x = if fatStart + sectorsWritten ≤ x ∧ x < fatStart + fatSectorSize then zeroSector
        else disk.sector x := by
  induction fuel generalizing disk sectorsWritten with
  | zero => omega
  | succ fuel ih =>
      rw [clearFatLoop]
      by_cases more : sectorsWritten < fatSectorSize
      · rw [if_pos more]
        dsimp only
        have batch : 0 < min maxBatchSectors (fatSectorSize - sectorsWritten) :=
          Nat.lt_min.mpr ⟨by decide, by omega⟩
        have inside : sectorsWritten + min maxBatchSectors (fatSectorSize - sectorsWritten) ≤ fatSectorSize := by
          have bound := Nat.min_le_right maxBatchSectors (fatSectorSize - sectorsWritten)
          omega
        generalize min maxBatchSectors (fatSectorSize - sectorsWritten) = sectorsToWrite at batch inside ⊢
        obtain ⟨after, returned, sectors⟩ := ih
          (disk.write (fatStart + sectorsWritten) sectorsToWrite (List.replicate (maxBatchSectors * 512) 0))
          (show fatSectorSize - (sectorsWritten + sectorsToWrite) < fuel by omega)
        refine ⟨after, returned, fun x => ?_⟩
        rw [sectors, sector_write_zero]
        split_ifs
        all_goals first | rfl | omega
      · rw [if_neg more]
        exact ⟨disk, rfl, fun x => by rw [if_neg (by omega)]⟩

theorem initializeFatTables_sector (disk : Disk) (fatStart : Nat) {fatSectorSize : Nat} (nonempty : 0 < fatSectorSize) :
    ∃ after, initializeFatTables disk fatStart fatSectorSize = some after ∧
      ∀ x, after.sector x = if x = fatStart then firstFatSectorImage
        else if fatStart < x ∧ x < fatStart + fatSectorSize then zeroSector else disk.sector x := by
  have full : firstFatSectorImage.length = 512 := by
    simp only [firstFatSectorImage, List.length_append, length_leBytes, List.length_replicate]
  obtain ⟨after, returned, sectors⟩ := clearFatLoop_sector fatStart
    (disk.write fatStart 1 firstFatSectorImage) (show fatSectorSize - 1 < fatSectorSize + 1 by omega)
  refine ⟨after, returned, fun x => ?_⟩
  rw [sectors, sector_write_one full]
  split_ifs <;> first | rfl | omega

/-- Nothing in front of a FAT changes, whatever its size. -/
theorem initializeFatTables_below (disk : Disk) (fatStart fatSectorSize : Nat) :
    ∃ after, initializeFatTables disk fatStart fatSectorSize = some after ∧
      ∀ x < fatStart, after.sector x = disk.sector x := by
  obtain ⟨after, returned, sectors⟩ := clearFatLoop_sector fatStart
    (disk.write fatStart 1 firstFatSectorImage) (show fatSectorSize - 1 < fatSectorSize + 1 by omega)
  refine ⟨after, returned, fun x below => ?_⟩
  rw [sectors, if_neg (by omega), sector_write, if_neg (by omega)]

theorem volumeBpb_sized (startLba sectors : UInt32) : (volumeBpb startLba sectors).Sized :=
  ⟨rfl, rfl, rfl, rfl, rfl, List.length_replicate⟩

theorem volumeSectorsPerCluster_le_four {sectors : UInt32} (small : sectors < 524288) :
    (volumeSectorsPerCluster sectors).toNat ≤ 4 := by
  unfold volumeSectorsPerCluster
  split_ifs <;> decide

theorem volumeSectorsPerCluster_eq_sixteen {sectors : UInt32} (large : ¬ sectors < 524288) :
    (volumeSectorsPerCluster sectors).toNat = 16 := by
  rw [UInt32.lt_iff_toNat_lt] at large
  unfold volumeSectorsPerCluster
  simp only [UInt32.lt_iff_toNat_lt]
  have bound : (524288 : UInt32).toNat = 524288 := rfl
  have smaller : (262144 : UInt32).toNat = 262144 := rfl
  have smallest : (65536 : UInt32).toNat = 65536 := rfl
  rw [if_neg (by omega), if_neg (by omega), if_neg (by omega)]
  rfl

/-- A FAT ends far below LBA `2 ^ 32`, also where its size was computed with wrap-around. -/
theorem volumeBpb_fatSz32_lt (startLba sectors : UInt32) :
    (volumeBpb startLba sectors).fatSz32.toNat < 8388608 := by
  have below : ∀ value, u32 value / sectorSize < 8388608 := by
    intro value
    have bound := u32_lt value
    simp only [sectorSize]
    omega
  show (UInt32.ofNat (fatSizeFor _ _ _ _)).toNat < _
  rw [UInt32.toNat_ofNat']
  exact Nat.lt_of_le_of_lt (Nat.mod_le _ _) (below _)

/-- Formatting from LBA 0 on returns for every size and leaves the boot sector in sector 0. -/
theorem createFat32Volume_boot (disk : Disk) (sectors : UInt32) :
    ∃ after, createFat32Volume disk 0 sectors = some (volumeBpb 0 sectors, after) ∧
      after.sector 0 = (volumeBpb 0 sectors).bytes := by
  have bound := volumeBpb_fatSz32_lt 0 sectors
  have boot := Bpb.length_bytes (volumeBpb_sized 0 sectors)
  unfold createFat32Volume
  dsimp only
  generalize (volumeBpb 0 sectors).fatSz32.toNat = fatSize at bound ⊢
  have copies : List.range (volumeBpb 0 sectors).numFATs.toNat = [0, 1] := rfl
  have reserved : u32 ((0 : UInt32).toNat + (volumeBpb 0 sectors).rsvdSecCnt.toNat) = 32 :=
    u32_of_lt (show 32 < 4294967296 by decide)
  have root : u32 ((0 : UInt32).toNat + (volumeBpb 0 sectors).rootClus.toNat) = 2 :=
    u32_of_lt (show 2 < 4294967296 by decide)
  have second : u32 (32 + u32 (1 * fatSize)) = 32 + fatSize := by
    rw [u32_of_lt (show 1 * fatSize < _ by omega), u32_of_lt (by omega)]
    omega
  have first : u32 (32 + u32 (0 * fatSize)) = 32 := by
    rw [u32_of_lt (show 0 * fatSize < _ by omega), u32_of_lt (by omega)]
    omega
  have six : u32 ((0 : UInt32).toNat + 6) = 6 := u32_of_lt (show 6 < 4294967296 by decide)
  have one : u32 ((0 : UInt32).toNat + 1) = 1 := u32_of_lt (show 1 < 4294967296 by decide)
  have zero : (0 : UInt32).toNat = 0 := rfl
  generalize (volumeBpb 0 sectors).bytes = image at boot ⊢
  rw [copies, reserved, root, six, one, zero]
  simp only [List.foldlM_cons, List.foldlM_nil, first, second]
  obtain ⟨middle, returned, sectors1⟩ := initializeFatTables_below
    (((disk.write 0 1 image).write 6 1 image).write 1 1 fsinfoSector) 32 fatSize
  obtain ⟨last, returned', sectors2⟩ := initializeFatTables_below middle (32 + fatSize) fatSize
  simp only [returned, returned', Option.bind_eq_bind, Option.bind_some, Option.pure_def, Option.map_some]
  refine ⟨_, rfl, ?_⟩
  rw [sector_write_zero, if_neg (by omega), sectors2 0 (by omega), sectors1 0 (by decide), sector_write,
    if_neg (by decide), sector_write, if_neg (by decide), sector_write_one boot, if_pos rfl]

section Formatted

variable (disk : Disk) {startLba sectors : UInt32} (large : 4096 ≤ sectors.toNat)
  (fits : startLba.toNat + sectors.toNat < 4294967296)
include large fits

/-- The whole effect of the formatter: the boot sector, its backup unless the last write
covers it, the two FATs, and everything behind the FATs as before. -/
theorem createFat32Volume_sectors :
    ∃ after, createFat32Volume disk startLba sectors = some (volumeBpb startLba sectors, after) ∧
      after.sector startLba.toNat = (volumeBpb startLba sectors).bytes ∧
      after.sector (startLba.toNat + 6) =
        (if sectors < 524288 then (volumeBpb startLba sectors).bytes else zeroSector) ∧
      (∀ copy < 2, ∀ index < (volumeBpb startLba sectors).fatSz32.toNat,
        after.sector (startLba.toNat + 32 + copy * (volumeBpb startLba sectors).fatSz32.toNat + index) =
          if index = 0 then firstFatSectorImage else zeroSector) ∧
      ∀ x, startLba.toNat + 32 + 2 * (volumeBpb startLba sectors).fatSz32.toNat ≤ x →
        after.sector x = disk.sector x := by
  obtain ⟨nonempty, room⟩ := volumeBpb_fatSz32_bounds startLba sectors large
  have boot := Bpb.length_bytes (volumeBpb_sized startLba sectors)
  have info : fsinfoSector.length = 512 := by
    simp only [fsinfoSector, List.length_append, length_leBytes, List.length_replicate]
  unfold createFat32Volume
  dsimp only
  generalize fatSize_def : (volumeBpb startLba sectors).fatSz32.toNat = fatSize at nonempty room ⊢
  have six : u32 (startLba.toNat + 6) = startLba.toNat + 6 := u32_of_lt (by omega)
  have one : u32 (startLba.toNat + 1) = startLba.toNat + 1 := u32_of_lt (by omega)
  have two : u32 (startLba.toNat + (volumeBpb startLba sectors).rootClus.toNat) = startLba.toNat + 2 :=
    u32_of_lt (by show startLba.toNat + 2 < _; omega)
  have reserved : u32 (startLba.toNat + (volumeBpb startLba sectors).rsvdSecCnt.toNat) = startLba.toNat + 32 :=
    u32_of_lt (by show startLba.toNat + 32 < _; omega)
  have first : u32 (startLba.toNat + 32 + u32 (0 * fatSize)) = startLba.toNat + 32 := by
    rw [u32_of_lt (show 0 * fatSize < _ by omega), u32_of_lt (by omega)]
    omega
  have second : u32 (startLba.toNat + 32 + u32 (1 * fatSize)) = startLba.toNat + 32 + fatSize := by
    rw [u32_of_lt (show 1 * fatSize < _ by omega), u32_of_lt (by omega)]
    omega
  have copies : List.range (volumeBpb startLba sectors).numFATs.toNat = [0, 1] := rfl
  generalize (volumeBpb startLba sectors).bytes = image at boot ⊢
  rw [six, one, two, reserved, copies]
  simp only [List.foldlM_cons, List.foldlM_nil, first, second]
  obtain ⟨middle, returned, sectors1⟩ := initializeFatTables_sector
    (((disk.write startLba.toNat 1 image).write (startLba.toNat + 6) 1 image).write (startLba.toNat + 1) 1
      fsinfoSector) (startLba.toNat + 32) nonempty
  obtain ⟨last, returned', sectors2⟩ := initializeFatTables_sector middle
    (startLba.toNat + 32 + fatSize) nonempty
  simp only [returned, returned', Option.bind_eq_bind, Option.bind_some, Option.pure_def, Option.map_some]
  have width : (volumeBpb startLba sectors).secPerClus.toNat ≤ 16 := volumeSectorsPerCluster_le sectors
  have class4 : sectors < 524288 → (volumeBpb startLba sectors).secPerClus.toNat ≤ 4 :=
    volumeSectorsPerCluster_le_four
  have class16 : ¬ sectors < 524288 → (volumeBpb startLba sectors).secPerClus.toNat = 16 :=
    volumeSectorsPerCluster_eq_sixteen
  generalize (volumeBpb startLba sectors).secPerClus.toNat = clusterSectors at width class4 class16 ⊢
  -- A sector that is neither in a FAT nor cleared at the end.
  have outside : ∀ x, ¬ (startLba.toNat + 2 ≤ x ∧ x < startLba.toNat + 2 + clusterSectors) →
      ¬ (startLba.toNat + 32 ≤ x ∧ x < startLba.toNat + 32 + 2 * fatSize) → x ≠ startLba.toNat + 1 →
      (last.write (startLba.toNat + 2) clusterSectors (List.replicate (512 * clusterSectors) 0)).sector x =
        if x = startLba.toNat + 6 then image else if x = startLba.toNat then image else disk.sector x := by
    intro x notCleared notFat notInfo
    rw [sector_write_zero, if_neg notCleared, sectors2, if_neg (by omega), if_neg (by omega), sectors1,
      if_neg (by omega), if_neg (by omega), sector_write_one info, if_neg notInfo, sector_write_one boot,
      sector_write_one boot]
  refine ⟨_, rfl, ?_, ?_, fun copy below index inside => ?_, fun x behind => ?_⟩
  · rw [outside _ (by omega) (by omega) (by omega), if_neg (by omega), if_pos rfl]
  · by_cases small : sectors < 524288
    · have few := class4 small
      rw [outside _ (by omega) (by omega) (by omega), if_pos rfl, if_pos small]
    · have many := class16 small
      rw [if_neg small, sector_write_zero, if_pos (by omega)]
  · rw [sector_write_zero, if_neg (by omega), sectors2]
    obtain rfl | rfl : copy = 0 ∨ copy = 1 := by omega
    · rw [Nat.zero_mul, Nat.add_zero, if_neg (by omega), if_neg (by omega), sectors1]
      by_cases first : index = 0
      · rw [if_pos (by omega), if_pos first]
      · rw [if_neg (by omega), if_pos (by omega), if_neg first]
    · rw [Nat.one_mul]
      by_cases first : index = 0
      · rw [if_pos (by omega), if_pos first]
      · rw [if_neg (by omega), if_pos (by omega), if_neg first]
  · rw [outside _ (by omega) (by omega) (by omega), if_neg (by omega), if_neg (by omega)]

theorem volumeBpb_layout : Layout (volumeBpb startLba sectors) where
  bytsPerSec := rfl
  secPerClus := volumeSectorsPerCluster_pos sectors
  areasInside := by
    obtain ⟨_, room⟩ := volumeBpb_fatSz32_bounds startLba sectors large
    show 32 + 2 * (volumeBpb startLba sectors).fatSz32.toNat ≤ sectors.toNat
    omega
  addressable := fits

/-- The root directory has a cluster of its own, behind the FATs. -/
theorem volumeBpb_root : IsCluster (volumeBpb startLba sectors) 2 := by
  obtain ⟨_, room⟩ := volumeBpb_fatSz32_bounds startLba sectors large
  refine ⟨Nat.le_refl _, ?_⟩
  rw [(volumeBpb_layout large fits).getTotalClusters_eq]
  show 2 ≤ (sectors.toNat - (32 + 2 * (volumeBpb startLba sectors).fatSz32.toNat)) /
    (volumeSectorsPerCluster sectors).toNat + 1
  have small := volumeSectorsPerCluster_le sectors
  have one := (Nat.one_le_div_iff (volumeSectorsPerCluster_pos sectors)).mpr
    (show (volumeSectorsPerCluster sectors).toNat ≤
      sectors.toNat - (32 + 2 * (volumeBpb startLba sectors).fatSz32.toNat) by omega)
  omega

theorem volumeBpb_rootSector : getFirstSectorOfCluster (volumeBpb startLba sectors) 2 =
    startLba.toNat + 32 + 2 * (volumeBpb startLba sectors).fatSz32.toNat := by
  have layout := volumeBpb_layout large fits
  rw [layout.getFirstSectorOfCluster_eq (volumeBpb_root large fits), layout.getFirstDataSector_eq,
    layout.getFirstFatSector_eq]
  show startLba.toNat + 32 + 2 * _ + 0 * _ = _
  omega

end Formatted

/-! ## The state after formatting -/

/-- The entries of a fresh FAT: two reserved ones, the end of the root directory's chain, and
free clusters. -/
def freshFatEntry (index : Nat) : Nat :=
  if index = 0 then 0x0FFFFFF8 else if index ≤ 2 then 0x0FFFFFFF else 0

/-- A formatted volume with an empty root directory. -/
structure FormattedEmpty (startLba : UInt32) (bpb : Bpb) (disk : Disk) : Prop where
  backup : disk.sector (startLba.toNat + bpb.bkBootSec.toNat) = disk.sector startLba.toNat
  copies : ∀ cwdCluster freeClusterNo, FatCopiesEqual ⟨bpb, disk, cwdCluster, freeClusterNo⟩
  entries : ∀ cwdCluster freeClusterNo, ∀ copy < bpb.numFATs.toNat, ∀ index < bpb.fatSz32.toNat * 128,
    copyEntry ⟨bpb, disk, cwdCluster, freeClusterNo⟩ copy index = freshFatEntry index
  root : ∀ i < getSectorsPerCluster bpb,
    disk.sector (getFirstSectorOfCluster bpb (getRootDirCluster bpb) + i) = zeroSector
  enumerates : ∀ freeClusterNo label, ∃ vol dp,
    fat32Mount disk freeClusterNo startLba.toNat label = some vol ∧
      fOpendir vol [slash] = some (some dp) ∧ enumerateFrom vol 1 dp = some []

theorem leNat_replicate_zero (count : Nat) : leNat (List.replicate count 0) = 0 := by
  induction count with
  | zero => rfl
  | succ count ih =>
      rw [List.replicate_succ, leNat, ih]
      rfl

theorem slice_zeroSector (pos len : Nat) : leNat (slice zeroSector pos len) = 0 := by
  rw [slice, zeroSector, List.drop_replicate, List.take_replicate, leNat_replicate_zero]

theorem firstFatSectorImage_entries {index : Nat} (inside : index < 128) :
    leNat (slice firstFatSectorImage (index * 4 % 512) 4) = freshFatEntry index := by
  rcases Nat.lt_or_ge index 3 with reserved | free
  · exact (by decide : ∀ index < 3,
      leNat (slice firstFatSectorImage (index * 4 % 512) 4) = freshFatEntry index) index reserved
  · rw [firstFatSectorImage, slice_append_right (by simp; omega), slice, List.drop_replicate,
      List.take_replicate, leNat_replicate_zero, freshFatEntry, if_neg (by omega), if_neg (by omega)]

/-- The entry with a given index in a fresh FAT. -/
theorem freshFat_entry {index : Nat} {sector : List UInt8}
    (image : sector = if index * 4 / 512 = 0 then firstFatSectorImage else zeroSector) :
    leNat (slice sector (index * 4 % 512) 4) = freshFatEntry index := by
  rw [image]
  split_ifs with first
  · exact firstFatSectorImage_entries (by omega)
  · rw [slice_zeroSector, freshFatEntry, if_neg (by omega), if_neg (by omega)]

/-! ## Mounting an empty volume -/

section EmptyRoot

variable {vol : Volume} {label : List UInt8}

theorem length_labelSlot : (labelSlot label).length = 32 := length_shortSlot (by simp)

/-- The label slot is in use, and not the slot of a file. -/
theorem labelSlot_firstByte : (labelSlot label).firstByte ≠ 0 := by
  rw [labelSlot, shortSlot_firstByte (by simp)]
  simp only [List.range_succ_eq_map, List.map_cons, List.getD_cons_zero]
  split_ifs with character
  · exact toUpper_ne character.1 (by decide)
  · decide

theorem labelSlot_attr : (labelSlot label).attr = attrVolumeId := shortSlot_attr (by simp)

/-- A cluster of zeroes has free slots only. -/
theorem slotsOf_zero {sectors : Nat} (positive : 0 < sectors) :
    ∃ rest, slotsOf (List.replicate (512 * sectors) 0) = List.replicate 32 0 :: List.replicate 32 0 :: rest := by
  have count : 512 * sectors = 32 * (16 * sectors) := by omega
  obtain ⟨more, total⟩ : ∃ more, 16 * sectors = more + 1 + 1 := ⟨16 * sectors - 2, by omega⟩
  refine ⟨List.replicate more (List.replicate 32 0), ?_⟩
  rw [slotsOf, count, chunks_replicate (by decide), total]
  rfl

/-- A cluster whose sectors are clear. -/
theorem fat32ReadCluster_zero {cluster : Nat} (layout : Layout vol.bpb) (inRange : IsCluster vol.bpb cluster)
    (clear : ∀ i < getSectorsPerCluster vol.bpb,
      vol.disk.sector (getFirstSectorOfCluster vol.bpb cluster + i) = zeroSector) :
    fat32ReadCluster vol cluster = List.replicate (512 * getSectorsPerCluster vol.bpb) 0 := by
  refine List.eq_replicate_iff.mpr ⟨length_fat32ReadCluster vol cluster, fun byte member => ?_⟩
  have room := layout.cluster_end_le inRange
  have addressable := layout.addressable
  unfold fat32ReadCluster at member
  obtain ⟨i, below, inside⟩ := List.mem_flatMap.mp member
  rw [List.mem_range] at below
  have bound : i < vol.bpb.secPerClus.toNat := below
  have position : u32 (getFirstSectorOfCluster vol.bpb cluster + i) =
      getFirstSectorOfCluster vol.bpb cluster + i := by
    rw [layout.getFirstSectorOfCluster_eq inRange]
    exact u32_of_lt (by omega)
  rw [position, fat32ReadSector, clear i below] at inside
  exact List.eq_of_mem_replicate inside

/-- The label goes to the first slot of an empty root directory. -/
theorem fat32SetVolumeLabel_empty (positive : 0 < getSectorsPerCluster vol.bpb)
    (empty : fat32ReadCluster vol (getRootDirCluster vol.bpb) =
      List.replicate (512 * getSectorsPerCluster vol.bpb) 0) :
    fat32SetVolumeLabel vol label = some (fat32WriteCluster vol (getRootDirCluster vol.bpb)
      (overwrite (List.replicate (512 * getSectorsPerCluster vol.bpb) 0) 0 (labelSlot label))) := by
  obtain ⟨rest, slots⟩ := slotsOf_zero positive
  unfold fat32SetVolumeLabel
  dsimp only
  rw [empty, slots, List.findIdx?_cons, if_pos (by decide), Option.map_some]

/-- An enumeration of a root directory that holds a label and nothing else. -/
theorem fReaddir_label (layout : Layout vol.bpb) (inRange : IsCluster vol.bpb (getRootDirCluster vol.bpb))
    (valid : isValidCluster (getRootDirCluster vol.bpb) = true) :
    fReaddir (fat32WriteCluster vol (getRootDirCluster vol.bpb)
        (overwrite (List.replicate (512 * getSectorsPerCluster vol.bpb) 0) 0 (labelSlot label)))
      ⟨getRootDirCluster vol.bpb, getRootDirCluster vol.bpb, 0⟩ = some none := by
  have positive : 0 < getSectorsPerCluster vol.bpb := layout.secPerClus
  obtain ⟨rest, slots⟩ := slotsOf_zero positive
  have full : (overwrite (List.replicate (512 * getSectorsPerCluster vol.bpb) (0 : UInt8)) 0
      (labelSlot label)).length = 512 * getSectorsPerCluster vol.bpb := by
    rw [length_overwrite (by rw [length_labelSlot, List.length_replicate]; omega), List.length_replicate]
  have labelled : slotsOf (overwrite (List.replicate (512 * getSectorsPerCluster vol.bpb) 0) 0
      (labelSlot label)) = labelSlot label :: List.replicate 32 0 :: rest := by
    have stored := @chunks_overwrite UInt8 32 (List.replicate (512 * getSectorsPerCluster vol.bpb) 0)
      [labelSlot label] 0 (by decide) ⟨16 * getSectorsPerCluster vol.bpb, by simp; omega⟩
      (by simp [length_labelSlot])
    rw [slotsOf] at slots
    rw [Nat.mul_zero, List.flatten_singleton, slots] at stored
    rw [slotsOf, stored]
    rfl
  have ends : ∀ pos, readdirVisit pos (List.replicate 32 0 :: rest) = .stop := by
    intro pos
    rw [readdirVisit, if_pos (by decide)]
  have visited : readdirVisit 0 (labelSlot label :: List.replicate 32 0 :: rest) = .stop := by
    rw [readdirVisit, if_neg labelSlot_firstByte, labelSlot_attr,
      if_neg (by decide : attrVolumeId ≠ attrLongName), if_pos (by decide : attrVolumeId &&& attrVolumeId ≠ 0),
      ends, ite_self]
  rw [fReaddir, readdirLoop, if_pos valid, fat32ReadCluster_write_self layout inRange full, labelled,
    Nat.zero_div, List.drop_zero, visited]

end EmptyRoot

section Formatted

variable (disk : Disk) {startLba sectors : UInt32} (large : 4096 ≤ sectors.toNat)
  (fits : startLba.toNat + sectors.toNat < 4294967296)
include large fits

/-- A formatted volume whose root directory is clear can be mounted, and the root directory
then has no entries. -/
theorem mount_enumerates_nothing (boot : disk.sector startLba.toNat = (volumeBpb startLba sectors).bytes)
    (root : ∀ i < (volumeSectorsPerCluster sectors).toNat,
      disk.sector (getFirstSectorOfCluster (volumeBpb startLba sectors) 2 + i) = zeroSector)
    (freeClusterNo : Nat) (label : List UInt8) :
    ∃ vol dp, fat32Mount disk freeClusterNo startLba.toNat label = some vol ∧
      fOpendir vol [slash] = some (some dp) ∧ enumerateFrom vol 1 dp = some [] := by
  have layout := volumeBpb_layout large fits
  have inRange := volumeBpb_root large fits
  obtain ⟨nonempty, _⟩ := volumeBpb_fatSz32_bounds startLba sectors large
  have loaded : loadBpb (disk.sector startLba.toNat) = volumeBpb startLba sectors := by
    rw [boot, loadBpb_bytes (volumeBpb_sized startLba sectors)]
  let vol : Volume := ⟨volumeBpb startLba sectors, disk, 2, freeClusterNo⟩
  have empty : fat32ReadCluster vol 2 = List.replicate (512 * getSectorsPerCluster vol.bpb) 0 :=
    @fat32ReadCluster_zero vol 2 layout inRange root
  have labelled := @fat32SetVolumeLabel_empty vol label layout.secPerClus empty
  have read := @fReaddir_label vol label layout inRange rfl
  have accepted : fat32Mount disk freeClusterNo startLba.toNat label = fat32SetVolumeLabel vol label := by
    unfold fat32Mount
    rw [loaded]
    refine if_neg ?_
    rintro (size | fat | copies | width | total)
    · exact size rfl
    · exact Nat.ne_of_gt nonempty fat
    · have none : 2 = 0 := copies
      omega
    · exact Nat.ne_of_gt (volumeSectorsPerCluster_pos sectors) width
    · have count : sectors.toNat = 0 := total
      omega
  refine ⟨_, ⟨2, 2, 0⟩, accepted.trans labelled, ?_, ?_⟩
  · rw [fOpendir, if_neg (by decide), if_pos rfl, fat32WriteCluster_bpb]
    rfl
  · have first : (⟨2, 2, 0⟩ : Fat32Dir) = ⟨getRootDirCluster vol.bpb, getRootDirCluster vol.bpb, 0⟩ := rfl
    rw [enumerateFrom, first, read]

/-- The formatter does its work exactly for volumes of fewer than 524288 sectors on disks
whose sectors at the place of the root directory were clear before. -/
theorem createFat32Volume_formattedEmpty_iff :
    ∃ bpb after, createFat32Volume disk startLba sectors = some (bpb, after) ∧
      (FormattedEmpty startLba bpb after ↔
        sectors < 524288 ∧ ∀ i < (volumeSectorsPerCluster sectors).toNat,
          disk.sector (getFirstSectorOfCluster (volumeBpb startLba sectors) 2 + i) = zeroSector) := by
  obtain ⟨after, returned, boot, backup, fats, kept⟩ := createFat32Volume_sectors disk large fits
  have layout := volumeBpb_layout large fits
  have fatStart := layout.getFirstFatSector_eq
  have rootSector := volumeBpb_rootSector large fits
  have unchanged : ∀ i, after.sector (getFirstSectorOfCluster (volumeBpb startLba sectors) 2 + i) =
      disk.sector (getFirstSectorOfCluster (volumeBpb startLba sectors) 2 + i) := by
    intro i
    rw [rootSector]
    exact kept _ (by omega)
  refine ⟨_, after, returned, fun formatted => ⟨?_, fun i below => ?_⟩, fun ⟨small, clear⟩ => ?_⟩
  · by_contra many
    have same := formatted.backup
    rw [boot] at same
    have erased : after.sector (startLba.toNat + (volumeBpb startLba sectors).bkBootSec.toNat) = zeroSector := by
      rw [if_neg many] at backup
      exact backup
    rw [erased] at same
    have heads : some (0 : UInt8) = some 0xEB := congrArg List.head? same
    exact absurd heads (by decide)
  · rw [← unchanged]
    exact formatted.root i below
  · have fatSector : ∀ copy < 2, ∀ index < (volumeBpb startLba sectors).fatSz32.toNat,
        after.sector (getFirstFatSector (volumeBpb startLba sectors) +
            copy * (volumeBpb startLba sectors).fatSz32.toNat + index) =
          if index = 0 then firstFatSectorImage else zeroSector := by
      intro copy below index inside
      rw [fatStart]
      exact fats copy below index inside
    have clear' : ∀ i < (volumeSectorsPerCluster sectors).toNat,
        after.sector (getFirstSectorOfCluster (volumeBpb startLba sectors) 2 + i) = zeroSector := by
      intro i below
      rw [unchanged]
      exact clear i below
    refine ⟨?_, fun cwdCluster freeClusterNo => ?_, fun cwdCluster freeClusterNo copy below index inside => ?_,
      clear', mount_enumerates_nothing after large fits boot clear'⟩
    · rw [if_pos small] at backup
      exact backup.trans boot.symm
    · unfold FatCopiesEqual
      intro copy below index inside
      have first := fatSector 0 (by decide) index inside
      rw [Nat.zero_mul, Nat.add_zero] at first
      exact (fatSector copy below index inside).trans first.symm
    · have sector := fatSector copy below (index * 4 / 512) (by omega)
      exact freshFat_entry sector

end Formatted

/-- A blank disk of 4096 sectors is formatted as intended. -/
theorem createFat32Volume_formattedEmpty_blank :
    ∃ bpb after, createFat32Volume blankDisk 0 4096 = some (bpb, after) ∧ FormattedEmpty 0 bpb after := by
  obtain ⟨bpb, after, returned, condition⟩ :=
    @createFat32Volume_formattedEmpty_iff blankDisk 0 4096 (by decide) (by decide)
  exact ⟨bpb, after, returned, condition.mpr ⟨by decide, fun _ _ => rfl⟩⟩

/-- A disk whose sectors are full of old data. -/
def staleDisk : Disk where
  sector _ := List.replicate 512 0x41
  length_sector _ := List.length_replicate

/-- On a disk with old data the root directory of a new volume is not empty. -/
theorem createFat32Volume_keeps_stale_root :
    ∃ bpb after, createFat32Volume staleDisk 0 4096 = some (bpb, after) ∧ ¬ FormattedEmpty 0 bpb after := by
  obtain ⟨after, returned, _, _, _, kept⟩ :=
    @createFat32Volume_sectors staleDisk 0 4096 (by decide) (by decide)
  refine ⟨_, after, returned, fun formatted => ?_⟩
  have first := formatted.root 0 (by decide)
  have rootSector := @volumeBpb_rootSector 0 4096 (by decide) (by decide)
  have position : getRootDirCluster (volumeBpb 0 4096) = 2 := rfl
  rw [position, rootSector, kept _ (Nat.le_add_right _ _)] at first
  have heads : some (0x41 : UInt8) = some 0 := congrArg List.head? first
  exact absurd heads (by decide)

end KeblaOS.Fat32
