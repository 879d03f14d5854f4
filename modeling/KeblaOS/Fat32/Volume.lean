import KeblaOS.Fat32.Layout

/-!
# Sectors, clusters and FAT entries

The disk is a reliable map from LBA to 512-byte sectors. On top of it stand the
sector and cluster transfers of `fat32_utility.c` and `cluster_manager.c` and the
two accessors of a FAT entry. Transfers and `malloc` always succeed, so only the
results that depend on data are kept.

The lemmas describe the accessors by two views of a volume with a valid
`Geometry`: the successor map `fat32GetNextCluster` and the bytes
`fat32ReadCluster` of every cluster. Everything above this module reasons with
these views and never with sectors.
-/

namespace KeblaOS.Fat32

open KeblaOS.Buffer

/-- A reliable disk: every sector holds 512 bytes. -/
structure Disk where
  sector : Nat → List UInt8
  length_sector : ∀ lba, (sector lba).length = 512

/-- The 512 bytes a transfer takes from sector `index` of a buffer. Bytes behind
the end of the buffer are read as zero. -/
def sectorAt (buffer : List UInt8) (index : Nat) : List UInt8 :=
  (slice buffer (512 * index) 512 ++ List.replicate 512 0).take 512

@[simp] theorem length_sectorAt (buffer : List UInt8) (index : Nat) :
    (sectorAt buffer index).length = 512 := by
  simp only [sectorAt, List.length_take, List.length_append, List.length_replicate]
  omega

theorem sectorAt_of_le {buffer : List UInt8} {index : Nat} (fits : 512 * index + 512 ≤ buffer.length) :
    sectorAt buffer index = slice buffer (512 * index) 512 := by
  have full : (slice buffer (512 * index) 512).length = 512 := length_slice_of_le fits
  unfold sectorAt
  rw [List.take_append_of_le_length (by omega), List.take_of_length_le (by omega)]

/-- `disk_write`: `count` sectors from `lba` on take the bytes of the buffer. -/
def Disk.write (disk : Disk) (lba count : Nat) (buffer : List UInt8) : Disk where
  sector x := if lba ≤ x ∧ x < lba + count then sectorAt buffer (x - lba) else disk.sector x
  length_sector x := by
    split
    · simp
    · exact disk.length_sector x

/-- State of the mounted volume: the cached parameter block, the disk and the two
globals of `cluster_manager.c`. -/
structure Volume where
  bpb : Bpb
  disk : Disk
  /-- `fat32_cwd_cluster` -/
  cwdCluster : Nat
  /-- `fat32_free_cluster_no` -/
  freeClusterNo : Nat

/-- Assignment to `fat32_free_cluster_no`. -/
def Volume.setFreeClusterNo (vol : Volume) (cluster : Nat) : Volume :=
  { vol with freeClusterNo := cluster }

/-- `fat32_read_sector`. -/
def fat32ReadSector (vol : Volume) (lba : Nat) : List UInt8 := vol.disk.sector lba

/-- `fat32_write_sectors`. -/
def fat32WriteSectors (vol : Volume) (lba count : Nat) (buffer : List UInt8) : Volume :=
  { vol with disk := vol.disk.write lba count buffer }

/-- `fat32_write_sector`. -/
def fat32WriteSector (vol : Volume) (lba : Nat) (buffer : List UInt8) : Volume :=
  fat32WriteSectors vol lba 1 buffer

/-- `fat32_read_cluster`: the buffer it fills. -/
def fat32ReadCluster (vol : Volume) (clusterNumber : Nat) : List UInt8 :=
  let firstSector := getFirstSectorOfCluster vol.bpb clusterNumber
  (List.range (getSectorsPerCluster vol.bpb)).flatMap fun i =>
    fat32ReadSector vol (u32 (firstSector + i))

/-- `fat32_write_cluster`. -/
def fat32WriteCluster (vol : Volume) (clusterNumber : Nat) (buffer : List UInt8) : Volume :=
  fat32WriteSectors vol (getFirstSectorOfCluster vol.bpb clusterNumber)
    (getSectorsPerCluster vol.bpb) buffer

/-- `fat32_clear_cluster`. -/
def fat32ClearCluster (vol : Volume) (cluster : Nat) : Volume :=
  fat32WriteCluster vol cluster
    (List.replicate (getBytesPerSector vol.bpb * getSectorsPerCluster vol.bpb) 0)

/-- Sector of the first FAT that holds the entry of a cluster. -/
def fatSectorNumber (bpb : Bpb) (cluster : Nat) : Nat :=
  u32 (getFirstFatSector bpb + u32 (cluster * 4) / getBytesPerSector bpb)

/-- Byte offset of a cluster's entry inside that sector. -/
def entOffset (bpb : Bpb) (cluster : Nat) : Nat := u32 (cluster * 4) % getBytesPerSector bpb

/-- The 32-bit FAT entry of a cluster. -/
def fatEntry (vol : Volume) (cluster : Nat) : Nat :=
  leNat (slice (fat32ReadSector vol (fatSectorNumber vol.bpb cluster)) (entOffset vol.bpb cluster) 4)

/-- `fat32_get_next_cluster`. -/
def fat32GetNextCluster (vol : Volume) (currentCluster : Nat) : Nat :=
  fatEntry vol currentCluster &&& 0x0FFFFFFF

/-- `fat32_set_next_cluster`: whether it wrote, and the volume afterwards. -/
def fat32SetNextCluster (vol : Volume) (currentCluster nextCluster : Nat) : Bool × Volume :=
  if isValidCluster currentCluster then
    let fatSector := fatSectorNumber vol.bpb currentCluster
    let entry := (fatEntry vol currentCluster &&& 0xF0000000) ||| (nextCluster &&& 0x0FFFFFFF)
    let sectorBuffer := overwrite (fat32ReadSector vol fatSector) (entOffset vol.bpb currentCluster)
      (leBytes 4 entry)
    -- The edited sector of the first FAT goes to every copy.
    let targetSectors := (List.range (getTotalNoFat vol.bpb)).map fun i =>
      u32 (fatSector + u32 (i * getFatSizeInSectors vol.bpb))
    (true, targetSectors.foldl (fun vol target => fat32WriteSector vol target sectorBuffer) vol)
  else
    (false, vol)

/-! ## Valid geometry -/

/-- What the accessors of a FAT entry rely on: every cluster number has an entry in the
first of the FAT copies, and the copies end below LBA `2 ^ 32`. -/
structure FatArea (bpb : Bpb) : Prop where
  bytsPerSec : bpb.bytsPerSec = 512
  numFATs : 0 < bpb.numFATs.toNat
  fatCovers : (getTotalClusters bpb + 2) * 4 ≤ bpb.fatSz32.toNat * 512
  clusterNumbers : getTotalClusters bpb + 1 ≤ 0x0FFFFFEF
  fatAddressable : bpb.hiddSec.toNat + bpb.rsvdSecCnt.toNat +
    bpb.numFATs.toNat * bpb.fatSz32.toNat ≤ 4294967296

/-- A layout with at least one FAT, in every copy of which each cluster number has an
entry. -/
structure Geometry (bpb : Bpb) : Prop extends Layout bpb where
  numFATs : 0 < bpb.numFATs.toNat
  fatCovers : (getTotalClusters bpb + 2) * 4 ≤ bpb.fatSz32.toNat * 512
  clusterNumbers : getTotalClusters bpb + 1 ≤ 0x0FFFFFEF

/-- A valid cluster number whose entry lies inside the FAT, whether or not the volume has
a cluster of that number. -/
def HasEntry (bpb : Bpb) (cluster : Nat) : Prop :=
  isValidCluster cluster = true ∧ cluster * 4 / 512 < bpb.fatSz32.toNat

/-- All FAT copies hold the same sectors. -/
def FatCopiesEqual (vol : Volume) : Prop :=
  ∀ copy < vol.bpb.numFATs.toNat, ∀ index < vol.bpb.fatSz32.toNat,
    fat32ReadSector vol (getFirstFatSector vol.bpb + copy * vol.bpb.fatSz32.toNat + index) =
      fat32ReadSector vol (getFirstFatSector vol.bpb + index)

/-- A single copy agrees with itself. -/
theorem fatCopiesEqual_of_single {vol : Volume} (single : vol.bpb.numFATs.toNat = 1) : FatCopiesEqual vol := by
  unfold FatCopiesEqual
  rw [single]
  intro copy below index _
  obtain rfl : copy = 0 := by omega
  rw [Nat.zero_mul, Nat.add_zero]

theorem HasEntry.le {bpb : Bpb} {cluster : Nat} (entry : HasEntry bpb cluster) :
    cluster ≤ 0x0FFFFFEF := by
  have valid := entry.1
  simp only [isValidCluster, Bool.and_eq_true, decide_eq_true_eq] at valid
  exact valid.2

namespace FatArea

variable {bpb : Bpb} (area : FatArea bpb)
include area

theorem isValidCluster_of_isCluster {cluster : Nat} (inRange : IsCluster bpb cluster) :
    isValidCluster cluster = true := by
  have numbers := area.clusterNumbers
  have lower := inRange.1
  have upper := inRange.2
  simp only [isValidCluster, Bool.and_eq_true, decide_eq_true_eq]
  omega

/-- The entry of a cluster lies inside the first FAT. -/
theorem fatIndex_lt {cluster : Nat} (inRange : IsCluster bpb cluster) :
    cluster * 4 / 512 < bpb.fatSz32.toNat := by
  have covers := area.fatCovers
  have upper := inRange.2
  omega

theorem hasEntry {cluster : Nat} (inRange : IsCluster bpb cluster) : HasEntry bpb cluster :=
  ⟨area.isValidCluster_of_isCluster inRange, area.fatIndex_lt inRange⟩

theorem fatSz32_le : bpb.fatSz32.toNat ≤ bpb.numFATs.toNat * bpb.fatSz32.toNat :=
  Nat.le_mul_of_pos_left _ area.numFATs

theorem firstFatSector_eq :
    getFirstFatSector bpb = bpb.hiddSec.toNat + bpb.rsvdSecCnt.toNat := by
  have covers := area.fatCovers
  have copies := area.fatSz32_le
  have addressable := area.fatAddressable
  exact u32_of_lt (by omega)

theorem sectorNumber_eq {cluster : Nat} (entry : HasEntry bpb cluster) :
    fatSectorNumber bpb cluster = getFirstFatSector bpb + cluster * 4 / 512 := by
  have addressable := area.fatAddressable
  have upper := entry.le
  have index := entry.2
  have copies := area.fatSz32_le
  have start := area.firstFatSector_eq
  have sectorSize : getBytesPerSector bpb = 512 := by
    rw [getBytesPerSector, area.bytsPerSec]
    rfl
  have offset : u32 (cluster * 4) = cluster * 4 := u32_of_lt (by omega)
  unfold fatSectorNumber
  rw [offset, sectorSize]
  exact u32_of_lt (by omega)

theorem fatSectorNumber_eq {cluster : Nat} (inRange : IsCluster bpb cluster) :
    fatSectorNumber bpb cluster = getFirstFatSector bpb + cluster * 4 / 512 :=
  area.sectorNumber_eq (area.hasEntry inRange)

theorem offset_eq {cluster : Nat} (entry : HasEntry bpb cluster) :
    entOffset bpb cluster = cluster * 4 % 512 := by
  have upper := entry.le
  have offset : u32 (cluster * 4) = cluster * 4 := u32_of_lt (by omega)
  have sectorSize : getBytesPerSector bpb = 512 := by
    rw [getBytesPerSector, area.bytsPerSec]
    rfl
  unfold entOffset
  rw [offset, sectorSize]

theorem entOffset_eq {cluster : Nat} (inRange : IsCluster bpb cluster) :
    entOffset bpb cluster = cluster * 4 % 512 :=
  area.offset_eq (area.hasEntry inRange)

end FatArea

namespace Geometry

variable {bpb : Bpb} (geometry : Geometry bpb)
include geometry

theorem fatArea : FatArea bpb where
  bytsPerSec := geometry.bytsPerSec
  numFATs := geometry.numFATs
  fatCovers := geometry.fatCovers
  clusterNumbers := geometry.clusterNumbers
  fatAddressable := by
    have inside := geometry.areasInside
    have addressable := geometry.addressable
    omega

theorem isEndOfClusterChain_of_isCluster {cluster : Nat} (inRange : IsCluster bpb cluster) :
    isEndOfClusterChain cluster = false := by
  have numbers := geometry.clusterNumbers
  have upper := inRange.2
  simp only [isEndOfClusterChain, decide_eq_false_iff_not]
  omega

end Geometry

/-! ## What the transfers change -/

@[simp] theorem fat32ReadSector_writeSectors (vol : Volume) (lba count : Nat) (buffer : List UInt8)
    (x : Nat) :
    fat32ReadSector (fat32WriteSectors vol lba count buffer) x =
      if lba ≤ x ∧ x < lba + count then sectorAt buffer (x - lba) else fat32ReadSector vol x := rfl

@[simp] theorem fat32WriteCluster_bpb (vol : Volume) (cluster : Nat) (buffer : List UInt8) :
    (fat32WriteCluster vol cluster buffer).bpb = vol.bpb := by
  rw [fat32WriteCluster, fat32WriteSectors]

@[simp] theorem fat32WriteCluster_cwdCluster (vol : Volume) (cluster : Nat) (buffer : List UInt8) :
    (fat32WriteCluster vol cluster buffer).cwdCluster = vol.cwdCluster := by
  rw [fat32WriteCluster, fat32WriteSectors]

@[simp] theorem fat32WriteCluster_freeClusterNo (vol : Volume) (cluster : Nat) (buffer : List UInt8) :
    (fat32WriteCluster vol cluster buffer).freeClusterNo = vol.freeClusterNo := by
  rw [fat32WriteCluster, fat32WriteSectors]

/-- Writing one full sector to a list of positions. -/
private theorem foldl_writeSector {buffer : List UInt8} (full : buffer.length = 512)
    (targets : List Nat) (vol : Volume) :
    let after := targets.foldl (fun vol target => fat32WriteSector vol target buffer) vol
    after.bpb = vol.bpb ∧ after.cwdCluster = vol.cwdCluster ∧
      after.freeClusterNo = vol.freeClusterNo ∧
      (∀ x ∈ targets, fat32ReadSector after x = buffer) ∧
      ∀ x ∉ targets, fat32ReadSector after x = fat32ReadSector vol x := by
  have whole : sectorAt buffer 0 = buffer := by
    rw [sectorAt_of_le (by omega), Nat.mul_zero, ← full, slice_zero_length]
  induction targets generalizing vol with
  | nil => simp
  | cons target rest ih =>
      obtain ⟨bpb, cwd, hint, written, kept⟩ := ih (fat32WriteSector vol target buffer)
      refine ⟨bpb, cwd, hint, fun x member => ?_, fun x outside => ?_⟩
      · by_cases later : x ∈ rest
        · exact written x later
        · obtain rfl : x = target := by simpa [later] using member
          refine (kept x later).trans ?_
          simp [fat32WriteSector, whole]
      · rw [List.mem_cons, not_or] at outside
        refine (kept x outside.2).trans ?_
        simp only [fat32WriteSector, fat32ReadSector_writeSectors]
        rw [if_neg (by omega)]

section SetNext

variable {vol : Volume} {cluster nextCluster : Nat}

/-- The sector image `fat32_set_next_cluster` stores. -/
def editedFatSector (vol : Volume) (cluster nextCluster : Nat) : List UInt8 :=
  overwrite (fat32ReadSector vol (fatSectorNumber vol.bpb cluster)) (entOffset vol.bpb cluster)
    (leBytes 4 ((fatEntry vol cluster &&& 0xF0000000) ||| (nextCluster &&& 0x0FFFFFFF)))

private theorem entOffset_add_four_le (area : FatArea vol.bpb) (entry : HasEntry vol.bpb cluster) :
    entOffset vol.bpb cluster + 4 ≤
      (fat32ReadSector vol (fatSectorNumber vol.bpb cluster)).length := by
  rw [area.offset_eq entry]
  have length := vol.disk.length_sector (fatSectorNumber vol.bpb cluster)
  simp only [fat32ReadSector]
  omega

private theorem length_editedFatSector (area : FatArea vol.bpb)
    (entry : HasEntry vol.bpb cluster) : (editedFatSector vol cluster nextCluster).length = 512 := by
  have fits := entOffset_add_four_le area entry
  rw [editedFatSector, length_overwrite (by simpa using fits)]
  exact vol.disk.length_sector _

/-- The positions `fat32_set_next_cluster` writes: the entry's sector in every copy. -/
private theorem mem_targetSectors_iff (area : FatArea vol.bpb) (entry : HasEntry vol.bpb cluster)
    (x : Nat) :
    x ∈ (List.range (getTotalNoFat vol.bpb)).map (fun i =>
        u32 (fatSectorNumber vol.bpb cluster + u32 (i * getFatSizeInSectors vol.bpb))) ↔
      ∃ copy < vol.bpb.numFATs.toNat,
        x = getFirstFatSector vol.bpb + copy * vol.bpb.fatSz32.toNat + cluster * 4 / 512 := by
  have target : ∀ copy < vol.bpb.numFATs.toNat,
      u32 (fatSectorNumber vol.bpb cluster + u32 (copy * vol.bpb.fatSz32.toNat)) =
        getFirstFatSector vol.bpb + copy * vol.bpb.fatSz32.toNat + cluster * 4 / 512 := by
    intro copy below
    have index := entry.2
    have addressable := area.fatAddressable
    have start := area.firstFatSector_eq
    have room : copy * vol.bpb.fatSz32.toNat + vol.bpb.fatSz32.toNat ≤
        vol.bpb.numFATs.toNat * vol.bpb.fatSz32.toNat := by
      rw [← Nat.succ_mul]
      exact Nat.mul_le_mul_right _ below
    have product : u32 (copy * vol.bpb.fatSz32.toNat) = copy * vol.bpb.fatSz32.toNat :=
      u32_of_lt (by omega)
    rw [area.sectorNumber_eq entry, product, Nat.add_right_comm]
    exact u32_of_lt (by omega)
  simp only [List.mem_map, List.mem_range, getTotalNoFat, getFatSizeInSectors]
  constructor
  · rintro ⟨copy, below, same⟩
    exact ⟨copy, below, same.symm.trans (target copy below)⟩
  · rintro ⟨copy, below, same⟩
    exact ⟨copy, below, (target copy below).trans same.symm⟩

/-- Everything `fat32_set_next_cluster` does to a volume, sector by sector. -/
theorem HasEntry.setNext_sectors (entry : HasEntry vol.bpb cluster) (nextCluster : Nat)
    (area : FatArea vol.bpb) :
    let after := fat32SetNextCluster vol cluster nextCluster
    after.1 = true ∧ after.2.bpb = vol.bpb ∧ after.2.cwdCluster = vol.cwdCluster ∧
      after.2.freeClusterNo = vol.freeClusterNo ∧
      (∀ copy < vol.bpb.numFATs.toNat, fat32ReadSector after.2
          (getFirstFatSector vol.bpb + copy * vol.bpb.fatSz32.toNat + cluster * 4 / 512) =
        editedFatSector vol cluster nextCluster) ∧
      ∀ x, (∀ copy < vol.bpb.numFATs.toNat,
          x ≠ getFirstFatSector vol.bpb + copy * vol.bpb.fatSz32.toNat + cluster * 4 / 512) →
        fat32ReadSector after.2 x = fat32ReadSector vol x := by
  have valid := entry.1
  have unfolded : fat32SetNextCluster vol cluster nextCluster =
      (true, ((List.range (getTotalNoFat vol.bpb)).map fun i =>
        u32 (fatSectorNumber vol.bpb cluster + u32 (i * getFatSizeInSectors vol.bpb))).foldl
          (fun current target =>
            fat32WriteSector current target (editedFatSector vol cluster nextCluster)) vol) := by
    simp only [fat32SetNextCluster, valid, if_true, editedFatSector]
  have full : (editedFatSector vol cluster nextCluster).length = 512 :=
    length_editedFatSector area entry
  obtain ⟨bpb, cwd, hint, written, kept⟩ := foldl_writeSector full
    ((List.range (getTotalNoFat vol.bpb)).map fun i =>
      u32 (fatSectorNumber vol.bpb cluster + u32 (i * getFatSizeInSectors vol.bpb))) vol
  rw [unfolded]
  refine ⟨rfl, bpb, cwd, hint, fun copy below => ?_, fun x outside => ?_⟩
  · exact written _ ((mem_targetSectors_iff area entry _).mpr ⟨copy, below, rfl⟩)
  · refine kept x fun member => ?_
    obtain ⟨copy, below, same⟩ := (mem_targetSectors_iff area entry x).mp member
    exact outside copy below same

/-- The same for a cluster of the volume. -/
theorem setNext_sectors (nextCluster : Nat) (area : FatArea vol.bpb)
    (inRange : IsCluster vol.bpb cluster) :
    let after := fat32SetNextCluster vol cluster nextCluster
    after.1 = true ∧ after.2.bpb = vol.bpb ∧ after.2.cwdCluster = vol.cwdCluster ∧
      after.2.freeClusterNo = vol.freeClusterNo ∧
      (∀ copy < vol.bpb.numFATs.toNat, fat32ReadSector after.2
          (getFirstFatSector vol.bpb + copy * vol.bpb.fatSz32.toNat + cluster * 4 / 512) =
        editedFatSector vol cluster nextCluster) ∧
      ∀ x, (∀ copy < vol.bpb.numFATs.toNat,
          x ≠ getFirstFatSector vol.bpb + copy * vol.bpb.fatSz32.toNat + cluster * 4 / 512) →
        fat32ReadSector after.2 x = fat32ReadSector vol x :=
  (area.hasEntry inRange).setNext_sectors nextCluster area

/-- A sector index of one FAT copy belongs to no other copy and no other index. -/
theorem fatIndex_unique {fatSize copy copy' index index' : Nat} (below : index < fatSize)
    (below' : index' < fatSize) (same : copy * fatSize + index = copy' * fatSize + index') :
    copy = copy' ∧ index = index' := by
  have positive : 0 < fatSize := by omega
  have quotient := congrArg (· / fatSize) same
  have remainder := congrArg (· % fatSize) same
  simp only [Nat.mul_add_mod', Nat.mod_eq_of_lt below, Nat.mod_eq_of_lt below'] at remainder
  simp only [Nat.add_comm _ index, Nat.add_comm _ index', Nat.add_mul_div_right _ _ positive,
    Nat.div_eq_of_lt below, Nat.div_eq_of_lt below', Nat.zero_add] at quotient
  exact ⟨quotient, remainder⟩

theorem fat32SetNextCluster_fst (nextCluster : Nat) (area : FatArea vol.bpb)
    (inRange : IsCluster vol.bpb cluster) :
    (fat32SetNextCluster vol cluster nextCluster).1 = true :=
  (setNext_sectors nextCluster area inRange).1

theorem fat32SetNextCluster_bpb (nextCluster : Nat) (area : FatArea vol.bpb)
    (inRange : IsCluster vol.bpb cluster) :
    (fat32SetNextCluster vol cluster nextCluster).2.bpb = vol.bpb :=
  (setNext_sectors nextCluster area inRange).2.1

theorem fat32SetNextCluster_cwdCluster (nextCluster : Nat) (area : FatArea vol.bpb)
    (inRange : IsCluster vol.bpb cluster) :
    (fat32SetNextCluster vol cluster nextCluster).2.cwdCluster = vol.cwdCluster :=
  (setNext_sectors nextCluster area inRange).2.2.1

theorem fat32SetNextCluster_freeClusterNo (nextCluster : Nat) (area : FatArea vol.bpb)
    (inRange : IsCluster vol.bpb cluster) :
    (fat32SetNextCluster vol cluster nextCluster).2.freeClusterNo = vol.freeClusterNo :=
  (setNext_sectors nextCluster area inRange).2.2.2.1

/-- The bytes of an entry in the edited sector: the new value for the cluster itself, the
old bytes for its neighbours. -/
theorem slice_editedFatSector (nextCluster : Nat) {index : Nat} (area : FatArea vol.bpb)
    (entry : HasEntry vol.bpb cluster) (sameSector : index * 4 / 512 = cluster * 4 / 512) :
    slice (editedFatSector vol cluster nextCluster) (index * 4 % 512) 4 =
      if index = cluster then
        leBytes 4 ((fatEntry vol cluster &&& 0xF0000000) ||| (nextCluster &&& 0x0FFFFFFF))
      else slice (fat32ReadSector vol (getFirstFatSector vol.bpb + index * 4 / 512)) (index * 4 % 512) 4 := by
  have fits := entOffset_add_four_le area entry
  rw [editedFatSector, area.offset_eq entry, area.sectorNumber_eq entry]
  rw [area.offset_eq entry, area.sectorNumber_eq entry] at fits
  split_ifs with same
  · rw [same]
    have back := slice_overwrite_self
      (leBytes 4 ((fatEntry vol cluster &&& 0xF0000000) ||| (nextCluster &&& 0x0FFFFFFF)))
      (show cluster * 4 % 512 ≤
        (fat32ReadSector vol (getFirstFatSector vol.bpb + cluster * 4 / 512)).length by omega)
    rwa [length_leBytes] at back
  · -- The neighbours lie at other multiples of four.
    rw [sameSector]
    rcases Nat.lt_or_ge index cluster with before | after
    · exact slice_overwrite_before (by omega) (by omega)
    · exact slice_overwrite_after (by omega) (by rw [length_leBytes]; omega)

/-- The 32-bit entry with a given index in one FAT copy. -/
def copyEntry (vol : Volume) (copy index : Nat) : Nat :=
  leNat (slice (fat32ReadSector vol
    (getFirstFatSector vol.bpb + copy * vol.bpb.fatSz32.toNat + index * 4 / 512)) (index * 4 % 512) 4)

theorem HasEntry.next_eq_copyEntry (entry : HasEntry vol.bpb cluster) (area : FatArea vol.bpb) :
    fat32GetNextCluster vol cluster = copyEntry vol 0 cluster &&& 0x0FFFFFFF := by
  rw [fat32GetNextCluster, fatEntry, copyEntry, area.sectorNumber_eq entry, area.offset_eq entry,
    Nat.zero_mul, Nat.add_zero]

theorem fat32GetNextCluster_eq_copyEntry (area : FatArea vol.bpb) (inRange : IsCluster vol.bpb cluster) :
    fat32GetNextCluster vol cluster = copyEntry vol 0 cluster &&& 0x0FFFFFFF :=
  (area.hasEntry inRange).next_eq_copyEntry area

/-- Setting an entry exchanges its low 28 bits in every copy whose sector agrees with the
first one, and leaves every other entry alone. -/
theorem HasEntry.copyEntry_setNext (entry : HasEntry vol.bpb cluster) (nextCluster : Nat) {copy index : Nat}
    (area : FatArea vol.bpb) (below : copy < vol.bpb.numFATs.toNat)
    (inFat : index * 4 / 512 < vol.bpb.fatSz32.toNat)
    (agrees : fat32ReadSector vol
        (getFirstFatSector vol.bpb + copy * vol.bpb.fatSz32.toNat + index * 4 / 512) =
      fat32ReadSector vol (getFirstFatSector vol.bpb + index * 4 / 512)) :
    copyEntry (fat32SetNextCluster vol cluster nextCluster).2 copy index =
      if index = cluster then
        (copyEntry vol copy cluster &&& 0xF0000000) ||| (nextCluster &&& 0x0FFFFFFF)
      else copyEntry vol copy index := by
  obtain ⟨_, bpb, _, _, written, kept⟩ := entry.setNext_sectors nextCluster area
  have position := entry.2
  have stored : (fatEntry vol cluster &&& 0xF0000000) ||| (nextCluster &&& 0x0FFFFFFF) < 256 ^ 4 :=
    Nat.or_lt_two_pow (n := 32) (lt_of_le_of_lt Nat.and_le_right (by decide))
      (lt_of_le_of_lt Nat.and_le_right (by decide))
  by_cases sameSector : index * 4 / 512 = cluster * 4 / 512
  · have bytes := slice_editedFatSector nextCluster area entry sameSector
    rw [copyEntry, bpb, sameSector, written copy below, bytes]
    split_ifs with same
    · subst same
      have word : fatEntry vol index = copyEntry vol copy index := by
        rw [fatEntry, copyEntry, area.sectorNumber_eq entry, area.offset_eq entry, agrees]
      rw [leNat_leBytes_of_lt stored, word]
    · rw [copyEntry, agrees]
  · have different : index ≠ cluster := fun same => sameSector (by rw [same])
    rw [if_neg different, copyEntry, copyEntry, bpb, kept]
    intro other _ clash
    have positions : copy * vol.bpb.fatSz32.toNat + index * 4 / 512 =
        other * vol.bpb.fatSz32.toNat + cluster * 4 / 512 := by omega
    exact sameSector (fatIndex_unique inFat position positions).2

theorem copyEntry_setNext (nextCluster : Nat) {copy index : Nat} (area : FatArea vol.bpb)
    (inRange : IsCluster vol.bpb cluster) (below : copy < vol.bpb.numFATs.toNat)
    (inFat : index * 4 / 512 < vol.bpb.fatSz32.toNat)
    (agrees : fat32ReadSector vol
        (getFirstFatSector vol.bpb + copy * vol.bpb.fatSz32.toNat + index * 4 / 512) =
      fat32ReadSector vol (getFirstFatSector vol.bpb + index * 4 / 512)) :
    copyEntry (fat32SetNextCluster vol cluster nextCluster).2 copy index =
      if index = cluster then
        (copyEntry vol copy cluster &&& 0xF0000000) ||| (nextCluster &&& 0x0FFFFFFF)
      else copyEntry vol copy index :=
  (area.hasEntry inRange).copyEntry_setNext nextCluster area below inFat agrees

/-- The low 28 bits of the entry `fat32_set_next_cluster` stores. -/
theorem storedEntry_and_mask (entry nextCluster : Nat) :
    ((entry &&& 0xF0000000) ||| (nextCluster &&& 0x0FFFFFFF)) &&& 0x0FFFFFFF =
      nextCluster % 0x10000000 := by
  rw [Nat.and_or_distrib_right, Nat.and_assoc, Nat.and_assoc]
  simp only [Nat.reduceAnd, Nat.and_zero, Nat.zero_or]
  exact Nat.and_two_pow_sub_one_eq_mod nextCluster 28

/-- The stored entry reads back as the low 28 bits of the value set. -/
theorem HasEntry.next_setNext_self (entry : HasEntry vol.bpb cluster) (nextCluster : Nat)
    (area : FatArea vol.bpb) :
    fat32GetNextCluster (fat32SetNextCluster vol cluster nextCluster).2 cluster =
      nextCluster % 0x10000000 := by
  have bpb := (entry.setNext_sectors nextCluster area).2.1
  have entry' : HasEntry (fat32SetNextCluster vol cluster nextCluster).2.bpb cluster := by rwa [bpb]
  rw [entry'.next_eq_copyEntry (by rwa [bpb]), entry.copyEntry_setNext nextCluster area area.numFATs
    entry.2 (by rw [Nat.zero_mul, Nat.add_zero]), if_pos rfl, storedEntry_and_mask]

theorem fat32GetNextCluster_setNext_self (nextCluster : Nat) (area : FatArea vol.bpb)
    (inRange : IsCluster vol.bpb cluster) :
    fat32GetNextCluster (fat32SetNextCluster vol cluster nextCluster).2 cluster =
      nextCluster % 0x10000000 :=
  (area.hasEntry inRange).next_setNext_self nextCluster area

/-- Setting one entry leaves every other entry alone. -/
theorem HasEntry.next_setNext_of_ne (entry : HasEntry vol.bpb cluster) (nextCluster : Nat) {other : Nat}
    (area : FatArea vol.bpb) (otherEntry : HasEntry vol.bpb other) (different : other ≠ cluster) :
    fat32GetNextCluster (fat32SetNextCluster vol cluster nextCluster).2 other =
      fat32GetNextCluster vol other := by
  have bpb := (entry.setNext_sectors nextCluster area).2.1
  have entry' : HasEntry (fat32SetNextCluster vol cluster nextCluster).2.bpb other := by rwa [bpb]
  rw [entry'.next_eq_copyEntry (by rwa [bpb]), entry.copyEntry_setNext nextCluster area area.numFATs
    otherEntry.2 (by rw [Nat.zero_mul, Nat.add_zero]), if_neg different,
    ← otherEntry.next_eq_copyEntry area]

theorem fat32GetNextCluster_setNext_of_ne (nextCluster : Nat) {other : Nat} (area : FatArea vol.bpb)
    (inRange : IsCluster vol.bpb cluster) (inRange' : IsCluster vol.bpb other) (different : other ≠ cluster) :
    fat32GetNextCluster (fat32SetNextCluster vol cluster nextCluster).2 other =
      fat32GetNextCluster vol other :=
  (area.hasEntry inRange).next_setNext_of_ne nextCluster area (area.hasEntry inRange') different

/-- Where a target of `fat32_set_next_cluster` can meet the first FAT, for entry numbers that
need not belong to a cluster: only the unshifted sector, and only without wrapping around. -/
private theorem strayTarget_eq {bpb : Bpb} {copy index sector : Nat} (area : FatArea bpb)
    (below : copy < bpb.numFATs.toNat) (small : index < 2097152)
    (target : u32 (u32 (getFirstFatSector bpb + index) + u32 (copy * bpb.fatSz32.toNat)) =
      getFirstFatSector bpb + sector) (inFat : sector < bpb.fatSz32.toNat) : index = sector := by
  have addressable := area.fatAddressable
  have start := area.firstFatSector_eq
  have copies := bpb.numFATs.toNat_lt
  have room : copy * bpb.fatSz32.toNat + bpb.fatSz32.toNat ≤
      bpb.numFATs.toNat * bpb.fatSz32.toNat := by
    rw [← Nat.succ_mul]
    exact Nat.mul_le_mul_right _ below
  have shift : copy * bpb.fatSz32.toNat ≤ 254 * bpb.fatSz32.toNat :=
    Nat.mul_le_mul_right _ (by omega)
  have shifted : copy = 0 ∨ bpb.fatSz32.toNat ≤ copy * bpb.fatSz32.toNat := by
    rcases Nat.eq_zero_or_pos copy with first | later
    · exact .inl first
    · exact .inr (Nat.le_mul_of_pos_left _ later)
  unfold u32 at target
  rcases shifted with rfl | shifted
  · rw [Nat.zero_mul] at target room
    omega
  · omega

/-- A store to the entry of any other number, even of one past the clusters of the volume,
leaves the entry of a cluster alone. -/
theorem fat32GetNextCluster_setNext_stray (nextCluster : Nat) {other : Nat} (area : FatArea vol.bpb)
    (inRange : IsCluster vol.bpb other) (different : other ≠ cluster) :
    fat32GetNextCluster (fat32SetNextCluster vol cluster nextCluster).2 other =
      fat32GetNextCluster vol other := by
  by_cases valid : isValidCluster cluster = true
  swap
  · rw [fat32SetNextCluster, if_neg valid]
  have upper : cluster ≤ 0x0FFFFFEF := by
    simp only [isValidCluster, Bool.and_eq_true, decide_eq_true_eq] at valid
    exact valid.2
  have sectorSize : getBytesPerSector vol.bpb = 512 := by
    rw [getBytesPerSector, area.bytsPerSec]
    rfl
  have bytes : u32 (cluster * 4) = cluster * 4 := u32_of_lt (by omega)
  have offset : entOffset vol.bpb cluster = cluster * 4 % 512 := by rw [entOffset, bytes, sectorSize]
  have sector : fatSectorNumber vol.bpb cluster = u32 (getFirstFatSector vol.bpb + cluster * 4 / 512) := by
    rw [fatSectorNumber, bytes, sectorSize]
  have length := vol.disk.length_sector (fatSectorNumber vol.bpb cluster)
  have full : (editedFatSector vol cluster nextCluster).length = 512 := by
    rw [editedFatSector, length_overwrite (by simp only [fat32ReadSector, length_leBytes]; omega)]
    exact length
  have unfolded : (fat32SetNextCluster vol cluster nextCluster).2 =
      ((List.range (getTotalNoFat vol.bpb)).map fun i =>
        u32 (fatSectorNumber vol.bpb cluster + u32 (i * getFatSizeInSectors vol.bpb))).foldl
          (fun current target =>
            fat32WriteSector current target (editedFatSector vol cluster nextCluster)) vol := by
    simp only [fat32SetNextCluster, valid, if_true, editedFatSector]
  obtain ⟨bpb, _, _, written, kept⟩ := foldl_writeSector full
    ((List.range (getTotalNoFat vol.bpb)).map fun i =>
      u32 (fatSectorNumber vol.bpb cluster + u32 (i * getFatSizeInSectors vol.bpb))) vol
  rw [← unfolded] at bpb written kept
  have inFat := area.fatIndex_lt inRange
  rw [fat32GetNextCluster, fat32GetNextCluster, fatEntry, fatEntry, bpb, area.fatSectorNumber_eq inRange,
    area.entOffset_eq inRange]
  by_cases hit : getFirstFatSector vol.bpb + other * 4 / 512 ∈
      (List.range (getTotalNoFat vol.bpb)).map fun i =>
        u32 (fatSectorNumber vol.bpb cluster + u32 (i * getFatSizeInSectors vol.bpb))
  · obtain ⟨copy, below, target⟩ := List.mem_map.mp hit
    rw [sector] at target
    have sameSector : cluster * 4 / 512 = other * 4 / 512 :=
      strayTarget_eq area (List.mem_range.mp below) (by omega) target inFat
    have place : fatSectorNumber vol.bpb cluster = getFirstFatSector vol.bpb + other * 4 / 512 := by
      have addressable := area.fatAddressable
      have start := area.firstFatSector_eq
      have copies := area.fatSz32_le
      rw [sector, sameSector]
      exact u32_of_lt (by omega)
    rw [place] at length
    rw [written _ hit, editedFatSector, place, offset]
    -- The two entries lie at different multiples of four.
    rcases Nat.lt_or_ge other cluster with before | after
    · rw [slice_overwrite_before (by simp only [fat32ReadSector]; omega) (by omega)]
    · rw [slice_overwrite_after (by simp only [fat32ReadSector]; omega) (by rw [length_leBytes]; omega)]
  · rw [kept _ hit]

theorem fat32ReadCluster_setNext (nextCluster : Nat) {other : Nat} (geometry : Geometry vol.bpb)
    (inRange : IsCluster vol.bpb cluster) (inRange' : IsCluster vol.bpb other) :
    fat32ReadCluster (fat32SetNextCluster vol cluster nextCluster).2 other =
      fat32ReadCluster vol other := by
  obtain ⟨_, bpb, _, _, _, kept⟩ := setNext_sectors nextCluster geometry.fatArea inRange
  have room := geometry.cluster_end_le inRange'
  have addressable := geometry.addressable
  have index := geometry.fatArea.fatIndex_lt inRange
  have start := geometry.getFirstDataSector_eq
  unfold fat32ReadCluster
  rw [bpb]
  refine List.flatMap_congr fun i member => ?_
  rw [List.mem_range, getSectorsPerCluster] at member
  rw [geometry.getFirstSectorOfCluster_eq inRange', u32_of_lt (by omega)]
  refine kept _ fun copy below clash => ?_
  have copies : copy * vol.bpb.fatSz32.toNat + vol.bpb.fatSz32.toNat ≤
      vol.bpb.numFATs.toNat * vol.bpb.fatSz32.toNat := by
    rw [← Nat.succ_mul]
    exact Nat.mul_le_mul_right _ below
  omega

theorem HasEntry.fatCopiesEqual_setNext (entry : HasEntry vol.bpb cluster) (nextCluster : Nat)
    (area : FatArea vol.bpb) (copies : FatCopiesEqual vol) :
    FatCopiesEqual (fat32SetNextCluster vol cluster nextCluster).2 := by
  obtain ⟨_, bpb, _, _, written, kept⟩ := entry.setNext_sectors nextCluster area
  have position := entry.2
  unfold FatCopiesEqual
  rw [bpb]
  intro copy below index indexBelow
  by_cases same : index = cluster * 4 / 512
  · have first := written 0 area.numFATs
    rw [Nat.zero_mul, Nat.add_zero] at first
    rw [same, written copy below, first]
  · have untouched : ∀ here < vol.bpb.numFATs.toNat, fat32ReadSector
        (fat32SetNextCluster vol cluster nextCluster).2
          (getFirstFatSector vol.bpb + here * vol.bpb.fatSz32.toNat + index) =
        fat32ReadSector vol (getFirstFatSector vol.bpb + here * vol.bpb.fatSz32.toNat + index) := by
      intro here _
      refine kept _ fun other _ clash => same ?_
      have positions : here * vol.bpb.fatSz32.toNat + index =
          other * vol.bpb.fatSz32.toNat + cluster * 4 / 512 := by omega
      exact (fatIndex_unique indexBelow position positions).2
    have first := untouched 0 area.numFATs
    rw [Nat.zero_mul, Nat.add_zero] at first
    rw [untouched copy below, first]
    exact copies copy below index indexBelow

theorem fatCopiesEqual_setNext (nextCluster : Nat) (area : FatArea vol.bpb)
    (inRange : IsCluster vol.bpb cluster) (copies : FatCopiesEqual vol) :
    FatCopiesEqual (fat32SetNextCluster vol cluster nextCluster).2 :=
  (area.hasEntry inRange).fatCopiesEqual_setNext nextCluster area copies

end SetNext

section WriteCluster

variable {vol : Volume} {cluster : Nat} {buffer : List UInt8}

theorem length_fat32ReadCluster (vol : Volume) (cluster : Nat) :
    (fat32ReadCluster vol cluster).length = 512 * getSectorsPerCluster vol.bpb := by
  have constant : ∀ i, (fat32ReadSector vol
      (u32 (getFirstSectorOfCluster vol.bpb cluster + i))).length = 512 :=
    fun i => vol.disk.length_sector _
  simp [fat32ReadCluster, List.length_flatMap, constant, Nat.mul_comm]

/-- Cutting a buffer of whole sectors into sectors and joining them again. -/
theorem flatMap_sectorAt (count : Nat) (buffer : List UInt8)
    (length : 512 * count ≤ buffer.length) :
    (List.range count).flatMap (sectorAt buffer) = buffer.take (512 * count) := by
  induction count with
  | zero => simp
  | succ count ih =>
      rw [List.range_succ, List.flatMap_append, ih (by omega), List.flatMap_singleton,
        sectorAt_of_le (by omega), slice, Nat.mul_succ, ← List.take_add]

/-- A written cluster reads back. -/
theorem fat32ReadCluster_write_self (layout : Layout vol.bpb) (inRange : IsCluster vol.bpb cluster)
    (full : buffer.length = 512 * getSectorsPerCluster vol.bpb) :
    fat32ReadCluster (fat32WriteCluster vol cluster buffer) cluster = buffer := by
  have room := layout.cluster_end_le inRange
  have addressable := layout.addressable
  have sectors : ∀ i ∈ List.range (getSectorsPerCluster vol.bpb),
      fat32ReadSector (fat32WriteCluster vol cluster buffer)
        (u32 (getFirstSectorOfCluster vol.bpb cluster + i)) = sectorAt buffer i := by
    intro i member
    rw [List.mem_range] at member
    have below : i < vol.bpb.secPerClus.toNat := member
    rw [layout.getFirstSectorOfCluster_eq inRange, u32_of_lt (by omega), fat32WriteCluster,
      fat32ReadSector_writeSectors, layout.getFirstSectorOfCluster_eq inRange,
      if_pos ⟨by omega, by omega⟩]
    congr 1
    omega
  unfold fat32ReadCluster
  dsimp only
  rw [fat32WriteCluster_bpb, List.flatMap_congr sectors, flatMap_sectorAt _ _ (by omega), ← full,
    List.take_length]

/-- Different clusters occupy disjoint sectors. -/
theorem fat32ReadCluster_write_of_ne {other : Nat} (geometry : Geometry vol.bpb)
    (inRange : IsCluster vol.bpb cluster) (inRange' : IsCluster vol.bpb other) (different : other ≠ cluster) :
    fat32ReadCluster (fat32WriteCluster vol cluster buffer) other = fat32ReadCluster vol other := by
  have room := geometry.cluster_end_le inRange'
  have addressable := geometry.addressable
  have lower := inRange.1
  have lower' := inRange'.1
  have apart : (cluster - 2) * vol.bpb.secPerClus.toNat + vol.bpb.secPerClus.toNat ≤
        (other - 2) * vol.bpb.secPerClus.toNat ∨
      (other - 2) * vol.bpb.secPerClus.toNat + vol.bpb.secPerClus.toNat ≤
        (cluster - 2) * vol.bpb.secPerClus.toNat := by
    rcases Nat.lt_or_ge other cluster with before | after
    · right
      rw [← Nat.succ_mul]
      exact Nat.mul_le_mul_right _ (by omega)
    · left
      rw [← Nat.succ_mul]
      exact Nat.mul_le_mul_right _ (by omega)
  unfold fat32ReadCluster
  rw [fat32WriteCluster_bpb]
  refine List.flatMap_congr fun i member => ?_
  rw [List.mem_range, getSectorsPerCluster] at member
  rw [geometry.getFirstSectorOfCluster_eq inRange', u32_of_lt (by omega), fat32WriteCluster,
    fat32ReadSector_writeSectors, geometry.getFirstSectorOfCluster_eq inRange, getSectorsPerCluster,
    if_neg (by omega)]

theorem fat32GetNextCluster_write {other : Nat} (geometry : Geometry vol.bpb)
    (inRange : IsCluster vol.bpb cluster) (inRange' : IsCluster vol.bpb other) :
    fat32GetNextCluster (fat32WriteCluster vol cluster buffer) other = fat32GetNextCluster vol other := by
  have index := geometry.fatArea.fatIndex_lt inRange'
  have copies := geometry.fatArea.fatSz32_le
  have start := geometry.getFirstDataSector_eq
  have sector : fat32ReadSector (fat32WriteCluster vol cluster buffer) (fatSectorNumber vol.bpb other) =
      fat32ReadSector vol (fatSectorNumber vol.bpb other) := by
    rw [geometry.fatArea.fatSectorNumber_eq inRange', fat32WriteCluster, fat32ReadSector_writeSectors,
      geometry.getFirstSectorOfCluster_eq inRange, if_neg (by omega)]
  simp only [fat32GetNextCluster, fatEntry, fat32WriteCluster_bpb, sector]

theorem fatCopiesEqual_write (geometry : Geometry vol.bpb) (inRange : IsCluster vol.bpb cluster)
    (copies : FatCopiesEqual vol) : FatCopiesEqual (fat32WriteCluster vol cluster buffer) := by
  have start := geometry.getFirstDataSector_eq
  have untouched : ∀ copy < vol.bpb.numFATs.toNat, ∀ index < vol.bpb.fatSz32.toNat,
      fat32ReadSector (fat32WriteCluster vol cluster buffer)
          (getFirstFatSector vol.bpb + copy * vol.bpb.fatSz32.toNat + index) =
        fat32ReadSector vol (getFirstFatSector vol.bpb + copy * vol.bpb.fatSz32.toNat + index) := by
    intro copy below index indexBelow
    have room : copy * vol.bpb.fatSz32.toNat + vol.bpb.fatSz32.toNat ≤
        vol.bpb.numFATs.toNat * vol.bpb.fatSz32.toNat := by
      rw [← Nat.succ_mul]
      exact Nat.mul_le_mul_right _ below
    rw [fat32WriteCluster, fat32ReadSector_writeSectors, geometry.getFirstSectorOfCluster_eq inRange,
      if_neg (by omega)]
  intro copy below index indexBelow
  rw [fat32WriteCluster_bpb] at below indexBelow ⊢
  have first := untouched 0 geometry.numFATs index indexBelow
  rw [Nat.zero_mul, Nat.add_zero] at first
  rw [untouched copy below index indexBelow, first]
  exact copies copy below index indexBelow

end WriteCluster

section SetFreeClusterNo

variable (vol : Volume) (hint cluster : Nat)

@[simp] theorem setFreeClusterNo_bpb : (vol.setFreeClusterNo hint).bpb = vol.bpb := rfl

@[simp] theorem setFreeClusterNo_cwdCluster :
    (vol.setFreeClusterNo hint).cwdCluster = vol.cwdCluster := rfl

@[simp] theorem setFreeClusterNo_freeClusterNo :
    (vol.setFreeClusterNo hint).freeClusterNo = hint := rfl

@[simp] theorem fat32GetNextCluster_setFreeClusterNo :
    fat32GetNextCluster (vol.setFreeClusterNo hint) cluster = fat32GetNextCluster vol cluster := by
  simp only [fat32GetNextCluster, fatEntry, fat32ReadSector, Volume.setFreeClusterNo]

@[simp] theorem fat32ReadCluster_setFreeClusterNo :
    fat32ReadCluster (vol.setFreeClusterNo hint) cluster = fat32ReadCluster vol cluster := by
  simp only [fat32ReadCluster, fat32ReadSector, Volume.setFreeClusterNo]

@[simp] theorem fatCopiesEqual_setFreeClusterNo :
    FatCopiesEqual (vol.setFreeClusterNo hint) ↔ FatCopiesEqual vol := by
  simp only [FatCopiesEqual, fat32ReadSector, Volume.setFreeClusterNo]

end SetFreeClusterNo

/-! ## A blank volume -/

/-- A disk of zeroes. -/
def blankDisk : Disk where
  sector _ := List.replicate 512 0
  length_sector _ := List.length_replicate

/-- The parameters of a formatted volume of 4096 sectors over a disk of zeroes. -/
def blankVolume : Volume where
  bpb := volumeBpb 0 4096
  disk := blankDisk
  cwdCluster := 2
  freeClusterNo := 2

theorem blankVolume_geometry : Geometry blankVolume.bpb := by
  refine ⟨⟨?_, ?_, ?_, ?_⟩, ?_, ?_, ?_⟩ <;> decide +kernel

theorem blankVolume_fatCopiesEqual : FatCopiesEqual blankVolume := fun _ _ _ _ => rfl

/-! From here on the accessors are used only through the lemmas above. -/

attribute [irreducible] fat32GetNextCluster fat32SetNextCluster fat32ReadCluster fat32WriteCluster
  FatCopiesEqual

end KeblaOS.Fat32
