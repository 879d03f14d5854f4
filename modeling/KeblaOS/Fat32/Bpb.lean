import Mathlib.Tactic.Ring
import KeblaOS.Lib.Buffer

/-!
# BIOS parameter block

`Bpb` is the boot sector record of `fat32_bpb.h` and the definitions below it are
the functions of `fat32_bpb.c`, read on a mounted block (`bpb` is not `NULL`).
Arithmetic on `uint32_t` is written with `u32` and `u32Sub` wherever it can wrap.
-/

namespace KeblaOS.Fat32

/-- Reduction of a result to `uint32_t`. -/
def u32 (value : Nat) : Nat := value % 4294967296

/-- Subtraction on `uint32_t`. -/
def u32Sub (left right : Nat) : Nat :=
  if right ≤ left then left - right else 4294967296 - right + left

theorem u32_of_lt {value : Nat} (bounded : value < 4294967296) : u32 value = value :=
  Nat.mod_eq_of_lt bounded

theorem u32_lt (value : Nat) : u32 value < 4294967296 :=
  Nat.mod_lt _ (by decide)

theorem u32Sub_of_le {left right : Nat} (ordered : right ≤ left) :
    u32Sub left right = left - right := if_pos ordered

/-- `BPB`: the boot sector of a FAT32 volume. -/
structure Bpb where
  jmpBoot : List UInt8
  oemName : List UInt8
  bytsPerSec : UInt16
  secPerClus : UInt8
  rsvdSecCnt : UInt16
  numFATs : UInt8
  rootEntCnt : UInt16
  totSec16 : UInt16
  media : UInt8
  fatSz16 : UInt16
  secPerTrk : UInt16
  numHeads : UInt16
  hiddSec : UInt32
  totSec32 : UInt32
  fatSz32 : UInt32
  extFlags : UInt16
  fsVer : UInt16
  rootClus : UInt32
  fsInfo : UInt16
  bkBootSec : UInt16
  reserved : List UInt8
  drvNum : UInt8
  reserved1 : UInt8
  bootSig : UInt8
  volID : UInt32
  volLab : List UInt8
  filSysType : List UInt8
  bootCode : List UInt8
  signature : UInt16
deriving DecidableEq

/-- `SECTOR_SIZE`. -/
def sectorSize : Nat := 512

/-- The FAT size in sectors that `create_bpb_fat32` stores: a first size from an
overestimate of the cluster count, then the size for the clusters which remain
once two FATs of the first size are set aside. -/
def fatSizeFor (totSectors sectorsPerCluster rsvdSecCnt numFATs : Nat) : Nat :=
  let tmpDataSectors := u32Sub totSectors rsvdSecCnt
  let totalClusters := tmpDataSectors / sectorsPerCluster
  let fatSize := u32 (u32 (totalClusters * 4) + (sectorSize - 1)) / sectorSize
  let dataSectors := u32Sub (u32Sub totSectors rsvdSecCnt) (u32 (numFATs * fatSize))
  let totalClusters := dataSectors / sectorsPerCluster
  u32 (u32 (totalClusters * 4) + (sectorSize - 1)) / sectorSize

/-- `create_bpb_fat32`, with the allocation of the block succeeding. -/
def createBpbFat32 (totSectors : UInt32) (sectorsPerCluster : UInt8) (startSector : UInt32) : Bpb where
  jmpBoot := [0xEB, 0x58, 0x90]
  oemName := [0x4B, 0x45, 0x42, 0x4C, 0x41, 0x4F, 0x53, 0x00]
  bytsPerSec := 512
  secPerClus := sectorsPerCluster
  rsvdSecCnt := 32
  numFATs := 2
  rootEntCnt := 0
  totSec16 := 0
  media := 0xF8
  fatSz16 := 0
  secPerTrk := 63
  numHeads := 255
  hiddSec := startSector
  totSec32 := totSectors
  fatSz32 := UInt32.ofNat (fatSizeFor totSectors.toNat sectorsPerCluster.toNat 32 2)
  extFlags := 0
  fsVer := 0
  rootClus := 2
  fsInfo := 1
  bkBootSec := 6
  reserved := List.replicate 12 0
  drvNum := 0x80
  reserved1 := 0
  bootSig := 0x29
  volID := 0x12345678
  volLab := [0x4B, 0x45, 0x42, 0x4C, 0x41, 0x4F, 0x53, 0x20, 0x46, 0x41, 0x54]
  filSysType := [0x46, 0x41, 0x54, 0x33, 0x32, 0x20, 0x20, 0x20]
  bootCode := List.replicate 420 0
  signature := 0xAA55

/-- The cluster size class `create_fat32_volume` picks for a sector count. -/
def volumeSectorsPerCluster (sectors : UInt32) : UInt8 :=
  if sectors < 65536 then 1
  else if sectors < 262144 then 2
  else if sectors < 524288 then 4
  else 16

/-- `get_total_clusters`. -/
def getTotalClusters (bpb : Bpb) : Nat :=
  let firstDataSector := u32 (bpb.rsvdSecCnt.toNat + u32 (bpb.numFATs.toNat * bpb.fatSz32.toNat))
  let dataSectors := u32Sub bpb.totSec32.toNat firstDataSector
  dataSectors / bpb.secPerClus.toNat

/-- `get_root_dir_cluster`. -/
def getRootDirCluster (bpb : Bpb) : Nat := bpb.rootClus.toNat

/-- `get_sectors_per_cluster`. -/
def getSectorsPerCluster (bpb : Bpb) : Nat := bpb.secPerClus.toNat

/-- `get_bytes_per_sector`. -/
def getBytesPerSector (bpb : Bpb) : Nat := bpb.bytsPerSec.toNat

/-- `get_fat_size_in_sectors`. -/
def getFatSizeInSectors (bpb : Bpb) : Nat := bpb.fatSz32.toNat

/-- `get_first_data_sector`. -/
def getFirstDataSector (bpb : Bpb) : Nat :=
  u32 (u32 (bpb.hiddSec.toNat + bpb.rsvdSecCnt.toNat) + u32 (bpb.numFATs.toNat * bpb.fatSz32.toNat))

/-- `get_cluster_size_bytes`; the product of the two small fields does not wrap. -/
def getClusterSizeBytes (bpb : Bpb) : Nat := bpb.bytsPerSec.toNat * bpb.secPerClus.toNat

/-- `get_first_fat_sector`. -/
def getFirstFatSector (bpb : Bpb) : Nat := u32 (bpb.hiddSec.toNat + bpb.rsvdSecCnt.toNat)

/-- `get_total_no_fat`. -/
def getTotalNoFat (bpb : Bpb) : Nat := bpb.numFATs.toNat

/-- `get_first_sector_of_cluster`. -/
def getFirstSectorOfCluster (bpb : Bpb) (clusterNumber : Nat) : Nat :=
  u32 (getFirstDataSector bpb + u32 (u32Sub clusterNumber 2 * bpb.secPerClus.toNat))

/-- `is_end_of_cluster_chain`. -/
def isEndOfClusterChain (clusterValue : Nat) : Bool := 0x0FFFFFF8 ≤ clusterValue

/-- `is_valid_cluster`. -/
def isValidCluster (clusterValue : Nat) : Bool :=
  0x00000002 ≤ clusterValue && clusterValue ≤ 0x0FFFFFEF

/-- An end mark is no cluster number. -/
theorem not_isValidCluster_of_end {value : Nat} (ends : isEndOfClusterChain value = true) :
    ¬ isValidCluster value = true := by
  simp only [isEndOfClusterChain, decide_eq_true_eq, isValidCluster, Bool.and_eq_true] at ends ⊢
  omega

/-! ## The FAT written by the formatter -/

/-- Every cluster the volume claims to have owns an entry inside one FAT copy. -/
def FatCoversClusters (bpb : Bpb) : Prop :=
  (getTotalClusters bpb + 2) * 4 ≤ bpb.fatSz32.toNat * 512 ∧
    ∀ cluster, 2 ≤ cluster → cluster ≤ getTotalClusters bpb + 1 →
      cluster * 4 / 512 < bpb.fatSz32.toNat

instance (bpb : Bpb) : Decidable (FatCoversClusters bpb) :=
  decidable_of_iff ((getTotalClusters bpb + 2) * 4 ≤ bpb.fatSz32.toNat * 512)
    ⟨fun covers => ⟨covers, fun cluster _ upper => by omega⟩, fun covers => covers.1⟩

/-- The block `create_fat32_volume` builds for a sector count. -/
def volumeBpb (startLba sectors : UInt32) : Bpb :=
  createBpbFat32 sectors (volumeSectorsPerCluster sectors) startLba

theorem volumeSectorsPerCluster_pos (sectors : UInt32) :
    0 < (volumeSectorsPerCluster sectors).toNat := by
  unfold volumeSectorsPerCluster
  split_ifs <;> decide

/-- The size classes keep the cluster count far below the 28-bit limit. -/
theorem sectors_div_volumeSectorsPerCluster_lt (sectors : UInt32) :
    sectors.toNat / (volumeSectorsPerCluster sectors).toNat < 268435456 := by
  have bounded := sectors.toNat_lt
  unfold volumeSectorsPerCluster
  split_ifs with small medium large
  · have limit : sectors.toNat < 65536 := small
    simpa using (by omega : sectors.toNat < 268435456)
  · have limit : sectors.toNat < 262144 := medium
    simp only [UInt8.reduceToNat]
    omega
  · have limit : sectors.toNat < 524288 := large
    simp only [UInt8.reduceToNat]
    omega
  · simp only [UInt8.reduceToNat]
    omega

section FatSize

variable {totSectors clusterSectors : Nat}

/-- One estimate of the FAT size does not wrap and is the rounded-up quotient. -/
private theorem fatEntriesSectors_eq {clusters : Nat} (few : clusters < 268435456) :
    u32 (u32 (clusters * 4) + (sectorSize - 1)) / sectorSize = (clusters + 127) / 128 := by
  have product : u32 (clusters * 4) = clusters * 4 := u32_of_lt (by omega)
  have rounded : u32 (clusters * 4 + (512 - 1)) = clusters * 4 + (512 - 1) := u32_of_lt (by omega)
  rw [product, sectorSize, rounded]
  omega

/-- Without wrap-around the two-step FAT size is a plain expression. -/
private theorem fatSizeFor_eq (large : 4096 ≤ totSectors) (bounded : totSectors < 4294967296)
    (few : totSectors / clusterSectors < 268435456) :
    fatSizeFor totSectors clusterSectors 32 2 =
      ((totSectors - 32 - 2 * (((totSectors - 32) / clusterSectors + 127) / 128)) /
        clusterSectors + 127) / 128 := by
  have first : (totSectors - 32) / clusterSectors < 268435456 :=
    lt_of_le_of_lt (Nat.div_le_div_right (by omega)) few
  have self : (totSectors - 32) / clusterSectors ≤ totSectors - 32 := Nat.div_le_self _ _
  have second : (totSectors - 32 - 2 * (((totSectors - 32) / clusterSectors + 127) / 128)) /
      clusterSectors < 268435456 := lt_of_le_of_lt (Nat.div_le_div_right (by omega)) few
  have copies : u32 (2 * (((totSectors - 32) / clusterSectors + 127) / 128)) =
      2 * (((totSectors - 32) / clusterSectors + 127) / 128) := u32_of_lt (by omega)
  have data : u32Sub totSectors 32 = totSectors - 32 := u32Sub_of_le (by omega)
  unfold fatSizeFor
  dsimp only
  rw [data, fatEntriesSectors_eq first, copies, u32Sub_of_le (by omega), fatEntriesSectors_eq second]

/-- A FAT of `fatSize` sectors holds all entries exactly when it has more sectors
than the quotient of the data sectors by the sectors one FAT sector accounts for
(its 128 clusters and its own two copies). -/
private theorem entries_fit_iff {dataSectors fatSize : Nat} (positive : 0 < clusterSectors)
    (nonempty : 0 < fatSize) (inside : 2 * fatSize ≤ dataSectors) :
    ((dataSectors - 2 * fatSize) / clusterSectors + 2) * 4 ≤ fatSize * 512 ↔
      (dataSectors + clusterSectors) / (128 * clusterSectors + 2) < fatSize := by
  have entries : ((dataSectors - 2 * fatSize) / clusterSectors + 2) * 4 ≤ fatSize * 512 ↔
      (dataSectors - 2 * fatSize) / clusterSectors < 128 * fatSize - 1 := by omega
  rw [entries, Nat.div_lt_iff_lt_mul positive, Nat.div_lt_iff_lt_mul (by omega)]
  have expand : (128 * fatSize - 1) * clusterSectors + clusterSectors =
      128 * fatSize * clusterSectors := by
    rw [← Nat.succ_mul, Nat.succ_eq_add_one, Nat.sub_add_cancel (by omega)]
  have total : fatSize * (128 * clusterSectors + 2) =
      128 * fatSize * clusterSectors + 2 * fatSize := by ring
  omega

/-- The second estimate, taken after setting aside two FATs of `first` sectors,
exceeds `quotient` under a linear condition. -/
private theorem quotient_lt_estimate_iff {dataSectors first : Nat} (positive : 0 < clusterSectors)
    (inside : 2 * first ≤ dataSectors) :
    (dataSectors + clusterSectors) / (128 * clusterSectors + 2) <
        ((dataSectors - 2 * first) / clusterSectors + 127) / 128 ↔
      2 * first + 2 * clusterSectors ≤
        2 * ((dataSectors + clusterSectors) / (128 * clusterSectors + 2)) +
          (dataSectors + clusterSectors) % (128 * clusterSectors + 2) := by
  have division := Nat.div_add_mod (dataSectors + clusterSectors) (128 * clusterSectors + 2)
  generalize (dataSectors + clusterSectors) / (128 * clusterSectors + 2) = quotient at division ⊢
  generalize (dataSectors + clusterSectors) % (128 * clusterSectors + 2) = remainder at division ⊢
  have rounded : quotient < ((dataSectors - 2 * first) / clusterSectors + 127) / 128 ↔
      128 * quotient + 1 ≤ (dataSectors - 2 * first) / clusterSectors := by omega
  rw [rounded, Nat.le_div_iff_mul_le positive]
  have expand : (128 * quotient + 1) * clusterSectors =
      128 * (clusterSectors * quotient) + clusterSectors := by ring
  have expandDivision : (128 * clusterSectors + 2) * quotient =
      128 * (clusterSectors * quotient) + 2 * quotient := by ring
  omega

end FatSize

/-- The sector counts for which the two-step size leaves room for every entry.
`quotient + 1` is the least FAT size that would do. -/
def FatSizeSuffices (sectors : UInt32) : Prop :=
  let clusterSectors := (volumeSectorsPerCluster sectors).toNat
  let dataSectors := sectors.toNat - 32
  let quotient := (dataSectors + clusterSectors) / (128 * clusterSectors + 2)
  let remainder := (dataSectors + clusterSectors) % (128 * clusterSectors + 2)
  2 * ((dataSectors / clusterSectors + 127) / 128) + 2 * clusterSectors ≤ 2 * quotient + remainder

instance (sectors : UInt32) : Decidable (FatSizeSuffices sectors) := by
  unfold FatSizeSuffices
  infer_instance

/-- The FAT size the formatter stores, as a plain expression of the sector count. -/
theorem volumeBpb_fatSz32 (startLba sectors : UInt32) (large : 4096 ≤ sectors.toNat) :
    (volumeBpb startLba sectors).fatSz32.toNat =
      ((sectors.toNat - 32 - 2 * (((sectors.toNat - 32) / (volumeSectorsPerCluster sectors).toNat + 127) / 128)) /
        (volumeSectorsPerCluster sectors).toNat + 127) / 128 := by
  have bounded := sectors.toNat_lt
  have size := fatSizeFor_eq large bounded (sectors_div_volumeSectorsPerCluster_lt sectors)
  have quotient : (sectors.toNat - 32 -
      2 * (((sectors.toNat - 32) / (volumeSectorsPerCluster sectors).toNat + 127) / 128)) /
        (volumeSectorsPerCluster sectors).toNat ≤ sectors.toNat - 32 :=
    Nat.le_trans (Nat.div_le_self _ _) (Nat.sub_le _ _)
  simp only [volumeBpb, createBpbFat32, UInt32.toNat_ofNat']
  rw [size]
  exact Nat.mod_eq_of_lt (by omega)

theorem volumeSectorsPerCluster_le (sectors : UInt32) : (volumeSectorsPerCluster sectors).toNat ≤ 16 := by
  unfold volumeSectorsPerCluster
  split_ifs <;> decide

/-- The two FATs are not empty and leave room for a cluster. -/
theorem volumeBpb_fatSz32_bounds (startLba sectors : UInt32) (large : 4096 ≤ sectors.toNat) :
    0 < (volumeBpb startLba sectors).fatSz32.toNat ∧
      2 * (volumeBpb startLba sectors).fatSz32.toNat + 16 ≤ sectors.toNat - 32 := by
  have positive := volumeSectorsPerCluster_pos sectors
  have small := volumeSectorsPerCluster_le sectors
  rw [volumeBpb_fatSz32 startLba sectors large]
  generalize (volumeSectorsPerCluster sectors).toNat = clusterSectors at positive small ⊢
  have firstQuotient : (sectors.toNat - 32) / clusterSectors ≤ sectors.toNat - 32 := Nat.div_le_self _ _
  generalize first_def : ((sectors.toNat - 32) / clusterSectors + 127) / 128 = first
  have secondQuotient : (sectors.toNat - 32 - 2 * first) / clusterSectors ≤
      sectors.toNat - 32 - 2 * first := Nat.div_le_self _ _
  -- 4064 data sectors are more than one cluster, so there is an entry to be stored.
  have cluster : 1 ≤ (sectors.toNat - 32 - 2 * first) / clusterSectors :=
    (Nat.one_le_div_iff positive).mpr (by omega)
  omega

/-- The formatter's FAT holds an entry for every cluster exactly for the sector
counts of `FatSizeSuffices`. -/
theorem volumeBpb_fatCoversClusters_iff (startLba sectors : UInt32) (large : 4096 ≤ sectors.toNat) :
    FatCoversClusters (volumeBpb startLba sectors) ↔ FatSizeSuffices sectors := by
  have bounded := sectors.toNat_lt
  have positive := volumeSectorsPerCluster_pos sectors
  have stored := volumeBpb_fatSz32 startLba sectors large
  obtain ⟨nonempty, room⟩ := volumeBpb_fatSz32_bounds startLba sectors large
  generalize fatSize_def : (volumeBpb startLba sectors).fatSz32.toNat = fatSize at stored nonempty room
  have clusters : getTotalClusters (volumeBpb startLba sectors) =
      (sectors.toNat - 32 - 2 * fatSize) / (volumeSectorsPerCluster sectors).toNat := by
    unfold getTotalClusters
    rw [fatSize_def]
    simp only [volumeBpb, createBpbFat32, UInt16.reduceToNat, UInt8.reduceToNat]
    have copies : u32 (2 * fatSize) = 2 * fatSize := u32_of_lt (by omega)
    have firstDataSector : u32 (32 + 2 * fatSize) = 32 + 2 * fatSize := u32_of_lt (by omega)
    rw [copies, firstDataSector, u32Sub_of_le (by omega), Nat.sub_sub]
  have covers : FatCoversClusters (volumeBpb startLba sectors) ↔
      ((sectors.toNat - 32 - 2 * fatSize) / (volumeSectorsPerCluster sectors).toNat + 2) * 4 ≤
        fatSize * 512 := by
    unfold FatCoversClusters
    rw [clusters, fatSize_def]
    exact ⟨fun both => both.1, fun room => ⟨room, fun cluster _ upper => by omega⟩⟩
  have firstQuotient : (sectors.toNat - 32) / (volumeSectorsPerCluster sectors).toNat ≤
      sectors.toNat - 32 := Nat.div_le_self _ _
  rw [covers, entries_fit_iff positive nonempty (by omega), stored,
    quotient_lt_estimate_iff positive (by omega)]
  rfl

theorem volumeBpb_fatCoversClusters_4096 :
    FatCoversClusters (volumeBpb 0 4096) ↔ FatSizeSuffices 4096 :=
  volumeBpb_fatCoversClusters_iff 0 4096 (by decide)

/-- A volume of 4191 sectors gets 32 FAT sectors for 4095 clusters: the entry of
the last cluster lies in the sector behind its FAT copy. -/
theorem volumeBpb_4191_fat_too_small :
    4096 ≤ (4191 : UInt32).toNat ∧ ¬ FatCoversClusters (volumeBpb 0 4191) := by
  decide

/-! Unfolding the modulus `2 ^ 32` helps no later proof; `u32_of_lt` and
`u32Sub_of_le` are the interface. -/

attribute [irreducible] u32 u32Sub

end KeblaOS.Fat32
