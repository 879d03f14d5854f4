import Mathlib.Order.CompletePartialOrder
import KeblaOS.Fat32.Bpb

/-!
# Sector layout

A volume is a run of sectors: reserved sectors, the FAT copies one behind the other, then
the clusters. `Layout` is what the parameter block has to promise for that; under it no
address computation of `fat32_bpb.c` wraps around, and every getter is the plain
expression it looks like.
-/

namespace KeblaOS.Fat32

/-- 512-byte sectors, non-empty clusters, and reserved and FAT areas inside a volume that
ends below LBA `2 ^ 32`. -/
structure Layout (bpb : Bpb) : Prop where
  bytsPerSec : bpb.bytsPerSec = 512
  secPerClus : 0 < bpb.secPerClus.toNat
  areasInside : bpb.rsvdSecCnt.toNat + bpb.numFATs.toNat * bpb.fatSz32.toNat ≤ bpb.totSec32.toNat
  addressable : bpb.hiddSec.toNat + bpb.totSec32.toNat < 4294967296

/-- The cluster numbers of the volume, `2 .. get_total_clusters() + 1`. -/
def IsCluster (bpb : Bpb) (cluster : Nat) : Prop :=
  2 ≤ cluster ∧ cluster ≤ getTotalClusters bpb + 1

instance (bpb : Bpb) (cluster : Nat) : Decidable (IsCluster bpb cluster) :=
  inferInstanceAs (Decidable (_ ∧ _))

namespace Layout

variable {bpb : Bpb} (layout : Layout bpb)
include layout

theorem getBytesPerSector_eq : getBytesPerSector bpb = 512 := by
  simp [getBytesPerSector, layout.bytsPerSec]

theorem getClusterSizeBytes_eq : getClusterSizeBytes bpb = 512 * getSectorsPerCluster bpb := by
  simp [getClusterSizeBytes, getSectorsPerCluster, layout.bytsPerSec]

theorem clusterSize_pos : 0 < getClusterSizeBytes bpb := by
  have positive := layout.secPerClus
  rw [layout.getClusterSizeBytes_eq, getSectorsPerCluster]
  omega

theorem getFirstFatSector_eq :
    getFirstFatSector bpb = bpb.hiddSec.toNat + bpb.rsvdSecCnt.toNat := by
  have inside := layout.areasInside
  have addressable := layout.addressable
  exact u32_of_lt (by omega)

theorem getFirstDataSector_eq :
    getFirstDataSector bpb = getFirstFatSector bpb + bpb.numFATs.toNat * bpb.fatSz32.toNat := by
  have inside := layout.areasInside
  have addressable := layout.addressable
  have start := layout.getFirstFatSector_eq
  have copies : u32 (bpb.numFATs.toNat * bpb.fatSz32.toNat) =
      bpb.numFATs.toNat * bpb.fatSz32.toNat := u32_of_lt (by omega)
  have total : u32 (getFirstFatSector bpb + bpb.numFATs.toNat * bpb.fatSz32.toNat) =
      getFirstFatSector bpb + bpb.numFATs.toNat * bpb.fatSz32.toNat := u32_of_lt (by omega)
  unfold getFirstDataSector
  rw [copies]
  exact total

theorem getTotalClusters_eq :
    getTotalClusters bpb =
      (bpb.totSec32.toNat - (bpb.rsvdSecCnt.toNat + bpb.numFATs.toNat * bpb.fatSz32.toNat)) /
        bpb.secPerClus.toNat := by
  have inside := layout.areasInside
  have addressable := layout.addressable
  have copies : u32 (bpb.numFATs.toNat * bpb.fatSz32.toNat) =
      bpb.numFATs.toNat * bpb.fatSz32.toNat := u32_of_lt (by omega)
  have start : u32 (bpb.rsvdSecCnt.toNat + bpb.numFATs.toNat * bpb.fatSz32.toNat) =
      bpb.rsvdSecCnt.toNat + bpb.numFATs.toNat * bpb.fatSz32.toNat := u32_of_lt (by omega)
  unfold getTotalClusters
  dsimp only
  rw [copies, start, u32Sub_of_le inside]

/-- The sectors of a cluster end inside the volume. -/
theorem cluster_end_le {cluster : Nat} (inRange : IsCluster bpb cluster) :
    getFirstDataSector bpb + (cluster - 2) * bpb.secPerClus.toNat + bpb.secPerClus.toNat ≤
      bpb.hiddSec.toNat + bpb.totSec32.toNat := by
  have inside := layout.areasInside
  have start := layout.getFirstDataSector_eq
  have fatStart := layout.getFirstFatSector_eq
  have upper := inRange.2
  have lower := inRange.1
  rw [layout.getTotalClusters_eq] at upper
  have room := Nat.mul_le_of_le_div bpb.secPerClus.toNat (cluster - 1) _ (Nat.sub_le_of_le_add upper)
  have step : (cluster - 1) * bpb.secPerClus.toNat =
      (cluster - 2) * bpb.secPerClus.toNat + bpb.secPerClus.toNat := by
    rw [← Nat.succ_mul]
    congr 1
    omega
  omega

theorem getFirstSectorOfCluster_eq {cluster : Nat} (inRange : IsCluster bpb cluster) :
    getFirstSectorOfCluster bpb cluster =
      getFirstDataSector bpb + (cluster - 2) * bpb.secPerClus.toNat := by
  have room := layout.cluster_end_le inRange
  have addressable := layout.addressable
  have lower := inRange.1
  have upper := inRange.2
  have product : u32 ((cluster - 2) * bpb.secPerClus.toNat) =
      (cluster - 2) * bpb.secPerClus.toNat := u32_of_lt (by omega)
  unfold getFirstSectorOfCluster
  rw [u32Sub_of_le lower, product]
  exact u32_of_lt (by omega)

end Layout

/-! ## Extents -/

/-- The sectors of a cluster. -/
def clusterExtent (bpb : Bpb) (cluster : Nat) : Set Nat :=
  Set.Ico (getFirstSectorOfCluster bpb cluster)
    (getFirstSectorOfCluster bpb cluster + bpb.secPerClus.toNat)

/-- The reserved sectors. -/
def reservedExtent (bpb : Bpb) : Set Nat :=
  Set.Ico bpb.hiddSec.toNat (bpb.hiddSec.toNat + bpb.rsvdSecCnt.toNat)

/-- The sectors of one FAT copy. -/
def fatExtent (bpb : Bpb) (copy : Nat) : Set Nat :=
  Set.Ico (getFirstFatSector bpb + copy * bpb.fatSz32.toNat)
    (getFirstFatSector bpb + copy * bpb.fatSz32.toNat + bpb.fatSz32.toNat)

/-- The sectors of the volume. -/
def volumeExtent (bpb : Bpb) : Set Nat :=
  Set.Ico bpb.hiddSec.toNat (bpb.hiddSec.toNat + bpb.totSec32.toNat)

/-- No 32-bit sum, product or difference in the address computations leaves its range. -/
structure WrapFree (bpb : Bpb) : Prop where
  fatSectors : bpb.numFATs.toNat * bpb.fatSz32.toNat < 4294967296
  systemSectors : bpb.rsvdSecCnt.toNat + bpb.numFATs.toNat * bpb.fatSz32.toNat < 4294967296
  dataSectors : bpb.rsvdSecCnt.toNat + bpb.numFATs.toNat * bpb.fatSz32.toNat ≤ bpb.totSec32.toNat
  firstFatSector : bpb.hiddSec.toNat + bpb.rsvdSecCnt.toNat < 4294967296
  firstDataSector : bpb.hiddSec.toNat + bpb.rsvdSecCnt.toNat +
    bpb.numFATs.toNat * bpb.fatSz32.toNat < 4294967296
  clusterIndex : ∀ cluster, IsCluster bpb cluster → 2 ≤ cluster
  clusterOffset : ∀ cluster, IsCluster bpb cluster →
    (cluster - 2) * bpb.secPerClus.toNat < 4294967296
  clusterSectors : ∀ cluster, IsCluster bpb cluster → ∀ i < bpb.secPerClus.toNat,
    bpb.hiddSec.toNat + bpb.rsvdSecCnt.toNat + bpb.numFATs.toNat * bpb.fatSz32.toNat +
      (cluster - 2) * bpb.secPerClus.toNat + i < 4294967296

section Extents

variable {bpb : Bpb} (layout : Layout bpb)
include layout

theorem Layout.wrapFree : WrapFree bpb where
  fatSectors := by
    have inside := layout.areasInside
    have addressable := layout.addressable
    omega
  systemSectors := by
    have inside := layout.areasInside
    have addressable := layout.addressable
    omega
  dataSectors := layout.areasInside
  firstFatSector := by
    have inside := layout.areasInside
    have addressable := layout.addressable
    omega
  firstDataSector := by
    have inside := layout.areasInside
    have addressable := layout.addressable
    omega
  clusterIndex cluster inRange := inRange.1
  clusterOffset cluster inRange := by
    have room := layout.cluster_end_le inRange
    have addressable := layout.addressable
    omega
  clusterSectors cluster inRange i below := by
    have room := layout.cluster_end_le inRange
    have addressable := layout.addressable
    rw [layout.getFirstDataSector_eq, layout.getFirstFatSector_eq] at room
    omega

/-- Clusters with different numbers have no sector in common: the one with the larger
number starts behind the end of the other. -/
theorem Layout.clusterExtent_disjoint {cluster other : Nat} (inRange : IsCluster bpb cluster)
    (inRange' : IsCluster bpb other) (different : cluster ≠ other) :
    Disjoint (clusterExtent bpb cluster) (clusterExtent bpb other) := by
  have ordered : ∀ {low high : Nat}, IsCluster bpb low → IsCluster bpb high → low < high →
      Disjoint (clusterExtent bpb low) (clusterExtent bpb high) := by
    intro low high inLow inHigh less
    have lower := inLow.1
    have step : (low - 2) * bpb.secPerClus.toNat + bpb.secPerClus.toNat ≤
        (high - 2) * bpb.secPerClus.toNat := by
      rw [← Nat.succ_mul]
      exact Nat.mul_le_mul_right _ (by omega)
    rw [Set.disjoint_left]
    intro sector first second
    rw [clusterExtent, layout.getFirstSectorOfCluster_eq inLow, Set.mem_Ico] at first
    rw [clusterExtent, layout.getFirstSectorOfCluster_eq inHigh, Set.mem_Ico] at second
    omega
  rcases Nat.lt_or_gt_of_ne different with less | greater
  · exact ordered inRange inRange' less
  · exact (ordered inRange' inRange greater).symm

/-- Every cluster lies behind the reserved sectors and the FAT copies, inside the volume. -/
theorem Layout.clusterExtent_apart {cluster : Nat} (inRange : IsCluster bpb cluster) :
    Disjoint (clusterExtent bpb cluster) (reservedExtent bpb) ∧
      (∀ copy < bpb.numFATs.toNat, Disjoint (clusterExtent bpb cluster) (fatExtent bpb copy)) ∧
      clusterExtent bpb cluster ⊆ volumeExtent bpb := by
  have dataStart := layout.getFirstDataSector_eq
  have fatStart := layout.getFirstFatSector_eq
  have room := layout.cluster_end_le inRange
  have extent : clusterExtent bpb cluster =
      Set.Ico (getFirstDataSector bpb + (cluster - 2) * bpb.secPerClus.toNat)
        (getFirstDataSector bpb + (cluster - 2) * bpb.secPerClus.toNat + bpb.secPerClus.toNat) := by
    rw [clusterExtent, layout.getFirstSectorOfCluster_eq inRange]
  rw [extent]
  refine ⟨?_, fun copy inCopies => ?_, ?_⟩
  · rw [Set.disjoint_left]
    intro sector first second
    rw [Set.mem_Ico] at first
    rw [reservedExtent, Set.mem_Ico] at second
    omega
  · have copyEnd : copy * bpb.fatSz32.toNat + bpb.fatSz32.toNat ≤
        bpb.numFATs.toNat * bpb.fatSz32.toNat := by
      rw [← Nat.succ_mul]
      exact Nat.mul_le_mul_right _ inCopies
    rw [Set.disjoint_left]
    intro sector first second
    rw [Set.mem_Ico] at first
    rw [fatExtent, Set.mem_Ico] at second
    omega
  · intro sector member
    rw [Set.mem_Ico] at member
    rw [volumeExtent, Set.mem_Ico]
    omega

end Extents

/-- Clusters, reserved sectors and FAT copies do not overlap, every cluster is inside the
volume, and the 32-bit address computations do not wrap around. -/
theorem layout_extents (bpb : Bpb) (layout : Layout bpb) :
    (∀ cluster other, IsCluster bpb cluster → IsCluster bpb other → cluster ≠ other →
        Disjoint (clusterExtent bpb cluster) (clusterExtent bpb other)) ∧
      (∀ cluster, IsCluster bpb cluster →
        Disjoint (clusterExtent bpb cluster) (reservedExtent bpb) ∧
          (∀ copy < bpb.numFATs.toNat, Disjoint (clusterExtent bpb cluster) (fatExtent bpb copy)) ∧
          clusterExtent bpb cluster ⊆ volumeExtent bpb) ∧
      WrapFree bpb :=
  ⟨fun _ _ inRange inRange' different => layout.clusterExtent_disjoint inRange inRange' different,
    fun _ inRange => layout.clusterExtent_apart inRange, layout.wrapFree⟩

/-- The extents of a formatted volume of 4096 sectors. -/
theorem layout_extents_4096 :
    Layout (volumeBpb 0 4096) ∧ IsCluster (volumeBpb 0 4096) 2 ∧ IsCluster (volumeBpb 0 4096) 3 ∧
      Disjoint (clusterExtent (volumeBpb 0 4096) 2) (clusterExtent (volumeBpb 0 4096) 3) ∧
      WrapFree (volumeBpb 0 4096) := by
  have layout : Layout (volumeBpb 0 4096) := by
    refine ⟨?_, ?_, ?_, ?_⟩ <;> decide +kernel
  have two : IsCluster (volumeBpb 0 4096) 2 := by decide +kernel
  have three : IsCluster (volumeBpb 0 4096) 3 := by decide +kernel
  obtain ⟨apart, -, wrapFree⟩ := layout_extents (volumeBpb 0 4096) layout
  exact ⟨layout, two, three, apart 2 3 two three (by decide), wrapFree⟩

end KeblaOS.Fat32
