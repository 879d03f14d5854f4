import KeblaOS.Fat32.Cluster
import KeblaOS.Fat32.FatTable

/-!
# What an operation changes in the FAT

`Volume.SameExcept` follows the entries of the volume's clusters. `Volume.FatExcept`
is about every 32-bit entry of the table, those of no cluster and the reserved bits
included. `FatFrame` is what any operation keeps that stores to entries of clusters
only; the two views together give the third.
-/

namespace KeblaOS.Fat32

/-- `after` has the FAT of `before` but for the entries in `entries`. -/
structure Volume.FatExcept (before after : Volume) (entries : Set Nat) : Prop where
  bpb : after.bpb = before.bpb
  copies : FatCopiesEqual before → FatCopiesEqual after
  entry : ∀ index, index * 4 / 512 < before.bpb.fatSz32.toNat → index ∉ entries →
    copyEntry after 0 index = copyEntry before 0 index

/-- Equal copies hold equal entries. -/
theorem FatCopiesEqual.copyEntry_eq {vol : Volume} {copy index : Nat} (copies : FatCopiesEqual vol)
    (below : copy < vol.bpb.numFATs.toNat) (inFat : index * 4 / 512 < vol.bpb.fatSz32.toNat) :
    copyEntry vol copy index = copyEntry vol 0 index := by
  unfold FatCopiesEqual at copies
  rw [copyEntry, copyEntry, copies copy below _ inFat, Nat.zero_mul, Nat.add_zero]

namespace Volume.FatExcept

variable {before middle after : Volume} {entries entries' : Set Nat}

theorem refl (vol : Volume) (entries : Set Nat) : vol.FatExcept vol entries :=
  ⟨rfl, id, fun _ _ _ => rfl⟩

theorem trans (first : before.FatExcept middle entries) (second : middle.FatExcept after entries) :
    before.FatExcept after entries where
  bpb := second.bpb.trans first.bpb
  copies equal := second.copies (first.copies equal)
  entry index inFat outside :=
    (second.entry index (by rwa [first.bpb]) outside).trans (first.entry index inFat outside)

theorem mono (kept : before.FatExcept after entries) (more : entries ⊆ entries') :
    before.FatExcept after entries' where
  bpb := kept.bpb
  copies := kept.copies
  entry index inFat outside := kept.entry index inFat fun member => outside (more member)

/-- Between equal copies the same holds of every copy. -/
theorem copyEntry_eq {copy index : Nat} (kept : before.FatExcept after entries)
    (equal : FatCopiesEqual before) (below : copy < before.bpb.numFATs.toNat)
    (inFat : index * 4 / 512 < before.bpb.fatSz32.toNat) (outside : index ∉ entries) :
    copyEntry after copy index = copyEntry before copy index := by
  rw [equal.copyEntry_eq below inFat, ← kept.entry index inFat outside]
  exact (kept.copies equal).copyEntry_eq (by rwa [kept.bpb]) (by rwa [kept.bpb])

end Volume.FatExcept

/-- A store to one entry. -/
theorem HasEntry.fatExcept_setNext {vol : Volume} {cluster : Nat} (entry : HasEntry vol.bpb cluster)
    (value : Nat) (area : FatArea vol.bpb) :
    vol.FatExcept (fat32SetNextCluster vol cluster value).2 {cluster} where
  bpb := (entry.setNext_sectors value area).2.1
  copies := entry.fatCopiesEqual_setNext value area
  entry index inFat outside := by
    have different : index ≠ cluster := outside
    rw [entry.copyEntry_setNext value area area.numFATs inFat (by rw [Nat.zero_mul, Nat.add_zero]),
      if_neg different]

/-- What stores to entries of clusters keep: the reserved bits of every entry, and the
entries that belong to no cluster. -/
structure FatFrame (before after : Volume) : Prop where
  bpb : after.bpb = before.bpb
  copies : FatCopiesEqual before → FatCopiesEqual after
  reserved : ∀ index, index * 4 / 512 < before.bpb.fatSz32.toNat →
    copyEntry after 0 index >>> 28 = copyEntry before 0 index >>> 28
  unaddressed : ∀ index, index * 4 / 512 < before.bpb.fatSz32.toNat → ¬ IsCluster before.bpb index →
    copyEntry after 0 index = copyEntry before 0 index

namespace FatFrame

variable {before middle after : Volume}

theorem refl (vol : Volume) : FatFrame vol vol := ⟨rfl, id, fun _ _ => rfl, fun _ _ _ => rfl⟩

theorem trans (first : FatFrame before middle) (second : FatFrame middle after) :
    FatFrame before after where
  bpb := second.bpb.trans first.bpb
  copies equal := second.copies (first.copies equal)
  reserved index inFat := (second.reserved index (by rwa [first.bpb])).trans (first.reserved index inFat)
  unaddressed index inFat outside :=
    (second.unaddressed index (by rwa [first.bpb]) (by rwa [first.bpb])).trans
      (first.unaddressed index inFat outside)

/-- An operation within the frame changes the entries of the clusters it relinks and no
others. -/
theorem fatExcept {entries data : Set Nat} (frame : FatFrame before after) (area : FatArea before.bpb)
    (same : before.SameExcept after entries data) : before.FatExcept after entries where
  bpb := frame.bpb
  copies := frame.copies
  entry index inFat outside := by
    by_cases inRange : IsCluster before.bpb index
    · have next := same.next index inRange outside
      rw [fat32GetNextCluster_eq_copyEntry (by rwa [frame.bpb]) (by rwa [frame.bpb]),
        fat32GetNextCluster_eq_copyEntry area inRange] at next
      have low : copyEntry after 0 index % 2 ^ 28 = copyEntry before 0 index % 2 ^ 28 := by
        rw [← Nat.and_two_pow_sub_one_eq_mod, ← Nat.and_two_pow_sub_one_eq_mod]
        exact next
      have high := frame.reserved index inFat
      rw [Nat.shiftRight_eq_div_pow, Nat.shiftRight_eq_div_pow] at high
      rw [← Nat.div_add_mod (copyEntry after 0 index) (2 ^ 28), high, low, Nat.div_add_mod]
    · exact frame.unaddressed index inFat inRange

end FatFrame

section Operations

variable {vol : Volume} {cluster : Nat}

theorem fatFrame_setNext (value : Nat) (area : FatArea vol.bpb) (inRange : IsCluster vol.bpb cluster) :
    FatFrame vol (fat32SetNextCluster vol cluster value).2 where
  bpb := fat32SetNextCluster_bpb value area inRange
  copies := fatCopiesEqual_setNext value area inRange
  reserved index inFat := by
    rw [copyEntry_setNext value area inRange area.numFATs inFat (by rw [Nat.zero_mul, Nat.add_zero])]
    split_ifs with same
    · rw [storedEntry_shiftRight value (copyEntry_lt vol 0 cluster), same]
    · rfl
  unaddressed index inFat outside := by
    have different : index ≠ cluster := by
      rintro rfl
      exact outside inRange
    rw [copyEntry_setNext value area inRange area.numFATs inFat (by rw [Nat.zero_mul, Nat.add_zero]),
      if_neg different]

/-- The hint is no part of the FAT. -/
theorem fatFrame_setFreeClusterNo (vol : Volume) (cluster : Nat) :
    FatFrame vol (vol.setFreeClusterNo cluster) where
  bpb := rfl
  copies equal := by rwa [fatCopiesEqual_setFreeClusterNo]
  reserved _ _ := rfl
  unaddressed _ _ _ := rfl

theorem fat32AllocateCluster_frame (geometry : Geometry vol.bpb) (hint : 2 ≤ vol.freeClusterNo) :
    FatFrame vol (fat32AllocateCluster vol).2 := by
  rcases fat32AllocateCluster_cases geometry hint with ⟨failed, _⟩ | ⟨cluster, after, found, allocated⟩
  · rw [failed]
    exact .refl vol
  · have stored : after = (fat32SetNextCluster vol cluster clusterEndOfChain).2.setFreeClusterNo
        (u32 (cluster + 1)) := by
      unfold fat32AllocateCluster at found
      dsimp only at found
      split at found
      · obtain ⟨same, rfl⟩ := Prod.mk.inj found
        rw [Option.some.inj same]
      · exact absurd (Prod.mk.inj found).1 (by simp)
    rw [found, stored]
    exact (fatFrame_setNext _ geometry.fatArea allocated.isCluster).trans (fatFrame_setFreeClusterNo _ _)

theorem fat32AppendCluster_frame {start : Nat} {cells : List Nat} {result : Option Nat × Volume}
    (geometry : Geometry vol.bpb) (hint : 2 ≤ vol.freeClusterNo) (chain : ClusterChain vol start cells)
    (returned : fat32AppendCluster vol start = some result) : FatFrame vol result.2 := by
  have numbers := geometry.clusterNumbers
  have short := chain.length_le
  obtain ⟨front, last, rfl⟩ : ∃ front last, cells = front ++ [last] :=
    ⟨_, _, (List.dropLast_append_getLast chain.linked.ne_nil).symm⟩
  have walk : lastOfChain vol chainFuel start = some last :=
    lastOfChain_eq chain.linked (by rw [List.length_append] at short; simp [chainFuel]; omega)
  have frame := fat32AllocateCluster_frame geometry hint
  unfold fat32AppendCluster at returned
  rw [walk, Option.map_some] at returned
  rcases fat32AllocateCluster_cases geometry hint with ⟨failed, _⟩ | ⟨cluster, middle, found, allocated⟩
  · rw [failed] at returned
    rw [← Option.some.inj returned]
    exact .refl vol
  · rw [found] at returned frame
    rw [← Option.some.inj returned]
    dsimp only at frame ⊢
    have geometry' : Geometry middle.bpb := by rwa [frame.bpb]
    have linked := fatFrame_setNext cluster geometry'.fatArea
      (show IsCluster middle.bpb last by rw [frame.bpb]; exact chain.isCluster last (by simp))
    have bpb := linked.bpb.trans frame.bpb
    have ended := @fatFrame_setNext (fat32SetNextCluster middle last cluster).2 cluster clusterEndOfChain
      (show FatArea _ by rw [bpb]; exact geometry.fatArea) (by rw [bpb]; exact allocated.isCluster)
    exact (frame.trans linked).trans ended

end Operations

end KeblaOS.Fat32
