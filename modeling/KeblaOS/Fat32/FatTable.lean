import KeblaOS.Fat32.Volume

/-!
# The FAT as a map

Runs of `fat32_set_next_cluster` seen from the outside: the FAT is a map from cluster
numbers to 28-bit values, stored in identical copies. Updating it touches nothing else on
the disk, not even the four reserved bits of the entries it changes.
-/

namespace KeblaOS.Fat32

open KeblaOS.Buffer

/-- A sequence of `fat32_set_next_cluster` calls, as pairs of cluster and value. -/
def setNextAll (vol : Volume) (updates : List (Nat × Nat)) : Volume :=
  updates.foldl (fun vol update => (fat32SetNextCluster vol update.1 update.2).2) vol

@[simp] theorem setNextAll_snoc (vol : Volume) (updates : List (Nat × Nat)) (update : Nat × Nat) :
    setNextAll vol (updates ++ [update]) =
      (fat32SetNextCluster (setNextAll vol updates) update.1 update.2).2 := by
  simp [setNextAll]

/-- The value a sequence of updates leaves for a cluster, if it sets one. -/
def lastValue (updates : List (Nat × Nat)) (cluster : Nat) : Option Nat :=
  updates.reverse.lookup cluster

theorem lastValue_snoc (updates : List (Nat × Nat)) (update : Nat × Nat) (cluster : Nat) :
    lastValue (updates ++ [update]) cluster =
      if cluster = update.1 then some update.2 else lastValue updates cluster := by
  rw [lastValue, List.reverse_append, List.reverse_singleton, List.singleton_append, List.lookup_cons,
    lastValue]
  by_cases same : cluster = update.1
  · simp [same]
  · have unequal : (cluster == update.1) = false := by simpa using same
    rw [unequal, if_neg same]

/-- The reserved bits of an entry survive a store into its low 28 bits. -/
theorem storedEntry_shiftRight {entry : Nat} (nextCluster : Nat) (word : entry < 4294967296) :
    ((entry &&& 0xF0000000) ||| (nextCluster &&& 0x0FFFFFFF)) >>> 28 = entry >>> 28 := by
  have high : entry >>> 28 < 2 ^ 4 := by
    rw [Nat.shiftRight_eq_div_pow]
    omega
  rw [Nat.shiftRight_or_distrib, Nat.shiftRight_and_distrib, Nat.shiftRight_and_distrib]
  have mask : (0xF0000000 : Nat) >>> 28 = 2 ^ 4 - 1 := by decide
  have none : (0x0FFFFFFF : Nat) >>> 28 = 0 := by decide
  rw [mask, none, Nat.and_zero, Nat.or_zero, Nat.and_two_pow_sub_one_eq_mod, Nat.mod_eq_of_lt high]

theorem copyEntry_lt (vol : Volume) (copy index : Nat) : copyEntry vol copy index < 4294967296 := by
  have bounded := leNat_lt (slice (fat32ReadSector vol
    (getFirstFatSector vol.bpb + copy * vol.bpb.fatSz32.toNat + index * 4 / 512)) (index * 4 % 512) 4)
  rw [length_slice] at bounded
  have word : 256 ^ min 4 ((fat32ReadSector vol (getFirstFatSector vol.bpb +
      copy * vol.bpb.fatSz32.toNat + index * 4 / 512)).length - index * 4 % 512) ≤ 256 ^ 4 :=
    Nat.pow_le_pow_right (by decide) (Nat.min_le_left _ _)
  exact lt_of_lt_of_le bounded word

/-- What a sequence of updates does to a volume. -/
structure FatUpdated (before after : Volume) (updates : List (Nat × Nat)) : Prop where
  bpb : after.bpb = before.bpb
  next : ∀ cluster, IsCluster before.bpb cluster →
    fat32GetNextCluster after cluster =
      ((lastValue updates cluster).map (· % 0x10000000)).getD (fat32GetNextCluster before cluster)
  reserved : ∀ copy < before.bpb.numFATs.toNat, ∀ index < before.bpb.fatSz32.toNat * 128,
    copyEntry after copy index >>> 28 = copyEntry before copy index >>> 28
  unaddressed : ∀ copy < before.bpb.numFATs.toNat, ∀ index < before.bpb.fatSz32.toNat * 128,
    (∀ update ∈ updates, update.1 ≠ index) → copyEntry after copy index = copyEntry before copy index
  elsewhere : ∀ lba, lba < getFirstFatSector before.bpb ∨
      getFirstFatSector before.bpb + before.bpb.numFATs.toNat * before.bpb.fatSz32.toNat ≤ lba →
    fat32ReadSector after lba = fat32ReadSector before lba
  copies : FatCopiesEqual after

/-- One more update. -/
theorem FatUpdated.snoc {before middle : Volume} {updates : List (Nat × Nat)} {cluster : Nat}
    (value : Nat) (updated : FatUpdated before middle updates) (area : FatArea before.bpb)
    (inRange : IsCluster before.bpb cluster) :
    FatUpdated before (fat32SetNextCluster middle cluster value).2 (updates ++ [(cluster, value)]) := by
  have area' : FatArea middle.bpb := by rwa [updated.bpb]
  have inRange' : IsCluster middle.bpb cluster := by rwa [updated.bpb]
  -- Every copy agrees with the first one, so each entry is updated in each copy.
  have entries : ∀ copy < before.bpb.numFATs.toNat, ∀ index < before.bpb.fatSz32.toNat * 128,
      copyEntry (fat32SetNextCluster middle cluster value).2 copy index =
        if index = cluster then (copyEntry middle copy cluster &&& 0xF0000000) ||| (value &&& 0x0FFFFFFF)
        else copyEntry middle copy index := by
    intro copy below index inFat
    have copies := updated.copies
    unfold FatCopiesEqual at copies
    rw [updated.bpb] at copies
    refine copyEntry_setNext value area' inRange' (by rwa [updated.bpb]) ?_ ?_
    · rw [updated.bpb]
      omega
    · rw [updated.bpb]
      exact copies copy below _ (by omega)
  refine ⟨?_, fun other inRange'' => ?_, fun copy below index inFat => ?_,
    fun copy below index inFat unaddressed => ?_, fun lba outside => ?_, ?_⟩
  · rw [fat32SetNextCluster_bpb value area' inRange', updated.bpb]
  · rw [lastValue_snoc]
    by_cases same : other = cluster
    · rw [same, fat32GetNextCluster_setNext_self value area' inRange', if_pos rfl]
      rfl
    · rw [fat32GetNextCluster_setNext_of_ne value area' inRange' (by rwa [updated.bpb]) same, if_neg same]
      exact updated.next other inRange''
  · rw [entries copy below index inFat, ← updated.reserved copy below index inFat]
    split_ifs with same
    · rw [storedEntry_shiftRight value (copyEntry_lt middle copy cluster), same]
    · rfl
  · have different : index ≠ cluster := fun same =>
      unaddressed (cluster, value) (by simp) same.symm
    rw [entries copy below index inFat, if_neg different]
    exact updated.unaddressed copy below index inFat fun update member =>
      unaddressed update (List.mem_append_left _ member)
  · rw [← updated.elsewhere lba outside]
    obtain ⟨_, _, _, _, _, kept⟩ := setNext_sectors value area' inRange'
    refine kept lba fun copy below clash => ?_
    rw [updated.bpb] at clash below
    have position := area.fatIndex_lt inRange
    have room : copy * before.bpb.fatSz32.toNat + before.bpb.fatSz32.toNat ≤
        before.bpb.numFATs.toNat * before.bpb.fatSz32.toNat := by
      rw [← Nat.succ_mul]
      exact Nat.mul_le_mul_right _ below
    omega
  · exact fatCopiesEqual_setNext value area' inRange' updated.copies

/-- Over any sequence of updates the FAT behaves as a map from clusters to 28-bit values. -/
theorem setNextAll_fatUpdated (vol : Volume) (area : FatArea vol.bpb) (copies : FatCopiesEqual vol)
    (updates : List (Nat × Nat)) (inRange : ∀ update ∈ updates, IsCluster vol.bpb update.1) :
    FatUpdated vol (setNextAll vol updates) updates := by
  induction updates using List.reverseRecOn with
  | nil =>
      exact ⟨rfl, fun _ _ => rfl, fun _ _ _ _ => rfl, fun _ _ _ _ _ => rfl, fun _ _ => rfl, copies⟩
  | append_singleton updates update ih =>
      rw [setNextAll_snoc]
      exact (ih fun earlier member => inRange earlier (List.mem_append_left _ member)).snoc update.2 area
        (inRange update (by simp))

/-- Two stores into the entry of cluster 2 of a blank volume: the second one is read back. -/
theorem setNextAll_fatUpdated_blank :
    FatUpdated blankVolume (setNextAll blankVolume [(2, 7), (3, 4), (2, 0xF0000005)])
        [(2, 7), (3, 4), (2, 0xF0000005)] ∧
      fat32GetNextCluster (setNextAll blankVolume [(2, 7), (3, 4), (2, 0xF0000005)]) 2 = 5 := by
  have two : IsCluster blankVolume.bpb 2 := by decide +kernel
  have three : IsCluster blankVolume.bpb 3 := by decide +kernel
  have updated := setNextAll_fatUpdated blankVolume blankVolume_geometry.fatArea
    blankVolume_fatCopiesEqual [(2, 7), (3, 4), (2, 0xF0000005)] (by simp [two, three])
  exact ⟨updated, updated.next 2 two⟩

end KeblaOS.Fat32
