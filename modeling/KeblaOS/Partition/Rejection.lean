import KeblaOS.Partition.PartitionManager

/-!
# Rejected requests

`update_partition` checks its index and the slot before it writes anything.
`create_partition` writes the protective MBR before it looks for a free slot, and both
write the two entry arrays before `create_gpt_header` rejects a size below 128 sectors. A
request rejected that late leaves the disk alone only where the disk already holds the
bytes that were written.
-/

namespace KeblaOS.Partition

open KeblaOS.Fat32 (Disk sectorAt sector_write sector_write_one)

/-- The function a call runs. -/
def PartitionCall.run (manager : PartitionManager) : PartitionCall → Bool × PartitionManager
  | .create request => manager.createPartition request
  | .update request => manager.updatePartition request

/-- The disk and the number of partitions are as before. -/
def Untouched (manager next : PartitionManager) : Prop :=
  next.disk = manager.disk ∧ next.partitionCount = manager.partitionCount

/-- The sectors of the backup array hold the array already, and so do those of the primary
one that the backup does not cover. -/
structure ArraysInPlace (disk : Disk) (array : List UInt8) (backupLba : Nat) : Prop where
  backup : ∀ i < totalEntriesSectors, disk.sector (backupLba + i) = sectorAt array i
  primary : ∀ i < totalEntriesSectors,
    (gptEntriesStartLba + i < backupLba ∨ backupLba + totalEntriesSectors ≤ gptEntriesStartLba + i) →
      disk.sector (gptEntriesStartLba + i) = sectorAt array i

/-- A full table leaves only the protective MBR to write. With a free slot both arrays are
written too, and the MBR stays unless the backup array starts in its sector. -/
def CreateHarmless (manager : PartitionManager) (request : CreateRequest) : Prop :=
  if maxPartitions ≤ manager.partitionCount then
    manager.disk.sector 0 = protectiveMbr request.sectors
  else
    ArraysInPlace manager.disk
      (entriesBytes (manager.entries.set manager.partitionCount request.entry))
      (request.sectors - 32 - 1).toNat ∧
    ((request.sectors - 32 - 1).toNat ≠ 0 → manager.disk.sector 0 = protectiveMbr request.sectors)

/-- An index out of range, an empty slot, or arrays that already hold the edited entry. -/
def UpdateHarmless (manager : PartitionManager) (request : UpdateRequest) : Prop :=
  ∀ entry, manager.entries[request.partitionIndex]? = some entry → entry.typeGuid.all (· = 0) = false →
    ArraysInPlace manager.disk
      (entriesBytes (manager.entries.set request.partitionIndex (request.edit entry)))
      manager.backupEntriesLba.toNat

def PartitionCall.Harmless (manager : PartitionManager) : PartitionCall → Prop
  | .create request => CreateHarmless manager request
  | .update request => UpdateHarmless manager request

variable {manager : PartitionManager}

/-- Writing both arrays gives a disk exactly when they are in place there, and the other sectors
are the same. -/
theorem write_arrays_eq_iff_same {disk after : Disk} {array : List UInt8} {backup : Nat} :
    (disk.write gptEntriesStartLba totalEntriesSectors array).write backup totalEntriesSectors array = after ↔
      ArraysInPlace after array backup ∧
        ∀ x, ¬ (backup ≤ x ∧ x < backup + totalEntriesSectors) →
          ¬ (gptEntriesStartLba ≤ x ∧ x < gptEntriesStartLba + totalEntriesSectors) → disk.sector x = after.sector x := by
  constructor
  · rintro rfl
    refine ⟨⟨fun i inside => ?_, fun i inside apart => ?_⟩, fun x outside outside' => ?_⟩
    · rw [sector_write, if_pos (by omega), Nat.add_sub_cancel_left]
    · rw [sector_write, if_neg (by omega), sector_write, if_pos (by omega), Nat.add_sub_cancel_left]
    · rw [sector_write, if_neg outside, sector_write, if_neg outside']
  · rintro ⟨inPlace, others⟩
    refine Disk.ext_sector fun x => ?_
    rw [sector_write, sector_write]
    split_ifs with inBackup inPrimary
    · rw [← inPlace.backup _ (by omega), Nat.add_sub_cancel' inBackup.1]
    · rw [← inPlace.primary _ (by omega) (by omega), Nat.add_sub_cancel' inPrimary.1]
    · exact others x inBackup inPrimary

/-- Writing both arrays changes nothing exactly when they are in place. -/
theorem write_arrays_eq_iff {disk : Disk} {array : List UInt8} {backup : Nat} :
    (disk.write gptEntriesStartLba totalEntriesSectors array).write backup totalEntriesSectors array = disk ↔
      ArraysInPlace disk array backup :=
  write_arrays_eq_iff_same.trans (and_iff_left fun _ _ _ => rfl)

/-- The protective MBR in front of the arrays. -/
theorem write_mbr_arrays_eq_iff {disk : Disk} {sectors : UInt64} {array : List UInt8} {backup : Nat} :
    ((disk.write 0 1 (protectiveMbr sectors)).write gptEntriesStartLba totalEntriesSectors array).write
        backup totalEntriesSectors array = disk ↔
      ArraysInPlace disk array backup ∧ (backup ≠ 0 → disk.sector 0 = protectiveMbr sectors) := by
  have mbr : ∀ x, (disk.write 0 1 (protectiveMbr sectors)).sector x =
      if x = 0 then protectiveMbr sectors else disk.sector x := sector_write_one (length_protectiveMbr sectors)
  refine write_arrays_eq_iff_same.trans (and_congr_right fun _ => ?_)
  constructor
  · intro others elsewhere
    have first := others 0 (by omega) (by simp [gptEntriesStartLba])
    rw [mbr, if_pos rfl] at first
    exact first.symm
  · intro first x outside _
    rw [mbr]
    split_ifs with atZero
    · rw [atZero, first (by simp only [totalEntriesSectors] at outside; omega)]
    · rfl

/-- What a size below 128 sectors leaves written. -/
theorem writeEntries_eq_of_small {entries : List GptPartitionEntry} (small : manager.totalSectors < 128)
    (stack : List UInt8) :
    manager.writeEntries entries stack = (false,
      { manager with
        disk := (manager.disk.write gptEntriesStartLba totalEntriesSectors (entriesBytes entries)).write
          manager.backupEntriesLba.toNat totalEntriesSectors (entriesBytes entries) }) := by
  have unfolded : ∀ disk : Disk, createGptHeader disk manager.totalSectors entries stack = (false, disk) :=
    fun disk => if_pos small
  rw [PartitionManager.writeEntries]
  dsimp only
  rw [unfolded]

/-- A size of at least 128 sectors is not rejected. -/
theorem small_of_writeEntries_fails {entries : List GptPartitionEntry} {stack : List UInt8} (valid : Entries entries)
    (failed : (manager.writeEntries entries stack).1 = false) : manager.totalSectors < 128 := by
  by_contra large
  obtain ⟨after, written, _⟩ := PartitionManager.writeEntries_eq large valid stack
  rw [written] at failed
  exact absurd failed (by simp)

theorem create_untouched_iff {request : CreateRequest} (failed : (manager.createPartition request).1 = false) :
    Untouched manager (manager.createPartition request).2 ↔ CreateHarmless manager request := by
  rw [PartitionManager.createPartition_eq] at failed ⊢
  unfold CreateHarmless
  by_cases full : maxPartitions ≤ manager.partitionCount
  · rw [if_pos full, if_pos full]
    have mbr : ∀ x, (manager.disk.write 0 1 (protectiveMbr request.sectors)).sector x =
        if x = 0 then protectiveMbr request.sectors else manager.disk.sector x :=
      sector_write_one (length_protectiveMbr request.sectors)
    constructor
    · rintro ⟨same, _⟩
      have first := congrArg (Disk.sector · 0) same
      exact first.symm.trans (by rw [PartitionManager.withMbr, mbr, if_pos rfl])
    · intro first
      refine ⟨Disk.ext_sector fun x => ?_, rfl⟩
      rw [PartitionManager.withMbr, mbr]
      split_ifs with atZero
      · rw [atZero, first]
      · rfl
  · rw [if_neg full] at failed ⊢
    rw [if_neg full]
    have valid := manager.entries_entries.set (PartitionManager.entry_sized request) manager.partitionCount
    have small := small_of_writeEntries_fails valid failed
    rw [writeEntries_eq_of_small small, ← write_mbr_arrays_eq_iff]
    exact ⟨fun untouched => untouched.1, fun same => ⟨same, rfl⟩⟩

theorem update_untouched_iff {request : UpdateRequest} (failed : (manager.updatePartition request).1 = false) :
    Untouched manager (manager.updatePartition request).2 ↔ UpdateHarmless manager request := by
  unfold PartitionManager.updatePartition at failed ⊢
  unfold UpdateHarmless
  by_cases outside : gptEntriesCount ≤ request.partitionIndex
  · have absent : manager.entries[request.partitionIndex]? = none := by
      rw [List.getElem?_eq_none_iff, manager.entries_entries.count]
      exact outside
    rw [if_pos outside, absent]
    exact ⟨fun _ entry impossible => (nomatch impossible), fun _ => ⟨rfl, rfl⟩⟩
  · rw [if_neg outside] at failed ⊢
    cases there : manager.entries[request.partitionIndex]? with
    | none => exact ⟨fun _ entry impossible => (nomatch impossible), fun _ => ⟨rfl, rfl⟩⟩
    | some entry =>
        rw [there] at failed
        dsimp only at failed ⊢
        cases empty : entry.typeGuid.all (· = 0) with
        | true =>
            rw [if_pos rfl]
            refine ⟨fun _ other same used => ?_, fun _ => ⟨rfl, rfl⟩⟩
            obtain rfl := Option.some.inj same
            rw [empty] at used
            exact absurd used (by simp)
        | false =>
            rw [empty] at failed
            rw [if_neg (by simp)] at failed ⊢
            have sized := manager.entries_entries.sized entry (List.mem_of_getElem? there)
            have edited : (request.edit entry).Sized := ⟨sized.typeGuid, sized.uniqueGuid, length_encodeName _⟩
            have valid := manager.entries_entries.set edited request.partitionIndex
            have small := small_of_writeEntries_fails valid failed
            rw [writeEntries_eq_of_small small]
            constructor
            · rintro ⟨same, _⟩ other found _
              obtain rfl := Option.some.inj found
              exact write_arrays_eq_iff.mp same
            · intro inPlace
              exact ⟨write_arrays_eq_iff.mpr (inPlace entry rfl empty), rfl⟩

/-- A rejected call leaves the disk and the number of partitions as they were exactly when
it is rejected before the first write or the disk holds the written bytes already. -/
theorem rejected_untouched_iff (manager : PartitionManager) (call : PartitionCall)
    (rejected : (call.run manager).1 = false) :
    Untouched manager (call.run manager).2 ↔ call.Harmless manager := by
  cases call with
  | create request => exact create_untouched_iff rejected
  | update request => exact update_untouched_iff rejected

/-- A request for 100 sectors. -/
def smallRequest : CreateRequest := { plainRequest with sectors := 100 }

/-- The manager after the request for 100 sectors was refused on a blank disk. -/
def refusedManager : PartitionManager := (blankManager.createPartition smallRequest).2

theorem refusedManager_disk :
    refusedManager.disk = ((blankManager.disk.write 0 1 (protectiveMbr 100)).write gptEntriesStartLba totalEntriesSectors
      (entriesBytes (blankManager.entries.set 0 smallRequest.entry))).write 67 totalEntriesSectors
        (entriesBytes (blankManager.entries.set 0 smallRequest.entry)) := by
  have small : (blankManager.withMbr smallRequest.sectors).totalSectors < 128 := by decide
  rw [refusedManager, PartitionManager.createPartition_eq, if_neg (by decide), writeEntries_eq_of_small small]
  rfl

theorem refusedManager_mbr : refusedManager.disk.sector 0 = protectiveMbr 100 := by
  rw [refusedManager_disk, sector_write, if_neg (by decide), sector_write, if_neg (by decide),
    sector_write_one (length_protectiveMbr 100), if_pos rfl]

/-- The slot of the refused request is in the array all the same. -/
theorem refusedManager_entries : refusedManager.entries = blankManager.entries.set 0 smallRequest.entry := by
  have valid : Entries (blankManager.entries.set 0 smallRequest.entry) :=
    blankManager.entries_entries.set (PartitionManager.entry_sized smallRequest) 0
  rw [PartitionManager.entries, refusedManager_disk, Disk.read_write_of_disjoint (.inl (by decide)),
    Disk.read_write valid.length_bytes, valid.load_bytes]

theorem refusedManager_harmless : (PartitionCall.create smallRequest).Harmless refusedManager := by
  have again : (blankManager.entries.set 0 smallRequest.entry).set 0 smallRequest.entry =
      blankManager.entries.set 0 smallRequest.entry := List.set_set _
  have free : ¬ maxPartitions ≤ refusedManager.partitionCount := by decide
  have count : refusedManager.partitionCount = 0 := by decide
  have backup : (smallRequest.sectors - 32 - 1).toNat = 67 := by decide
  show CreateHarmless refusedManager smallRequest
  rw [CreateHarmless, if_neg free, count, refusedManager_entries, again, backup]
  exact ⟨(write_arrays_eq_iff_same.mp refusedManager_disk.symm).1, fun _ => refusedManager_mbr⟩

/-- An index behind the array, and a refused request made a second time. -/
theorem rejected_untouched_index :
    Untouched blankManager
        (PartitionCall.run blankManager (.update ⟨200, 34, 4000, [], 0, []⟩)).2 ∧
      Untouched refusedManager (PartitionCall.run refusedManager (.create smallRequest)).2 := by
  constructor
  · refine (rejected_untouched_iff blankManager (.update ⟨200, 34, 4000, [], 0, []⟩) rfl).mpr ?_
    intro entry there
    have bounded := (List.getElem?_eq_some_iff.mp there).1
    rw [blankManager.entries_entries.count] at bounded
    exact absurd bounded (by decide)
  · have small : (refusedManager.withMbr smallRequest.sectors).totalSectors < 128 := by decide
    have rejected : (PartitionCall.run refusedManager (.create smallRequest)).1 = false := by
      rw [PartitionCall.run, PartitionManager.createPartition_eq, if_neg (by decide), writeEntries_eq_of_small small]
    exact (rejected_untouched_iff refusedManager (.create smallRequest) rejected).mpr refusedManager_harmless

/-- The request for 100 sectors is refused on a blank disk, after its protective MBR was
written to sector 0. -/
theorem refused_partition_leaves_mbr :
    (PartitionCall.run blankManager (.create smallRequest)).1 = false ∧
      (PartitionCall.run blankManager (.create smallRequest)).2.disk.sector 0 = protectiveMbr 100 ∧
      ¬ Untouched blankManager (PartitionCall.run blankManager (.create smallRequest)).2 := by
  have small : (blankManager.withMbr smallRequest.sectors).totalSectors < 128 := by decide
  have first : refusedManager.disk.sector 0 = protectiveMbr 100 := refusedManager_mbr
  have refused : (PartitionCall.run blankManager (.create smallRequest)).1 = false := by
    rw [PartitionCall.run, PartitionManager.createPartition_eq, if_neg (by decide), writeEntries_eq_of_small small]
  refine ⟨refused, first, fun untouched => ?_⟩
  have same : protectiveMbr 100 = blankManager.disk.sector 0 :=
    first.symm.trans (congrArg (Disk.sector · 0) untouched.1)
  exact absurd same (by decide +kernel)

end KeblaOS.Partition
