import KeblaOS.Lib.Run
import KeblaOS.Partition.Gpt

/-!
# The partition manager

`create_partition` and `update_partition` edit the entry array at LBA 2 and then rewrite
both arrays and both headers; their positions follow from `total_sectors`, which
`create_partition` sets to the size of the partition it creates. The disk is reliable and
allocations succeed. A transfer may not write behind the buffer it is given:
`get_partitions` returns nothing where the C function writes past its allocation. The
in-memory copy of the created entries, which no function reads, is left out.

`Table` says what the slots should hold after a sequence of calls.
-/

namespace KeblaOS.Partition

open KeblaOS.Buffer
open KeblaOS.Fat32 (Disk sector_write sector_write_one)

/-- The disk and the globals of `partition_manager.c`. -/
structure PartitionManager where
  disk : Disk
  totalSectors : UInt64
  partitionCount : Nat

/-- `MAX_PARTITIONS`. -/
def maxPartitions : Nat := 4

/-- Arguments of `create_partition`, and the stack behind its backup header. -/
structure CreateRequest where
  startLba : UInt64
  sectors : UInt64
  partitionGuid : Guid
  partitionTypeGuid : Guid
  name : List UInt8
  stack : List UInt8

/-- Arguments of `update_partition`, and the stack behind its backup header. -/
structure UpdateRequest where
  partitionIndex : Nat
  newStartLba : UInt64
  newSectors : UInt64
  newName : List UInt8
  newAttributes : UInt64
  stack : List UInt8

/-- The entry `create_partition` puts into the array. -/
def CreateRequest.entry (request : CreateRequest) : GptPartitionEntry :=
  createGptPartitionEntry request.partitionTypeGuid request.partitionGuid request.startLba
    (request.startLba + request.sectors - 1) 0 request.name

/-- The fields `update_partition` assigns. -/
def UpdateRequest.edit (request : UpdateRequest) (entry : GptPartitionEntry) : GptPartitionEntry :=
  { entry with
    startLba := request.newStartLba
    endLba := request.newStartLba + request.newSectors - 1
    attributes := request.newAttributes
    name := encodeName request.newName }

namespace PartitionManager

/-- The entries read from the primary array. -/
def entries (manager : PartitionManager) : List GptPartitionEntry :=
  loadEntries (manager.disk.read gptEntriesStartLba totalEntriesSectors)

/-- `backup_entries_lba`. -/
def backupEntriesLba (manager : PartitionManager) : UInt64 := manager.totalSectors - 32 - 1

/-- The part `create_partition` and `update_partition` share: both arrays, then both
headers. -/
def writeEntries (manager : PartitionManager) (entries : List GptPartitionEntry) (stack : List UInt8) :
    Bool × PartitionManager :=
  let array := entriesBytes entries
  let disk := manager.disk.write gptEntriesStartLba totalEntriesSectors array
  let disk := disk.write manager.backupEntriesLba.toNat totalEntriesSectors array
  let (created, disk) := createGptHeader disk manager.totalSectors entries stack
  (created, { manager with disk := disk })

/-- `create_partition`. -/
def createPartition (manager : PartitionManager) (request : CreateRequest) : Bool × PartitionManager :=
  let manager :=
    { manager with
      totalSectors := request.sectors
      disk := manager.disk.write 0 1 (protectiveMbr request.sectors) }
  if maxPartitions ≤ manager.partitionCount then (false, manager)
  else
    let (created, written) :=
      manager.writeEntries (manager.entries.set manager.partitionCount request.entry) request.stack
    (created, if created then { written with partitionCount := manager.partitionCount + 1 } else written)

/-- `update_partition`. -/
def updatePartition (manager : PartitionManager) (request : UpdateRequest) : Bool × PartitionManager :=
  if gptEntriesCount ≤ request.partitionIndex then (false, manager)
  else
    match manager.entries[request.partitionIndex]? with
    | none => (false, manager)
    | some entry =>
        if entry.typeGuid.all (· = 0) then (false, manager)
        else manager.writeEntries (manager.entries.set request.partitionIndex (request.edit entry))
          request.stack

end PartitionManager

/-- `PartitionEntry`. -/
structure PartitionEntry where
  pdrvNo : UInt8
  partitionNo : Nat
  startLba : UInt64
  sectors : UInt64
  partitionGuid : List UInt8
  partitionTypeGuid : List UInt8
  gptEntry : GptPartitionEntry

/-- A read into an allocation, which has to hold all its bytes. -/
def readInto (allocated : Nat) (bytes : List UInt8) : Option (List UInt8) :=
  if bytes.length ≤ allocated then some bytes else none

/-- The loop body of `get_partitions`. -/
def reportEntry (pdrvNo : UInt8) (partitionNo : Nat) (entry : GptPartitionEntry) : PartitionEntry where
  pdrvNo := pdrvNo
  partitionNo := partitionNo
  startLba := entry.startLba
  sectors := if entry.endLba - entry.startLba ≤ 1 then 0 else entry.endLba - entry.startLba + 1
  partitionGuid := entry.uniqueGuid
  partitionTypeGuid := entry.typeGuid
  gptEntry := entry

/-- `get_partitions`: the buffer it allocates has `GPT_ENTRIES_COUNT` bytes. -/
def getPartitions (disk : Disk) (pdrvNo : UInt8) : Option (List PartitionEntry) :=
  (readInto gptEntriesCount (disk.read gptEntriesStartLba totalEntriesSectors)).map fun array =>
    ((loadEntries array).take maxPartitions).mapIdx (reportEntry pdrvNo)

/-! ## The intended table -/

inductive PartitionCall where
  | create (request : CreateRequest)
  | update (request : UpdateRequest)

/-- A call that returns true. -/
def PartitionStep (manager : PartitionManager) : PartitionCall → PartitionManager → Prop
  | .create request, next => manager.createPartition request = (true, next)
  | .update request, next => manager.updatePartition request = (true, next)

/-- What the slots hold: the number of created partitions, the entry of each slot and the
slots some call addressed. -/
structure Table where
  created : Nat
  slot : Nat → GptPartitionEntry
  addressed : List Nat

/-- The table after a call: it takes the values of the call in the slot it addresses. -/
def Table.apply (table : Table) : PartitionCall → Table
  | .create request =>
      { created := table.created + 1
        slot := Function.update table.slot table.created request.entry
        addressed := table.created :: table.addressed }
  | .update request =>
      { table with
        slot := Function.update table.slot request.partitionIndex
          (request.edit (table.slot request.partitionIndex))
        addressed := request.partitionIndex :: table.addressed }

/-- The table of a disk before any call. -/
def Table.of (disk : Disk) : Table where
  created := 0
  slot i := loadEntry (slice (disk.read gptEntriesStartLba totalEntriesSectors) (128 * i) 128)
  addressed := []

/-- The header at LBA 1. -/
def primaryOf (disk : Disk) : GptHeader := loadHeader (disk.sector 1)

/-- The header at the backup LBA of the primary one. -/
def backupOf (disk : Disk) : GptHeader := loadHeader (disk.sector (primaryOf disk).backupLba.toNat)

/-- Two headers that name each other, two equal entry arrays, and checksums that fit. -/
structure Consistent (disk : Disk) : Prop where
  primary : (primaryOf disk).currentLba = 1
  backup : (backupOf disk).currentLba = (primaryOf disk).backupLba
  backupNames : (backupOf disk).backupLba = 1
  arrays : disk.read (backupOf disk).entriesLba.toNat totalEntriesSectors =
    disk.read gptEntriesStartLba totalEntriesSectors
  primaryEntries : (primaryOf disk).entriesCrc32 = crc32 (disk.read gptEntriesStartLba totalEntriesSectors)
  backupEntries : (backupOf disk).entriesCrc32 = crc32 (disk.read gptEntriesStartLba totalEntriesSectors)
  primaryCrc : (primaryOf disk).headerCrc32 = crc32 { primaryOf disk with headerCrc32 := 0 }.bytes
  backupCrc : (backupOf disk).headerCrc32 = crc32 { backupOf disk with headerCrc32 := 0 }.bytes

/-- The entries of the primary array are those of the table. -/
def Holds (disk : Disk) (table : Table) : Prop :=
  ∀ i < gptEntriesCount,
    (loadEntries (disk.read gptEntriesStartLba totalEntriesSectors))[i]? = some (table.slot i)

/-- `get_partitions` reports the addressed ones of its four slots. -/
def Reports (disk : Disk) (table : Table) : Prop :=
  ∀ pdrvNo, ∃ reported, getPartitions disk pdrvNo = some reported ∧
    ∀ i ∈ table.addressed, i < maxPartitions → ∃ entry, reported[i]? = some entry ∧
      entry.startLba = (table.slot i).startLba ∧
      entry.sectors = (table.slot i).endLba - (table.slot i).startLba + 1 ∧
      entry.partitionGuid = (table.slot i).uniqueGuid ∧
      entry.partitionTypeGuid = (table.slot i).typeGuid

/-! ## One call -/

namespace PartitionManager

variable {manager next : PartitionManager} {table : Table}

theorem entries_entries (manager : PartitionManager) : Entries manager.entries :=
  loadEntries_entries (Disk.length_read _ _ _)

theorem toNat_totalSectors_sub {totalSectors : UInt64} (large : ¬ totalSectors < 128) :
    128 ≤ totalSectors.toNat ∧ (totalSectors - 1).toNat = totalSectors.toNat - 1 ∧
      (totalSectors - 32 - 1).toNat = totalSectors.toNat - 33 ∧
      (totalSectors - 32 - 2).toNat = totalSectors.toNat - 34 := by
  have bound : 128 ≤ totalSectors.toNat := by simpa [UInt64.lt_iff_toNat_lt] using large
  have first : (totalSectors - 32).toNat = totalSectors.toNat - 32 := by
    rw [UInt64.toNat_sub_of_le _ _ (by rw [UInt64.le_iff_toNat_le]; simp; omega)]
    rfl
  refine ⟨bound, ?_, ?_, ?_⟩
  · rw [UInt64.toNat_sub_of_le _ _ (by rw [UInt64.le_iff_toNat_le]; simp; omega)]
    rfl
  · rw [UInt64.toNat_sub_of_le _ _ (by rw [UInt64.le_iff_toNat_le, first]; simp; omega), first]
    rfl
  · rw [UInt64.toNat_sub_of_le _ _ (by rw [UInt64.le_iff_toNat_le, first]; simp; omega), first]
    rfl

/-- Writing the entries makes the disk consistent, with these entries in the primary
array. -/
theorem writeEntries_eq {entries : List GptPartitionEntry} (large : ¬ manager.totalSectors < 128)
    (valid : Entries entries) (stack : List UInt8) :
    ∃ after, manager.writeEntries entries stack = (true, { manager with disk := after }) ∧
      Consistent after ∧ primaryOf after = primaryHeader manager.totalSectors entries ∧
      after.read gptEntriesStartLba totalEntriesSectors = entriesBytes entries := by
  obtain ⟨bound, last, backup, _⟩ := toNat_totalSectors_sub large
  let array := entriesBytes entries
  let first := manager.disk.write gptEntriesStartLba totalEntriesSectors array
  let second := first.write manager.backupEntriesLba.toNat totalEntriesSectors array
  obtain ⟨after, created, primary, backupHeader', rest⟩ := createGptHeader_eq large second entries stack
  have backupLba : manager.backupEntriesLba.toNat = manager.totalSectors.toNat - 33 := backup
  have kept : ∀ lba, 1 < lba → lba + totalEntriesSectors < manager.totalSectors.toNat →
      after.read lba totalEntriesSectors = second.read lba totalEntriesSectors := by
    intro lba above below
    rw [Disk.read_eq_read_iff]
    intro i inside
    exact rest _ (by omega) (by omega)
  have primaryArray : after.read gptEntriesStartLba totalEntriesSectors = array := by
    rw [kept _ (by decide) (by simp only [gptEntriesStartLba, totalEntriesSectors]; omega),
      Disk.read_write_of_disjoint (by
        left
        rw [backupLba]
        simp only [gptEntriesStartLba, totalEntriesSectors]
        omega)]
    exact Disk.read_write valid.length_bytes
  have backupArray : after.read manager.backupEntriesLba.toNat totalEntriesSectors = array := by
    rw [kept _ (by omega) (by rw [backupLba]; simp only [totalEntriesSectors]; omega)]
    exact Disk.read_write valid.length_bytes
  have primaryIs : primaryOf after = primaryHeader manager.totalSectors entries := primary
  have backupIs : backupOf after = backupHeader manager.totalSectors entries := by
    rw [backupOf, primaryIs]
    exact backupHeader'
  refine ⟨after, ?_, ⟨?_, ?_, ?_, ?_, ?_, ?_, ?_, ?_⟩, primaryIs, primaryArray⟩
  · have unfolded : manager.writeEntries entries stack =
        ((createGptHeader second manager.totalSectors entries stack).1,
          { manager with disk := (createGptHeader second manager.totalSectors entries stack).2 }) := rfl
    rw [unfolded, created]
  · rw [primaryIs]
    rfl
  · rw [primaryIs, backupIs]
    rfl
  · rw [backupIs]
    rfl
  · rw [backupIs, primaryArray]
    exact backupArray
  · rw [primaryIs, primaryArray]
    rfl
  · rw [backupIs, primaryArray]
    rfl
  · rw [primaryIs]
    exact checksummed_headerCrc32 rfl
  · rw [backupIs]
    exact checksummed_headerCrc32 rfl

/-- A table too small for its headers makes the whole call fail. -/
theorem writeEntries_small {entries : List GptPartitionEntry} (small : manager.totalSectors < 128)
    (stack : List UInt8) : (manager.writeEntries entries stack).1 = false := by
  show (createGptHeader _ _ _ _).1 = false
  rw [createGptHeader, if_pos small]

/-- The manager after `create_partition` has written the protective MBR. -/
def withMbr (manager : PartitionManager) (sectors : UInt64) : PartitionManager :=
  { manager with
    totalSectors := sectors
    disk := manager.disk.write 0 1 (protectiveMbr sectors) }

/-- The protective MBR is not part of the entry array. -/
theorem withMbr_entries (manager : PartitionManager) (sectors : UInt64) :
    (manager.withMbr sectors).entries = manager.entries := by
  unfold entries
  rw [withMbr, Disk.read_write_of_disjoint (.inr (by decide))]

theorem entry_sized (request : CreateRequest) : request.entry.Sized :=
  createGptPartitionEntry_sized _ _ _ _ _ _

/-- `create_partition` after the protective MBR. -/
theorem createPartition_eq (manager : PartitionManager) (request : CreateRequest) :
    manager.createPartition request =
      if maxPartitions ≤ manager.partitionCount then (false, manager.withMbr request.sectors)
      else
        let (created, written) := (manager.withMbr request.sectors).writeEntries
          (manager.entries.set manager.partitionCount request.entry) request.stack
        (created, if created then { written with partitionCount := manager.partitionCount + 1 } else written) := by
  rw [← withMbr_entries manager request.sectors]
  rfl

/-- `create_partition` succeeds on a table with a free slot and a partition of at least 128
sectors; it sets that slot. -/
theorem createPartition_cases (request : CreateRequest) :
    (manager.createPartition request).1 = false ∨
      ∃ after, manager.createPartition request =
          (true, ⟨after, request.sectors, manager.partitionCount + 1⟩) ∧
        ¬ request.sectors < 128 ∧ Consistent after ∧
        primaryOf after = primaryHeader request.sectors
          (manager.entries.set manager.partitionCount request.entry) ∧
        loadEntries (after.read gptEntriesStartLba totalEntriesSectors) =
          manager.entries.set manager.partitionCount request.entry := by
  rw [createPartition_eq]
  by_cases full : maxPartitions ≤ manager.partitionCount
  · left
    rw [if_pos full]
  · rw [if_neg full]
    by_cases small : request.sectors < 128
    · left
      exact writeEntries_small small request.stack
    · right
      have valid := manager.entries_entries.set (entry_sized request) manager.partitionCount
      have large : ¬ (manager.withMbr request.sectors).totalSectors < 128 := small
      obtain ⟨after, written, consistent, primary, array⟩ := writeEntries_eq large valid request.stack
      refine ⟨after, ?_, small, consistent, primary, ?_⟩
      · rw [written]
        rfl
      · rw [array]
        exact valid.load_bytes

/-- `update_partition` that succeeds sets the slot it names. -/
theorem updatePartition_cases (request : UpdateRequest) :
    (manager.updatePartition request).1 = false ∨
      ∃ entry after, manager.updatePartition request = (true, { manager with disk := after }) ∧
        manager.entries[request.partitionIndex]? = some entry ∧ Consistent after ∧
        loadEntries (after.read gptEntriesStartLba totalEntriesSectors) =
          manager.entries.set request.partitionIndex (request.edit entry) := by
  unfold updatePartition
  by_cases outside : gptEntriesCount ≤ request.partitionIndex
  · left
    rw [if_pos outside]
  · rw [if_neg outside]
    have inside : request.partitionIndex < manager.entries.length := by
      rw [manager.entries_entries.count]
      omega
    have there := List.getElem?_eq_getElem inside
    generalize manager.entries[request.partitionIndex] = entry at there
    rw [there]
    dsimp only
    split
    · exact .inl rfl
    · by_cases small : manager.totalSectors < 128
      · exact .inl (writeEntries_small small request.stack)
      · right
        have sized := manager.entries_entries.sized entry (List.mem_of_getElem? there)
        have edited : (request.edit entry).Sized := ⟨sized.typeGuid, sized.uniqueGuid, length_encodeName _⟩
        have valid := manager.entries_entries.set edited request.partitionIndex
        obtain ⟨after, written, consistent, _, array⟩ := writeEntries_eq small valid request.stack
        refine ⟨entry, after, written, rfl, consistent, ?_⟩
        rw [array]
        exact valid.load_bytes

end PartitionManager

/-! ## Runs -/

/-- The manager and the table it should hold. -/
structure Tracks (manager : PartitionManager) (table : Table) : Prop where
  holds : Holds manager.disk table
  created : manager.partitionCount = table.created

/-- A set slot of the array is a set slot of the table. -/
theorem Holds.set {disk after : Disk} {table : Table} {index : Nat} {entry : GptPartitionEntry}
    (holds : Holds disk table)
    (array : loadEntries (after.read gptEntriesStartLba totalEntriesSectors) =
      (loadEntries (disk.read gptEntriesStartLba totalEntriesSectors)).set index entry)
    {created : Nat} {addressed : List Nat} :
    Holds after ⟨created, Function.update table.slot index entry, addressed⟩ := by
  intro i inside
  dsimp only
  rw [array, List.getElem?_set, Function.update_apply]
  by_cases here : index = i
  · have length : index < (loadEntries (disk.read gptEntriesStartLba totalEntriesSectors)).length := by
      rw [(loadEntries_entries (Disk.length_read _ _ _)).count, here]
      exact inside
    rw [if_pos here, if_pos here.symm, if_pos length]
  · rw [if_neg here, if_neg (Ne.symm here)]
    exact holds i inside

/-- Every call that returns true does to the disk what it does to the table, and leaves a
consistent disk. -/
theorem Tracks.step {manager next : PartitionManager} {table : Table} {call : PartitionCall}
    (tracks : Tracks manager table) (step : PartitionStep manager call next) :
    Tracks next (table.apply call) ∧ Consistent next.disk := by
  cases call with
  | create request =>
      have returned : manager.createPartition request = (true, next) := step
      rcases manager.createPartition_cases request with failed | ⟨after, created, _, consistent, _, array⟩
      · rw [returned] at failed
        exact absurd failed (by simp)
      · obtain rfl := (Prod.mk.inj (created.symm.trans returned)).2
        refine ⟨⟨?_, congrArg (· + 1) tracks.created⟩, consistent⟩
        rw [tracks.created] at array
        exact tracks.holds.set array
  | update request =>
      have returned : manager.updatePartition request = (true, next) := step
      rcases manager.updatePartition_cases request with failed | ⟨entry, after, updated, there, consistent, array⟩
      · rw [returned] at failed
        exact absurd failed (by simp)
      · obtain rfl := (Prod.mk.inj (updated.symm.trans returned)).2
        have inside : request.partitionIndex < gptEntriesCount := by
          have bounded := (List.getElem?_eq_some_iff.mp there).1
          rwa [manager.entries_entries.count] at bounded
        have same : entry = table.slot request.partitionIndex :=
          Option.some.inj (there.symm.trans (tracks.holds _ inside))
        refine ⟨⟨?_, tracks.created⟩, consistent⟩
        rw [same] at array
        exact tracks.holds.set array

theorem tracks_of {start : PartitionManager} (none : start.partitionCount = 0) :
    Tracks start (.of start.disk) where
  holds i inside := by
    have length : (loadEntries (start.disk.read gptEntriesStartLba totalEntriesSectors)).length =
        gptEntriesCount := (loadEntries_entries (Disk.length_read _ _ _)).count
    rw [List.getElem?_eq_getElem (by omega)]
    simp [loadEntries, chunks, Table.of]
  created := none

theorem Tracks.run {start manager : PartitionManager} {table : Table} {calls : List PartitionCall}
    (tracks : Tracks start table) (run : Run PartitionStep start calls manager) :
    Tracks manager (calls.foldl Table.apply table) ∧ (calls ≠ [] → Consistent manager.disk) := by
  induction run with
  | nil => exact ⟨tracks, fun nonempty => absurd rfl nonempty⟩
  | snoc _ step ih =>
      obtain ⟨tracked, consistent⟩ := ih.1.step step
      rw [List.foldl_append]
      exact ⟨tracked, fun _ => consistent⟩

/-- `get_partitions` reads 16384 bytes into 128 allocated ones. -/
theorem getPartitions_eq_none (disk : Disk) (pdrvNo : UInt8) : getPartitions disk pdrvNo = none := by
  have overflow : ¬ (disk.read gptEntriesStartLba totalEntriesSectors).length ≤ gptEntriesCount := by
    rw [Disk.length_read]
    decide
  rw [getPartitions, readInto, if_neg overflow]
  rfl

theorem not_reports (disk : Disk) (table : Table) : ¬ Reports disk table := by
  intro reports
  obtain ⟨reported, returned, _⟩ := reports 0
  rw [getPartitions_eq_none] at returned
  exact absurd returned (by simp)

/-- After every nonempty sequence of calls that return true the disk holds the entries of
the calls, with headers, arrays and checksums that agree; but `get_partitions` does not
report them, since its read does not fit its buffer. -/
theorem partition_run_not_reported {start manager : PartitionManager} (none : start.partitionCount = 0)
    {calls : List PartitionCall} (run : Run PartitionStep start calls manager) (nonempty : calls ≠ []) :
    (Holds manager.disk (calls.foldl Table.apply (.of start.disk)) ∧ Consistent manager.disk) ∧
      ¬ Reports manager.disk (calls.foldl Table.apply (.of start.disk)) := by
  obtain ⟨tracked, consistent⟩ := (tracks_of none).run run
  exact ⟨⟨tracked.holds, consistent nonempty⟩, not_reports _ _⟩

/-- A disk without partitions. -/
def blankManager : PartitionManager where
  disk := Fat32.blankDisk
  totalSectors := 0
  partitionCount := 0

/-- A GUID with sixteen equal bytes. -/
def plainGuid (byte : UInt8) : Guid := ⟨List.replicate 16 byte, by simp⟩

/-- A partition of 4000 sectors from LBA 34 on. -/
def plainRequest : CreateRequest := ⟨34, 4000, plainGuid 1, plainGuid 2, [0x41], []⟩

/-- A request for at least 128 sectors succeeds while a slot is free. -/
theorem createPartition_succeeds {manager : PartitionManager} {request : CreateRequest}
    (free : manager.partitionCount < maxPartitions) (large : ¬ request.sectors < 128) :
    PartitionStep manager (.create request) (manager.createPartition request).2 := by
  rcases manager.createPartition_cases request with failed | ⟨after, created, _⟩
  · rw [PartitionManager.createPartition_eq, if_neg (by omega)] at failed
    have valid := manager.entries_entries.set (PartitionManager.entry_sized request) manager.partitionCount
    have large : ¬ (manager.withMbr request.sectors).totalSectors < 128 := large
    obtain ⟨after, written, _⟩ := PartitionManager.writeEntries_eq large valid request.stack
    rw [written] at failed
    exact absurd failed (by simp)
  · show manager.createPartition request = (true, _)
    rw [created]

/-- One partition created on the blank disk. -/
theorem partition_run_not_reported_plain :
    ∃ manager, Run PartitionStep blankManager [.create plainRequest] manager ∧
      (Holds manager.disk ([.create plainRequest].foldl Table.apply (.of blankManager.disk)) ∧
        Consistent manager.disk) ∧
      ¬ Reports manager.disk ([.create plainRequest].foldl Table.apply (.of blankManager.disk)) := by
  have run : Run PartitionStep blankManager [.create plainRequest]
      (blankManager.createPartition plainRequest).2 :=
    Run.nil.snoc (createPartition_succeeds (by decide) (by decide))
  exact ⟨_, run, partition_run_not_reported rfl run (by simp)⟩

/-- After one partition was created, its slot is addressed and `get_partitions` returns
nothing for it. -/
theorem created_partition_not_reported :
    ∃ manager, Run PartitionStep blankManager [.create plainRequest] manager ∧
      getPartitions manager.disk 0 = none ∧
      ¬ Reports manager.disk ([.create plainRequest].foldl Table.apply (.of blankManager.disk)) := by
  have step : PartitionStep blankManager (.create plainRequest) (blankManager.createPartition plainRequest).2 :=
    createPartition_succeeds (by decide) (by decide)
  exact ⟨_, Run.nil.snoc step, getPartitions_eq_none _ _, not_reports _ _⟩

end KeblaOS.Partition
