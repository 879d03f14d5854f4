import KeblaOS.Fat32.Format
import KeblaOS.Lib.Tiling

/-!
# Fresh file allocation tables

`initialize_fat_tables` once more, with its machine numbers, with the allocations and transfers
that may fail, and with a record of the sectors that were written. On a reliable disk it leaves the
disk that `Fat32.initializeFatTables` describes, and the transfers cover the table from its first to
its last sector without a gap or an overlap.
-/

namespace KeblaOS.Fat32.FreshTables

open KeblaOS.Buffer

/-- Whether the two buffers can be allocated, and which transfers the disk carries out. -/
structure Answers where
  fatBuffer : Bool
  zeros : Bool
  transfer : UInt64 → UInt32 → Bool

/-- A disk and the runs of sectors that were written to it. -/
structure Device where
  disk : Disk
  written : List Span

variable (answers : Answers) (fatStart : UInt64) (fatSectorSize : UInt32)

/-- `fat32_write_sectors`. -/
def fat32WriteSectors (device : Device) (lba : UInt64) (count : UInt32) (buf : List UInt8) : Bool × Device :=
  if answers.transfer lba count then
    (true, ⟨device.disk.write lba.toNat count.toNat buf, device.written ++ [⟨lba.toNat, count.toNat⟩]⟩)
  else (false, device)

/-- `fat32_write_sector`. -/
def fat32WriteSector (device : Device) (lba : UInt64) (buf : List UInt8) : Bool × Device :=
  fat32WriteSectors answers device lba 1 buf

/-- The loop of `initialize_fat_tables`. -/
def zerosLoop : Nat → Device → UInt32 → Option (Bool × Device)
  | 0, _, _ => none
  | fuel + 1, device, sectorsWritten =>
      if sectorsWritten < fatSectorSize then
        let sectorsToWrite :=
          if fatSectorSize - sectorsWritten > 64 then 64 else fatSectorSize - sectorsWritten
        match fat32WriteSectors answers device (fatStart + sectorsWritten.toUInt64) sectorsToWrite
          (List.replicate (maxBatchSectors * 512) 0) with
        | (false, device) => some (false, device)
        | (true, device) => zerosLoop fuel device (sectorsWritten + sectorsToWrite)
      else some (true, device)

/-- `initialize_fat_tables`: what it returns, and the disk afterwards. -/
def initializeFatTables (device : Device) : Option (Bool × Device) :=
  if answers.fatBuffer then
    match fat32WriteSector answers device fatStart firstFatSectorImage with
    | (false, device) => some (false, device)
    | (true, device) =>
        if answers.zeros then zerosLoop answers fatStart fatSectorSize (fatSectorSize.toNat + 1) device 1
        else some (false, device)
  else some (false, device)

variable {answers fatStart fatSectorSize}

theorem fat32WriteSectors_reliable (reliable : ∀ lba count, answers.transfer lba count) (device : Device) (lba : UInt64)
    (count : UInt32) (buf : List UInt8) : fat32WriteSectors answers device lba count buf =
      (true, ⟨device.disk.write lba.toNat count.toNat buf, device.written ++ [⟨lba.toNat, count.toNat⟩]⟩) := by
  rw [fat32WriteSectors, if_pos (reliable lba count)]

/-- The size of the next batch. -/
theorem toNat_batch {sectorsWritten : UInt32} (more : sectorsWritten < fatSectorSize) :
    (if fatSectorSize - sectorsWritten > 64 then 64 else fatSectorSize - sectorsWritten).toNat =
      min maxBatchSectors (fatSectorSize.toNat - sectorsWritten.toNat) := by
  have left : (fatSectorSize - sectorsWritten).toNat = fatSectorSize.toNat - sectorsWritten.toNat :=
    UInt32.toNat_sub_of_le _ _ (UInt32.le_of_lt more)
  have batch : (64 : UInt32).toNat = 64 := rfl
  rw [maxBatchSectors, ← left]
  split_ifs with large
  · rw [gt_iff_lt, UInt32.lt_iff_toNat_lt] at large
    omega
  · rw [gt_iff_lt, UInt32.lt_iff_toNat_lt] at large
    omega

/-- On a reliable disk, the loop does what the one without failures does, and the batches lie one
behind the other. -/
theorem zerosLoop_reliable (reliable : ∀ lba count, answers.transfer lba count)
    (fits : fatStart.toNat + fatSectorSize.toNat < 2 ^ 32) {fuel : Nat} {device : Device} {sectorsWritten : UInt32}
    (inside : sectorsWritten.toNat ≤ fatSectorSize.toNat)
    (enough : fatSectorSize.toNat - sectorsWritten.toNat < fuel) :
    ∃ after spans, zerosLoop answers fatStart fatSectorSize fuel device sectorsWritten = some (true, after) ∧
      clearFatLoop fatStart.toNat fatSectorSize.toNat fuel device.disk sectorsWritten.toNat = some after.disk ∧
      after.written = device.written ++ spans ∧
      Tiles (fatStart.toNat + sectorsWritten.toNat) spans (fatStart.toNat + fatSectorSize.toNat) := by
  induction fuel generalizing device sectorsWritten with
  | zero => omega
  | succ fuel ih =>
      rw [zerosLoop, clearFatLoop]
      by_cases more : sectorsWritten < fatSectorSize
      · have left : sectorsWritten.toNat < fatSectorSize.toNat := UInt32.lt_iff_toNat_lt.mp more
        have batch := toNat_batch more
        generalize (if fatSectorSize - sectorsWritten > 64 then 64 else fatSectorSize - sectorsWritten) = sectorsToWrite
          at batch ⊢
        have first : 0 < sectorsToWrite.toNat := by
          rw [batch]
          exact Nat.lt_min.mpr ⟨by decide, by omega⟩
        have last : sectorsWritten.toNat + sectorsToWrite.toNat ≤ fatSectorSize.toNat := by
          rw [batch]
          omega
        have next : (sectorsWritten + sectorsToWrite).toNat = sectorsWritten.toNat + sectorsToWrite.toNat := by
          rw [UInt32.toNat_add]
          omega
        have lba : (fatStart + sectorsWritten.toUInt64).toNat = fatStart.toNat + sectorsWritten.toNat := by
          rw [UInt64.toNat_add, UInt32.toNat_toUInt64]
          omega
        rw [if_pos more, if_pos left]
        dsimp only
        rw [fat32WriteSectors_reliable reliable, lba, ← batch]
        dsimp only
        obtain ⟨after, spans, ended, same, written, tiles⟩ := @ih
          ⟨device.disk.write (fatStart.toNat + sectorsWritten.toNat) sectorsToWrite.toNat
            (List.replicate (maxBatchSectors * 512) 0),
            device.written ++ [⟨fatStart.toNat + sectorsWritten.toNat, sectorsToWrite.toNat⟩]⟩
          (sectorsWritten + sectorsToWrite) (by omega) (by omega)
        rw [next] at same tiles
        refine ⟨after, ⟨fatStart.toNat + sectorsWritten.toNat, sectorsToWrite.toNat⟩ :: spans, ended, same, ?_, ?_⟩
        · rw [written, List.append_assoc, List.singleton_append]
        · exact .cons (by rwa [Nat.add_assoc])
      · have full : ¬ sectorsWritten.toNat < fatSectorSize.toNat := mt UInt32.lt_iff_toNat_lt.mpr more
        obtain equal : sectorsWritten.toNat = fatSectorSize.toNat := by omega
        rw [if_neg more, if_neg full, equal]
        exact ⟨device, [], rfl, rfl, (List.append_nil _).symm, .nil⟩

/-- The table with `sectors` sectors from `start` on is fresh, and nothing else changed. -/
structure FreshTable (before after : Disk) (start sectors : Nat) : Prop where
  entries : ∀ index < sectors * 128,
    leNat (slice (after.sector (start + index * 4 / 512)) (index * 4 % 512) 4) = freshFatEntry index
  outside : ∀ lba, ¬ (start ≤ lba ∧ lba < start + sectors) → after.sector lba = before.sector lba

theorem freshTable_of_initializeFatTables {disk after : Disk} {start sectors : Nat} (nonempty : 0 < sectors)
    (returned : Fat32.initializeFatTables disk start sectors = some after) : FreshTable disk after start sectors := by
  obtain ⟨other, returned', contents⟩ := initializeFatTables_sector disk start nonempty
  obtain rfl := Option.some.inj (returned.symm.trans returned')
  constructor
  · intro index inside
    apply freshFat_entry
    rw [contents]
    split_ifs <;> first | rfl | omega
  · intro lba outside
    rw [contents, if_neg (by omega), if_neg (by omega)]

/-- On a reliable disk `initialize_fat_tables` fails only for want of memory, and where it returns `true` it has
written the sectors of the table, each of them once, and has left a fresh table there. -/
theorem initializeFatTables_fresh (reliable : ∀ lba count, answers.transfer lba count)
    (nonempty : 1 ≤ fatSectorSize.toNat) (fits : fatStart.toNat + fatSectorSize.toNat < 2 ^ 32) (device : Device) :
    ∃ ok after, initializeFatTables answers fatStart fatSectorSize device = some (ok, after) ∧
      ok = (answers.fatBuffer && answers.zeros) ∧ (ok = true → ∃ spans, after.written = device.written ++ spans ∧
        Tiles fatStart.toNat spans (fatStart.toNat + fatSectorSize.toNat) ∧
        FreshTable device.disk after.disk fatStart.toNat fatSectorSize.toNat) := by
  unfold initializeFatTables
  by_cases fatBuffer : answers.fatBuffer
  · by_cases zeros : answers.zeros
    · have one : (1 : UInt32).toNat = 1 := rfl
      obtain ⟨after, spans, ended, same, written, tiles⟩ := @zerosLoop_reliable answers fatStart fatSectorSize reliable
        fits (fatSectorSize.toNat + 1) ⟨device.disk.write fatStart.toNat 1 firstFatSectorImage,
          device.written ++ [⟨fatStart.toNat, 1⟩]⟩ 1 (by omega) (by omega)
      rw [if_pos fatBuffer, fat32WriteSector, fat32WriteSectors_reliable reliable]
      dsimp only
      rw [if_pos zeros, one]
      refine ⟨true, after, ended, by rw [fatBuffer, zeros]; rfl, fun _ => ⟨⟨fatStart.toNat, 1⟩ :: spans, ?_, .cons tiles, ?_⟩⟩
      · rw [written, List.append_assoc, List.singleton_append]
      · exact freshTable_of_initializeFatTables nonempty same
    · rw [if_pos fatBuffer, fat32WriteSector, fat32WriteSectors_reliable reliable]
      dsimp only
      rw [if_neg zeros]
      exact ⟨false, _, rfl, by simp [zeros], fun impossible => absurd impossible (by decide)⟩
  · rw [if_neg fatBuffer]
    exact ⟨false, device, rfl, by simp [fatBuffer], fun impossible => absurd impossible (by decide)⟩

/-- A table of a hundred sectors, which takes two batches behind the first sector. -/
theorem initializeFatTables_fresh_hundred :
    ∃ after spans, initializeFatTables ⟨true, true, fun _ _ => true⟩ 32 100 ⟨blankDisk, []⟩ = some (true, after) ∧
      after.written = [] ++ spans ∧ Tiles 32 spans (32 + 100) ∧ FreshTable blankDisk after.disk 32 100 := by
  obtain ⟨ok, after, returned, success, fresh⟩ := @initializeFatTables_fresh ⟨true, true, fun _ _ => true⟩ 32 100
    (fun _ _ => rfl) (by decide) (by decide) ⟨blankDisk, []⟩
  obtain rfl : ok = true := success
  obtain ⟨spans, written, tiles, table⟩ := fresh rfl
  exact ⟨after, spans, returned, written, tiles, table⟩

end KeblaOS.Fat32.FreshTables
