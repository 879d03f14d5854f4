import KeblaOS.Fat32.Format

/-!
# GUID partition table records

The protective MBR of `mbr.c` and the entries, headers and checksums of `gpt.c`, as records
and as the bytes they are on disk. The backup header is written straight from a 92-byte
record on the stack; the 420 bytes behind it that complete its sector are whatever the
stack holds there and stand as an argument.
-/

namespace KeblaOS.Partition

open KeblaOS.Buffer
open KeblaOS.Fat32 (Disk sector_write sector_write_one ofNat_leNat_leBytes_four)

/-- `guid_t`. -/
structure Guid where
  bytes : List UInt8
  length_bytes : bytes.length = 16

/-- `DISK_GUID_EXAMPLE`. -/
def diskGuidExample : List UInt8 :=
  [0x01, 0x23, 0x45, 0x67, 0x89, 0xAB, 0xCD, 0xEF, 0x01, 0x23, 0x45, 0x67, 0x89, 0xAB, 0xCD, 0xEF]

/-- `GPT_ENTRIES_COUNT`. -/
def gptEntriesCount : Nat := 128

/-- `GPT_ENTRIES_START_LBA`. -/
def gptEntriesStartLba : Nat := 2

/-- `total_entries_sectors`: 128 entries of 128 bytes. -/
def totalEntriesSectors : Nat := 32

/-! ## Checksum -/

/-- One round of the inner loop of `crc32`. -/
def crcShift (crc : UInt32) : UInt32 := (crc >>> 1) ^^^ (0xEDB88320 &&& (0 - (crc &&& 1)))

/-- `crc32`. -/
def crc32 (data : List UInt8) : UInt32 :=
  ~~~ data.foldl (fun crc byte => crcShift^[8] (crc ^^^ byte.toUInt32)) 0xFFFFFFFF

/-! ## Protective MBR -/

/-- The sector `create_protective_mbr` builds. -/
def protectiveMbr (totalSectors : UInt64) : List UInt8 :=
  let mbrSectors : UInt32 :=
    if totalSectors > 0xFFFFFFFF then 0xFFFFFFFF else (totalSectors - 1).toUInt32
  List.replicate 446 0 ++ [0, 0, 0, 0, 0xEE, 0, 0, 0] ++ leBytes 4 1 ++ leBytes 4 mbrSectors.toNat ++
    List.replicate 48 0 ++ leBytes 2 0xAA55

@[simp] theorem length_protectiveMbr (totalSectors : UInt64) : (protectiveMbr totalSectors).length = 512 := by
  simp only [protectiveMbr, List.length_append, List.length_replicate, length_leBytes, List.length_cons,
    List.length_nil]

/-! ## Partition entries -/

/-- `GPTPartitionEntry`. -/
structure GptPartitionEntry where
  typeGuid : List UInt8
  uniqueGuid : List UInt8
  startLba : UInt64
  endLba : UInt64
  attributes : UInt64
  name : List UInt8
deriving DecidableEq

/-- The name field: up to 36 characters, each followed by a zero byte, in a cleared array. -/
def encodeName (name : List UInt8) : List UInt8 :=
  let text := ((name.takeWhile (· ≠ 0)).take 36).flatMap fun character => [character, 0]
  text ++ List.replicate (72 - text.length) 0

/-- `create_gpt_partition_entry`. -/
def createGptPartitionEntry (typeGuid uniqueGuid : Guid) (startLba endLba attributes : UInt64)
    (name : List UInt8) : GptPartitionEntry where
  typeGuid := typeGuid.bytes
  uniqueGuid := uniqueGuid.bytes
  startLba := startLba
  endLba := endLba
  attributes := attributes
  name := encodeName name

/-- The entry as it lies in memory. -/
def GptPartitionEntry.bytes (entry : GptPartitionEntry) : List UInt8 :=
  entry.typeGuid ++ (entry.uniqueGuid ++ (leBytes 8 entry.startLba.toNat ++
    (leBytes 8 entry.endLba.toNat ++ (leBytes 8 entry.attributes.toNat ++ entry.name))))

/-- Entry read from the 128 bytes of its slot. -/
def loadEntry (slot : List UInt8) : GptPartitionEntry where
  typeGuid := slice slot 0 16
  uniqueGuid := slice slot 16 16
  startLba := UInt64.ofNat (leNat (slice slot 32 8))
  endLba := UInt64.ofNat (leNat (slice slot 40 8))
  attributes := UInt64.ofNat (leNat (slice slot 48 8))
  name := slice slot 56 72

/-- The arrays of the entry have their declared sizes. -/
structure GptPartitionEntry.Sized (entry : GptPartitionEntry) : Prop where
  typeGuid : entry.typeGuid.length = 16
  uniqueGuid : entry.uniqueGuid.length = 16
  name : entry.name.length = 72

theorem length_encodeName (name : List UInt8) : (encodeName name).length = 72 := by
  have text : (((name.takeWhile (· ≠ 0)).take 36).flatMap fun character => [character, 0]).length =
      2 * ((name.takeWhile (· ≠ 0)).take 36).length := by
    simp [List.length_flatMap, Nat.mul_comm]
  have short : ((name.takeWhile (· ≠ 0)).take 36).length ≤ 36 := by simp
  simp only [encodeName, List.length_append, List.length_replicate]
  omega

theorem createGptPartitionEntry_sized (typeGuid uniqueGuid : Guid) (startLba endLba attributes : UInt64)
    (name : List UInt8) : (createGptPartitionEntry typeGuid uniqueGuid startLba endLba attributes name).Sized :=
  ⟨typeGuid.length_bytes, uniqueGuid.length_bytes, length_encodeName name⟩

theorem loadEntry_sized {slot : List UInt8} (full : slot.length = 128) : (loadEntry slot).Sized :=
  ⟨length_slice_of_le (by omega), length_slice_of_le (by omega), length_slice_of_le (by omega)⟩

theorem GptPartitionEntry.length_bytes {entry : GptPartitionEntry} (sized : entry.Sized) :
    entry.bytes.length = 128 := by
  simp [GptPartitionEntry.bytes, sized.typeGuid, sized.uniqueGuid, sized.name]

theorem ofNat_leNat_leBytes_eight (value : UInt64) : UInt64.ofNat (leNat (leBytes 8 value.toNat)) = value := by
  rw [leNat_leBytes_of_lt value.toNat_lt, UInt64.ofNat_toNat]

theorem loadEntry_bytes {entry : GptPartitionEntry} (sized : entry.Sized) : loadEntry entry.bytes = entry := by
  obtain ⟨typeGuid, uniqueGuid, name⟩ := sized
  cases entry
  simp only at typeGuid uniqueGuid name
  simp (disch := simp only [length_leBytes, Nat.reduceLeDiff, Nat.reduceAdd, le_refl, *]) only [loadEntry,
    GptPartitionEntry.bytes, slice_append_right, slice_append_left, slice_whole, length_leBytes, typeGuid,
    uniqueGuid, ofNat_leNat_leBytes_eight, Nat.reduceSub]

/-! ## Entry arrays -/

/-- The entries of an array read from disk. -/
def loadEntries (array : List UInt8) : List GptPartitionEntry := (chunks 128 array).map loadEntry

/-- The array the entries are in memory. -/
def entriesBytes (entries : List GptPartitionEntry) : List UInt8 := entries.flatMap GptPartitionEntry.bytes

/-- An entry array of `GPT_ENTRIES_COUNT` entries. -/
structure Entries (entries : List GptPartitionEntry) : Prop where
  count : entries.length = gptEntriesCount
  sized : ∀ entry ∈ entries, entry.Sized

theorem loadEntries_entries {array : List UInt8} (full : array.length = 512 * totalEntriesSectors) :
    Entries (loadEntries array) where
  count := by simp [loadEntries, full, totalEntriesSectors, gptEntriesCount]
  sized entry member := by
    obtain ⟨slot, inside, rfl⟩ := List.mem_map.mp member
    exact loadEntry_sized (length_of_mem_chunks inside)

namespace Entries

variable {entries : List GptPartitionEntry}

theorem sized_slots (valid : Entries entries) :
    ∀ slot ∈ entries.map GptPartitionEntry.bytes, slot.length = 128 := by
  intro slot member
  obtain ⟨entry, inside, rfl⟩ := List.mem_map.mp member
  exact GptPartitionEntry.length_bytes (valid.sized entry inside)

theorem length_bytes (valid : Entries entries) :
    (entriesBytes entries).length = 512 * totalEntriesSectors := by
  rw [entriesBytes, List.flatMap_def, length_flatten_of_forall valid.sized_slots, List.length_map, valid.count]
  rfl

theorem load_bytes (valid : Entries entries) : loadEntries (entriesBytes entries) = entries := by
  rw [loadEntries, entriesBytes, List.flatMap_def, chunks_flatten (by decide) valid.sized_slots, List.map_map]
  calc entries.map (loadEntry ∘ GptPartitionEntry.bytes)
      = entries.map id := List.map_congr_left fun entry member => loadEntry_bytes (valid.sized entry member)
    _ = entries := List.map_id entries

theorem set (valid : Entries entries) {entry : GptPartitionEntry} (sized : entry.Sized) (index : Nat) :
    Entries (entries.set index entry) where
  count := by rw [List.length_set, valid.count]
  sized other member := by
    rcases List.mem_or_eq_of_mem_set member with old | rfl
    · exact valid.sized other old
    · exact sized

end Entries

/-! ## Headers -/

/-- `GPTHeader`. -/
structure GptHeader where
  signature : List UInt8
  revision : UInt32
  headerSize : UInt32
  headerCrc32 : UInt32
  reserved : UInt32
  currentLba : UInt64
  backupLba : UInt64
  firstUsableLba : UInt64
  lastUsableLba : UInt64
  diskGuid : List UInt8
  entriesLba : UInt64
  entriesCount : UInt32
  entrySize : UInt32
  entriesCrc32 : UInt32
deriving DecidableEq

/-- The header as it lies in memory. -/
def GptHeader.bytes (header : GptHeader) : List UInt8 :=
  header.signature ++ (leBytes 4 header.revision.toNat ++ (leBytes 4 header.headerSize.toNat ++
    (leBytes 4 header.headerCrc32.toNat ++ (leBytes 4 header.reserved.toNat ++
    (leBytes 8 header.currentLba.toNat ++ (leBytes 8 header.backupLba.toNat ++
    (leBytes 8 header.firstUsableLba.toNat ++ (leBytes 8 header.lastUsableLba.toNat ++
    (header.diskGuid ++ (leBytes 8 header.entriesLba.toNat ++ (leBytes 4 header.entriesCount.toNat ++
    (leBytes 4 header.entrySize.toNat ++ leBytes 4 header.entriesCrc32.toNat))))))))))))

/-- Header read from its sector. -/
def loadHeader (sector : List UInt8) : GptHeader where
  signature := slice sector 0 8
  revision := UInt32.ofNat (leNat (slice sector 8 4))
  headerSize := UInt32.ofNat (leNat (slice sector 12 4))
  headerCrc32 := UInt32.ofNat (leNat (slice sector 16 4))
  reserved := UInt32.ofNat (leNat (slice sector 20 4))
  currentLba := UInt64.ofNat (leNat (slice sector 24 8))
  backupLba := UInt64.ofNat (leNat (slice sector 32 8))
  firstUsableLba := UInt64.ofNat (leNat (slice sector 40 8))
  lastUsableLba := UInt64.ofNat (leNat (slice sector 48 8))
  diskGuid := slice sector 56 16
  entriesLba := UInt64.ofNat (leNat (slice sector 72 8))
  entriesCount := UInt32.ofNat (leNat (slice sector 80 4))
  entrySize := UInt32.ofNat (leNat (slice sector 84 4))
  entriesCrc32 := UInt32.ofNat (leNat (slice sector 88 4))

/-- The arrays of the header have their declared sizes. -/
structure GptHeader.Sized (header : GptHeader) : Prop where
  signature : header.signature.length = 8
  diskGuid : header.diskGuid.length = 16

theorem GptHeader.length_bytes {header : GptHeader} (sized : header.Sized) : header.bytes.length = 92 := by
  simp [GptHeader.bytes, sized.signature, sized.diskGuid]

theorem loadHeader_bytes {header : GptHeader} (sized : header.Sized) : loadHeader header.bytes = header := by
  obtain ⟨signature, diskGuid⟩ := sized
  cases header
  simp only at signature diskGuid
  simp (disch := simp only [length_leBytes, Nat.reduceLeDiff, Nat.reduceAdd, le_refl, *]) only [loadHeader,
    GptHeader.bytes, slice_append_right, slice_append_left, slice_whole, length_leBytes, signature, diskGuid,
    ofNat_leNat_leBytes_four, ofNat_leNat_leBytes_eight, Nat.reduceSub]

/-- Only the first 92 bytes of the sector matter. -/
theorem loadHeader_take {sector : List UInt8} (full : 92 ≤ sector.length) :
    loadHeader (sector.take 92) = loadHeader sector := by
  have front : (sector.take 92).length = 92 := by simp [full]
  have split : sector = sector.take 92 ++ sector.drop 92 := (List.take_append_drop 92 sector).symm
  conv_rhs => rw [split]
  simp (disch := omega) only [loadHeader, slice_append_left]

/-- A header is the first 92 bytes of a sector that starts with it. -/
theorem GptHeader.take_sector {header : GptHeader} (sized : header.Sized) (rest : List UInt8) :
    (Fat32.sectorAt (header.bytes ++ rest) 0).take 92 = header.bytes := by
  have front : header.bytes.length = 92 := GptHeader.length_bytes sized
  rw [Fat32.sectorAt, List.take_take, slice, Nat.mul_zero, List.drop_zero]
  rw [List.take_append_of_le_length (by simp; omega), List.take_take, List.take_append_of_le_length (by omega),
    List.take_of_length_le (by omega)]

/-- The header read back from a sector that starts with it, whatever follows. -/
theorem loadHeader_sector {header : GptHeader} (sized : header.Sized) (rest : List UInt8) :
    loadHeader (Fat32.sectorAt (header.bytes ++ rest) 0) = header := by
  rw [← loadHeader_take (by simp), GptHeader.take_sector sized, loadHeader_bytes sized]

/-- A header with the checksum of its bytes, computed while the field is zero. -/
def GptHeader.checksummed (header : GptHeader) : GptHeader :=
  { header with headerCrc32 := crc32 header.bytes }

/-- `EFI PART`. -/
def gptSignature : List UInt8 := [0x45, 0x46, 0x49, 0x20, 0x50, 0x41, 0x52, 0x54]

/-- The header at one end of the disk, before its checksum. -/
def blankHeader (totSectors currentLba backupLba entriesLba : UInt64) (entries : List GptPartitionEntry) :
    GptHeader where
  signature := gptSignature
  revision := 0x00010000
  headerSize := 92
  headerCrc32 := 0
  reserved := 0
  currentLba := currentLba
  backupLba := backupLba
  firstUsableLba := 32 + 2
  lastUsableLba := totSectors - 32 - 2
  diskGuid := diskGuidExample
  entriesLba := entriesLba
  entriesCount := 128
  entrySize := 128
  entriesCrc32 := crc32 (entriesBytes entries)

/-- The primary header. -/
def primaryHeader (totSectors : UInt64) (entries : List GptPartitionEntry) : GptHeader :=
  (blankHeader totSectors 1 (totSectors - 1) 2 entries).checksummed

/-- The backup header. -/
def backupHeader (totSectors : UInt64) (entries : List GptPartitionEntry) : GptHeader :=
  (blankHeader totSectors (totSectors - 1) 1 (totSectors - 32 - 1) entries).checksummed

/-- `create_gpt_header`: whether it succeeds, and the disk afterwards. -/
def createGptHeader (disk : Disk) (totSectors : UInt64) (entries : List GptPartitionEntry)
    (stack : List UInt8) : Bool × Disk :=
  if totSectors < 128 then (false, disk)
  else
    let disk := disk.write 1 1 ((primaryHeader totSectors entries).bytes ++ List.replicate 420 0)
    (true, disk.write (totSectors - 1).toNat 1 ((backupHeader totSectors entries).bytes ++ stack))

theorem checksummed_sized (totSectors currentLba backupLba entriesLba : UInt64)
    (entries : List GptPartitionEntry) :
    (blankHeader totSectors currentLba backupLba entriesLba entries).checksummed.Sized :=
  ⟨rfl, rfl⟩

/-- The checksum of a header is the one of its bytes with the field zeroed. -/
theorem checksummed_headerCrc32 {header : GptHeader} (blank : header.headerCrc32 = 0) :
    header.checksummed.headerCrc32 = crc32 { header.checksummed with headerCrc32 := 0 }.bytes := by
  have same : { header.checksummed with headerCrc32 := 0 } = header := by
    rw [GptHeader.checksummed]
    cases header
    simp_all
  rw [same, GptHeader.checksummed]

theorem toNat_sub_one {totSectors : UInt64} (large : ¬ totSectors < 128) :
    (totSectors - 1).toNat = totSectors.toNat - 1 := by
  have bound : 128 ≤ totSectors.toNat := by simpa [UInt64.lt_iff_toNat_lt] using large
  rw [UInt64.toNat_sub_of_le _ _ (by rw [UInt64.le_iff_toNat_le]; simp; omega)]
  rfl

/-- A disk of at least 128 sectors gets both headers and keeps its other sectors. -/
theorem createGptHeader_eq {totSectors : UInt64} (large : ¬ totSectors < 128) (disk : Disk)
    (entries : List GptPartitionEntry) (stack : List UInt8) :
    ∃ after, createGptHeader disk totSectors entries stack = (true, after) ∧
      loadHeader (after.sector 1) = primaryHeader totSectors entries ∧
      loadHeader (after.sector (totSectors - 1).toNat) = backupHeader totSectors entries ∧
      ∀ x, x ≠ 1 → x ≠ (totSectors - 1).toNat → after.sector x = disk.sector x := by
  have bound : 128 ≤ totSectors.toNat := by simpa [UInt64.lt_iff_toNat_lt] using large
  have last := toNat_sub_one large
  refine ⟨_, if_neg large, ?_, ?_, fun x notFirst notLast => ?_⟩
  · rw [sector_write, if_neg (by omega), sector_write, if_pos (by omega), Nat.sub_self]
    exact loadHeader_sector (checksummed_sized _ _ _ _ _) _
  · rw [sector_write, if_pos (by omega), Nat.sub_self]
    exact loadHeader_sector (checksummed_sized _ _ _ _ _) _
  · rw [sector_write, if_neg (by omega), sector_write, if_neg (by omega)]

end KeblaOS.Partition
