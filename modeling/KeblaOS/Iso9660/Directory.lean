import KeblaOS.Fat32.Directory
import KeblaOS.Lib.PaddedRecords

/-!
# ISO 9660 directories

The two walkers of `iso9660.c` over the records of a directory extent:
`iso9660_find_file`, which looks for a name, and `iso9660_readdir`, which delivers one
entry at a time. Both skip the unused rests of sectors with arithmetic of their own and
share `parse_filename`. The disk is reliable and `malloc` succeeds. The offsets are
`uint32_t`, so a loop that has not ended after `offsetFuel` rounds has come back to an
offset and never ends.
-/

namespace KeblaOS.Iso9660

open KeblaOS.Buffer
open KeblaOS.Fat32 (u32 u32_of_lt cString toUpper)

/-! ## Records -/

/-- What a caller learns of a directory record. -/
structure IsoEntry where
  name : List UInt8
  sector : Nat
  size : Nat
  isDir : Bool
deriving DecidableEq

/-- `iso9660_file_t`. -/
structure IsoFile extends IsoEntry where
  diskNo : Nat
deriving DecidableEq

/-- `length` of an `iso9660_dir_record_t`. -/
def recordLength (record : List UInt8) : Nat := (record.getD 0 0).toNat

/-- `file_id_length`. -/
def fileIdLength (record : List UInt8) : Nat := (record.getD 32 0).toNat

/-- The test for the records of the directory itself and of its parent. -/
def isDotRecord (record : List UInt8) : Bool :=
  fileIdLength record = 1 ∧ (record.getD 33 0 = 0x00 ∨ record.getD 33 0 = 0x01)

/-- `';'`. -/
def semicolon : UInt8 := 0x3B

/-- `parse_filename`, the C string it leaves in `output`. -/
def parseFilename (record : List UInt8) : List UInt8 :=
  if isDotRecord record then []
  else
    let fileId := slice record 33 (fileIdLength record)
    let nameLen :=
      if 2 ≤ fileIdLength record ∧ fileId.getD (fileIdLength record - 2) 0 = semicolon then
        fileIdLength record - 2
      else fileIdLength record
    ((cString (fileId.take nameLen)).takeWhile (· ≠ semicolon)).map toUpper

/-- The fields both walkers take from a record. -/
def entryOf (record : List UInt8) : IsoEntry where
  name := parseFilename record
  sector := leNat (slice record 2 4)
  size := leNat (slice record 10 4)
  isDir := record.getD 25 0 &&& 0x02 ≠ 0

/-! ## Walkers -/

/-- An optical disk with what `iso9660_init` has stored about it in `disks[disk_no]`. -/
structure IsoDisk where
  diskNo : Nat
  sector : Nat → List UInt8
  length_sector : ∀ lba, (sector lba).length = 2048
  bytesPerSector : Nat
  rootDirectorySector : Nat
  rootDirectorySize : Nat

/-- The bytes of consecutive sectors. -/
def IsoDisk.sectors (disk : IsoDisk) (lba count : Nat) : List UInt8 :=
  (List.range count).flatMap fun i => disk.sector (lba + i)

/-- `kebla_disk_read` on a SATAPI disk. -/
def keblaDiskRead (disk : IsoDisk) (lba count : Nat) : Option (List UInt8) :=
  if count = 0 then none else some (disk.sectors lba count)

/-- Bound on the rounds of a loop over 32-bit offsets that ends. -/
def offsetFuel : Nat := 4294967297

/-- The loop of `iso9660_find_file`; `ptr` is `buffer + processed`. -/
def findFileLoop (buffer : List UInt8) (sectorSize dirSize : Nat) (filename : List UInt8) :
    Nat → Nat → Option (Option IsoEntry)
  | 0, _ => none
  | fuel + 1, processed =>
      if processed < dirSize then
        let record := buffer.drop processed
        if recordLength record = 0 then
          findFileLoop buffer sectorSize dirSize filename fuel
            (u32 (processed + (sectorSize - processed % sectorSize)))
        else if isDotRecord record then
          findFileLoop buffer sectorSize dirSize filename fuel (u32 (processed + recordLength record))
        else if parseFilename record = filename then some (some (entryOf record))
        else findFileLoop buffer sectorSize dirSize filename fuel (u32 (processed + recordLength record))
      else some none

/-- `iso9660_find_file`. -/
def iso9660FindFile (disk : IsoDisk) (dirSector dirSize : Nat) (filename : List UInt8) :
    Option (Option IsoFile) :=
  if dirSize = 0 ∨ disk.bytesPerSector = 0 then some none
  else
    match keblaDiskRead disk dirSector (u32 (dirSize + disk.bytesPerSector - 1) / disk.bytesPerSector) with
    | none => some none
    | some buffer => (findFileLoop buffer disk.bytesPerSector dirSize filename offsetFuel 0).map
        (·.map fun entry => ⟨entry, disk.diskNo⟩)

/-- `iso9660_dir_t`. -/
structure IsoDir where
  buffer : List UInt8
  size : Nat
  offset : Nat
deriving DecidableEq

/-- The iterator `iso9660_opendir` makes for an extent. -/
def openedDir (disk : IsoDisk) (sector size : Nat) : IsoDir where
  buffer := disk.sectors sector (u32 (size + 2047) / 2048)
  size := size
  offset := 0

/-- What `iso9660_readdir` returns, the entry it stores and the iterator afterwards. -/
structure ReaddirResult where
  code : Int
  entry : Option IsoEntry
  dir : IsoDir
deriving DecidableEq

/-- The loop of `iso9660_readdir`. -/
def readdirLoop : Nat → IsoDir → Option ReaddirResult
  | 0, _ => none
  | fuel + 1, dir =>
      if dir.offset < dir.size then
        let record := dir.buffer.drop dir.offset
        if recordLength record = 0 then
          readdirLoop fuel { dir with offset := u32 (dir.offset + (2048 - dir.offset % 2048)) }
        else
          let dir := { dir with offset := u32 (dir.offset + recordLength record) }
          if isDotRecord record then readdirLoop fuel dir
          else some ⟨1, some (entryOf record), dir⟩
      else some ⟨0, none, dir⟩

/-- `iso9660_readdir`. -/
def iso9660Readdir (dir : IsoDir) : Option ReaddirResult := readdirLoop offsetFuel dir

/-- The entries that `iso9660_readdir` stores when it is called until it returns 0. -/
inductive Reads : IsoDir → List IsoEntry → Prop where
  | nil {dir result} (returned : iso9660Readdir dir = some result) (ends : result.code = 0) : Reads dir []
  | cons {dir result entry entries} (returned : iso9660Readdir dir = some result)
      (continues : result.code ≠ 0) (stored : result.entry = some entry) (rest : Reads result.dir entries) :
      Reads dir (entry :: entries)

/-! ## Extents -/

/-- A directory record whose length byte counts its bytes and covers its name. -/
structure DirRecord where
  bytes : List UInt8
  length : recordLength bytes = bytes.length
  covers : 33 + fileIdLength bytes ≤ bytes.length

/-- A sector of a directory: records, and a rest that is unused from a zero length byte on. -/
structure DirSector where
  records : List DirRecord
  rest : List UInt8
  unused : rest.getD 0 0 = 0
  length : ((records.map DirRecord.bytes).flatten ++ rest).length = 2048

/-- A directory sector as a block of records. -/
def DirSector.block (sector : DirSector) : Block UInt8 := ⟨sector.records.map DirRecord.bytes, sector.rest⟩

/-- The bytes of an extent. -/
def extentBytes (extent : List DirSector) : List UInt8 := (extent.map fun sector => sector.block.flat).flatten

/-- The entries of an extent: its records other than those of the directory itself and of its
parent, in the order on the disk. -/
def extentEntries (extent : List DirSector) : List IsoEntry :=
  ((extent.flatMap DirSector.records).filter fun record => !isDotRecord record.bytes).map
    fun record => entryOf record.bytes

/-! ## Walking an extent -/

/-- What the walkers see of a record: whether they pass over it, and its entry. -/
def seenOf (record : List UInt8) : Bool × IsoEntry := (isDotRecord record, entryOf record)

/-- The entries among the records that are left. -/
def delivered (items : List (Bool × IsoEntry)) : List IsoEntry :=
  (items.filter fun item => !item.1).map Prod.snd

/-- What a walker at an offset of a buffer has still to deliver. -/
abbrev RemainingRecords (buffer : List UInt8) : Nat → Nat → List (Bool × IsoEntry) → Prop :=
  Remaining (fun offset => recordLength (buffer.drop offset)) (fun offset => seenOf (buffer.drop offset)) 2048

section Locality

variable {more : List UInt8} (record : DirRecord)
include record

theorem DirRecord.fileIdLength_append : fileIdLength (record.bytes ++ more) = fileIdLength record.bytes := by
  have covers := record.covers
  rw [fileIdLength, fileIdLength, List.getD_append _ _ _ _ (by omega)]

theorem DirRecord.isDotRecord_append : isDotRecord (record.bytes ++ more) = isDotRecord record.bytes := by
  have covers := record.covers
  rw [isDotRecord, isDotRecord, record.fileIdLength_append]
  by_cases single : fileIdLength record.bytes = 1
  · rw [List.getD_append _ _ _ _ (by omega)]
  · simp [single]

/-- A record is read from its own bytes. -/
theorem DirRecord.seenOf_append : seenOf (record.bytes ++ more) = seenOf record.bytes := by
  have covers := record.covers
  have name : parseFilename (record.bytes ++ more) = parseFilename record.bytes := by
    unfold parseFilename
    rw [record.isDotRecord_append, record.fileIdLength_append, slice_append_left (by omega)]
  unfold seenOf entryOf
  rw [record.isDotRecord_append, name, slice_append_left (by omega), slice_append_left (by omega),
    List.getD_append _ _ _ _ (by omega)]

end Locality

/-- A directory extent is a sequence of blocks the walkers can read. -/
theorem decodes_extent (extent : List DirSector) :
    Decodes (fun offset => recordLength ((extentBytes extent).drop offset))
      (fun offset => seenOf ((extentBytes extent).drop offset)) seenOf (extentBytes extent)
      (extent.map DirSector.block) where
  record stored member bytes there offset more found := by
    obtain ⟨sector, _, rfl⟩ := List.mem_map.mp member
    obtain ⟨record, _, rfl⟩ := List.mem_map.mp there
    have covers := record.covers
    rw [found]
    refine ⟨?_, record.seenOf_append⟩
    rw [recordLength, List.getD_append _ _ _ _ (by omega)]
    exact record.length
  nonempty stored member bytes there := by
    obtain ⟨sector, _, rfl⟩ := List.mem_map.mp member
    obtain ⟨record, _, rfl⟩ := List.mem_map.mp there
    have covers := record.covers
    exact List.ne_nil_of_length_pos (by omega)
  unused stored member some offset more found := by
    obtain ⟨sector, _, rfl⟩ := List.mem_map.mp member
    have first := sector.unused
    rw [found, recordLength, List.getD_append _ _ _ _ (List.length_pos_iff.mpr some)]
    exact congrArg UInt8.toNat first

theorem remaining_extent (extent : List DirSector) :
    ∃ items, RemainingRecords (extentBytes extent) (2048 * extent.length) 0 items ∧
      delivered items = extentEntries extent := by
  refine ⟨_, Remaining.of_blocks (decodes_extent extent) ?_ (Nat.dvd_zero _) ?_ ?_, ?_⟩
  · intro stored member
    obtain ⟨sector, _, rfl⟩ := List.mem_map.mp member
    exact sector.length
  · rw [List.drop_zero, extentBytes, List.map_map]
    rfl
  · rw [List.length_map, Nat.zero_add]
  · have records : (extent.map DirSector.block).flatMap Block.records =
        (extent.flatMap DirSector.records).map DirRecord.bytes := by
      rw [List.flatMap_map, List.map_flatMap]
      rfl
    rw [records, List.map_map, delivered, extentEntries, List.filter_map, List.map_map]
    rfl

section Walkers

variable {buffer : List UInt8} {size offset fuel : Nat} {items : List (Bool × IsoEntry)}

/-- `iso9660_find_file` finds the first entry with the name among those that are left. -/
theorem findFileLoop_eq (filename : List UInt8) (small : size < 4294967296)
    (remaining : RemainingRecords buffer size offset items) (enough : size - offset < fuel) :
    findFileLoop buffer 2048 size filename fuel offset =
      some ((delivered items).find? fun entry => entry.name = filename) := by
  induction remaining generalizing fuel with
  | done =>
      obtain ⟨fuel, rfl⟩ := Nat.exists_eq_succ_of_ne_zero (Nat.ne_of_gt (Nat.zero_lt_of_lt enough))
      rw [findFileLoop, if_neg (Nat.lt_irrefl size)]
      rfl
  | @skip offset items inside unused rest ih =>
      have behind := rest.le
      have progress := Nat.mod_lt offset (show 0 < 2048 by decide)
      obtain ⟨fuel, rfl⟩ := Nat.exists_eq_succ_of_ne_zero (Nat.ne_of_gt (Nat.zero_lt_of_lt enough))
      rw [findFileLoop, if_pos inside]
      dsimp only
      rw [if_pos unused, u32_of_lt (by omega)]
      exact ih (by omega)
  | @record offset items inside used rest ih =>
      have behind := rest.le
      obtain ⟨fuel, rfl⟩ := Nat.exists_eq_succ_of_ne_zero (Nat.ne_of_gt (Nat.zero_lt_of_lt enough))
      rw [findFileLoop, if_pos inside]
      dsimp only
      rw [if_neg used, u32_of_lt (by omega)]
      have later := @ih fuel (by omega)
      by_cases special : isDotRecord (buffer.drop offset) = true
      · rw [if_pos special, later]
        simp [delivered, seenOf, special]
      · rw [if_neg special, later]
        by_cases matched : parseFilename (buffer.drop offset) = filename
        · rw [if_pos matched]
          simp [delivered, seenOf, special, entryOf, matched]
        · rw [if_neg matched]
          simp [delivered, seenOf, special, entryOf, matched]

/-- `iso9660_readdir` delivers the first entry of those that are left, and leaves the others. -/
theorem readdirLoop_eq (small : size < 4294967296) (remaining : RemainingRecords buffer size offset items)
    (enough : size - offset < fuel) :
    (delivered items = [] ∧ ∃ stop, readdirLoop fuel ⟨buffer, size, offset⟩ = some ⟨0, none, stop⟩) ∨
      ∃ entry next later, delivered items = entry :: delivered later ∧
        RemainingRecords buffer size next later ∧
        readdirLoop fuel ⟨buffer, size, offset⟩ = some ⟨1, some entry, ⟨buffer, size, next⟩⟩ := by
  induction remaining generalizing fuel with
  | done =>
      obtain ⟨fuel, rfl⟩ := Nat.exists_eq_succ_of_ne_zero (Nat.ne_of_gt (Nat.zero_lt_of_lt enough))
      refine .inl ⟨rfl, ⟨buffer, size, size⟩, ?_⟩
      rw [readdirLoop, if_neg (Nat.lt_irrefl size)]
  | @skip offset items inside unused rest ih =>
      have behind := rest.le
      have progress := Nat.mod_lt offset (show 0 < 2048 by decide)
      obtain ⟨fuel, rfl⟩ := Nat.exists_eq_succ_of_ne_zero (Nat.ne_of_gt (Nat.zero_lt_of_lt enough))
      rw [readdirLoop, if_pos inside]
      dsimp only
      rw [if_pos unused, u32_of_lt (by omega)]
      exact ih (by omega)
  | @record offset items inside used rest ih =>
      have behind := rest.le
      obtain ⟨fuel, rfl⟩ := Nat.exists_eq_succ_of_ne_zero (Nat.ne_of_gt (Nat.zero_lt_of_lt enough))
      rw [readdirLoop, if_pos inside]
      dsimp only
      rw [if_neg used, u32_of_lt (by omega)]
      by_cases special : isDotRecord (buffer.drop offset) = true
      · have same : delivered (seenOf (buffer.drop offset) :: items) = delivered items := by
          simp [delivered, seenOf, special]
        rw [if_pos special, same]
        exact ih (by omega)
      · rw [if_neg special]
        refine .inr ⟨_, _, items, ?_, rest, rfl⟩
        simp [delivered, seenOf, special]

/-- Repeated `iso9660_readdir` delivers exactly the entries that are left. -/
theorem reads_iff (small : size < 4294967296) (remaining : RemainingRecords buffer size offset items)
    (entries : List IsoEntry) : Reads ⟨buffer, size, offset⟩ entries ↔ entries = delivered items := by
  generalize count : delivered items = left
  induction left generalizing items offset entries with
  | nil =>
      rcases readdirLoop_eq small remaining (show size - offset < offsetFuel by simp only [offsetFuel]; omega) with
        ⟨_, stop, ended⟩ | ⟨entry, _, _, some, _⟩
      · constructor
        · intro reads
          cases reads with
          | nil => rfl
          | cons returned continues =>
              obtain rfl := Option.some.inj (ended.symm.trans returned)
              exact absurd rfl continues
        · rintro rfl
          exact .nil ended rfl
      · rw [count] at some
        exact absurd some (List.cons_ne_nil _ _).symm
  | cons first left ih =>
      rcases readdirLoop_eq small remaining (show size - offset < offsetFuel by simp only [offsetFuel]; omega) with
        ⟨none, _⟩ | ⟨entry, next, later, shape, behind, returned⟩
      · rw [count] at none
        exact absurd none (List.cons_ne_nil _ _)
      · rw [count] at shape
        obtain ⟨rfl, rest⟩ := List.cons.inj shape
        have following := fun others => ih behind others rest.symm
        constructor
        · intro reads
          cases reads with
          | nil returned' ends =>
              obtain rfl := Option.some.inj (returned.symm.trans returned')
              exact absurd ends Int.one_ne_zero
          | cons returned' _ stored tail =>
              obtain rfl := Option.some.inj (returned.symm.trans returned')
              obtain rfl := Option.some.inj stored
              rw [(following _).mp tail]
        · rintro rfl
          exact .cons returned Int.one_ne_zero rfl ((following _).mpr rfl)

end Walkers

/-! ## Both walkers on one extent -/

/-- An extent of a disk: the sectors of a directory and where they are. -/
structure Stored (disk : IsoDisk) (dirSector dirSize : Nat) (extent : List DirSector) : Prop where
  size : dirSize = 2048 * extent.length
  small : dirSize < 4294967296
  bytes : disk.sectors dirSector extent.length = extentBytes extent

namespace Stored

variable {disk : IsoDisk} {dirSector dirSize : Nat} {extent : List DirSector}

theorem sectorCount (stored : Stored disk dirSector dirSize extent) :
    u32 (dirSize + 2047) / 2048 = extent.length := by
  have size := stored.size
  have small := stored.small
  rw [u32_of_lt (by omega)]
  omega

/-- `iso9660_readdir` on the iterator of an extent. -/
theorem reads_iff (stored : Stored disk dirSector dirSize extent) (entries : List IsoEntry) :
    Reads (openedDir disk dirSector dirSize) entries ↔ entries = extentEntries extent := by
  obtain ⟨items, remaining, whole⟩ := remaining_extent extent
  rw [openedDir, stored.sectorCount, stored.bytes, ← whole]
  rw [← stored.size] at remaining
  exact Iso9660.reads_iff stored.small remaining entries

/-- `iso9660_find_file` on an extent. -/
theorem findFile_eq (stored : Stored disk dirSector dirSize extent) (blockSize : disk.bytesPerSector = 2048)
    (filename : List UInt8) :
    iso9660FindFile disk dirSector dirSize filename =
      some (((extentEntries extent).find? fun entry => entry.name = filename).map (⟨·, disk.diskNo⟩)) := by
  obtain ⟨items, remaining, whole⟩ := remaining_extent extent
  have size := stored.size
  unfold iso9660FindFile
  by_cases empty : dirSize = 0
  · obtain rfl : extent = [] := List.length_eq_zero_iff.mp (by omega)
    rw [if_pos (.inl empty)]
    rfl
  · have count : u32 (dirSize + disk.bytesPerSector - 1) / disk.bytesPerSector = extent.length := by
      rw [blockSize]
      exact stored.sectorCount
    rw [if_neg (by omega), count, keblaDiskRead, if_neg (by omega), stored.bytes, blockSize]
    rw [← stored.size] at remaining
    dsimp only
    rw [findFileLoop_eq filename stored.small remaining (by simp only [offsetFuel]; have small := stored.small; omega),
      whole]
    rfl

end Stored

/-! ## A small disk -/

/-- The bytes of a record with an identifier, an extent and flags. -/
def recordBytes (fileId : List UInt8) (sector size : Nat) (flags : UInt8) : List UInt8 :=
  [33 + fileId.length.toUInt8, 0] ++ leBytes 4 sector ++ List.replicate 4 0 ++ leBytes 4 size ++
    List.replicate 11 0 ++ [flags, 0, 0, 0, 0, 0, 0, fileId.length.toUInt8] ++ fileId

/-- The records of a root directory with a file `A` and a directory `D`. -/
def smallRecords : List DirRecord :=
  [⟨recordBytes [0x00] 20 2048 2, by decide +kernel, by decide +kernel⟩,
    ⟨recordBytes [0x01] 20 2048 2, by decide +kernel, by decide +kernel⟩,
    ⟨recordBytes [0x41, 0x3B, 0x31] 22 5 0, by decide +kernel, by decide +kernel⟩,
    ⟨recordBytes [0x44] 21 2048 2, by decide +kernel, by decide +kernel⟩]

/-- A sector of zeroes behind some records. -/
def padded (records : List DirRecord) (fits : ((records.map DirRecord.bytes).flatten).length ≤ 2048) : DirSector where
  records := records
  rest := List.replicate (2048 - ((records.map DirRecord.bytes).flatten).length) 0
  unused := by
    rw [List.getD_eq_getElem?_getD, List.getElem?_replicate]
    split_ifs <;> rfl
  length := by
    rw [List.length_append, List.length_replicate]
    omega

/-- The root directory of the small disk. -/
def smallRoot : DirSector := padded smallRecords (by decide +kernel)

/-- The directory `D`, with no entry of its own. -/
def smallSub : DirSector := padded (smallRecords.take 2) (by decide +kernel)

/-- A sector with no records. -/
def blank : DirSector := padded [] (by decide)

/-- A disk with the two directories at sectors 20 and 21. -/
def smallDisk : IsoDisk where
  diskNo := 0
  sector lba := (if lba = 20 then smallRoot else if lba = 21 then smallSub else blank).block.flat
  length_sector _ := DirSector.length _
  bytesPerSector := 2048
  rootDirectorySector := 20
  rootDirectorySize := 2048

theorem smallDisk_root : Stored smallDisk 20 2048 [smallRoot] := ⟨rfl, by decide, rfl⟩

theorem smallDisk_sub : Stored smallDisk 21 2048 [smallSub] := ⟨rfl, by decide, rfl⟩

/-- On every well-formed extent, `iso9660_readdir` delivers the entries once each and in the
order on the disk, and `iso9660_find_file` finds the first of them that has the name. -/
theorem directory_walkers_agree (disk : IsoDisk) (dirSector dirSize : Nat) (extent : List DirSector)
    (blockSize : disk.bytesPerSector = 2048) (stored : Stored disk dirSector dirSize extent) :
    (∀ entries, Reads (openedDir disk dirSector dirSize) entries ↔ entries = extentEntries extent) ∧
      ∀ filename, iso9660FindFile disk dirSector dirSize filename =
        some (((extentEntries extent).find? fun entry => entry.name = filename).map (⟨·, disk.diskNo⟩)) :=
  ⟨stored.reads_iff, stored.findFile_eq blockSize⟩

/-- The root directory of the small disk has a file and a directory. -/
theorem directory_walkers_agree_small :
    (∀ entries, Reads (openedDir smallDisk 20 2048) entries ↔ entries = extentEntries [smallRoot]) ∧
      (extentEntries [smallRoot]).map IsoEntry.name = [[0x41], [0x44]] ∧
      iso9660FindFile smallDisk 20 2048 [0x41] = some (some ⟨⟨[0x41], 22, 5, false⟩, 0⟩) := by
  obtain ⟨reads, finds⟩ := directory_walkers_agree smallDisk 20 2048 [smallRoot] rfl smallDisk_root
  refine ⟨reads, by decide +kernel, (finds [0x41]).trans ?_⟩
  decide +kernel

end KeblaOS.Iso9660
