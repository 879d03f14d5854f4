import KeblaOS.Ext2.Directory

/-!
# Directory blocks as sequences of records

A directory block is tiled when it consists of records whose `rec_len` counts their bytes and
leaves room for the header and the name. `ext2_create_dir` goes over such a block to the first
record with slack, cuts it down to what its entry needs and writes the new entry behind it. The
block stays tiled if the slack is large enough for the new entry, which nothing checks.
-/

namespace KeblaOS.Ext2

open KeblaOS.Buffer
open KeblaOS.Fat32 (ofNat_leNat_leBytes_two ofNat_leNat_leBytes_four)

/-! ## Records -/

/-- A record of a directory block. -/
@[ext] structure BlockRecord where
  bytes : List UInt8
  measured : (loadDirEntry bytes).recLen.toNat = bytes.length
  covers : neededLen (loadDirEntry bytes).nameLen ≤ bytes.length

/-- What an entry says: an inode and a name. -/
def BlockRecord.entry (record : BlockRecord) : UInt32 × List UInt8 :=
  ((loadDirEntry record.bytes).inode, (loadDirEntry record.bytes).name)

/-- The bytes a record does not need. -/
def BlockRecord.slack (record : BlockRecord) : Nat :=
  record.bytes.length - neededLen (loadDirEntry record.bytes).nameLen

/-- The block that records tile. -/
def blockBytes (records : List BlockRecord) : List UInt8 := (records.map BlockRecord.bytes).flatten

@[simp] theorem blockBytes_nil : blockBytes [] = [] := rfl

@[simp] theorem blockBytes_cons (record : BlockRecord) (records : List BlockRecord) :
    blockBytes (record :: records) = record.bytes ++ blockBytes records := rfl

@[simp] theorem blockBytes_append (front back : List BlockRecord) :
    blockBytes (front ++ back) = blockBytes front ++ blockBytes back := by
  rw [blockBytes, List.map_append, List.flatten_append]
  rfl

theorem neededLen_le (nameLen : UInt8) : 8 + nameLen.toNat ≤ neededLen nameLen := by
  unfold neededLen
  omega

theorem neededLen_lt (nameLen : UInt8) : neededLen nameLen < 512 := by
  have bound := nameLen.toNat_lt
  unfold neededLen
  omega

/-! ## Entries in a buffer -/

section Loading

variable {front more : List UInt8}

/-- A record is read from its own bytes. -/
theorem BlockRecord.load_append (record : BlockRecord) (more : List UInt8) :
    loadDirEntry (record.bytes ++ more) = loadDirEntry record.bytes := by
  have covers := record.covers
  have room := neededLen_le (loadDirEntry record.bytes).nameLen
  have name : 8 + (record.bytes.getD 6 0).toNat ≤ record.bytes.length := room.trans covers
  unfold loadDirEntry
  rw [slice_append_left (by omega), slice_append_left (by omega), List.getD_append _ _ _ _ (by omega),
    List.getD_append _ _ _ _ (by omega), slice_append_left name]

theorem BlockRecord.eight_le (record : BlockRecord) : 8 ≤ record.bytes.length := by
  have covers := record.covers
  have room := neededLen_le (loadDirEntry record.bytes).nameLen
  omega

/-- An entry is read back. -/
theorem loadDirEntry_bytes (entry : DirEntry) (sized : entry.name.length = entry.nameLen.toNat) :
    loadDirEntry (entry.bytes ++ more) = entry := by
  have header : ∀ rest : List UInt8, entry.bytes ++ rest =
      leBytes 4 entry.inode.toNat ++ (leBytes 2 entry.recLen.toNat ++
        ([entry.nameLen, entry.fileType] ++ (entry.name ++ rest))) := by
    intro rest
    simp only [DirEntry.bytes, List.append_assoc, List.cons_append, List.nil_append]
  have nameLen : (entry.bytes ++ more).getD 6 0 = entry.nameLen := by
    rw [header, List.getD_append_right _ _ _ _ (by simp), List.getD_append_right _ _ _ _ (by simp)]
    simp
  have fileType : (entry.bytes ++ more).getD 7 0 = entry.fileType := by
    rw [header, List.getD_append_right _ _ _ _ (by simp), List.getD_append_right _ _ _ _ (by simp)]
    simp
  have inode : UInt32.ofNat (leNat (slice (entry.bytes ++ more) 0 4)) = entry.inode := by
    rw [header, slice_append_left (by simp), slice_whole (by simp), ofNat_leNat_leBytes_four]
  have recLen : UInt16.ofNat (leNat (slice (entry.bytes ++ more) 4 2)) = entry.recLen := by
    rw [header, slice_append_right (by simp), slice_append_left (by simp), length_leBytes, slice_whole (by simp),
      ofNat_leNat_leBytes_two]
  have name : slice (entry.bytes ++ more) 8 entry.nameLen.toNat = entry.name := by
    rw [header, slice_append_right (by simp), slice_append_right (by simp), slice_append_right (by simp)]
    simp only [length_leBytes, List.length_cons, List.length_nil, Nat.reduceSub, Nat.reduceAdd]
    rw [slice_append_left (by omega), slice_whole sized]
  unfold loadDirEntry
  rw [nameLen, fileType, inode, recLen, name]

theorem length_bytes (entry : DirEntry) : entry.bytes.length = 8 + entry.name.length := by
  simp only [DirEntry.bytes, List.length_append, length_leBytes, List.length_cons]
  omega

end Loading

/-- A block is tiled in one way: records in front of it are the first of its records. -/
theorem prefix_of_blockBytes {front records : List BlockRecord} {rest : List UInt8}
    (same : blockBytes records = blockBytes front ++ rest) :
    ∃ back, records = front ++ back ∧ blockBytes back = rest := by
  induction front generalizing records with
  | nil => exact ⟨records, rfl, same⟩
  | cons record front ih =>
      have long := record.eight_le
      cases records with
      | nil =>
          have lengths := congrArg List.length same
          rw [blockBytes_nil, blockBytes_cons, List.length_append, List.length_append, List.length_nil] at lengths
          omega
      | cons first records =>
          rw [blockBytes_cons, blockBytes_cons, List.append_assoc] at same
          have loaded := congrArg (fun bytes => (loadDirEntry bytes).recLen.toNat) same
          rw [first.load_append, record.load_append, first.measured, record.measured] at loaded
          obtain ⟨equal, later⟩ := List.append_inj same loaded
          obtain ⟨back, rfl, tail⟩ := ih later
          obtain rfl : first = record := BlockRecord.ext equal
          exact ⟨back, rfl, tail⟩

/-- The first record with slack. -/
theorem exists_first_slack {records : List BlockRecord} (some : ¬ ∀ record ∈ records, record.slack = 0) :
    ∃ front record back, records = front ++ record :: back ∧ (∀ other ∈ front, other.slack = 0) ∧ 0 < record.slack := by
  induction records with
  | nil => exact absurd (fun record member => absurd member List.not_mem_nil) some
  | cons first records ih =>
      by_cases tight : first.slack = 0
      · obtain ⟨front, record, back, rfl, before, loose⟩ := ih fun all => some fun record member => by
          rcases List.mem_cons.mp member with rfl | later
          · exact tight
          · exact all record later
        refine ⟨first :: front, record, back, rfl, fun other member => ?_, loose⟩
        rcases List.mem_cons.mp member with rfl | later
        · exact tight
        · exact before other later
      · exact ⟨[], first, records, rfl, fun other member => absurd member List.not_mem_nil, Nat.pos_of_ne_zero tight⟩

/-! ## The walk -/

section Walk

variable {front back : List BlockRecord} {record : BlockRecord} {blockSize : UInt32} {nameLen : UInt8}

/-- The record at its offset. -/
theorem entryAt_blockBytes :
    entryAt (blockBytes (front ++ record :: back)) (blockBytes front).length = loadDirEntry record.bytes := by
  rw [entryAt, blockBytes_append, List.drop_left, blockBytes_cons, record.load_append]

theorem actualLen_blockBytes :
    actualLen (blockBytes (front ++ record :: back)) (blockBytes front).length =
      neededLen (loadDirEntry record.bytes).nameLen := by
  rw [actualLen, entryAt_blockBytes]

/-- The offset of a record as a word. -/
theorem toNat_offset (whole : (blockBytes (front ++ record :: back)).length = blockSize.toNat) :
    (UInt32.ofNat (blockBytes front).length).toNat = (blockBytes front).length ∧
      (blockBytes front).length + record.bytes.length ≤ blockSize.toNat := by
  have bound := blockSize.toNat_lt
  rw [blockBytes_append, blockBytes_cons, List.length_append, List.length_append] at whole
  exact ⟨UInt32.toNat_ofNat_of_lt' (lt_of_le_of_lt (by omega) bound), by omega⟩

theorem hasSlack_iff (whole : (blockBytes (front ++ record :: back)).length = blockSize.toNat) :
    HasSlack (blockBytes (front ++ record :: back)) (UInt32.ofNat (blockBytes front).length) ↔ 0 < record.slack := by
  rw [HasSlack, (toNat_offset whole).1, actualLen_blockBytes, entryAt_blockBytes, record.measured, BlockRecord.slack]
  omega

/-- The walk passes a record without slack. -/
theorem createDirRound_passes (whole : (blockBytes (front ++ record :: back)).length = blockSize.toNat)
    (tight : record.slack = 0) :
    createDirRound (blockBytes (front ++ record :: back)) blockSize nameLen (UInt32.ofNat (blockBytes front).length) =
      .goes (UInt32.ofNat (blockBytes (front ++ [record])).length) := by
  obtain ⟨value, inside⟩ := toNat_offset whole
  have long := record.eight_le
  have before : UInt32.ofNat (blockBytes front).length < blockSize := by
    rw [UInt32.lt_iff_toNat_lt, value]
    omega
  have next : nextEntry (blockBytes (front ++ record :: back)) (UInt32.ofNat (blockBytes front).length) =
      UInt32.ofNat (blockBytes (front ++ [record])).length := by
    have bound := blockSize.toNat_lt
    apply UInt32.toNat_inj.mp
    rw [nextEntry, UInt32.toNat_add, value, entryAt_blockBytes, UInt16.toNat_toUInt32, record.measured,
      blockBytes_append, blockBytes_cons, blockBytes_nil, List.append_nil, List.length_append, UInt32.toNat_ofNat']
  have full : ¬ HasSlack (blockBytes (front ++ record :: back)) (UInt32.ofNat (blockBytes front).length) := by
    rw [hasSlack_iff whole]
    omega
  rw [createDirRound, if_pos before, value, if_neg (by omega), if_neg full, next]

/-- Behind records without slack the walk ends as from the start. -/
theorem endsWith_behind {result : Option UInt32}
    (whole : (blockBytes (front ++ back)).length = blockSize.toNat) (tight : ∀ record ∈ front, record.slack = 0) :
    EndsWith (createDirRound (blockBytes (front ++ back)) blockSize nameLen) 0 result ↔
      EndsWith (createDirRound (blockBytes (front ++ back)) blockSize nameLen)
        (UInt32.ofNat (blockBytes front).length) result := by
  induction front using List.reverseRecOn generalizing back with
  | nil => exact Iff.rfl
  | append_singleton front record ih =>
      rw [List.append_assoc] at whole ⊢
      rw [ih whole fun other member => tight other (List.mem_append_left _ member)]
      apply endsWith_iff_of_goes
      exact createDirRound_passes whole (tight record (List.mem_append_right _ List.mem_cons_self))

/-- Without slack anywhere the walk finds no space. -/
theorem createDir_endsWith_none {records : List BlockRecord} (whole : (blockBytes records).length = blockSize.toNat)
    (tight : ∀ record ∈ records, record.slack = 0) :
    EndsWith (createDirRound (blockBytes records) blockSize nameLen) 0 none := by
  have walk := @endsWith_behind records [] blockSize nameLen none (by rwa [List.append_nil]) tight
  rw [List.append_nil] at walk
  apply walk.mpr
  apply endsWith_of_ends
  have behind : ¬ UInt32.ofNat (blockBytes records).length < blockSize := by
    rw [whole, UInt32.ofNat_toNat]
    exact UInt32.lt_irrefl _
  exact if_neg behind

/-- The first record with slack is split, if the new entry ends in the block. -/
theorem createDir_endsWith_iff {result : Option UInt32}
    (whole : (blockBytes (front ++ record :: back)).length = blockSize.toNat)
    (tight : ∀ record ∈ front, record.slack = 0) (loose : 0 < record.slack) :
    EndsWith (createDirRound (blockBytes (front ++ record :: back)) blockSize nameLen) 0 result ↔
      (blockBytes front).length + neededLen (loadDirEntry record.bytes).nameLen + 8 + nameLen.toNat ≤ blockSize.toNat ∧
        result = some (UInt32.ofNat (blockBytes front).length) := by
  obtain ⟨value, inside⟩ := toNat_offset whole
  have long := record.eight_le
  have before : UInt32.ofNat (blockBytes front).length < blockSize := by
    rw [UInt32.lt_iff_toNat_lt, value]
    omega
  have slack := (hasSlack_iff whole).mpr loose
  have round : createDirRound (blockBytes (front ++ record :: back)) blockSize nameLen
      (UInt32.ofNat (blockBytes front).length) =
        if blockSize.toNat < (blockBytes front).length + neededLen (loadDirEntry record.bytes).nameLen + 8 + nameLen.toNat
        then .fault else .ends (some (UInt32.ofNat (blockBytes front).length)) := by
    rw [createDirRound, if_pos before, if_pos slack, value, if_neg (by omega), actualLen_blockBytes]
  rw [endsWith_behind whole tight]
  constructor
  · intro ended
    split_ifs at round with beyond
    · exact absurd ⟨result, ended⟩ (not_completes_of_fault round)
    · exact ⟨Nat.not_lt.mp beyond, ended.unique (endsWith_of_ends round)⟩
  · rintro ⟨fits, rfl⟩
    rw [if_neg (Nat.not_lt.mpr fits)] at round
    exact endsWith_of_ends round

end Walk

/-! ## Splitting a record -/

/-- The entry `ext2_create_dir` writes behind the one at an offset. -/
def newEntry (buf : List UInt8) (offset : Nat) (inode : UInt32) (name : List UInt8) : DirEntry where
  inode := inode
  recLen := (entryAt buf offset).recLen - UInt16.ofNat (actualLen buf offset)
  nameLen := UInt8.ofNat name.length
  fileType := 2
  name := name.take (UInt8.ofNat name.length).toNat

/-- The block after the record at an offset was split. -/
def addEntry (buf : List UInt8) (offset : Nat) (inode : UInt32) (name : List UInt8) : List UInt8 :=
  let actual := actualLen buf offset
  overwrite (overwrite buf (offset + actual) (newEntry buf offset inode name).bytes) (offset + 4) (leBytes 2 actual)

/-- The bytes of a record that its entry needs, with their number as its length. -/
def BlockRecord.shortBytes (record : BlockRecord) : List UInt8 :=
  overwrite (record.bytes.take (neededLen (loadDirEntry record.bytes).nameLen)) 4
    (leBytes 2 (neededLen (loadDirEntry record.bytes).nameLen))

section Splitting

variable {front back : List BlockRecord} {record : BlockRecord} {inode : UInt32} {name : List UInt8}

theorem BlockRecord.length_take (record : BlockRecord) :
    (record.bytes.take (neededLen (loadDirEntry record.bytes).nameLen)).length =
      neededLen (loadDirEntry record.bytes).nameLen := by
  rw [List.length_take, Nat.min_eq_left record.covers]

theorem BlockRecord.length_shortBytes (record : BlockRecord) :
    record.shortBytes.length = neededLen (loadDirEntry record.bytes).nameLen := by
  have room := neededLen_le (loadDirEntry record.bytes).nameLen
  rw [shortBytes, length_overwrite (by rw [record.length_take, length_leBytes]; omega), record.length_take]

/-- Cutting a record down changes nothing of its entry but the length. -/
theorem BlockRecord.load_shortBytes (record : BlockRecord) :
    loadDirEntry record.shortBytes =
      { loadDirEntry record.bytes with recLen := UInt16.ofNat (neededLen (loadDirEntry record.bytes).nameLen) } := by
  have room := neededLen_le (loadDirEntry record.bytes).nameLen
  have small := neededLen_lt (loadDirEntry record.bytes).nameLen
  have length := record.length_take
  have nameLen : (loadDirEntry record.bytes).nameLen = record.bytes.getD 6 0 := rfl
  rw [nameLen] at room small length
  have kept : ∀ i < neededLen (record.bytes.getD 6 0), i < 4 ∨ 6 ≤ i →
      record.shortBytes.getD i 0 = record.bytes.getD i 0 := by
    intro i inside apart
    rw [shortBytes, nameLen, List.getD_eq_getElem?_getD, getElem?_overwrite (by rw [length, length_leBytes]; omega),
      length_leBytes, if_neg (by omega), List.getElem?_take_of_lt inside, ← List.getD_eq_getElem?_getD]
  have front : slice record.shortBytes 0 4 = slice record.bytes 0 4 := by
    rw [shortBytes, nameLen, slice_overwrite_before (by omega) (by omega), slice, slice, List.drop_zero, List.drop_zero,
      List.take_take, Nat.min_eq_left (by omega)]
  have written : slice record.shortBytes 4 2 = leBytes 2 (neededLen (record.bytes.getD 6 0)) := by
    have self := slice_overwrite_self (leBytes 2 (neededLen (record.bytes.getD 6 0)))
      (show 4 ≤ (record.bytes.take (neededLen (record.bytes.getD 6 0))).length by omega)
    rwa [length_leBytes] at self
  have name : slice record.shortBytes 8 (record.bytes.getD 6 0).toNat =
      slice record.bytes 8 (record.bytes.getD 6 0).toNat := by
    rw [shortBytes, nameLen, slice_overwrite_after (by omega) (by rw [length_leBytes]; omega), slice, slice,
      List.drop_take, List.take_take, Nat.min_eq_left (by omega)]
  unfold loadDirEntry
  rw [kept 6 (by omega) (.inr (by omega)), kept 7 (by omega) (.inr (by omega)), front, written, name,
    leNat_leBytes_of_lt (lt_trans small (by decide))]

/-- The record that stays when a record is split. -/
def BlockRecord.shortened (record : BlockRecord) : BlockRecord where
  bytes := record.shortBytes
  measured := by
    have small := neededLen_lt (loadDirEntry record.bytes).nameLen
    rw [record.load_shortBytes, record.length_shortBytes]
    exact UInt16.toNat_ofNat_of_lt' (lt_trans small (by decide))
  covers := by
    rw [record.load_shortBytes, record.length_shortBytes]

theorem BlockRecord.shortened_entry (record : BlockRecord) : record.shortened.entry = record.entry := by
  rw [entry, shortened, record.load_shortBytes]
  rfl

/-- The slack of a record. -/
theorem BlockRecord.length_drop (record : BlockRecord) :
    (record.bytes.drop (neededLen (loadDirEntry record.bytes).nameLen)).length = record.slack := List.length_drop

/-- The entry behind a record: its length is the slack of the record. -/
theorem newEntry_recLen :
    (newEntry (blockBytes (front ++ record :: back)) (blockBytes front).length inode name).recLen.toNat =
      record.slack := by
  have covers := record.covers
  have small := neededLen_lt (loadDirEntry record.bytes).nameLen
  have measured := record.measured
  have value : (UInt16.ofNat (neededLen (loadDirEntry record.bytes).nameLen)).toNat =
      neededLen (loadDirEntry record.bytes).nameLen := UInt16.toNat_ofNat_of_lt' (lt_trans small (by decide))
  rw [newEntry, actualLen_blockBytes, entryAt_blockBytes]
  dsimp only
  rw [UInt16.toNat_sub_of_le _ _ (UInt16.le_iff_toNat_le.mpr (by omega)), value, measured, BlockRecord.slack]

theorem newEntry_sized {buf : List UInt8} {offset : Nat} (short : name.length ≤ 255) :
    (newEntry buf offset inode name).nameLen.toNat = name.length ∧ (newEntry buf offset inode name).name = name := by
  have value : (UInt8.ofNat name.length).toNat = name.length :=
    UInt8.toNat_ofNat_of_lt' (lt_of_le_of_lt short (by decide))
  refine ⟨value, ?_⟩
  rw [newEntry, value, List.take_length]

/-- What the entry behind a record says. -/
theorem exists_newEntry (front back : List BlockRecord) (record : BlockRecord) (inode : UInt32)
    (short : name.length ≤ 255) :
    ∃ new : DirEntry, newEntry (blockBytes (front ++ record :: back)) (blockBytes front).length inode name = new ∧
      new.inode = inode ∧ new.name = name ∧ new.nameLen = UInt8.ofNat name.length ∧
      new.name.length = new.nameLen.toNat ∧ new.recLen.toNat = record.slack := by
  obtain ⟨nameLen, stored⟩ :=
    @newEntry_sized inode name (blockBytes (front ++ record :: back)) (blockBytes front).length short
  exact ⟨_, rfl, rfl, stored, rfl, by rw [stored, nameLen], newEntry_recLen⟩

/-- The block after a split: the record is cut down, and the new entry lies over what follows. -/
theorem addEntry_eq :
    addEntry (blockBytes (front ++ record :: back)) (blockBytes front).length inode name =
      blockBytes front ++ (record.shortBytes ++
        overwrite (record.bytes.drop (neededLen (loadDirEntry record.bytes).nameLen) ++ blockBytes back) 0
          (newEntry (blockBytes (front ++ record :: back)) (blockBytes front).length inode name).bytes) := by
  have room := neededLen_le (loadDirEntry record.bytes).nameLen
  have kept := record.length_take
  unfold addEntry
  dsimp only
  rw [actualLen_blockBytes, BlockRecord.shortBytes]
  generalize (newEntry (blockBytes (front ++ record :: back)) (blockBytes front).length inode name).bytes = new
  generalize neededLen (loadDirEntry record.bytes).nameLen = needed at room kept ⊢
  have shape : blockBytes (front ++ record :: back) =
      blockBytes front ++ (record.bytes.take needed ++ (record.bytes.drop needed ++ blockBytes back)) := by
    rw [blockBytes_append, blockBytes_cons, ← List.append_assoc (List.take _ _), List.take_append_drop]
  have behind := overwrite_append_right (record.bytes.take needed) (record.bytes.drop needed ++ blockBytes back) new 0
  rw [kept, Nat.add_zero] at behind
  rw [shape, overwrite_append_right, behind, overwrite_append_right,
    overwrite_append_left _ (by rw [kept, length_leBytes]; omega)]

/-- A split that stays inside keeps the length of the block. -/
theorem length_addEntry {buf : List UInt8} {offset : Nat} (short : name.length ≤ 255)
    (inside : offset + actualLen buf offset + 8 + name.length ≤ buf.length) :
    (addEntry buf offset inode name).length = buf.length := by
  obtain ⟨_, stored⟩ := @newEntry_sized inode name buf offset short
  have room : 8 ≤ actualLen buf offset := (Nat.le_add_right _ _).trans (neededLen_le _)
  have written : (overwrite buf (offset + actualLen buf offset) (newEntry buf offset inode name).bytes).length =
      buf.length := by
    apply length_overwrite
    rw [length_bytes, stored]
    omega
  unfold addEntry
  dsimp only
  rw [length_overwrite, written]
  rw [written, length_leBytes]
  omega

/-- If the slack has room for the new entry, the block is tiled again, with one entry more. -/
theorem addEntry_tiled (short : name.length ≤ 255) (fits : neededLen (UInt8.ofNat name.length) ≤ record.slack) :
    ∃ added : BlockRecord, added.entry = (inode, name) ∧
      addEntry (blockBytes (front ++ record :: back)) (blockBytes front).length inode name =
        blockBytes (front ++ record.shortened :: added :: back) := by
  obtain ⟨new, written, number, stored, nameLen, sized, recLen⟩ := exists_newEntry front back record inode short
  have size : new.bytes.length ≤ record.slack := by
    have room := neededLen_le (UInt8.ofNat name.length)
    rw [length_bytes, sized, nameLen]
    exact room.trans fits
  have drop := record.length_drop
  have length : (overwrite (record.bytes.drop (neededLen (loadDirEntry record.bytes).nameLen)) 0 new.bytes).length =
      record.slack := by
    rw [length_overwrite (by omega), drop]
  have loaded : loadDirEntry (overwrite (record.bytes.drop (neededLen (loadDirEntry record.bytes).nameLen)) 0 new.bytes) =
      new := by
    rw [overwrite_zero, loadDirEntry_bytes new sized]
  let added : BlockRecord :=
    { bytes := overwrite (record.bytes.drop (neededLen (loadDirEntry record.bytes).nameLen)) 0 new.bytes
      measured := by rw [loaded, recLen, length]
      covers := by rwa [loaded, nameLen, length] }
  refine ⟨added, ?_, ?_⟩
  · rw [BlockRecord.entry, loaded, number, stored]
  · rw [addEntry_eq, written, overwrite_append_left _ (by omega), blockBytes_append, blockBytes_cons, blockBytes_cons]
    rfl

/-- If it has none, no records tile the block. -/
theorem addEntry_not_tiled (short : name.length ≤ 255)
    (tight : record.slack < neededLen (UInt8.ofNat name.length)) (records : List BlockRecord) :
    addEntry (blockBytes (front ++ record :: back)) (blockBytes front).length inode name ≠ blockBytes records := by
  intro tiled
  obtain ⟨new, written, _, _, nameLen, sized, recLen⟩ := exists_newEntry front back record inode short
  rw [addEntry_eq, overwrite_zero, written] at tiled
  have front_ : blockBytes (front ++ [record.shortened]) = blockBytes front ++ record.shortBytes := by
    rw [blockBytes_append, blockBytes_cons, blockBytes_nil, List.append_nil]
    rfl
  rw [← List.append_assoc, ← front_] at tiled
  obtain ⟨rest, rfl, behind⟩ := prefix_of_blockBytes tiled.symm
  have long := length_bytes new
  cases rest with
  | nil =>
      have lengths := congrArg List.length behind
      rw [blockBytes_nil, List.length_nil, List.length_append] at lengths
      omega
  | cons next rest =>
      -- the record behind the one that was split is the new entry, and too short for it
      have loaded := congrArg loadDirEntry behind
      rw [blockBytes_cons, next.load_append, loadDirEntry_bytes new sized] at loaded
      have measured := next.measured
      have covers := next.covers
      rw [loaded, recLen] at measured
      rw [loaded, nameLen, ← measured] at covers
      omega

end Splitting

end KeblaOS.Ext2
