import KeblaOS.Lib.RecordWalk
import KeblaOS.Ext2.Blocks

/-!
# Walks over a directory block

`ext2_list_dir` goes over the records of a block up to the size of the directory, and
`ext2_create_dir` up to the end of the block or to the first record that is longer than its entry
needs. Both add `rec_len` to the offset without looking at it. An array of one block is known by
its declared size; what lies in it is arbitrary. Printing is left out.
-/

namespace KeblaOS.Ext2

open KeblaOS.Buffer
open KeblaOS.Fat32 (Disk)

/-! ## Entries -/

/-- The directory entry at an offset of a buffer. -/
def entryAt (buf : List UInt8) (offset : Nat) : DirEntry := loadDirEntry (buf.drop offset)

/-- The offset behind the record at an offset. -/
def nextEntry (buf : List UInt8) (offset : UInt32) : UInt32 := offset + (entryAt buf offset.toNat).recLen.toUInt32

/-- `8 + ((name_len + 3) & ~3)`, the bytes an entry needs. -/
def neededLen (nameLen : UInt8) : Nat := 8 + (nameLen.toNat + 3) / 4 * 4

/-- `actual_len` of the record at an offset. -/
def actualLen (buf : List UInt8) (offset : Nat) : Nat := neededLen (entryAt buf offset).nameLen

/-- The record is longer than its entry needs. -/
def HasSlack (buf : List UInt8) (offset : UInt32) : Prop :=
  actualLen buf offset.toNat < (entryAt buf offset.toNat).recLen.toNat

instance (buf : List UInt8) (offset : UInt32) : Decidable (HasSlack buf offset) := Nat.decLt _ _

/-! ## The loops -/

/-- A round of `ext2_list_dir`. The name is copied if the entry is in use. -/
def listDirRound (buf : List UInt8) (blockSize iSize : UInt32) (offset : UInt32) : Round UInt32 Unit :=
  if offset < iSize then
    if blockSize.toNat < offset.toNat + 8 then .fault
    else if (entryAt buf offset.toNat).inode ≠ 0 ∧
        blockSize.toNat < offset.toNat + 8 + (entryAt buf offset.toNat).nameLen.toNat then .fault
    else .goes (nextEntry buf offset)
  else .ends ()

/-- `ext2_list_dir`, with a bound on the rounds of its loop. -/
def ext2ListDir (disk : Disk) (fs : Ext2Fs) (stackInode : Inode) (stack : Nat → UInt8) (inodeNo : UInt32) (fuel : Nat) :
    Option (Option Unit) :=
  let inode := (ext2ReadInode disk fs inodeNo).getD stackInode
  rounds (listDirRound (blockArray disk fs stack (inode.iBlock.getD 0 0)) fs.blockSize inode.iSize) fuel 0

/-- A round of the loop of `ext2_create_dir`: it ends with the offset of the record that is split,
or with none. The new entry with its name is written behind the one that stays. -/
def createDirRound (buf : List UInt8) (blockSize : UInt32) (nameLen : UInt8) (offset : UInt32) :
    Round UInt32 (Option UInt32) :=
  if offset < blockSize then
    if blockSize.toNat < offset.toNat + 8 then .fault
    else if HasSlack buf offset then
      if blockSize.toNat < offset.toNat + actualLen buf offset.toNat + 8 + nameLen.toNat then .fault
      else .ends (some offset)
    else .goes (nextEntry buf offset)
  else .ends none

/-! ## When they stay inside -/

/-- The header of the record lies in the block, and its name, if the entry is in use. -/
structure EntryInside (buf : List UInt8) (blockSize : UInt32) (offset : UInt32) : Prop where
  header : offset.toNat + 8 ≤ blockSize.toNat
  name : (entryAt buf offset.toNat).inode ≠ 0 →
    offset.toNat + 8 + (entryAt buf offset.toNat).nameLen.toNat ≤ blockSize.toNat

/-- Every record `ext2_list_dir` gets to lies in the block and has a length. -/
def ListDirSound (buf : List UInt8) (blockSize iSize : UInt32) : Prop :=
  ∀ offset, Meets (· < iSize) (nextEntry buf) 0 offset → offset < iSize →
    EntryInside buf blockSize offset ∧ (entryAt buf offset.toNat).recLen ≠ 0

/-- The header of the record lies in the block, and if it is split also the new entry. -/
structure SplitInside (buf : List UInt8) (blockSize : UInt32) (nameLen : UInt8) (offset : UInt32) : Prop where
  header : offset.toNat + 8 ≤ blockSize.toNat
  new : HasSlack buf offset → offset.toNat + actualLen buf offset.toNat + 8 + nameLen.toNat ≤ blockSize.toNat

/-- Every record `ext2_create_dir` gets to lies in the block, with the new entry if it is the one
that is split, and has a length. -/
def CreateDirSound (buf : List UInt8) (blockSize : UInt32) (nameLen : UInt8) : Prop :=
  ∀ offset, Meets (fun offset => offset < blockSize ∧ ¬ HasSlack buf offset) (nextEntry buf) 0 offset →
    offset < blockSize → SplitInside buf blockSize nameLen offset ∧ (entryAt buf offset.toNat).recLen ≠ 0

section Walks

variable {buf : List UInt8} {blockSize iSize offset : UInt32} {nameLen : UInt8}

theorem rounds_listDir : Rounds (listDirRound buf blockSize iSize) (· < iSize)
    (fun offset => offset < iSize → EntryInside buf blockSize offset) (nextEntry buf) where
  goes offset safe inside := by
    obtain ⟨header, name⟩ := safe inside
    rw [listDirRound, if_pos inside, if_neg (Nat.not_lt.mpr header), if_neg]
    rintro ⟨used, beyond⟩
    exact Nat.not_lt.mpr (name used) beyond
  ends offset _ finished := ⟨(), if_neg finished⟩
  fault offset harmful := by
    obtain ⟨inside, outside⟩ := Classical.not_imp.mp harmful
    rw [listDirRound, if_pos inside]
    split_ifs with header name
    · rfl
    · rfl
    · refine absurd ⟨Nat.not_lt.mp header, fun used => ?_⟩ outside
      exact Nat.not_lt.mp fun beyond => name ⟨used, beyond⟩

theorem rounds_createDir : Rounds (createDirRound buf blockSize nameLen)
    (fun offset => offset < blockSize ∧ ¬ HasSlack buf offset)
    (fun offset => offset < blockSize → SplitInside buf blockSize nameLen offset) (nextEntry buf) where
  goes offset safe passed := by
    obtain ⟨inside, exact_⟩ := passed
    rw [createDirRound, if_pos inside, if_neg (Nat.not_lt.mpr (safe inside).header), if_neg exact_]
  ends offset safe stops := by
    by_cases inside : offset < blockSize
    · have slack : HasSlack buf offset := by
        by_contra none
        exact stops ⟨inside, none⟩
      refine ⟨some offset, ?_⟩
      rw [createDirRound, if_pos inside, if_neg (Nat.not_lt.mpr (safe inside).header), if_pos slack,
        if_neg (Nat.not_lt.mpr ((safe inside).new slack))]
    · exact ⟨none, if_neg inside⟩
  fault offset harmful := by
    obtain ⟨inside, outside⟩ := Classical.not_imp.mp harmful
    rw [createDirRound, if_pos inside]
    split_ifs with header slack beyond
    · rfl
    · rfl
    · exact absurd ⟨Nat.not_lt.mp header, fun _ => Nat.not_lt.mp beyond⟩ outside
    · exact absurd ⟨Nat.not_lt.mp header, fun some => absurd some slack⟩ outside

/-- In a block of at most `2 ^ 31` bytes the offset of the next record does not wrap. -/
theorem toNat_nextEntry (small : blockSize.toNat ≤ 2 ^ 31) (inside : offset.toNat + 8 ≤ blockSize.toNat) :
    (nextEntry buf offset).toNat = offset.toNat + (entryAt buf offset.toNat).recLen.toNat := by
  have bound := (entryAt buf offset.toNat).recLen.toNat_lt
  rw [nextEntry, UInt32.toNat_add, UInt16.toNat_toUInt32]
  exact Nat.mod_eq_of_lt (by omega)

/-- A record with a length leads closer to the end of the block. -/
theorem nextEntry_closer (small : blockSize.toNat ≤ 2 ^ 31) (inside : offset.toNat + 8 ≤ blockSize.toNat)
    (some : (entryAt buf offset.toNat).recLen ≠ 0) :
    blockSize.toNat - (nextEntry buf offset).toNat < blockSize.toNat - offset.toNat := by
  have positive : (entryAt buf offset.toNat).recLen.toNat ≠ 0 := fun zero => some (UInt16.toNat_inj.mp zero)
  rw [toNat_nextEntry small inside]
  omega

theorem nextEntry_stays (none : ¬ (entryAt buf offset.toNat).recLen ≠ 0) : nextEntry buf offset = offset := by
  rw [nextEntry, not_not.mp none]
  exact UInt32.add_zero offset

/-- `ext2_list_dir` completes exactly when its records lie in the block and have a length. -/
theorem listDir_completes_iff (small : blockSize.toNat ≤ 2 ^ 31) :
    Completes (listDirRound buf blockSize iSize) 0 ↔ ListDirSound buf blockSize iSize := by
  have walk := @Rounds.completes_iff_of_measure _ _ _ _ _ _ 0 (fun offset => (entryAt buf offset.toNat).recLen ≠ 0)
    (fun offset => blockSize.toNat - offset.toNat) (@rounds_listDir buf blockSize iSize)
    (fun offset safe inside some => nextEntry_closer small (safe inside).header some)
    fun offset _ _ none => nextEntry_stays none
  refine walk.trans (forall₂_congr fun offset _ => ?_)
  exact imp_and.symm

/-- On any volume `ext2_list_dir` ends inside of its block exactly when this block is sound. -/
theorem ext2ListDir_ends_iff {disk : Fat32.Disk} {fs : Ext2Fs} {stackInode : Inode} {stack : Nat → UInt8}
    {inodeNo : UInt32} (sized : fs.BlockSized) :
    (∃ fuel, ext2ListDir disk fs stackInode stack inodeNo fuel = some (some ())) ↔
      ListDirSound (blockArray disk fs stack (((ext2ReadInode disk fs inodeNo).getD stackInode).iBlock.getD 0 0))
        fs.blockSize ((ext2ReadInode disk fs inodeNo).getD stackInode).iSize := by
  rw [← listDir_completes_iff sized.le]
  constructor
  · rintro ⟨fuel, ended⟩
    exact ⟨(), fuel, ended⟩
  · rintro ⟨⟨⟩, fuel, ended⟩
    exact ⟨fuel, ended⟩

/-- The same for the loop of `ext2_create_dir`; the record it splits has a length. -/
theorem createDir_completes_iff (small : blockSize.toNat ≤ 2 ^ 31) :
    Completes (createDirRound buf blockSize nameLen) 0 ↔ CreateDirSound buf blockSize nameLen := by
  have walk := @Rounds.completes_iff_of_measure _ _ _ _ _ _ 0 (fun offset => (entryAt buf offset.toNat).recLen ≠ 0)
    (fun offset => blockSize.toNat - offset.toNat) (@rounds_createDir buf blockSize nameLen)
    (fun offset safe passed some => nextEntry_closer small (safe passed.1).header some)
    fun offset _ _ none => nextEntry_stays none
  refine walk.trans (forall₂_congr fun offset _ => ?_)
  constructor
  · rintro ⟨safe, some⟩ inside
    refine ⟨safe inside, ?_⟩
    by_cases slack : HasSlack buf offset
    · intro zero
      rw [HasSlack, zero] at slack
      exact Nat.not_lt_zero _ slack
    · exact some ⟨inside, slack⟩
  · intro sound
    exact ⟨fun inside => (sound inside).1, fun passed => (sound passed.1).2⟩

end Walks

end KeblaOS.Ext2
