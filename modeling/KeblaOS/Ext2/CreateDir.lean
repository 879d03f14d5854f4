import KeblaOS.Ext2.Bitmaps
import KeblaOS.Ext2.DirectoryRecords

/-!
# Creating a directory

`ext2_create_dir` takes an inode and a block before it knows that it can use them, and gives
neither back when there is only one of them or no slack in the parent directory. It splits the
first record that has any slack, whether or not the new entry fits in.
-/

namespace KeblaOS.Ext2

open KeblaOS.Buffer
open KeblaOS.Fat32 (Disk sectorAt length_sectorAt)

/-! ## Inodes on disk -/

/-- The group of an inode. -/
def inodeGroup (fs : Ext2Fs) (inodeNo : UInt32) : UInt32 := (inodeNo - 1) / fs.super.sInodesPerGroup

/-- The distance of an inode from the start of its table. -/
def inodeDistance (fs : Ext2Fs) (inodeNo : UInt32) : UInt32 :=
  (inodeNo - 1) % fs.super.sInodesPerGroup * fs.super.sInodeSize.toUInt32

/-- The block of an inode. -/
def inodeBlock (fs : Ext2Fs) (inodeNo : UInt32) : UInt32 :=
  (loadGroupDesc (slice fs.groups (32 * (inodeGroup fs inodeNo).toNat) 32)).bgInodeTable +
    inodeDistance fs inodeNo / fs.blockSize

/-- The offset of an inode in its block. -/
def inodeOffset (fs : Ext2Fs) (inodeNo : UInt32) : UInt32 := inodeDistance fs inodeNo % fs.blockSize

theorem ext2ReadInode_eq (disk : Disk) (fs : Ext2Fs) (inodeNo : UInt32) :
    ext2ReadInode disk fs inodeNo = (ext2ReadBlock disk fs (inodeBlock fs inodeNo)).map fun bytes =>
      loadInode (slice bytes (inodeOffset fs inodeNo).toNat 128) := rfl

/-! ## `ext2_create_dir` -/

/-- What the variables of `ext2_create_dir` hold before they are read into. -/
structure CreateStack where
  inodeBitmap : Nat → UInt8
  blockBitmap : Nat → UInt8
  buf : Nat → UInt8
  parent : Inode
  parentBuf : Nat → UInt8

/-- The inode of a new directory. -/
def newDirInode (fs : Ext2Fs) (newBlock : UInt32) : Inode where
  iMode := 0x4000 ||| 0o755
  iUid := 0
  iSize := fs.blockSize
  iGid := 0
  iLinksCount := 2
  iBlocks := 2
  iBlock := newBlock :: List.replicate 14 0

/-- Storing the new inode. There is no result if a divisor is zero or the code leaves an array. -/
def storeInode (disk : Disk) (fs : Ext2Fs) (buf : Nat → UInt8) (newInodeNo : UInt32) (inode : Inode) : Option Disk :=
  if fs.super.sInodesPerGroup = 0 ∨ fs.blockSize = 0 then none
  else if fs.groups.length < 32 * (inodeGroup fs newInodeNo).toNat + 32 then none
  else if fs.blockSize.toNat < (inodeOffset fs newInodeNo).toNat + 128 then none
  else
    let block := inodeBlock fs newInodeNo
    some (ext2WriteBlock disk fs block
      (overwrite (blockArray disk fs buf block) (inodeOffset fs newInodeNo).toNat inode.bytes))

/-- The block of a new directory. -/
def newDirBlock (fs : Ext2Fs) (newInodeNo parentInodeNo : UInt32) : List UInt8 :=
  let dot : DirEntry := ⟨newInodeNo, 12, 1, 2, [0x2E]⟩
  let dotdot : DirEntry := ⟨parentInodeNo, (fs.blockSize - 12).toUInt16, 2, 2, [0x2E, 0x2E]⟩
  overwrite (overwrite (List.replicate fs.blockSize.toNat 0) 0 dot.bytes) 12 dotdot.bytes

/-- `ext2_create_dir`, with a bound on the rounds of its loop: `none` if they do not suffice,
`some none` if a divisor is zero or the code leaves an array. -/
def ext2CreateDir (disk : Disk) (fs : Ext2Fs) (stack : CreateStack) (parentInodeNo : UInt32) (name : List UInt8)
    (fuel : Nat) : Option (Option (Bool × Disk)) :=
  match ext2AllocInode disk fs stack.inodeBitmap with
  | none => some none
  | some (newInodeNo, disk) =>
      match ext2AllocBlock disk fs stack.blockBitmap with
      | none => some none
      | some (newBlock, disk) =>
          if newInodeNo = 0 ∨ newBlock = 0 then some (some (false, disk))
          else
            match storeInode disk fs stack.buf newInodeNo (newDirInode fs newBlock) with
            | none => some none
            | some disk =>
                let disk := ext2WriteBlock disk fs newBlock (newDirBlock fs newInodeNo parentInodeNo)
                let parent := (ext2ReadInode disk fs parentInodeNo).getD stack.parent
                let parentBlock := parent.iBlock.getD 0 0
                let parentBuf := blockArray disk fs stack.parentBuf parentBlock
                (rounds (createDirRound parentBuf fs.blockSize (UInt8.ofNat name.length)) fuel 0).map
                  (·.map fun
                    | none => (false, disk)
                    | some offset =>
                        (true, ext2WriteBlock disk fs parentBlock (addEntry parentBuf offset.toNat newInodeNo name)))

/-! ## The parent directory -/

/-- The number of an inode of the volume. -/
def IsInode (fs : Ext2Fs) (inodeNo : UInt32) : Prop := inodeNo ≠ 0 ∧ inodeNo ≤ fs.super.sInodesCount

/-- The block is marked as used in the bitmap. -/
def Marked (disk : Disk) (fs : Ext2Fs) (block : UInt32) : Prop :=
  ∀ bitmap, ext2ReadBlock disk fs fs.firstGroup.bgBlockBitmap = some bitmap → bitSet bitmap block.toNat = true

/-- The inode of the parent can be read and names its block. -/
structure NamesBlock (disk : Disk) (fs : Ext2Fs) (parentInodeNo parentBlock : UInt32) : Prop where
  room : (inodeOffset fs parentInodeNo).toNat + 128 ≤ fs.blockSize.toNat
  inode : ∃ inode, ext2ReadInode disk fs parentInodeNo = some inode ∧ inode.iBlock.getD 0 0 = parentBlock

/-- An inode has a place: no divisor is zero, and the place is inside of the arrays. -/
structure HasPlace (fs : Ext2Fs) (inodeNo : UInt32) : Prop where
  perGroup : fs.super.sInodesPerGroup ≠ 0
  positive : fs.blockSize ≠ 0
  group : 32 * (inodeGroup fs inodeNo).toNat + 32 ≤ fs.groups.length
  room : (inodeOffset fs inodeNo).toNat + 128 ≤ fs.blockSize.toNat

/-- Both bitmaps, the new inode and the new block are written without touching the parent's inode and block. -/
structure KeepsParent (fs : Ext2Fs) (parentInodeNo parentBlock inodeNo newBlock : UInt32) : Prop where
  block : parentBlock ∉
    [fs.firstGroup.bgInodeBitmap, fs.firstGroup.bgBlockBitmap, inodeBlock fs inodeNo, newBlock]
  inode : inodeBlock fs parentInodeNo ∉ [fs.firstGroup.bgInodeBitmap, fs.firstGroup.bgBlockBitmap, newBlock]
  apart : inodeBlock fs parentInodeNo = inodeBlock fs inodeNo →
    (inodeOffset fs inodeNo).toNat + 128 ≤ (inodeOffset fs parentInodeNo).toNat ∨
      (inodeOffset fs parentInodeNo).toNat + 128 ≤ (inodeOffset fs inodeNo).toNat

/-! ## What should happen -/

/-- `ext2_create_dir` ends without leaving an array. If it returns true, records tile the block of
the parent again and say what they said before, with one entry more of the name. If it returns
false, no sector has changed. -/
def CreatesDirectory (disk : Disk) (fs : Ext2Fs) (stack : CreateStack) (parentInodeNo parentBlock : UInt32)
    (records : List BlockRecord) (name : List UInt8) : Prop :=
  ∃ fuel done after, ext2CreateDir disk fs stack parentInodeNo name fuel = some (some (done, after)) ∧
    (done = true → ∃ records' front new back,
      ext2ReadBlock after fs parentBlock = some (blockBytes records') ∧
        records.map BlockRecord.entry = front ++ back ∧
        records'.map BlockRecord.entry = front ++ new :: back ∧ new.2 = name) ∧
    (done = false → ∀ x, after.sector x = disk.sector x)

/-- All bits below the total are set. -/
def AllSet (disk : Disk) (fs : Ext2Fs) (block total : UInt32) : Prop :=
  ∀ bitmap, ext2ReadBlock disk fs block = some bitmap → ∀ i < total.toNat, bitSet bitmap i = true

/-- The first record with slack has room for a name. -/
def FirstSlackFits (records : List BlockRecord) (name : List UInt8) : Prop :=
  ∃ front record back, records = front ++ record :: back ∧ (∀ other ∈ front, other.slack = 0) ∧
    neededLen (UInt8.ofNat name.length) ≤ record.slack

/-- The first clear bit of the bitmap in this block, below the total. -/
def FirstFree (disk : Disk) (fs : Ext2Fs) (block total : UInt32) (i : Nat) : Prop :=
  ∃ bitmap, ext2ReadBlock disk fs block = some bitmap ∧ i < total.toNat ∧ i < 8 * bitmap.length ∧ FirstClear bitmap i

/-- There are an inode and a block to take, in different bitmaps. The inode has a place, what is written leaves the parent
alone, and the first slack has room. -/
def TakesBoth (disk : Disk) (fs : Ext2Fs) (parentInodeNo parentBlock : UInt32) (records : List BlockRecord)
    (name : List UInt8) : Prop :=
  fs.firstGroup.bgInodeBitmap ≠ fs.firstGroup.bgBlockBitmap ∧ ∃ i j, FirstFree disk fs fs.firstGroup.bgInodeBitmap fs.super.sInodesCount i ∧
    FirstFree disk fs fs.firstGroup.bgBlockBitmap fs.super.sBlocksCount j ∧ HasPlace fs (UInt32.ofNat i + 1) ∧
    KeepsParent fs parentInodeNo parentBlock (UInt32.ofNat i + 1) (UInt32.ofNat j) ∧ FirstSlackFits records name

/-- The allocators stay in their bitmaps, block 0 is marked, and either both bitmaps are full or both an inode and a block
are taken for an entry that fits in. -/
structure CreateDirFits (disk : Disk) (fs : Ext2Fs) (parentInodeNo parentBlock : UInt32) (records : List BlockRecord)
    (name : List UInt8) : Prop where
  inodes : EndsInBitmap disk fs fs.firstGroup.bgInodeBitmap fs.super.sInodesCount
  blocks : EndsInBitmap disk fs fs.firstGroup.bgBlockBitmap fs.super.sBlocksCount
  zero : Marked disk fs 0
  fits : (AllSet disk fs fs.firstGroup.bgInodeBitmap fs.super.sInodesCount ∧
      AllSet disk fs fs.firstGroup.bgBlockBitmap fs.super.sBlocksCount) ∨
    TakesBoth disk fs parentInodeNo parentBlock records name

/-- The bitmaps are blocks of the volume, and the blocks that are written for an inode and a block to take are different
and leave the parent alone. -/
structure Intact (disk : Disk) (fs : Ext2Fs) (parentInodeNo parentBlock : UInt32) : Prop where
  inodeBitmap : fs.firstGroup.bgInodeBitmap < fs.super.sBlocksCount
  blockBitmap : fs.firstGroup.bgBlockBitmap < fs.super.sBlocksCount
  bitmaps : fs.firstGroup.bgInodeBitmap ≠ fs.firstGroup.bgBlockBitmap
  written : ∀ i j, FirstFree disk fs fs.firstGroup.bgInodeBitmap fs.super.sInodesCount i →
    FirstFree disk fs fs.firstGroup.bgBlockBitmap fs.super.sBlocksCount j → j ≠ 0 →
    fs.firstGroup.bgInodeBitmap ∉ [inodeBlock fs (UInt32.ofNat i + 1), UInt32.ofNat j] ∧
      KeepsParent fs parentInodeNo parentBlock (UInt32.ofNat i + 1) (UInt32.ofNat j)

/-! ## The writes -/

section Writes

variable {disk : Disk} {fs : Ext2Fs} {block : UInt32} {bitmap : List UInt8} {i : Nat}

/-- A bit that is set in a bitmap on disk can be seen. -/
theorem changed_of_bit {after : Disk} (read : ext2ReadBlock disk fs block = some bitmap)
    (marked : ext2ReadBlock after fs block = some (setBit bitmap i)) (clear : bitSet bitmap i = false)
    (inside : i < 8 * bitmap.length) : ¬ ∀ x, after.sector x = disk.sector x := by
  intro same
  have equal := @ext2ReadBlock_congr disk fs block after fun x _ => same x
  rw [marked, read] at equal
  have bit := bitSet_setBit inside i
  rw [Option.some.inj equal, clear] at bit
  simp at bit

theorem Inode.length_bytes (inode : Inode) (pointers : inode.iBlock.length = 15) : inode.bytes.length = 128 := by
  have flat : (inode.iBlock.flatMap fun block => leBytes 4 block.toNat).length = 4 * inode.iBlock.length := by
    rw [List.flatMap_def, @length_flatten_of_forall UInt8 4 _ (by simp), List.length_map]
  simp only [Inode.bytes, List.length_append, length_leBytes, flat, pointers]

theorem length_newDirInode (fs : Ext2Fs) (newBlock : UInt32) : (newDirInode fs newBlock).bytes.length = 128 := by
  apply Inode.length_bytes
  simp [newDirInode]

theorem EndsInBitmap.congr {after : Disk} {total : UInt32}
    (same : ext2ReadBlock after fs block = ext2ReadBlock disk fs block) :
    EndsInBitmap after fs block total ↔ EndsInBitmap disk fs block total := by
  constructor
  · rintro ⟨readable, ends⟩
    exact ⟨readable, by rwa [same] at ends⟩
  · rintro ⟨readable, ends⟩
    exact ⟨readable, by rwa [same]⟩

end Writes

/-! ## A volume where both bitmaps have a clear bit -/

section Allocated

variable {disk : Disk} {fs : Ext2Fs} {parentInodeNo parentBlock : UInt32} {inodeBits blockBits : List UInt8} {i j : Nat}

/-- The inode and the block that are taken. -/
structure Taken (disk : Disk) (fs : Ext2Fs) (inodeBits blockBits : List UInt8) (i j : Nat) : Prop where
  inodeBitmap : ext2ReadBlock disk fs fs.firstGroup.bgInodeBitmap = some inodeBits
  blockBitmap : ext2ReadBlock disk fs fs.firstGroup.bgBlockBitmap = some blockBits
  inode : i < fs.super.sInodesCount.toNat
  inodeInside : i < 8 * inodeBits.length
  inodeClear : bitSet inodeBits i = false
  block : j < fs.super.sBlocksCount.toNat
  blockInside : j < 8 * blockBits.length
  blockClear : bitSet blockBits j = false
  positive : j ≠ 0

theorem Taken.toNat_inode (taken : Taken disk fs inodeBits blockBits i j) :
    (UInt32.ofNat i + 1).toNat = i + 1 ∧ IsInode fs (UInt32.ofNat i + 1) := by
  have bound := fs.super.sInodesCount.toNat_lt
  have below := taken.inode
  have value : (UInt32.ofNat i + 1).toNat = i + 1 := by
    rw [UInt32.toNat_add, UInt32.toNat_ofNat_of_lt' (below.trans bound)]
    exact Nat.mod_eq_of_lt (by change i + 1 < _; omega)
  refine ⟨value, fun zero => ?_, ?_⟩
  · rw [zero] at value
    exact absurd value (Nat.succ_ne_zero i).symm
  · rw [UInt32.le_iff_toNat_le, value]
    exact below

theorem Taken.toNat_block (taken : Taken disk fs inodeBits blockBits i j) : (UInt32.ofNat j).toNat = j :=
  UInt32.toNat_ofNat_of_lt' (taken.block.trans fs.super.sBlocksCount.toNat_lt)

/-- The disk when the loop over the parent directory starts. -/
def linkedDisk (disk : Disk) (fs : Ext2Fs) (buf : Nat → UInt8) (parentInodeNo : UInt32) (inodeBits blockBits : List UInt8)
    (i j : Nat) : Disk :=
  let disk := ext2WriteBlock disk fs fs.firstGroup.bgInodeBitmap (setBit inodeBits i)
  let disk := ext2WriteBlock disk fs fs.firstGroup.bgBlockBitmap (setBit blockBits j)
  let disk := ext2WriteBlock disk fs (inodeBlock fs (UInt32.ofNat i + 1))
    (overwrite (blockArray disk fs buf (inodeBlock fs (UInt32.ofNat i + 1)))
      (inodeOffset fs (UInt32.ofNat i + 1)).toNat (newDirInode fs (UInt32.ofNat j)).bytes)
  ext2WriteBlock disk fs (UInt32.ofNat j) (newDirBlock fs (UInt32.ofNat i + 1) parentInodeNo)

variable {buf : Nat → UInt8}

/-- The other blocks are as before. -/
theorem ext2ReadBlock_linkedDisk {block : UInt32} (other : block ∉ [fs.firstGroup.bgInodeBitmap,
      fs.firstGroup.bgBlockBitmap, inodeBlock fs (UInt32.ofNat i + 1), UInt32.ofNat j]) :
    ext2ReadBlock (linkedDisk disk fs buf parentInodeNo inodeBits blockBits i j) fs block =
      ext2ReadBlock disk fs block := by
  simp only [List.mem_cons, List.not_mem_nil, or_false, not_or] at other
  obtain ⟨inodeBitmap, blockBitmap, table, new⟩ := other
  unfold linkedDisk
  dsimp only
  rw [ext2ReadBlock_write_of_ne new, ext2ReadBlock_write_of_ne table, ext2ReadBlock_write_of_ne blockBitmap,
    ext2ReadBlock_write_of_ne inodeBitmap]

/-- The inode bitmap has a bit more. -/
theorem inodeBitmap_linkedDisk (sized : fs.BlockSized) (bitmaps : fs.firstGroup.bgInodeBitmap ≠ fs.firstGroup.bgBlockBitmap)
    (kept : fs.firstGroup.bgInodeBitmap ∉ [inodeBlock fs (UInt32.ofNat i + 1), UInt32.ofNat j])
    (read : ext2ReadBlock disk fs fs.firstGroup.bgInodeBitmap = some inodeBits) :
    ext2ReadBlock (linkedDisk disk fs buf parentInodeNo inodeBits blockBits i j) fs fs.firstGroup.bgInodeBitmap =
      some (setBit inodeBits i) := by
  simp only [List.mem_cons, List.not_mem_nil, or_false, not_or] at kept
  obtain ⟨table, new⟩ := kept
  unfold linkedDisk
  dsimp only
  rw [ext2ReadBlock_write_of_ne new, ext2ReadBlock_write_of_ne table, ext2ReadBlock_write_of_ne bitmaps]
  exact ext2ReadBlock_setBit sized read

/-- The inode of the parent directory is as before. -/
theorem parentInode_linkedDisk (sized : fs.BlockSized) (place : HasPlace fs (UInt32.ofNat i + 1))
    (parent : NamesBlock disk fs parentInodeNo parentBlock)
    (keeps : KeepsParent fs parentInodeNo parentBlock (UInt32.ofNat i + 1) (UInt32.ofNat j)) :
    ext2ReadInode (linkedDisk disk fs buf parentInodeNo inodeBits blockBits i j) fs parentInodeNo =
      ext2ReadInode disk fs parentInodeNo := by
  obtain ⟨inode, loaded, _⟩ := parent.inode
  have others := keeps.inode
  simp only [List.mem_cons, List.not_mem_nil, or_false, not_or] at others
  obtain ⟨inodeBitmap, blockBitmap, new⟩ := others
  rw [ext2ReadInode_eq] at loaded ⊢
  obtain ⟨content, read, _⟩ := Option.map_eq_some_iff.mp loaded
  have inRange : inodeBlock fs parentInodeNo < fs.super.sBlocksCount := ext2ReadBlock_isSome_iff.mp (by rw [read]; rfl)
  rw [ext2ReadInode_eq]
  by_cases same : inodeBlock fs parentInodeNo = inodeBlock fs (UInt32.ofNat i + 1)
  · have size := length_ext2ReadBlock sized read
    have room := place.room
    have bytes := length_newDirInode fs (UInt32.ofNat j)
    have before : ext2ReadBlock (ext2WriteBlock (ext2WriteBlock disk fs fs.firstGroup.bgInodeBitmap (setBit inodeBits i)) fs
        fs.firstGroup.bgBlockBitmap (setBit blockBits j)) fs (inodeBlock fs (UInt32.ofNat i + 1)) = some content := by
      rw [← same, ext2ReadBlock_write_of_ne blockBitmap, ext2ReadBlock_write_of_ne inodeBitmap, read]
    have written : ext2ReadBlock (linkedDisk disk fs buf parentInodeNo inodeBits blockBits i j) fs
        (inodeBlock fs (UInt32.ofNat i + 1)) = some (overwrite content (inodeOffset fs (UInt32.ofNat i + 1)).toNat
          (newDirInode fs (UInt32.ofNat j)).bytes) := by
      unfold linkedDisk
      dsimp only
      rw [ext2ReadBlock_write_of_ne (same ▸ new), blockArray, before, Option.getD_some]
      exact ext2ReadBlock_write_self sized (same ▸ inRange) (by rw [length_overwrite (by omega), size])
    rw [same] at read
    rw [same, written, read, Option.map_some, Option.map_some]
    rcases keeps.apart same with behind | before
    · rw [slice_overwrite_after (by omega) (by omega)]
    · rw [slice_overwrite_before (by omega) before]
  · rw [ext2ReadBlock_linkedDisk (by
      simp only [List.mem_cons, List.not_mem_nil, or_false, not_or]
      exact ⟨inodeBitmap, blockBitmap, same, new⟩)]

/-- The new inode is stored in its place. -/
theorem storeInode_eq (place : HasPlace fs (UInt32.ofNat i + 1)) (disk : Disk) (inode : Inode) :
    storeInode disk fs buf (UInt32.ofNat i + 1) inode =
      some (ext2WriteBlock disk fs (inodeBlock fs (UInt32.ofNat i + 1))
        (overwrite (blockArray disk fs buf (inodeBlock fs (UInt32.ofNat i + 1)))
          (inodeOffset fs (UInt32.ofNat i + 1)).toNat inode.bytes)) := by
  have divisors : ¬ (fs.super.sInodesPerGroup = 0 ∨ fs.blockSize = 0) := not_or.mpr ⟨place.perGroup, place.positive⟩
  rw [storeInode, if_neg divisors, if_neg (Nat.not_lt.mpr place.group), if_neg (Nat.not_lt.mpr place.room)]

/-- Without a place it is not stored. -/
theorem storeInode_eq_none {inodeNo : UInt32} (nowhere : ¬ HasPlace fs inodeNo) (disk : Disk) (inode : Inode) :
    storeInode disk fs buf inodeNo inode = none := by
  rw [storeInode]
  split_ifs with divisors group room
  · rfl
  · rfl
  · rfl
  · obtain ⟨perGroup, positive⟩ := not_or.mp divisors
    exact absurd ⟨perGroup, positive, Nat.not_lt.mp group, Nat.not_lt.mp room⟩ nowhere

/-- The allocations of a call: they take this inode and this block. -/
structure Allocates (disk : Disk) (fs : Ext2Fs) (stack : CreateStack) (inodeBits blockBits : List UInt8) (i j : Nat) :
    Prop where
  inode : ext2AllocInode disk fs stack.inodeBitmap =
    some (UInt32.ofNat i + 1, ext2WriteBlock disk fs fs.firstGroup.bgInodeBitmap (setBit inodeBits i))
  block : ext2AllocBlock (ext2WriteBlock disk fs fs.firstGroup.bgInodeBitmap (setBit inodeBits i)) fs stack.blockBitmap =
    some (UInt32.ofNat j, ext2WriteBlock (ext2WriteBlock disk fs fs.firstGroup.bgInodeBitmap (setBit inodeBits i)) fs
      fs.firstGroup.bgBlockBitmap (setBit blockBits j))

section Linked

variable {stack : CreateStack} {records : List BlockRecord} {content name : List UInt8}
  (sized : fs.BlockSized) (parent : NamesBlock disk fs parentInodeNo parentBlock)
  (taken : Taken disk fs inodeBits blockBits i j) (allocates : Allocates disk fs stack inodeBits blockBits i j)

include taken in
theorem Taken.numbers_ne_zero : ¬ (UInt32.ofNat i + 1 = 0 ∨ UInt32.ofNat j = 0) := by
  rintro (zero | zero)
  · exact taken.toNat_inode.2.1 zero
  · have value := taken.toNat_block
    rw [zero] at value
    exact taken.positive value.symm

include taken allocates in
/-- Without a place for the inode the call leaves an array. -/
theorem ext2CreateDir_nowhere (nowhere : ¬ HasPlace fs (UInt32.ofNat i + 1)) (fuel : Nat) :
    ext2CreateDir disk fs stack parentInodeNo name fuel = some none := by
  unfold ext2CreateDir
  rw [allocates.inode]
  dsimp only
  rw [allocates.block]
  dsimp only
  rw [if_neg taken.numbers_ne_zero, storeInode_eq_none nowhere]

variable (place : HasPlace fs (UInt32.ofNat i + 1))
  (keeps : KeepsParent fs parentInodeNo parentBlock (UInt32.ofNat i + 1) (UInt32.ofNat j))

include sized parent taken allocates place keeps

/-- With an inode and a block taken, the outcome is that of the loop over the parent directory. -/
theorem ext2CreateDir_eq (read : ext2ReadBlock disk fs parentBlock = some content) (fuel : Nat) :
    ext2CreateDir disk fs stack parentInodeNo name fuel =
      (rounds (createDirRound content fs.blockSize (UInt8.ofNat name.length)) fuel 0).map (·.map fun
        | none => (false, linkedDisk disk fs stack.buf parentInodeNo inodeBits blockBits i j)
        | some offset => (true, ext2WriteBlock (linkedDisk disk fs stack.buf parentInodeNo inodeBits blockBits i j) fs
            parentBlock (addEntry content offset.toNat (UInt32.ofNat i + 1) name))) := by
  have loadedInode := @parentInode_linkedDisk disk fs parentInodeNo parentBlock inodeBits blockBits i j stack.buf sized
    place parent keeps
  have loadedBlock := @ext2ReadBlock_linkedDisk disk fs parentInodeNo inodeBits blockBits i j stack.buf _ keeps.block
  obtain ⟨found, there, named⟩ := parent.inode
  rw [there] at loadedInode
  have array : blockArray (linkedDisk disk fs stack.buf parentInodeNo inodeBits blockBits i j) fs stack.parentBuf
      parentBlock = content := by
    rw [blockArray, loadedBlock, read, Option.getD_some]
  unfold ext2CreateDir
  rw [allocates.inode]
  dsimp only
  rw [allocates.block]
  dsimp only
  rw [if_neg taken.numbers_ne_zero, storeInode_eq place]
  unfold linkedDisk at loadedInode array ⊢
  dsimp only at loadedInode array ⊢
  rw [loadedInode, Option.getD_some, named, array]

/-- With room in the first slack, the call creates the directory. -/
theorem creates_of_firstSlackFits (tiled : ext2ReadBlock disk fs parentBlock = some (blockBytes records))
    (short : name.length ≤ 255) (fits : FirstSlackFits records name) :
    CreatesDirectory disk fs stack parentInodeNo parentBlock records name := by
  obtain ⟨front, record, back, rfl, before, fits⟩ := fits
  have whole := length_ext2ReadBlock sized tiled
  have inRange : parentBlock < fs.super.sBlocksCount := ext2ReadBlock_isSome_iff.mp (by rw [tiled]; rfl)
  have nameLen : (UInt8.ofNat name.length).toNat = name.length :=
    UInt8.toNat_ofNat_of_lt' (lt_of_le_of_lt short (by decide))
  have room := neededLen_le (UInt8.ofNat name.length)
  have covers := record.covers
  have inside := (toNat_offset whole).2
  have loose : 0 < record.slack := by omega
  have ends : (blockBytes front).length + neededLen (loadDirEntry record.bytes).nameLen + 8 +
      (UInt8.ofNat name.length).toNat ≤ fs.blockSize.toNat := by
    rw [BlockRecord.slack] at fits
    omega
  obtain ⟨fuel, ended⟩ := (createDir_endsWith_iff whole before loose).mpr ⟨ends, rfl⟩
  obtain ⟨added, entry, stored⟩ := @addEntry_tiled front back record (UInt32.ofNat i + 1) name short fits
  have actual := @actualLen_blockBytes front back record
  have length := @length_addEntry (UInt32.ofNat i + 1) name (blockBytes (front ++ record :: back))
    (blockBytes front).length short (by omega)
  refine ⟨fuel, true, _, by rw [ext2CreateDir_eq sized parent taken allocates place keeps tiled, ended]; rfl,
    fun _ => ?_, fun no => absurd no (by decide)⟩
  refine ⟨front ++ record.shortened :: added :: back, (front ++ [record]).map BlockRecord.entry,
    (UInt32.ofNat i + 1, name), back.map BlockRecord.entry, ?_, ?_, ?_, rfl⟩
  · rw [(toNat_offset whole).1, ← stored]
    exact ext2ReadBlock_write_self sized inRange (length.trans whole)
  · rw [← List.map_append, List.append_assoc, List.singleton_append]
  · simp only [List.map_append, List.map_cons, List.map_nil, record.shortened_entry, entry, List.append_assoc,
      List.singleton_append]

/-- It does right only then: without any slack the inode stays taken, and without room an entry is lost. -/
theorem firstSlackFits_of_creates (bitmaps : fs.firstGroup.bgInodeBitmap ≠ fs.firstGroup.bgBlockBitmap)
    (kept : fs.firstGroup.bgInodeBitmap ∉ [inodeBlock fs (UInt32.ofNat i + 1), UInt32.ofNat j])
    (tiled : ext2ReadBlock disk fs parentBlock = some (blockBytes records)) (short : name.length ≤ 255)
    (creates : CreatesDirectory disk fs stack parentInodeNo parentBlock records name) : FirstSlackFits records name := by
  have whole := length_ext2ReadBlock sized tiled
  have inRange : parentBlock < fs.super.sBlocksCount := ext2ReadBlock_isSome_iff.mp (by rw [tiled]; rfl)
  obtain ⟨fuel, done, after, returned, success, failure⟩ := creates
  rw [ext2CreateDir_eq sized parent taken allocates place keeps tiled, Option.map_eq_some_iff] at returned
  obtain ⟨outcome, ended, mapped⟩ := returned
  obtain ⟨found, rfl, result⟩ := Option.map_eq_some_iff.mp mapped
  by_cases tight : ∀ record ∈ records, record.slack = 0
  · -- no space, with the inode already taken
    obtain rfl : none = found := (createDir_endsWith_none whole tight).unique ⟨fuel, ended⟩
    obtain ⟨rfl, rfl⟩ := Prod.mk.inj result
    exact absurd (failure rfl) (changed_of_bit taken.inodeBitmap
      (inodeBitmap_linkedDisk sized bitmaps kept taken.inodeBitmap) taken.inodeClear taken.inodeInside)
  · obtain ⟨front, record, back, rfl, before, loose⟩ := exists_first_slack tight
    obtain ⟨inside, rfl⟩ := (createDir_endsWith_iff whole before loose).mp ⟨fuel, ended⟩
    have nameLen : (UInt8.ofNat name.length).toNat = name.length :=
      UInt8.toNat_ofNat_of_lt' (lt_of_le_of_lt short (by decide))
    obtain ⟨rfl, rfl⟩ := Prod.mk.inj result
    obtain ⟨records', _, _, _, stored, _⟩ := success rfl
    refine ⟨front, record, back, rfl, before, ?_⟩
    by_contra narrow
    have actual := @actualLen_blockBytes front back record
    rw [(toNat_offset whole).1, ext2ReadBlock_write_self sized inRange
      (by rw [length_addEntry short (by omega), whole])] at stored
    exact addEntry_not_tiled short (Nat.lt_of_not_le narrow) records' (Option.some.inj stored)

end Linked

end Allocated

/-! ## All cases -/

section Outcomes

variable {disk after : Disk} {fs : Ext2Fs} {stack : CreateStack} {parentInodeNo parentBlock : UInt32}
  {records : List BlockRecord} {name : List UInt8}

/-- Without an inode or a block the function gives up, and keeps what it has. -/
theorem ext2CreateDir_failure {between : Disk} {newInodeNo newBlock : UInt32}
    (inode : ext2AllocInode disk fs stack.inodeBitmap = some (newInodeNo, between))
    (block : ext2AllocBlock between fs stack.blockBitmap = some (newBlock, after)) (none : newInodeNo = 0 ∨ newBlock = 0)
    (fuel : Nat) : ext2CreateDir disk fs stack parentInodeNo name fuel = some (some (false, after)) := by
  rw [ext2CreateDir, inode]
  dsimp only
  rw [block]
  exact if_pos none

theorem ext2CreateDir_fault {between : Disk} {newInodeNo : UInt32}
    (inode : ext2AllocInode disk fs stack.inodeBitmap = some (newInodeNo, between))
    (block : ext2AllocBlock between fs stack.blockBitmap = none) (fuel : Nat) :
    ext2CreateDir disk fs stack parentInodeNo name fuel = some none := by
  rw [ext2CreateDir, inode]
  dsimp only
  rw [block]

theorem not_creates_of_fault (fault : ∀ fuel, ext2CreateDir disk fs stack parentInodeNo name fuel = some none) :
    ¬ CreatesDirectory disk fs stack parentInodeNo parentBlock records name := by
  rintro ⟨fuel, _, _, returned, _⟩
  rw [fault] at returned
  simp at returned

/-- A failure is right if it leaves the disk alone. -/
theorem creates_iff_of_failure
    (failed : ∀ fuel, ext2CreateDir disk fs stack parentInodeNo name fuel = some (some (false, after))) :
    CreatesDirectory disk fs stack parentInodeNo parentBlock records name ↔ ∀ x, after.sector x = disk.sector x := by
  constructor
  · rintro ⟨fuel, done, left, returned, _, failure⟩
    rw [failed] at returned
    obtain ⟨rfl, rfl⟩ := Prod.mk.inj (Option.some.inj (Option.some.inj returned))
    exact failure rfl
  · intro same
    exact ⟨0, false, after, failed 0, fun yes => absurd yes (by decide), fun _ => same⟩

theorem allSet_of_read {block total : UInt32} {bitmap : List UInt8} (read : ext2ReadBlock disk fs block = some bitmap)
    (full : ∀ i < total.toNat, bitSet bitmap i = true) : AllSet disk fs block total := by
  intro other same
  obtain rfl := Option.some.inj (read.symm.trans same)
  exact full

/-- A volume on which the first free object is this one. -/
theorem alloc_of_firstFree {stack : Nat → UInt8} {block total : UInt32} {object : UInt32 → UInt32} {bitmap : List UInt8}
    {i : Nat} (sized : fs.BlockSized) (read : ext2ReadBlock disk fs block = some bitmap) (below : i < total.toNat)
    (inside : i < 8 * bitmap.length) (first : FirstClear bitmap i) :
    allocObject disk fs stack block total object =
      some (object (UInt32.ofNat i), ext2WriteBlock disk fs block (setBit bitmap i)) := by
  rcases @allocObject_cases disk fs stack block total object bitmap sized read with
    ⟨leaves, _⟩ | ⟨_, full, _⟩ | ⟨k, _, _, clear, _, result⟩
  · have readable : block < fs.super.sBlocksCount := ext2ReadBlock_isSome_iff.mp (by rw [read]; rfl)
    have length := length_ext2ReadBlock sized read
    exact absurd ⟨readable, .inr ⟨bitmap, read, i, by omega, first.1⟩⟩ leaves
  · exact absurd (first.1.symm.trans (full i below)) Bool.false_ne_true
  · rw [clear.unique first] at result
    exact result

section Sized

variable (sized : fs.BlockSized) (parent : NamesBlock disk fs parentInodeNo parentBlock)
  (tiled : ext2ReadBlock disk fs parentBlock = some (blockBytes records)) (short : name.length ≤ 255)
include sized

theorem alloc_of_allSet {stack : Nat → UInt8} {block total : UInt32} {object : UInt32 → UInt32}
    (ends : EndsInBitmap disk fs block total) (full : AllSet disk fs block total) :
    allocObject disk fs stack block total object = some (0, disk) := by
  obtain ⟨bitmap, read⟩ := Option.isSome_iff_exists.mp (@ext2ReadBlock_isSome_iff disk fs block |>.mpr ends.readable)
  rcases @allocObject_cases disk fs stack block total object bitmap sized read with
    ⟨leaves, _⟩ | ⟨_, _, result⟩ | ⟨k, below, _, clear, _⟩
  · exact absurd ends leaves
  · exact result
  · exact absurd (clear.1.symm.trans (full bitmap read k below)) Bool.false_ne_true

include parent tiled short

theorem creates_of_fits (fits : CreateDirFits disk fs parentInodeNo parentBlock records name) :
    CreatesDirectory disk fs stack parentInodeNo parentBlock records name := by
  rcases fits.fits with ⟨inodesFull, blocksFull⟩ | ⟨bitmaps, i, j, inodeFree, blockFree, place, keeps, room⟩
  · rw [creates_iff_of_failure (ext2CreateDir_failure (alloc_of_allSet sized fits.inodes inodesFull)
      (alloc_of_allSet sized fits.blocks blocksFull) (.inl rfl))]
    exact fun _ => rfl
  · obtain ⟨inodeBits, inodeRead, below, inside, first⟩ := inodeFree
    obtain ⟨blockBits, blockRead, below', inside', first'⟩ := blockFree
    have unchanged := @ext2ReadBlock_write_of_ne disk fs _ _ (setBit inodeBits i) bitmaps.symm
    have positive : j ≠ 0 := by
      rintro rfl
      exact Bool.false_ne_true (first'.1.symm.trans (fits.zero blockBits blockRead))
    have taken : Taken disk fs inodeBits blockBits i j :=
      ⟨inodeRead, blockRead, below, inside, first.1, below', inside', first'.1, positive⟩
    have allocates : Allocates disk fs stack inodeBits blockBits i j :=
      ⟨alloc_of_firstFree sized inodeRead below inside first,
        alloc_of_firstFree sized (unchanged.trans blockRead) below' inside' first'⟩
    exact creates_of_firstSlackFits sized parent taken allocates place keeps tiled short room

variable {inodeBits blockBits : List UInt8} (intact : Intact disk fs parentInodeNo parentBlock)
  (inodeRead : ext2ReadBlock disk fs fs.firstGroup.bgInodeBitmap = some inodeBits)
  (blockRead : ext2ReadBlock disk fs fs.firstGroup.bgBlockBitmap = some blockBits)
  (creates : CreatesDirectory disk fs stack parentInodeNo parentBlock records name)
include intact inodeRead blockRead creates

omit parent tiled short intact in
/-- Without an inode it does right only when there is no block either. -/
theorem fits_of_noInode (full : ∀ i < fs.super.sInodesCount.toNat, bitSet inodeBits i = true)
    (inodes : EndsInBitmap disk fs fs.firstGroup.bgInodeBitmap fs.super.sInodesCount)
    (alloc : ext2AllocInode disk fs stack.inodeBitmap = some (0, disk)) :
    CreateDirFits disk fs parentInodeNo parentBlock records name := by
  have blockCases := @allocObject_cases disk fs stack.blockBitmap _ fs.super.sBlocksCount (fun i => i) blockBits
    sized blockRead
  rcases blockCases with ⟨_, alloc'⟩ | ⟨blocks, blocksFull, _⟩ | ⟨j, below, inside, first, _, alloc'⟩
  · exact absurd creates (not_creates_of_fault (ext2CreateDir_fault alloc alloc'))
  · have positive : 0 < fs.super.sBlocksCount.toNat := Nat.zero_lt_of_lt (UInt32.lt_iff_toNat_lt.mp blocks.readable)
    refine ⟨inodes, blocks, fun bitmap read => ?_,
      .inl ⟨allSet_of_read inodeRead full, allSet_of_read blockRead blocksFull⟩⟩
    exact allSet_of_read blockRead blocksFull bitmap read 0 positive
  · -- the block stays taken
    rw [creates_iff_of_failure (ext2CreateDir_failure alloc alloc' (.inl rfl))] at creates
    have marked := @ext2ReadBlock_setBit disk fs _ blockBits j sized blockRead
    exact absurd creates (changed_of_bit blockRead marked first.1 inside)

/-- With an inode taken it does right only when a block can be taken too, and the first slack has
room. -/
theorem fits_of_inode {i : Nat} (below : i < fs.super.sInodesCount.toNat)
    (inside : i < 8 * inodeBits.length) (first : FirstClear inodeBits i)
    (inodes : EndsInBitmap disk fs fs.firstGroup.bgInodeBitmap fs.super.sInodesCount)
    (alloc : ext2AllocInode disk fs stack.inodeBitmap =
      some (UInt32.ofNat i + 1, ext2WriteBlock disk fs fs.firstGroup.bgInodeBitmap (setBit inodeBits i))) :
    CreateDirFits disk fs parentInodeNo parentBlock records name := by
  have unchanged := @ext2ReadBlock_write_of_ne disk fs _ _ (setBit inodeBits i) intact.bitmaps.symm
  have marked := @ext2ReadBlock_setBit disk fs _ inodeBits i sized inodeRead
  have blockCases := @allocObject_cases _ fs stack.blockBitmap _ fs.super.sBlocksCount (fun i => i) blockBits
    sized (unchanged.trans blockRead)
  rcases blockCases with ⟨_, alloc'⟩ | ⟨_, _, alloc'⟩ | ⟨j, below', inside', first', blocks, alloc'⟩
  · exact absurd creates (not_creates_of_fault (ext2CreateDir_fault alloc alloc'))
  · -- no block, and the inode stays taken
    rw [creates_iff_of_failure (ext2CreateDir_failure alloc alloc' (.inr rfl))] at creates
    exact absurd creates (changed_of_bit inodeRead marked first.1 inside)
  · rcases Nat.eq_zero_or_pos j with rfl | positive
    · -- block 0 is taken for a failure
      rw [creates_iff_of_failure (ext2CreateDir_failure alloc alloc' (.inr rfl))] at creates
      refine absurd creates (changed_of_bit inodeRead ?_ first.1 inside)
      rw [ext2ReadBlock_write_of_ne intact.bitmaps, marked]
    · have taken : Taken disk fs inodeBits blockBits i j :=
        ⟨inodeRead, blockRead, below, inside, first.1, below', inside', first'.1, Nat.ne_of_gt positive⟩
      have allocates : Allocates disk fs stack inodeBits blockBits i j := ⟨alloc, alloc'⟩
      have inodeFree : FirstFree disk fs fs.firstGroup.bgInodeBitmap fs.super.sInodesCount i :=
        ⟨inodeBits, inodeRead, below, inside, first⟩
      have blockFree : FirstFree disk fs fs.firstGroup.bgBlockBitmap fs.super.sBlocksCount j :=
        ⟨blockBits, blockRead, below', inside', first'⟩
      obtain ⟨kept, keeps⟩ := intact.written i j inodeFree blockFree (Nat.ne_of_gt positive)
      by_cases place : HasPlace fs (UInt32.ofNat i + 1)
      · have room := firstSlackFits_of_creates sized parent taken allocates place keeps intact.bitmaps kept tiled short
          creates
        refine ⟨inodes, (EndsInBitmap.congr unchanged).mp blocks, fun bitmap read => ?_,
          .inr ⟨intact.bitmaps, i, j, inodeFree, blockFree, place, keeps, room⟩⟩
        obtain rfl := Option.some.inj (blockRead.symm.trans read)
        exact first'.2 0 positive
      · exact absurd creates (not_creates_of_fault (ext2CreateDir_nowhere taken allocates place))

end Sized

end Outcomes

/-- `ext2_create_dir` does right when both bitmaps are full, or an inode and a block can be taken without touching the
parent directory and its first slack has room for the new entry. On a volume on which the blocks that are written are
different it does so only then. -/
theorem ext2CreateDir_creates_iff (disk : Disk) (fs : Ext2Fs) (stack : CreateStack) (parentInodeNo parentBlock : UInt32)
    (records : List BlockRecord) (name : List UInt8) (sized : fs.BlockSized)
    (parent : NamesBlock disk fs parentInodeNo parentBlock)
    (tiled : ext2ReadBlock disk fs parentBlock = some (blockBytes records)) (short : name.length ≤ 255) :
    (CreateDirFits disk fs parentInodeNo parentBlock records name →
        CreatesDirectory disk fs stack parentInodeNo parentBlock records name) ∧
      (Intact disk fs parentInodeNo parentBlock →
        (CreatesDirectory disk fs stack parentInodeNo parentBlock records name ↔
          CreateDirFits disk fs parentInodeNo parentBlock records name)) := by
  refine ⟨creates_of_fits sized parent tiled short,
    fun intact => ⟨fun creates => ?_, creates_of_fits sized parent tiled short⟩⟩
  obtain ⟨inodeBits, inodeRead⟩ :=
    Option.isSome_iff_exists.mp (@ext2ReadBlock_isSome_iff disk fs _ |>.mpr intact.inodeBitmap)
  obtain ⟨blockBits, blockRead⟩ :=
    Option.isSome_iff_exists.mp (@ext2ReadBlock_isSome_iff disk fs _ |>.mpr intact.blockBitmap)
  have inodeCases := @allocObject_cases disk fs stack.inodeBitmap _ fs.super.sInodesCount (fun i => i + 1) inodeBits
    sized inodeRead
  rcases inodeCases with ⟨_, alloc⟩ | ⟨inodes, full, alloc⟩ | ⟨i, below, inside, first, inodes, alloc⟩
  · -- the inode allocator leaves its bitmap
    refine absurd creates (not_creates_of_fault fun fuel => ?_)
    rw [ext2CreateDir, ext2AllocInode, alloc]
  · exact fits_of_noInode sized inodeRead blockRead creates full inodes alloc
  · exact fits_of_inode sized parent tiled short intact inodeRead blockRead creates below inside first inodes alloc

/-! ## A volume -/

/-- A volume of 32 groups with eight inodes. -/
def sampleFs : Ext2Fs := { groupedFs 0 with super := { groupedSuper with sInodesCount := 8, sInodesPerGroup := 8 } }

/-- Inode 2 of the volume: a directory in block 6. -/
def sampleInode : Inode := { rootInode with iSize := 1024, iBlock := 6 :: List.replicate 14 0 }

/-- A disk with the volume: the block bitmap, the inode bitmap, the inode table and the block of the
directory have the blocks 3 to 6. -/
def sampleDisk (inodeBits : UInt8) (directory : List UInt8) : Disk where
  sector lba :=
    sectorAt (if lba = 2 then sampleFs.super.bytes else if lba = 4 then groupedDesc.bytes
      else if lba = 6 then [0x7F] else if lba = 8 then [inodeBits]
      else if lba = 10 then List.replicate 128 0 ++ sampleInode.bytes
      else if lba = 12 then directory else []) 0
  length_sector _ := length_sectorAt _ _

theorem sampleFs_sized : sampleFs.BlockSized := by
  unfold Ext2Fs.BlockSized
  decide

theorem sampleFs_bitmaps : sampleFs.firstGroup.bgInodeBitmap = 4 ∧ sampleFs.firstGroup.bgBlockBitmap = 3 := by
  decide +kernel

/-- Inode 3 and block 7 can be taken for an entry in block 6. -/
theorem sampleFs_place : HasPlace sampleFs (UInt32.ofNat 2 + 1) :=
  ⟨by decide, by decide, by decide +kernel, by decide +kernel⟩

theorem sampleFs_keeps : KeepsParent sampleFs 2 6 (UInt32.ofNat 2 + 1) (UInt32.ofNat 7) :=
  ⟨by decide +kernel, by decide +kernel, fun _ => by decide +kernel⟩

/-- The record of an entry with some cleared bytes behind its name. -/
def recordOf (entry : DirEntry) (padding : Nat) (sized : entry.name.length = entry.nameLen.toNat)
    (measured : entry.recLen.toNat = 8 + entry.name.length + padding)
    (covers : neededLen entry.nameLen ≤ entry.recLen.toNat) : BlockRecord where
  bytes := entry.bytes ++ List.replicate padding 0
  measured := by rw [loadDirEntry_bytes entry sized, List.length_append, length_bytes, List.length_replicate, measured]
  covers := by
    rwa [loadDirEntry_bytes entry sized, List.length_append, length_bytes, List.length_replicate, ← measured]

/-- A directory with its own two entries. -/
def dotRecords : List BlockRecord :=
  [recordOf ⟨2, 12, 1, 2, [0x2E]⟩ 3 rfl rfl (by decide), recordOf ⟨2, 1012, 2, 2, [0x2E, 0x2E]⟩ 1002 rfl rfl (by decide)]

/-- A directory with four bytes of slack in front of its last entry. -/
def narrowRecords : List BlockRecord :=
  [recordOf ⟨2, 12, 1, 2, [0x2E]⟩ 3 rfl rfl (by decide), recordOf ⟨2, 16, 2, 2, [0x2E, 0x2E]⟩ 6 rfl rfl (by decide),
    recordOf ⟨1, 996, 4, 1, [0x6B, 0x65, 0x65, 0x70]⟩ 984 rfl rfl (by decide)]

/-- Nothing on the stack. -/
def emptyStack : CreateStack := ⟨fun _ => 0, fun _ => 0, fun _ => 0, sampleInode, fun _ => 0⟩

theorem recordOf_slack {entry : DirEntry} {padding : Nat} {sized : entry.name.length = entry.nameLen.toNat}
    {measured : entry.recLen.toNat = 8 + entry.name.length + padding}
    {covers : neededLen entry.nameLen ≤ entry.recLen.toNat} :
    (recordOf entry padding sized measured covers).slack = entry.recLen.toNat - neededLen entry.nameLen := by
  rw [BlockRecord.slack, recordOf]
  dsimp only
  rw [loadDirEntry_bytes entry sized, List.length_append, length_bytes, List.length_replicate, measured]

theorem dotRecords_namesBlock : NamesBlock (sampleDisk 3 (blockBytes dotRecords)) sampleFs 2 6 :=
  ⟨by decide +kernel, sampleInode, by decide +kernel, by decide⟩

/-- Inode 3 and block 7 are the first that are free. -/
theorem firstFree_sampleDisk {directory : List UInt8}
    (inodeRead : ext2ReadBlock (sampleDisk 3 directory) sampleFs sampleFs.firstGroup.bgInodeBitmap =
      some (3 :: List.replicate 1023 0))
    (blockRead : ext2ReadBlock (sampleDisk 3 directory) sampleFs sampleFs.firstGroup.bgBlockBitmap =
      some (0x7F :: List.replicate 1023 0)) (i : Nat) :
    (FirstFree (sampleDisk 3 directory) sampleFs sampleFs.firstGroup.bgInodeBitmap sampleFs.super.sInodesCount i ↔ i = 2) ∧
      (FirstFree (sampleDisk 3 directory) sampleFs sampleFs.firstGroup.bgBlockBitmap sampleFs.super.sBlocksCount i ↔
        i = 7) := by
  have inode : FirstClear (3 :: List.replicate 1023 0) 2 := ⟨by decide, by decide⟩
  have block : FirstClear (0x7F :: List.replicate 1023 0) 7 := ⟨by decide, by decide⟩
  constructor
  · constructor
    · rintro ⟨bitmap, read, _, _, first⟩
      obtain rfl := Option.some.inj (inodeRead.symm.trans read)
      exact first.unique inode
    · rintro rfl
      exact ⟨_, inodeRead, by decide, by decide +kernel, inode⟩
  · constructor
    · rintro ⟨bitmap, read, _, _, first⟩
      obtain rfl := Option.some.inj (blockRead.symm.trans read)
      exact first.unique block
    · rintro rfl
      exact ⟨_, blockRead, by decide, by decide +kernel, block⟩

/-- On an intact volume of several groups, a directory `a` is created next to the two entries. -/
theorem ext2CreateDir_creates_dots :
    Intact (sampleDisk 3 (blockBytes dotRecords)) sampleFs 2 6 ∧
      CreatesDirectory (sampleDisk 3 (blockBytes dotRecords)) sampleFs emptyStack 2 6 dotRecords [0x61] := by
  have inodeRead : ext2ReadBlock (sampleDisk 3 (blockBytes dotRecords)) sampleFs sampleFs.firstGroup.bgInodeBitmap =
      some (3 :: List.replicate 1023 0) := by decide +kernel
  have blockRead : ext2ReadBlock (sampleDisk 3 (blockBytes dotRecords)) sampleFs sampleFs.firstGroup.bgBlockBitmap =
      some (0x7F :: List.replicate 1023 0) := by decide +kernel
  have free := firstFree_sampleDisk inodeRead blockRead
  have bitmaps : sampleFs.firstGroup.bgInodeBitmap ≠ sampleFs.firstGroup.bgBlockBitmap := by
    rw [sampleFs_bitmaps.1, sampleFs_bitmaps.2]
    decide
  have intact : Intact (sampleDisk 3 (blockBytes dotRecords)) sampleFs 2 6 := by
    refine ⟨by decide +kernel, by decide +kernel, bitmaps, fun i j inodeFree blockFree _ => ?_⟩
    obtain rfl := (free i).1.mp inodeFree
    obtain rfl := (free j).2.mp blockFree
    exact ⟨by decide +kernel, sampleFs_keeps⟩
  refine ⟨intact, ((ext2CreateDir_creates_iff _ sampleFs emptyStack 2 6 dotRecords [0x61] sampleFs_sized
    dotRecords_namesBlock (by decide +kernel) (by decide)).2 intact).mpr
      ⟨⟨by decide +kernel, .inr ⟨_, inodeRead, 2, by decide, by decide⟩⟩,
      ⟨by decide +kernel, .inr ⟨_, blockRead, 7, by decide, by decide⟩⟩, fun bitmap read => ?_,
      .inr ⟨bitmaps, 2, 7, (free 2).1.mpr rfl, (free 7).2.mpr rfl, sampleFs_place, sampleFs_keeps,
        [_], _, [], rfl, fun other member => ?_, ?_⟩⟩⟩
  · obtain rfl := Option.some.inj (blockRead.symm.trans read)
    decide
  · obtain rfl := List.mem_singleton.mp member
    exact recordOf_slack
  · rw [recordOf_slack]
    decide

theorem narrowRecords_namesBlock : NamesBlock (sampleDisk 3 (blockBytes narrowRecords)) sampleFs 2 6 :=
  ⟨by decide +kernel, sampleInode, by decide +kernel, by decide⟩

/-- The first slack is too small for any entry. -/
theorem narrowRecords_not_fits : ¬ FirstSlackFits narrowRecords [0x61] := by
  have some : 12 ≤ neededLen (UInt8.ofNat [(0x61 : UInt8)].length) := by decide
  rintro ⟨front, record, back, shape, tight, fits⟩
  unfold narrowRecords at shape
  match front, shape with
  | [], shape =>
      obtain ⟨rfl, _⟩ := List.cons.inj shape
      rw [recordOf_slack] at fits
      exact absurd (some.trans fits) (by decide)
  | [_], shape =>
      obtain ⟨rfl, _⟩ := List.cons.inj (List.cons.inj shape).2
      rw [recordOf_slack] at fits
      exact absurd (some.trans fits) (by decide)
  | _ :: second :: _, shape =>
      obtain ⟨rfl, _⟩ := List.cons.inj (List.cons.inj shape).2
      have zero := tight _ (List.mem_cons_of_mem _ List.mem_cons_self)
      rw [recordOf_slack] at zero
      exact absurd zero (by decide)

/-- On a mounted volume with a free inode and block, a name of one byte is put into four bytes of
slack, over the entry behind them; and with all inodes in use a block is taken and kept. -/
theorem ext2CreateDir_overwrites_entry :
    ext2Mount (sampleDisk 3 (blockBytes narrowRecords)) 0 = .ok sampleFs ∧
      ext2ReadBlock (sampleDisk 3 (blockBytes narrowRecords)) sampleFs 6 = some (blockBytes narrowRecords) ∧
      (ext2CreateDir (sampleDisk 3 (blockBytes narrowRecords)) sampleFs emptyStack 2 [0x61] 2).map (·.map Prod.fst) =
        some (some true) ∧
      ¬ CreatesDirectory (sampleDisk 3 (blockBytes narrowRecords)) sampleFs emptyStack 2 6 narrowRecords [0x61] ∧
      (ext2CreateDir (sampleDisk 0xFF (blockBytes dotRecords)) sampleFs emptyStack 2 [0x61] 0).map (·.map Prod.fst) =
        some (some false) ∧
      ¬ CreatesDirectory (sampleDisk 0xFF (blockBytes dotRecords)) sampleFs emptyStack 2 6 dotRecords [0x61] := by
  have bitmaps : sampleFs.firstGroup.bgInodeBitmap ≠ sampleFs.firstGroup.bgBlockBitmap := by
    rw [sampleFs_bitmaps.1, sampleFs_bitmaps.2]
    decide
  refine ⟨by decide +kernel, by decide +kernel, by decide +kernel, fun creates => ?_, by decide +kernel, ?_⟩
  · have inodeRead : ext2ReadBlock (sampleDisk 3 (blockBytes narrowRecords)) sampleFs
        sampleFs.firstGroup.bgInodeBitmap = some (3 :: List.replicate 1023 0) := by decide +kernel
    have blockRead : ext2ReadBlock (sampleDisk 3 (blockBytes narrowRecords)) sampleFs
        sampleFs.firstGroup.bgBlockBitmap = some (0x7F :: List.replicate 1023 0) := by decide +kernel
    have inode := @allocObject_of_scan _ _ emptyStack.inodeBitmap _ 8 (fun i => i + 1) _ 2 inodeRead (by decide +kernel)
    have blockRead' := (@ext2ReadBlock_write_of_ne _ _ sampleFs.firstGroup.bgInodeBitmap _
      (setBit (3 :: List.replicate 1023 0) 2) bitmaps.symm).trans blockRead
    have block := @allocObject_of_scan _ _ emptyStack.blockBitmap _ 262144 (fun i => i) _ 7 blockRead' (by decide +kernel)
    have taken : Taken (sampleDisk 3 (blockBytes narrowRecords)) sampleFs (3 :: List.replicate 1023 0)
        (0x7F :: List.replicate 1023 0) 2 7 :=
      ⟨inodeRead, blockRead, by decide +kernel, by decide +kernel, by decide +kernel, by decide +kernel,
        by decide +kernel, by decide +kernel, by decide +kernel⟩
    exact narrowRecords_not_fits (firstSlackFits_of_creates sampleFs_sized narrowRecords_namesBlock taken ⟨inode, block⟩
      sampleFs_place sampleFs_keeps bitmaps (by decide +kernel) (by decide +kernel) (by decide) creates)
  · have blockRead : ext2ReadBlock (sampleDisk 0xFF (blockBytes dotRecords)) sampleFs
        sampleFs.firstGroup.bgBlockBitmap = some (0x7F :: List.replicate 1023 0) := by decide +kernel
    have inodeRead : ext2ReadBlock (sampleDisk 0xFF (blockBytes dotRecords)) sampleFs
        sampleFs.firstGroup.bgInodeBitmap = some (0xFF :: List.replicate 1023 0) := by decide +kernel
    have inode := @allocObject_of_full _ _ emptyStack.inodeBitmap _ 8 (fun i => i + 1) _ inodeRead (by decide +kernel)
    have block := @allocObject_of_scan _ _ emptyStack.blockBitmap _ 262144 (fun i => i) _ 7 blockRead (by decide +kernel)
    rw [creates_iff_of_failure (ext2CreateDir_failure inode block (.inl rfl))]
    exact @changed_of_bit _ _ _ _ 7 _ blockRead (ext2ReadBlock_setBit sampleFs_sized blockRead) (by decide +kernel)
      (by decide +kernel)

end KeblaOS.Ext2
