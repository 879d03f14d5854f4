import KeblaOS.Ext2.Mount

/-!
# Blocks of a mounted volume

`ext2_read_block` and `ext2_write_block` move whole blocks between memory and the disk, for block
numbers below `s_blocks_count`. A block that was written reads back, and the others stay.
-/

namespace KeblaOS.Ext2

open KeblaOS.Buffer
open KeblaOS.Fat32 (Disk sectorAt flatMap_sectorAt)

/-- The block size is the one `ext2_mount` computes. -/
def Ext2Fs.BlockSized (fs : Ext2Fs) : Prop := fs.blockSize = 1024 <<< fs.super.sLogBlockSize

theorem ext2Mount_blockSized {disk : Disk} {startLba : UInt64} {fs : Ext2Fs}
    (mounted : ext2Mount disk startLba = .ok fs) : fs.BlockSized := by
  unfold ext2Mount at mounted
  dsimp only at mounted
  generalize (if _ = (1024 : UInt32) then (2 : UInt32) else 1) = gdBlock at mounted
  split_ifs at mounted
  split at mounted
  · obtain rfl := Except.ok.inj mounted
    rfl
  · split_ifs at mounted
    obtain rfl := Except.ok.inj mounted
    rfl

/-- Blocks are whole sectors. -/
theorem Ext2Fs.BlockSized.dvd {fs : Ext2Fs} (sized : fs.BlockSized) : 512 ∣ fs.blockSize.toNat := by
  rw [sized, UInt32.toNat_shiftLeft, Nat.shiftLeft_eq]
  apply (Nat.dvd_mod_iff (by decide : 512 ∣ 2 ^ 32)).mpr
  exact Nat.dvd_mul_right_of_dvd (by decide : 512 ∣ 1024) _

/-- A block has at most `2 ^ 31` bytes. -/
theorem Ext2Fs.BlockSized.le {fs : Ext2Fs} (sized : fs.BlockSized) : fs.blockSize.toNat ≤ 2 ^ 31 := by
  have shifts : ∀ k < 32, 2 ^ 10 * 2 ^ k % 2 ^ 32 ≤ 2 ^ 31 := by decide
  rw [sized, UInt32.toNat_shiftLeft, Nat.shiftLeft_eq]
  exact shifts _ (Nat.mod_lt _ (by decide))

theorem length_ext2ReadBlock {disk : Disk} {fs : Ext2Fs} {block : UInt32} {bytes : List UInt8} (sized : fs.BlockSized)
    (read : ext2ReadBlock disk fs block = some bytes) : bytes.length = fs.blockSize.toNat := by
  unfold ext2ReadBlock at read
  split_ifs at read
  obtain rfl := Option.some.inj read
  rw [length_keblaDiskRead, UInt32.toNat_div]
  exact Nat.mul_div_cancel' sized.dvd

/-- An array of one block that `ext2_read_block` reads into. If the read fails, it keeps the bytes
of the stack. -/
def blockArray (disk : Disk) (fs : Ext2Fs) (stack : Nat → UInt8) (block : UInt32) : List UInt8 :=
  (ext2ReadBlock disk fs block).getD ((List.range fs.blockSize.toNat).map stack)

/-- `ext2_write_block`; a block out of range is not written. -/
def ext2WriteBlock (disk : Disk) (fs : Ext2Fs) (block : UInt32) (bytes : List UInt8) : Disk :=
  if fs.super.sBlocksCount ≤ block then disk
  else
    let lba := fs.startLba + block.toUInt64 * (fs.blockSize / 512).toUInt64
    keblaDiskWrite disk lba (fs.blockSize / 512).toNat bytes

/-- The sector lies in the block. -/
def InBlock (fs : Ext2Fs) (block : UInt32) (x : Nat) : Prop :=
  x < 2 ^ 64 ∧
    (UInt64.ofNat x - (fs.startLba + block.toUInt64 * (fs.blockSize / 512).toUInt64)).toNat < (fs.blockSize / 512).toNat

section Transfers

variable {disk : Disk} {fs : Ext2Fs} {block other : UInt32} {bytes : List UInt8}

theorem ext2ReadBlock_isSome_iff : (ext2ReadBlock disk fs block).isSome ↔ block < fs.super.sBlocksCount := by
  unfold ext2ReadBlock
  split_ifs with outside
  · simpa using UInt32.not_lt.mpr outside
  · simpa using UInt32.not_le.mp outside

/-- Sectors outside a block are left alone when it is written. -/
theorem ext2WriteBlock_sector {x : Nat} (outside : ¬ InBlock fs block x) :
    (ext2WriteBlock disk fs block bytes).sector x = disk.sector x := by
  unfold ext2WriteBlock
  split_ifs
  · rfl
  · exact if_neg outside

theorem keblaDiskRead_write {lba : UInt64} {count : Nat} (length : bytes.length = 512 * count) (few : count < 2 ^ 64) :
    keblaDiskRead (keblaDiskWrite disk lba count bytes) lba count = bytes := by
  have sectors : ∀ i ∈ List.range count,
      (keblaDiskWrite disk lba count bytes).sector (lba + UInt64.ofNat i).toNat = sectorAt bytes i := by
    intro i member
    rw [List.mem_range] at member
    have place : UInt64.ofNat (lba + UInt64.ofNat i).toNat - lba = UInt64.ofNat i := by
      rw [UInt64.ofNat_toNat]
      grind
    have index : (UInt64.ofNat i).toNat = i := UInt64.toNat_ofNat_of_lt' (member.trans few)
    show (if _ ∧ _ then _ else _) = _
    rw [place, index, if_pos ⟨UInt64.toNat_lt _, member⟩]
  rw [keblaDiskRead, List.flatMap_congr sectors, flatMap_sectorAt _ _ (by omega), ← length, List.take_length]

/-- A written block reads back. -/
theorem ext2ReadBlock_write_self (sized : fs.BlockSized) (inRange : block < fs.super.sBlocksCount)
    (length : bytes.length = fs.blockSize.toNat) :
    ext2ReadBlock (ext2WriteBlock disk fs block bytes) fs block = some bytes := by
  have capacity : (fs.blockSize / 512).toNat = fs.blockSize.toNat / 512 := UInt32.toNat_div _ _
  have whole := Nat.mul_div_cancel' sized.dvd
  have bound := fs.blockSize.toNat_lt
  rw [ext2ReadBlock, ext2WriteBlock, if_neg (UInt32.not_le.mpr inRange), if_neg (UInt32.not_le.mpr inRange)]
  exact congrArg some (keblaDiskRead_write (by omega) (by omega))

/-- A read looks only at the sectors of its block. -/
theorem ext2ReadBlock_congr {after : Disk} (same : ∀ x, InBlock fs block x → after.sector x = disk.sector x) :
    ext2ReadBlock after fs block = ext2ReadBlock disk fs block := by
  unfold ext2ReadBlock
  split_ifs
  · rfl
  · refine congrArg some (List.flatMap_congr fun i member => same _ ⟨UInt64.toNat_lt _, ?_⟩)
    rw [List.mem_range] at member
    have place : ∀ lba : UInt64, UInt64.ofNat (lba + UInt64.ofNat i).toNat - lba = UInt64.ofNat i := by
      intro lba
      rw [UInt64.ofNat_toNat]
      grind
    have bound := (fs.blockSize / 512).toNat_lt
    have index : (UInt64.ofNat i).toNat = i := UInt64.toNat_ofNat_of_lt' (member.trans (bound.trans (by decide)))
    rw [place, index]
    exact member

/-- Different blocks have no sector in common. -/
theorem InBlock.unique {x : Nat} (here : InBlock fs block x) (there : InBlock fs other x) : block = other := by
  have distance : ∀ {block : UInt32}, InBlock fs block x → ∃ r < (fs.blockSize / 512).toNat,
      (UInt64.ofNat x - fs.startLba).toNat = r + (fs.blockSize / 512).toNat * block.toNat := by
    intro block inside
    refine ⟨_, inside.2, ?_⟩
    have sectors : (fs.blockSize / 512).toNat < 2 ^ 23 := by
      have bound := fs.blockSize.toNat_lt
      rw [UInt32.toNat_div]
      exact Nat.div_lt_of_lt_mul bound
    have start : (block.toUInt64 * (fs.blockSize / 512).toUInt64).toNat = (fs.blockSize / 512).toNat * block.toNat := by
      rw [UInt64.toNat_mul, UInt32.toNat_toUInt64, UInt32.toNat_toUInt64, Nat.mul_comm]
      exact Nat.mod_eq_of_lt ((Nat.mul_lt_mul'' sectors block.toNat_lt).trans (by decide))
    have near := inside.2
    have below := Nat.mul_lt_mul'' sectors block.toNat_lt
    rw [← start] at below ⊢
    generalize block.toUInt64 * (fs.blockSize / 512).toUInt64 = offset at near below ⊢
    have apart : UInt64.ofNat x - fs.startLba = UInt64.ofNat x - (fs.startLba + offset) + offset := by grind
    rw [apart, UInt64.toNat_add]
    exact Nat.mod_eq_of_lt (by omega)
  obtain ⟨r, small, value⟩ := distance here
  obtain ⟨r', small', value'⟩ := distance there
  have quotient := congrArg (· / (fs.blockSize / 512).toNat) (value.symm.trans value')
  have positive : 0 < (fs.blockSize / 512).toNat := Nat.zero_lt_of_lt small
  rw [Nat.add_mul_div_left _ _ positive, Nat.add_mul_div_left _ _ positive, Nat.div_eq_of_lt small,
    Nat.div_eq_of_lt small', Nat.zero_add, Nat.zero_add] at quotient
  exact UInt32.toNat_inj.mp quotient

theorem ext2ReadBlock_write_of_ne (different : other ≠ block) :
    ext2ReadBlock (ext2WriteBlock disk fs block bytes) fs other = ext2ReadBlock disk fs other :=
  ext2ReadBlock_congr fun _ there => ext2WriteBlock_sector fun here => different (there.unique here)

end Transfers

end KeblaOS.Ext2
