import KeblaOS.Ext2.Blocks

/-!
# Allocation of inodes and blocks

`ext2_alloc_inode` and `ext2_alloc_block` read one block, the bitmap of the first group, and look
for a clear bit below the total of the whole volume. If the block is full and the total is larger
than its number of bits, the loop leaves the array. A block number is also the answer of
`ext2_alloc_block` when there is none, so a clear bit of block 0 is set and reported as a failure.
-/

namespace KeblaOS.Ext2

open KeblaOS.Buffer
open KeblaOS.Fat32 (Disk sectorAt length_sectorAt)

/-! ## The allocators -/

/-- The loop over the bits from `i` on: the first clear one, or `none` outside of the array. -/
def allocScan (bitmap : List UInt8) : Nat → Nat → Option (Option Nat)
  | 0, _ => some none
  | remaining + 1, i =>
      if bitmap.length ≤ i / 8 then none
      else if bitSet bitmap i then allocScan bitmap remaining (i + 1)
      else some (some i)

/-- `bitmap[i / 8] |= (1 << (i % 8))`. -/
def setBit (bitmap : List UInt8) (i : Nat) : List UInt8 :=
  bitmap.set (i / 8) (bitmap.getD (i / 8) 0 ||| (1 <<< UInt8.ofNat (i % 8)))

/-- Both allocators: the answer for bit `i` is `object i`. There is no result if the loop looks
outside of the array. -/
def allocObject (disk : Disk) (fs : Ext2Fs) (stack : Nat → UInt8) (block total : UInt32) (object : UInt32 → UInt32) :
    Option (UInt32 × Disk) :=
  let bitmap := blockArray disk fs stack block
  match allocScan bitmap total.toNat 0 with
  | none => none
  | some none => some (0, disk)
  | some (some i) => some (object (UInt32.ofNat i), ext2WriteBlock disk fs block (setBit bitmap i))

/-- `ext2->groups[0]`. -/
def Ext2Fs.firstGroup (fs : Ext2Fs) : GroupDesc := loadGroupDesc (slice fs.groups 0 32)

/-- `ext2_alloc_inode`; inode numbers start at 1. -/
def ext2AllocInode (disk : Disk) (fs : Ext2Fs) (stack : Nat → UInt8) : Option (UInt32 × Disk) :=
  allocObject disk fs stack fs.firstGroup.bgInodeBitmap fs.super.sInodesCount fun i => i + 1

/-- `ext2_alloc_block`. -/
def ext2AllocBlock (disk : Disk) (fs : Ext2Fs) (stack : Nat → UInt8) : Option (UInt32 × Disk) :=
  allocObject disk fs stack fs.firstGroup.bgBlockBitmap fs.super.sBlocksCount fun i => i

/-! ## What they should do -/

/-- The first clear bit of a bitmap. -/
def FirstClear (bitmap : List UInt8) (i : Nat) : Prop := bitSet bitmap i = false ∧ ∀ k < i, bitSet bitmap k = true

/-- On disk a bitmap has gained one bit, and nothing else has changed. -/
structure MarksBit (disk after : Disk) (fs : Ext2Fs) (block : UInt32) (bitmap : List UInt8) (i : Nat) : Prop where
  bits : ∃ marked, ext2ReadBlock after fs block = some marked ∧ ∀ k, bitSet marked k = (bitSet bitmap k || i == k)
  others : ∀ x, ¬ InBlock fs block x → after.sector x = disk.sector x

/-- An allocation stays inside of the bitmap on disk. It answers 0 exactly if all bits below the
total are set, and then leaves the disk alone. Otherwise it takes the object of the first clear
bit and sets this bit only. -/
def AllocatesExactly (disk : Disk) (fs : Ext2Fs) (block total : UInt32) (object : UInt32 → UInt32)
    (result : Option (UInt32 × Disk)) : Prop :=
  ∃ bitmap number after, ext2ReadBlock disk fs block = some bitmap ∧ result = some (number, after) ∧
    (number = 0 ↔ ∀ i < total.toNat, bitSet bitmap i = true) ∧ (number = 0 → after = disk) ∧
    (number ≠ 0 → ∃ i < total.toNat, i < 8 * bitmap.length ∧ FirstClear bitmap i ∧
      number = object (UInt32.ofNat i) ∧ MarksBit disk after fs block bitmap i)

/-- The bitmap can be read, and the loop ends in it: it has a bit for everything below the total,
or a clear bit. -/
structure EndsInBitmap (disk : Disk) (fs : Ext2Fs) (block total : UInt32) : Prop where
  readable : block < fs.super.sBlocksCount
  ends : total.toNat ≤ 8 * fs.blockSize.toNat ∨
    ∃ bitmap, ext2ReadBlock disk fs block = some bitmap ∧ ∃ i < 8 * fs.blockSize.toNat, bitSet bitmap i = false

/-! ## Bits -/

theorem length_setBit (bitmap : List UInt8) (i : Nat) : (setBit bitmap i).length = bitmap.length := List.length_set

theorem testBit_one_shiftLeft : ∀ i < 8, ∀ k < 8, (1 <<< UInt8.ofNat i : UInt8).toNat.testBit k = (i == k) := by
  decide

/-- Setting a bit sets no other. -/
theorem bitSet_setBit {bitmap : List UInt8} {i : Nat} (inside : i < 8 * bitmap.length) (k : Nat) :
    bitSet (setBit bitmap i) k = (bitSet bitmap k || i == k) := by
  have place : i / 8 < bitmap.length := Nat.div_lt_of_lt_mul inside
  unfold bitSet setBit
  rw [List.getD_eq_getElem?_getD, List.getElem?_set]
  by_cases same : i / 8 = k / 8
  · have bits := testBit_one_shiftLeft (i % 8) (Nat.mod_lt _ (by decide)) (k % 8) (Nat.mod_lt _ (by decide))
    have equal : (i % 8 == k % 8) = (i == k) := by
      rw [Bool.eq_iff_iff, beq_iff_eq, beq_iff_eq]
      omega
    rw [if_pos same, if_pos place, Option.getD_some, UInt8.toNat_or, Nat.testBit_or, bits, equal, same]
  · have different : (i == k) = false := beq_false_of_ne fun equal => same (by rw [equal])
    rw [if_neg same, different, Bool.or_false, List.getD_eq_getElem?_getD]

/-- The loop finds the first clear bit, passes set bits only, or meets none in the array. -/
theorem allocScan_spec (bitmap : List UInt8) (remaining i : Nat) :
    match allocScan bitmap remaining i with
    | some (some k) => i ≤ k ∧ k < i + remaining ∧ k < 8 * bitmap.length ∧ bitSet bitmap k = false ∧
        ∀ l, i ≤ l → l < k → bitSet bitmap l = true
    | some none => ∀ l, i ≤ l → l < i + remaining → l < 8 * bitmap.length ∧ bitSet bitmap l = true
    | none => 8 * bitmap.length < i + remaining ∧ ∀ l, i ≤ l → l < 8 * bitmap.length → bitSet bitmap l = true := by
  induction remaining generalizing i with
  | zero =>
      intro l low high
      omega
  | succ remaining ih =>
      rw [allocScan]
      split_ifs with outside taken
      · refine ⟨by omega, fun l low high => ?_⟩
        omega
      · have rest := ih (i + 1)
        -- a bit from `i` on is `i` itself or one the rest of the loop looks at
        have here : ∀ l, i ≤ l → l = i ∨ i + 1 ≤ l := by
          intro l low
          omega
        cases found : allocScan bitmap remaining (i + 1) with
        | none =>
            rw [found] at rest
            refine ⟨by omega, fun l low high => ?_⟩
            rcases here l low with rfl | later
            · exact taken
            · exact rest.2 l later high
        | some answer =>
            rw [found] at rest
            cases answer with
            | none =>
                intro l low high
                rcases here l low with rfl | later
                · exact ⟨by omega, taken⟩
                · exact rest l later (by omega)
            | some k =>
                obtain ⟨low, high, inside, clear, front⟩ := rest
                refine ⟨by omega, by omega, inside, clear, fun l from_ below => ?_⟩
                rcases here l from_ with rfl | later
                · exact taken
                · exact front l later below
      · refine ⟨le_rfl, by omega, by omega, Bool.eq_false_of_not_eq_true taken, fun l low high => ?_⟩
        omega

theorem FirstClear.unique {bitmap : List UInt8} {i k : Nat} (clear : FirstClear bitmap i) (first : FirstClear bitmap k) :
    i = k := by
  rcases Nat.lt_trichotomy i k with less | equal | more
  · exact absurd (clear.1.symm.trans (first.2 i less)) Bool.false_ne_true
  · exact equal
  · exact absurd (first.1.symm.trans (clear.2 k more)) Bool.false_ne_true

/-! ## When they do -/

section Allocation

variable {disk : Disk} {fs : Ext2Fs} {stack : Nat → UInt8} {block total : UInt32} {object : UInt32 → UInt32}

/-- A bitmap that was written back with one more bit is read with it. -/
theorem ext2ReadBlock_setBit {bitmap : List UInt8} {i : Nat} (sized : fs.BlockSized)
    (read : ext2ReadBlock disk fs block = some bitmap) :
    ext2ReadBlock (ext2WriteBlock disk fs block (setBit bitmap i)) fs block = some (setBit bitmap i) := by
  have inRange : block < fs.super.sBlocksCount := ext2ReadBlock_isSome_iff.mp (by rw [read]; rfl)
  apply ext2ReadBlock_write_self sized inRange
  rw [length_setBit, length_ext2ReadBlock sized read]

/-- Writing the bitmap back with one more bit. -/
theorem marksBit_write {bitmap : List UInt8} {i : Nat} (sized : fs.BlockSized)
    (read : ext2ReadBlock disk fs block = some bitmap) (inside : i < 8 * bitmap.length) :
    MarksBit disk (ext2WriteBlock disk fs block (setBit bitmap i)) fs block bitmap i := by
  constructor
  · exact ⟨setBit bitmap i, ext2ReadBlock_setBit sized read, bitSet_setBit inside⟩
  · intro x outside
    exact ext2WriteBlock_sector outside

/-- The bit that the loop finds. -/
theorem allocObject_of_scan {bitmap : List UInt8} {i : Nat} (read : ext2ReadBlock disk fs block = some bitmap)
    (found : allocScan bitmap total.toNat 0 = some (some i)) :
    allocObject disk fs stack block total object =
      some (object (UInt32.ofNat i), ext2WriteBlock disk fs block (setBit bitmap i)) := by
  rw [allocObject, blockArray, read, Option.getD_some, found]

/-- No answer if the loop passes set bits only. -/
theorem allocObject_of_full {bitmap : List UInt8} (read : ext2ReadBlock disk fs block = some bitmap)
    (full : allocScan bitmap total.toNat 0 = some none) :
    allocObject disk fs stack block total object = some (0, disk) := by
  rw [allocObject, blockArray, read, Option.getD_some, full]

/-- What an allocator does with a bitmap it can read: it leaves the bitmap, finds all bits set, or
takes the first clear one. -/
theorem allocObject_cases {bitmap : List UInt8} (sized : fs.BlockSized)
    (read : ext2ReadBlock disk fs block = some bitmap) :
    (¬ EndsInBitmap disk fs block total ∧ allocObject disk fs stack block total object = none) ∨
      (EndsInBitmap disk fs block total ∧ (∀ i < total.toNat, bitSet bitmap i = true) ∧
        allocObject disk fs stack block total object = some (0, disk)) ∨
      ∃ i < total.toNat, i < 8 * bitmap.length ∧ FirstClear bitmap i ∧ EndsInBitmap disk fs block total ∧
        allocObject disk fs stack block total object =
          some (object (UInt32.ofNat i), ext2WriteBlock disk fs block (setBit bitmap i)) := by
  have readable : block < fs.super.sBlocksCount := ext2ReadBlock_isSome_iff.mp (by rw [read]; rfl)
  have length := length_ext2ReadBlock sized read
  have spec := allocScan_spec bitmap total.toNat 0
  rw [allocObject, blockArray, read, Option.getD_some]
  cases found : allocScan bitmap total.toNat 0 with
  | none =>
      rw [found] at spec
      obtain ⟨beyond, set⟩ := spec
      refine .inl ⟨fun within => ?_, rfl⟩
      rcases within.ends with fits | ⟨other, same, i, inside, clear⟩
      · omega
      · obtain rfl : bitmap = other := Option.some.inj (read.symm.trans same)
        exact Bool.false_ne_true (clear.symm.trans (set i (Nat.zero_le _) (by omega)))
  | some answer =>
      rw [found] at spec
      cases answer with
      | none =>
          refine .inr (.inl ⟨⟨readable, .inl ?_⟩, fun i below => (spec i (Nat.zero_le _) (by omega)).2, rfl⟩)
          by_contra more
          have last := (spec (8 * bitmap.length) (Nat.zero_le _) (by omega)).1
          exact Nat.lt_irrefl _ last
      | some i =>
          obtain ⟨_, below, inside, clear, front⟩ := spec
          rw [Nat.zero_add] at below
          exact .inr (.inr ⟨i, below, inside, ⟨clear, fun k less => front k (Nat.zero_le _) less⟩,
            ⟨readable, .inr ⟨bitmap, read, i, by rwa [← length], clear⟩⟩, rfl⟩)

/-- An allocator works exactly when its loop ends in the bitmap and the object it takes is
not 0. -/
theorem allocObject_exact_iff (sized : fs.BlockSized) :
    AllocatesExactly disk fs block total object (allocObject disk fs stack block total object) ↔
      EndsInBitmap disk fs block total ∧
        ∀ bitmap, ext2ReadBlock disk fs block = some bitmap → ∀ i < total.toNat, FirstClear bitmap i →
          object (UInt32.ofNat i) ≠ 0 := by
  constructor
  · rintro ⟨bitmap, number, after, read, result, zero, _, taken⟩
    refine ⟨?_, ?_⟩
    · rcases @allocObject_cases disk fs stack block total object bitmap sized read with ⟨_, leaves⟩ | ⟨within, _⟩ | found
      · simp [leaves] at result
      · exact within
      · obtain ⟨_, _, _, _, within, _⟩ := found
        exact within
    · intro other same i below clear
      obtain rfl : bitmap = other := Option.some.inj (read.symm.trans same)
      have some : number ≠ 0 := fun none => Bool.false_ne_true (clear.1.symm.trans (zero.mp none i below))
      obtain ⟨k, _, _, first, value, _⟩ := taken some
      rw [clear.unique first, ← value]
      exact some
  · rintro ⟨within, nonzero⟩
    obtain ⟨bitmap, read⟩ := Option.isSome_iff_exists.mp (ext2ReadBlock_isSome_iff.mpr within.readable)
    rcases @allocObject_cases disk fs stack block total object bitmap sized read with
      ⟨leaves, _⟩ | ⟨_, full, result⟩ | ⟨i, below, inside, first, _, result⟩
    · exact absurd within leaves
    · exact ⟨bitmap, 0, disk, read, result, ⟨fun _ => full, fun _ => rfl⟩, fun _ => rfl, fun some => absurd rfl some⟩
    · have some := nonzero bitmap read i below first
      refine ⟨bitmap, _, _, read, result, ⟨fun none => absurd none some, fun set => ?_⟩,
        fun none => absurd none some, fun _ => ⟨i, below, inside, first, rfl, marksBit_write sized read inside⟩⟩
      exact absurd (first.1.symm.trans (set i below)) Bool.false_ne_true

end Allocation

/-- `ext2_alloc_inode` works exactly when its loop ends in the bitmap, and `ext2_alloc_block` when
in addition block 0 is marked as used. -/
theorem ext2Alloc_exact_iff (disk : Disk) (fs : Ext2Fs) (stack : Nat → UInt8) (sized : fs.BlockSized) :
    (AllocatesExactly disk fs fs.firstGroup.bgInodeBitmap fs.super.sInodesCount (fun i => i + 1)
        (ext2AllocInode disk fs stack) ↔
      EndsInBitmap disk fs fs.firstGroup.bgInodeBitmap fs.super.sInodesCount) ∧
    (AllocatesExactly disk fs fs.firstGroup.bgBlockBitmap fs.super.sBlocksCount (fun i => i)
        (ext2AllocBlock disk fs stack) ↔
      EndsInBitmap disk fs fs.firstGroup.bgBlockBitmap fs.super.sBlocksCount ∧
        ∀ bitmap, ext2ReadBlock disk fs fs.firstGroup.bgBlockBitmap = some bitmap → bitSet bitmap 0 = true) := by
  constructor
  · refine (allocObject_exact_iff sized).trans (and_iff_left fun bitmap _ i below _ => ?_)
    -- the number of an inode below a 32-bit total does not wrap
    intro zero
    have bound := fs.super.sInodesCount.toNat_lt
    have value := congrArg UInt32.toNat zero
    rw [UInt32.toNat_add, UInt32.toNat_ofNat_of_lt' (below.trans bound)] at value
    change (i + 1) % 2 ^ 32 = 0 at value
    omega
  · refine (allocObject_exact_iff sized).trans (and_congr_right fun ends => forall₂_congr fun bitmap _ => ?_)
    constructor
    · intro nonzero
      by_contra clear
      have positive : 0 < fs.super.sBlocksCount.toNat :=
        Nat.zero_lt_of_lt (UInt32.lt_iff_toNat_lt.mp ends.readable)
      exact nonzero 0 positive ⟨Bool.eq_false_of_not_eq_true clear, fun k less => absurd less (Nat.not_lt_zero k)⟩ rfl
    · intro used i below clear zero
      have bound := fs.super.sBlocksCount.toNat_lt
      have value := congrArg UInt32.toNat zero
      rw [UInt32.toNat_ofNat_of_lt' (below.trans bound)] at value
      obtain rfl : i = 0 := value
      exact Bool.false_ne_true (clear.1.symm.trans used)

/-- A volume of 32 groups of 8192 blocks of 1024 bytes. -/
def groupedSuper : Superblock where
  sInodesCount := 65536
  sBlocksCount := 262144
  sRBlocksCount := 0
  sFreeBlocksCount := 200000
  sFreeInodesCount := 60000
  sFirstDataBlock := 1
  sLogBlockSize := 0
  sBlocksPerGroup := 8192
  sInodesPerGroup := 2048
  sMagic := 0xEF53
  sRevLevel := 0
  sFirstIno := 11
  sInodeSize := 128

/-- Its first group: bitmaps in the blocks 3 and 4. -/
def groupedDesc : GroupDesc := ⟨3, 4, 5, 0, 0, 0⟩

/-- A disk with this volume; all other bytes have one value. -/
def groupedDisk (fill : UInt8) : Disk where
  sector lba :=
    if lba = 2 then sectorAt groupedSuper.bytes 0
    else if lba = 4 then sectorAt groupedDesc.bytes 0
    else List.replicate 512 fill
  length_sector lba := by
    split_ifs
    · exact length_sectorAt _ _
    · exact length_sectorAt _ _
    · exact List.length_replicate

/-- The volume as it is mounted. -/
def groupedFs (fill : UInt8) : Ext2Fs where
  startLba := 0
  blockSize := 1024
  super := groupedSuper
  groups := sectorAt groupedDesc.bytes 0 ++ List.replicate 512 fill

theorem bitSet_replicate {count i : Nat} (inside : i < 8 * count) : bitSet (List.replicate count 0xFF) i = true := by
  have bits : ∀ k < 8, (0xFF : UInt8).toNat.testBit k = true := by decide
  rw [bitSet, List.getD_replicate _ (Nat.div_lt_of_lt_mul inside)]
  exact bits _ (Nat.mod_lt _ (by decide))

/-- With a full bitmap in the first group the loop leaves the array. -/
theorem allocScan_full {count total : Nat} (more : 8 * count < total) :
    allocScan (List.replicate count 0xFF) total 0 = none := by
  have spec := allocScan_spec (List.replicate count 0xFF) total 0
  cases found : allocScan (List.replicate count 0xFF) total 0 with
  | none => rfl
  | some answer =>
      rw [found, List.length_replicate] at spec
      cases answer with
      | none =>
          have last := (spec (8 * count) (Nat.zero_le _) (by omega)).1
          omega
      | some i =>
          obtain ⟨_, _, inside, clear, _⟩ := spec
          exact absurd (clear.symm.trans (bitSet_replicate inside)) Bool.false_ne_true

theorem allocObject_full {disk : Disk} {fs : Ext2Fs} {stack : Nat → UInt8} {block total : UInt32}
    {object : UInt32 → UInt32} {count : Nat} (full : blockArray disk fs stack block = List.replicate count 0xFF)
    (more : 8 * count < total.toNat) : allocObject disk fs stack block total object = none := by
  rw [allocObject, full, allocScan_full more]

deriving instance DecidableEq for Ext2Fs

theorem ext2Alloc_exact_grouped :
    AllocatesExactly (groupedDisk 1) (groupedFs 1) 4 65536 (fun i => i + 1)
        (ext2AllocInode (groupedDisk 1) (groupedFs 1) fun _ => 0) ∧
      AllocatesExactly (groupedDisk 1) (groupedFs 1) 3 262144 (fun i => i)
        (ext2AllocBlock (groupedDisk 1) (groupedFs 1) fun _ => 0) := by
  have readInodes : ext2ReadBlock (groupedDisk 1) (groupedFs 1) 4 = some (List.replicate 1024 1) := by decide +kernel
  have readBlocks : ext2ReadBlock (groupedDisk 1) (groupedFs 1) 3 = some (List.replicate 1024 1) := by decide +kernel
  have inodeBitmap : (groupedFs 1).firstGroup.bgInodeBitmap = 4 := by decide +kernel
  have blockBitmap : (groupedFs 1).firstGroup.bgBlockBitmap = 3 := by decide +kernel
  obtain ⟨inodes, blocks⟩ := ext2Alloc_exact_iff (groupedDisk 1) (groupedFs 1) (fun _ => 0)
    (by unfold Ext2Fs.BlockSized; decide)
  rw [inodeBitmap] at inodes
  rw [blockBitmap] at blocks
  refine ⟨inodes.mpr ⟨by decide +kernel, .inr ⟨_, readInodes, 1, by decide, by decide⟩⟩,
    blocks.mpr ⟨⟨by decide +kernel, .inr ⟨_, readBlocks, 1, by decide, by decide⟩⟩, fun bitmap read => ?_⟩⟩
  obtain rfl := Option.some.inj (readBlocks.symm.trans read)
  decide

/-- Two mounted volumes: the first group is full and the loop leaves the bitmap; block 0 is free
and its allocation is reported as a failure. -/
theorem ext2AllocBlock_leaves_bitmap :
    ext2Mount (groupedDisk 0xFF) 0 = .ok (groupedFs 0xFF) ∧
      ext2AllocBlock (groupedDisk 0xFF) (groupedFs 0xFF) (fun _ => 0) = none ∧
      ext2Mount (groupedDisk 0) 0 = .ok (groupedFs 0) ∧
      ext2ReadBlock (groupedDisk 0) (groupedFs 0) 3 = some (List.replicate 1024 0) ∧
      (ext2AllocBlock (groupedDisk 0) (groupedFs 0) fun _ => 0).map Prod.fst = some 0 ∧
      ¬ AllocatesExactly (groupedDisk 0xFF) (groupedFs 0xFF) 3 262144 (fun i => i)
          (ext2AllocBlock (groupedDisk 0xFF) (groupedFs 0xFF) fun _ => 0) ∧
      ¬ AllocatesExactly (groupedDisk 0) (groupedFs 0) 3 262144 (fun i => i)
          (ext2AllocBlock (groupedDisk 0) (groupedFs 0) fun _ => 0) := by
  have array : blockArray (groupedDisk 0xFF) (groupedFs 0xFF) (fun _ => 0)
      (groupedFs 0xFF).firstGroup.bgBlockBitmap = List.replicate 1024 0xFF := by decide +kernel
  have none : ext2AllocBlock (groupedDisk 0xFF) (groupedFs 0xFF) (fun _ => 0) = none :=
    allocObject_full array (by decide)
  have read : ext2ReadBlock (groupedDisk 0) (groupedFs 0) 3 = some (List.replicate 1024 0) := by decide +kernel
  have zero : (ext2AllocBlock (groupedDisk 0) (groupedFs 0) fun _ => 0).map Prod.fst = some 0 := by decide +kernel
  refine ⟨by decide +kernel, none, by decide +kernel, read, zero, ?_, ?_⟩
  · rintro ⟨_, _, _, _, result, _⟩
    rw [none] at result
    simp at result
  · rintro ⟨bitmap, number, after, content, result, full, _⟩
    obtain rfl := Option.some.inj (read.symm.trans content)
    rw [result, Option.map_some] at zero
    have set := full.mp (Option.some.inj zero) 0 (by decide)
    exact absurd set (by decide)

end KeblaOS.Ext2
