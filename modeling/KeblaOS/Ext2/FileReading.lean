import KeblaOS.Lib.Stores
import KeblaOS.Ext2.Blocks

/-!
# Reading a file

`ext2_read_file` counts down the bytes that remain by whole blocks in an unsigned counter,
which wraps behind the end of a file whose size is no multiple of the block size; it then goes
on to the next pointers. It does not look at the results of its reads and always returns true.
-/

namespace KeblaOS.Ext2

open KeblaOS.Buffer
open KeblaOS.Fat32 (Disk)

/-! ## `ext2_read_file` -/

/-- Block pointers in memory. -/
def pointersIn (count : Nat) (bytes : List UInt8) : List UInt32 :=
  (List.range count).map fun i => UInt32.ofNat (leNat (slice bytes (4 * i) 4))

@[simp] theorem length_pointersIn (count : Nat) (bytes : List UInt8) : (pointersIn count bytes).length = count := by
  rw [pointersIn, List.length_map, List.length_range]

/-- The variables of a read: `remaining`, `buf_offset` and the memory from `buffer` on. -/
structure ReadState where
  remaining : UInt32
  bufOffset : UInt32
  memory : Nat → UInt8

/-- `ext2_read_block` into memory; a block it does not read leaves the memory alone. -/
def readInto (disk : Disk) (fs : Ext2Fs) (block : UInt32) (memory : Nat → UInt8) (offset : UInt32) : Nat → UInt8 :=
  match ext2ReadBlock disk fs block with
  | none => memory
  | some bytes => store memory offset.toNat bytes

/-- The two loops of `ext2_read_file`, over the direct pointers and over those of the indirect
block. -/
def readPointers (disk : Disk) (fs : Ext2Fs) : List UInt32 → ReadState → ReadState
  | [], state => state
  | block :: blocks, state =>
      if state.remaining = 0 then state
      else if block = 0 then state
      else
        readPointers disk fs blocks
          { remaining := state.remaining - fs.blockSize
            bufOffset := state.bufOffset + fs.blockSize
            memory := readInto disk fs block state.memory state.bufOffset }

/-- `ext2_read_file`: its result and the memory from `buffer` on. If the indirect block cannot be
read, `pointers` keeps the bytes that were on the stack. -/
def ext2ReadFile (disk : Disk) (fs : Ext2Fs) (inode : Inode) (stack : List UInt8) (memory : Nat → UInt8) :
    Bool × (Nat → UInt8) :=
  let direct := readPointers disk fs (inode.iBlock.take 12) ⟨inode.iSize, 0, memory⟩
  let indirect := inode.iBlock.getD 12 0
  if direct.remaining ≠ 0 ∧ indirect ≠ 0 then
    let pointers := pointersIn (fs.blockSize / 4).toNat ((ext2ReadBlock disk fs indirect).getD stack)
    (true, (readPointers disk fs pointers direct).memory)
  else (true, direct.memory)

/-! ## The file -/

/-- The pointer to a block of a file: twelve in the inode, the others in the indirect block. -/
def filePointer (disk : Disk) (fs : Ext2Fs) (inode : Inode) (k : Nat) : Option UInt32 :=
  if k < 12 then inode.iBlock[k]?
  else if inode.iBlock.getD 12 0 = 0 then none
  else (ext2ReadBlock disk fs (inode.iBlock.getD 12 0)).bind fun bytes =>
    (pointersIn (fs.blockSize / 4).toNat bytes)[k - 12]?

/-- A block of a file, if its pointer is there, not zero and in range. -/
def fileBlock (disk : Disk) (fs : Ext2Fs) (inode : Inode) (k : Nat) : Option (List UInt8) :=
  (filePointer disk fs inode k).bind fun block => if block = 0 then none else ext2ReadBlock disk fs block

/-- Number of blocks a file has by its size. -/
def fileBlockCount (fs : Ext2Fs) (inode : Inode) : Nat :=
  (inode.iSize.toNat + fs.blockSize.toNat - 1) / fs.blockSize.toNat

/-- The direct and single-indirect pointers cover the size with blocks that can be read. -/
structure Covered (disk : Disk) (fs : Ext2Fs) (inode : Inode) : Prop where
  room : inode.iSize.toNat ≤ fileBlockCount fs inode * fs.blockSize.toNat
  blocks : ∀ k < fileBlockCount fs inode, (fileBlock disk fs inode k).isSome

/-- The blocks of a file in order. -/
def fileBytes (disk : Disk) (fs : Ext2Fs) (inode : Inode) : List UInt8 :=
  (List.range (fileBlockCount fs inode)).flatMap fun k => (fileBlock disk fs inode k).getD []

/-- Whatever was in the buffer: if `ext2_read_file` returns true, it has read all blocks of the
file, the buffer starts with the content, and behind the last block nothing is written. -/
def ReadsFile (disk : Disk) (fs : Ext2Fs) (inode : Inode) (stack : List UInt8) : Prop :=
  ∀ memory, (ext2ReadFile disk fs inode stack memory).1 = true →
    Covered disk fs inode ∧
      Holds (ext2ReadFile disk fs inode stack memory).2 ((fileBytes disk fs inode).take inode.iSize.toNat) ∧
      ∀ i, fileBlockCount fs inode * fs.blockSize.toNat ≤ i → (ext2ReadFile disk fs inode stack memory).2 i = memory i

/-! ## What the loops get to -/

/-- The pointers a loop reads: up to a zero, or to the wrap of the counter to zero. -/
def visited (blockSize : UInt32) : List UInt32 → UInt32 → List UInt32
  | [], _ => []
  | block :: blocks, remaining =>
      if remaining = 0 then []
      else if block = 0 then []
      else block :: visited blockSize blocks (remaining - blockSize)

/-- The pointers both loops read. -/
def visits (disk : Disk) (fs : Ext2Fs) (inode : Inode) (stack : List UInt8) : List UInt32 :=
  let direct := visited fs.blockSize (inode.iBlock.take 12) inode.iSize
  let remaining := inode.iSize - UInt32.ofNat direct.length * fs.blockSize
  let indirect := inode.iBlock.getD 12 0
  if remaining ≠ 0 ∧ indirect ≠ 0 then
    direct ++ visited fs.blockSize
      (pointersIn (fs.blockSize / 4).toNat ((ext2ReadBlock disk fs indirect).getD stack)) remaining
  else direct

/-- The stores that reading the blocks makes, from an offset on. -/
def placed (disk : Disk) (fs : Ext2Fs) : UInt32 → List UInt32 → List (Nat × List UInt8)
  | _, [] => []
  | offset, block :: blocks =>
      (ext2ReadBlock disk fs block).toList.map (Prod.mk offset.toNat) ++ placed disk fs (offset + fs.blockSize) blocks

section Loops

variable {disk : Disk} {fs : Ext2Fs} {inode : Inode} {stack : List UInt8}

/-- The offset behind one more block. -/
theorem offset_succ (offset blockSize : UInt32) (count : Nat) :
    offset + blockSize + UInt32.ofNat count * blockSize = offset + UInt32.ofNat (count + 1) * blockSize := by
  rw [UInt32.ofNat_add]
  grind

/-- What remains behind one more block. -/
theorem remaining_succ (remaining blockSize : UInt32) (count : Nat) :
    remaining - blockSize - UInt32.ofNat count * blockSize = remaining - UInt32.ofNat (count + 1) * blockSize := by
  rw [UInt32.ofNat_add]
  grind

theorem readInto_eq (block : UInt32) (memory : Nat → UInt8) (offset : UInt32) :
    readInto disk fs block memory offset =
      storeAll memory ((ext2ReadBlock disk fs block).toList.map (Prod.mk offset.toNat)) := by
  unfold readInto
  cases ext2ReadBlock disk fs block <;> rfl

/-- A loop stores the blocks of the pointers it reads. -/
theorem readPointers_eq (blocks : List UInt32) (state : ReadState) :
    readPointers disk fs blocks state =
      let front := visited fs.blockSize blocks state.remaining
      { remaining := state.remaining - UInt32.ofNat front.length * fs.blockSize
        bufOffset := state.bufOffset + UInt32.ofNat front.length * fs.blockSize
        memory := storeAll state.memory (placed disk fs state.bufOffset front) } := by
  have stopped : ∀ state : ReadState, state =
      { remaining := state.remaining - UInt32.ofNat 0 * fs.blockSize
        bufOffset := state.bufOffset + UInt32.ofNat 0 * fs.blockSize
        memory := storeAll state.memory (placed disk fs state.bufOffset []) } := by
    intro state
    have none : UInt32.ofNat 0 * fs.blockSize = 0 := UInt32.zero_mul
    rw [none, UInt32.sub_zero, UInt32.add_zero]
    rfl
  induction blocks generalizing state with
  | nil => exact stopped state
  | cons block blocks ih =>
      rw [readPointers, visited]
      split_ifs with finished zero
      · exact stopped state
      · exact stopped state
      · rw [ih]
        dsimp only
        rw [List.length_cons, offset_succ, remaining_succ, placed, storeAll_append, ← readInto_eq]

theorem placed_append (offset : UInt32) (front rest : List UInt32) :
    placed disk fs offset (front ++ rest) =
      placed disk fs offset front ++ placed disk fs (offset + UInt32.ofNat front.length * fs.blockSize) rest := by
  induction front generalizing offset with
  | nil =>
      have none : UInt32.ofNat 0 * fs.blockSize = 0 := UInt32.zero_mul
      rw [List.nil_append, List.length_nil, none, UInt32.add_zero]
      rfl
  | cons block front ih =>
      rw [List.cons_append, placed, placed, ih, offset_succ, List.length_cons, List.append_assoc]

/-- `ext2_read_file` stores the blocks it gets to and returns true. -/
theorem ext2ReadFile_eq (memory : Nat → UInt8) :
    ext2ReadFile disk fs inode stack memory =
      (true, storeAll memory (placed disk fs 0 (visits disk fs inode stack))) := by
  unfold ext2ReadFile visits
  dsimp only
  rw [readPointers_eq]
  dsimp only
  split_ifs with more
  · rw [readPointers_eq, placed_append, storeAll_append, UInt32.zero_add]
  · rfl

/-- Each store is a block, at the offset of its place in the walk. -/
theorem mem_placed {offset : UInt32} {blocks : List UInt32} {item : Nat × List UInt8} (sized : fs.BlockSized)
    (member : item ∈ placed disk fs offset blocks) :
    item.2.length = fs.blockSize.toNat ∧ ∃ k < blocks.length, ∃ block, blocks[k]? = some block ∧
      ext2ReadBlock disk fs block = some item.2 ∧ item.1 = (offset + UInt32.ofNat k * fs.blockSize).toNat := by
  induction blocks generalizing offset with
  | nil => exact absurd member List.not_mem_nil
  | cons block blocks ih =>
      rw [placed, List.mem_append] at member
      rcases member with here | later
      · obtain ⟨bytes, read, rfl⟩ := List.mem_map.mp here
        rw [Option.mem_toList] at read
        have none : UInt32.ofNat 0 * fs.blockSize = 0 := UInt32.zero_mul
        exact ⟨length_ext2ReadBlock sized read, 0, Nat.succ_pos _, block, rfl, read, by rw [none, UInt32.add_zero]⟩
      · obtain ⟨length, k, inside, other, there, read, place⟩ := ih later
        refine ⟨length, k + 1, Nat.succ_lt_succ inside, other, there, read, ?_⟩
        rw [place, offset_succ]

theorem mem_placed_of_read {offset block : UInt32} {blocks : List UInt32} {k : Nat} {bytes : List UInt8}
    (there : blocks[k]? = some block) (read : ext2ReadBlock disk fs block = some bytes) :
    ((offset + UInt32.ofNat k * fs.blockSize).toNat, bytes) ∈ placed disk fs offset blocks := by
  induction blocks generalizing offset k with
  | nil => simp at there
  | cons first blocks ih =>
      rw [placed, List.mem_append]
      cases k with
      | zero =>
          left
          obtain rfl : first = block := by simpa using there
          have none : UInt32.ofNat 0 * fs.blockSize = 0 := UInt32.zero_mul
          rw [read, none, UInt32.add_zero]
          exact List.mem_singleton.mpr rfl
      | succ k =>
          right
          rw [← offset_succ]
          exact ih there

/-- A loop gets to all pointers that are needed for what remains. -/
theorem visited_append {blocks : List UInt32} {remaining : UInt32} {count : Nat} (there : count ≤ blocks.length)
    (needed : ∀ k < count, k * fs.blockSize.toNat < remaining.toNat) (nonzero : ∀ block ∈ blocks.take count, block ≠ 0) :
    ∃ more, visited fs.blockSize blocks remaining = blocks.take count ++ more := by
  induction count generalizing blocks remaining with
  | zero => exact ⟨_, rfl⟩
  | succ count ih =>
      cases blocks with
      | nil => simp at there
      | cons block blocks =>
          have first := needed 0 (Nat.succ_pos _)
          have some : remaining ≠ 0 := by
            rintro rfl
            simp at first
          rw [visited, if_neg some, if_neg (nonzero block List.mem_cons_self), List.take_succ_cons]
          have rest : ∃ more, visited fs.blockSize blocks (remaining - fs.blockSize) = blocks.take count ++ more := by
            refine ih (Nat.le_of_succ_le_succ there) (fun k inside => ?_) fun other member =>
              nonzero other (List.mem_cons_of_mem _ member)
            have next := needed (k + 1) (Nat.succ_lt_succ inside)
            rw [Nat.succ_mul] at next
            rw [UInt32.toNat_sub_of_le _ _ (UInt32.le_iff_toNat_le.mpr (by omega))]
            omega
          obtain ⟨more, rest⟩ := rest
          exact ⟨more, by rw [rest, List.cons_append]⟩

theorem length_visited_le (blocks : List UInt32) (remaining : UInt32) :
    (visited fs.blockSize blocks remaining).length ≤ blocks.length := by
  induction blocks generalizing remaining with
  | nil => exact Nat.le_refl 0
  | cons block blocks ih =>
      rw [visited]
      split_ifs
      · exact Nat.zero_le _
      · exact Nat.zero_le _
      · exact Nat.succ_le_succ (ih _)

end Loops

/-! ## Files whose blocks are covered -/

section Covered

variable {disk : Disk} {fs : Ext2Fs} {inode : Inode} {stack : List UInt8}

/-- A block of the file that is needed begins in front of its end. -/
theorem lt_size_of_lt_fileBlockCount {k : Nat} (inside : k < fileBlockCount fs inode) :
    k * fs.blockSize.toNat < inode.iSize.toNat := by
  unfold fileBlockCount at inside
  rcases Nat.eq_zero_or_pos fs.blockSize.toNat with none | positive
  · rw [none, Nat.div_zero] at inside
    exact absurd inside (Nat.not_lt_zero _)
  · have whole := (Nat.le_div_iff_mul_le positive).mp (Nat.succ_le_of_lt inside)
    rw [Nat.succ_mul] at whole
    omega

/-- What remains behind some blocks that do not reach beyond the end. -/
theorem toNat_remaining {size blockSize : UInt32} {count : Nat} (within : count * blockSize.toNat ≤ size.toNat) :
    (size - UInt32.ofNat count * blockSize).toNat = size.toNat - count * blockSize.toNat := by
  have bound := size.toNat_lt
  have product : (UInt32.ofNat count * blockSize).toNat = count * blockSize.toNat := by
    rw [UInt32.toNat_mul, UInt32.toNat_ofNat', Nat.mod_mul_mod, Nat.mod_eq_of_lt (by omega)]
  rw [UInt32.toNat_sub_of_le _ _ (UInt32.le_iff_toNat_le.mpr (by omega)), product]

/-- A block that is there has a pointer that can be read. -/
theorem pointer_of_fileBlock {k : Nat} (present : (fileBlock disk fs inode k).isSome) :
    ∃ block, filePointer disk fs inode k = some block ∧ block ≠ 0 ∧ fileBlock disk fs inode k = ext2ReadBlock disk fs block := by
  unfold fileBlock at present ⊢
  cases pointer : filePointer disk fs inode k with
  | none =>
      rw [pointer] at present
      simp at present
  | some block =>
      rw [pointer, Option.bind_some] at present
      refine ⟨block, rfl, ?_, ?_⟩
      · rintro rfl
        simp at present
      · split_ifs at present with zero
        · simp at present
        · rw [Option.bind_some, if_neg zero]

/-- Pointers that are all there and not zero are a beginning of their list. -/
theorem take_of_pointers {blocks : List UInt32} {first count : Nat}
    (pointers : ∀ k < count, blocks[k]? = filePointer disk fs inode (first + k))
    (present : ∀ k < count, (fileBlock disk fs inode (first + k)).isSome) :
    count ≤ blocks.length ∧ ∀ block ∈ blocks.take count, block ≠ 0 := by
  have there : ∀ k < count, ∃ block, blocks[k]? = some block ∧ block ≠ 0 := by
    intro k inside
    obtain ⟨block, pointer, nonzero, _⟩ := pointer_of_fileBlock (present k inside)
    exact ⟨block, by rw [pointers k inside, pointer], nonzero⟩
  constructor
  · by_contra short
    obtain ⟨block, found, _⟩ := there blocks.length (by omega)
    simp at found
  · intro block member
    obtain ⟨k, inside, rfl⟩ := List.mem_iff_getElem.mp member
    rw [List.length_take] at inside
    obtain ⟨block, found, nonzero⟩ := there k (by omega)
    rw [List.getElem_take]
    rw [List.getElem?_eq_getElem (by omega)] at found
    rwa [Option.some.inj found]

/-- The walk of a covered file starts with the pointers of its blocks. -/
theorem Covered.visits_eq (covered : Covered disk fs inode) (stack : List UInt8) :
    ∃ front more, visits disk fs inode stack = front ++ more ∧ front.length = fileBlockCount fs inode ∧
      ∀ k < fileBlockCount fs inode, front[k]? = filePointer disk fs inode k := by
  have direct : ∀ k < 12, (inode.iBlock.take 12)[k]? = filePointer disk fs inode (0 + k) := by
    intro k inside
    rw [List.getElem?_take_of_lt inside, Nat.zero_add, filePointer, if_pos inside]
  have present : ∀ first count, first + count ≤ fileBlockCount fs inode →
      ∀ k < count, (fileBlock disk fs inode (first + k)).isSome :=
    fun first count most k inside => covered.blocks _ (by omega)
  by_cases few : fileBlockCount fs inode ≤ 12
  · obtain ⟨long, nonzero⟩ := @take_of_pointers disk fs inode (inode.iBlock.take 12) 0 (fileBlockCount fs inode)
      (fun k inside => direct k (by omega)) (present 0 _ (by omega))
    obtain ⟨more, walked⟩ := visited_append long (fun k => lt_size_of_lt_fileBlockCount) nonzero
    have pointers : ∀ k < fileBlockCount fs inode,
        ((inode.iBlock.take 12).take (fileBlockCount fs inode))[k]? = filePointer disk fs inode k := by
      intro k inside
      rw [List.getElem?_take_of_lt inside, direct k (by omega), Nat.zero_add]
    have length : ((inode.iBlock.take 12).take (fileBlockCount fs inode)).length = fileBlockCount fs inode := by
      rw [List.length_take]
      exact Nat.min_eq_left long
    unfold visits
    rw [walked]
    dsimp only
    split_ifs
    · exact ⟨_, _, List.append_assoc _ _ _, length, pointers⟩
    · exact ⟨_, more, rfl, length, pointers⟩
  · have many := Nat.lt_of_not_le few
    obtain ⟨long, nonzero⟩ := @take_of_pointers disk fs inode (inode.iBlock.take 12) 0 12 direct
      (present 0 12 (by omega))
    obtain ⟨more, walked⟩ := visited_append long
      (fun k inside => lt_size_of_lt_fileBlockCount (show k < fileBlockCount fs inode by omega)) nonzero
    have twelve : (inode.iBlock.take 12).length = 12 := by
      have most := List.length_take_le 12 inode.iBlock
      omega
    have most := @length_visited_le fs (inode.iBlock.take 12) inode.iSize
    rw [walked, List.take_of_length_le twelve.le, List.length_append] at most
    obtain rfl : more = [] := List.length_eq_zero_iff.mp (by omega)
    rw [List.append_nil, List.take_of_length_le twelve.le] at walked
    -- what remains behind the direct blocks
    have covers := lt_size_of_lt_fileBlockCount many
    have remains : (inode.iSize - UInt32.ofNat 12 * fs.blockSize).toNat = inode.iSize.toNat - 12 * fs.blockSize.toNat :=
      toNat_remaining covers.le
    obtain ⟨block, pointer, _, _⟩ := pointer_of_fileBlock (covered.blocks 12 many)
    unfold filePointer at pointer
    rw [if_neg (Nat.lt_irrefl 12)] at pointer
    split_ifs at pointer with nothing
    obtain ⟨bytes, read, pointer⟩ := Option.bind_eq_some_iff.mp pointer
    generalize table : pointersIn (fs.blockSize / 4).toNat bytes = blocks at pointer
    have indirect : ∀ k, blocks[k]? = filePointer disk fs inode (12 + k) := by
      intro k
      rw [filePointer, if_neg (by omega), if_neg nothing, read, Option.bind_some, table, Nat.add_sub_cancel_left]
    obtain ⟨long', nonzero'⟩ := @take_of_pointers disk fs inode blocks 12 (fileBlockCount fs inode - 12)
      (fun k _ => indirect k) (present 12 _ (by omega))
    obtain ⟨more, walked'⟩ := @visited_append fs blocks (inode.iSize - UInt32.ofNat 12 * fs.blockSize) _ long'
      (fun k inside => by
        have within := lt_size_of_lt_fileBlockCount (show 12 + k < fileBlockCount fs inode by omega)
        rw [Nat.add_mul] at within
        omega) nonzero'
    have some : inode.iSize - UInt32.ofNat 12 * fs.blockSize ≠ 0 := by
      intro none
      rw [none] at remains
      have zero : (0 : UInt32).toNat = 0 := rfl
      omega
    refine ⟨inode.iBlock.take 12 ++ blocks.take (fileBlockCount fs inode - 12), more, ?_, ?_, fun k inside => ?_⟩
    · unfold visits
      rw [walked]
      dsimp only
      rw [twelve, if_pos ⟨some, nothing⟩, read, Option.getD_some, table, walked', List.append_assoc]
    · rw [List.length_append, twelve, List.length_take]
      omega
    · rcases Nat.lt_or_ge k 12 with first | later
      · rw [List.getElem?_append_left (by omega), direct k first, Nat.zero_add]
      · rw [List.getElem?_append_right (by omega), twelve, List.getElem?_take_of_lt (by omega), indirect,
          Nat.add_sub_cancel' later]

/-- Blocks that can all be read are stored one behind the other. -/
theorem holds_placed {blocks : List UInt32} {datas : List (List UInt8)} {offset : UInt32} {values : List UInt8}
    {memory : Nat → UInt8} (sized : fs.BlockSized) (reads : blocks.map (ext2ReadBlock disk fs) = datas.map some)
    (here : offset.toNat = values.length)
    (small : ∀ k < blocks.length, values.length + k * fs.blockSize.toNat < 4294967296) (holds : Holds memory values) :
    Holds (storeAll memory (placed disk fs offset blocks)) (values ++ datas.flatten) := by
  induction blocks generalizing datas offset values memory with
  | nil =>
      obtain rfl : datas = [] := by simpa using reads.symm
      simpa [placed, storeAll] using holds
  | cons block blocks ih =>
      cases datas with
      | nil => simp at reads
      | cons data datas =>
          rw [List.map_cons, List.map_cons] at reads
          obtain ⟨read, reads⟩ := List.cons.inj reads
          have length := length_ext2ReadBlock sized read
          have stored : Holds (store memory offset.toNat data) (values ++ data) := by
            rw [here]
            exact holds.storeNext
          rw [placed, read, Option.toList_some, List.map_singleton, List.singleton_append, storeAll, List.flatten_cons,
            ← List.append_assoc]
          cases blocks with
          | nil =>
              obtain rfl : datas = [] := by simpa using reads.symm
              simpa [placed, storeAll] using stored
          | cons second blocks =>
              have next := small 1 (by simp)
              rw [Nat.one_mul] at next
              apply ih reads
              · rw [UInt32.toNat_add, here, List.length_append, length]
                exact Nat.mod_eq_of_lt next
              · intro k inside
                have later := small (k + 1) (Nat.succ_lt_succ inside)
                rw [Nat.succ_mul] at later
                rw [List.length_append, length]
                omega
              · exact stored

/-- The reads of a covered file put its blocks into the buffer and nothing behind them. -/
theorem Covered.holds {front : List UInt32} (covered : Covered disk fs inode) (sized : fs.BlockSized)
    (length : front.length = fileBlockCount fs inode)
    (pointers : ∀ k < fileBlockCount fs inode, front[k]? = filePointer disk fs inode k) (memory : Nat → UInt8) :
    Holds (storeAll memory (placed disk fs 0 front)) (fileBytes disk fs inode) ∧
      ∀ i, fileBlockCount fs inode * fs.blockSize.toNat ≤ i → storeAll memory (placed disk fs 0 front) i = memory i := by
  have bound := inode.iSize.toNat_lt
  constructor
  · rw [fileBytes, List.flatMap_def, ← List.nil_append (List.flatten _)]
    apply holds_placed sized
    · apply List.ext_getElem?
      intro k
      by_cases inside : k < fileBlockCount fs inode
      · obtain ⟨block, pointer, _, read⟩ := pointer_of_fileBlock (covered.blocks k inside)
        obtain ⟨data, value⟩ := Option.isSome_iff_exists.mp (covered.blocks k inside)
        rw [List.getElem?_map, List.getElem?_map, List.getElem?_map, pointers k inside, pointer,
          List.getElem?_range inside, Option.map_some, Option.map_some, Option.map_some, ← read, value]
        rfl
      · rw [List.getElem?_eq_none (by rw [List.length_map]; omega), List.getElem?_eq_none (by simp; omega)]
    · rfl
    · intro k inside
      have within := lt_size_of_lt_fileBlockCount (show k < fileBlockCount fs inode by omega)
      rw [List.length_nil]
      omega
    · intro i value there
      simp at there
  · intro i behind
    apply storeAll_of_not_covers
    rintro item member ⟨_, below⟩
    obtain ⟨size, k, inside, _, _, _, place⟩ := mem_placed sized member
    have within := lt_size_of_lt_fileBlockCount (show k < fileBlockCount fs inode by omega)
    have exact : item.1 = k * fs.blockSize.toNat := by
      rw [place, UInt32.zero_add, UInt32.toNat_mul, UInt32.toNat_ofNat', Nat.mod_mul_mod, Nat.mod_eq_of_lt (by omega)]
    have most := Nat.mul_le_mul_right fs.blockSize.toNat (show k + 1 ≤ fileBlockCount fs inode by omega)
    rw [Nat.succ_mul] at most
    omega

theorem Covered.length_fileBytes (covered : Covered disk fs inode) (sized : fs.BlockSized) :
    (fileBytes disk fs inode).length = fileBlockCount fs inode * fs.blockSize.toNat := by
  have whole : ∀ bytes ∈ (List.range (fileBlockCount fs inode)).map fun k => (fileBlock disk fs inode k).getD [],
      bytes.length = fs.blockSize.toNat := by
    intro bytes member
    obtain ⟨k, inside, rfl⟩ := List.mem_map.mp member
    obtain ⟨block, _, _, read⟩ := pointer_of_fileBlock (covered.blocks k (List.mem_range.mp inside))
    obtain ⟨data, value⟩ := Option.isSome_iff_exists.mp (covered.blocks k (List.mem_range.mp inside))
    rw [value, Option.getD_some]
    exact length_ext2ReadBlock sized (read.symm.trans value)
  rw [fileBytes, List.flatMap_def, length_flatten_of_forall whole, List.length_map, List.length_range, Nat.mul_comm]

end Covered

/-! ## Reading behind the end -/

/-- The stores of blocks the walk gets to behind the last block of the file. -/
def behindEnd (disk : Disk) (fs : Ext2Fs) (inode : Inode) (stack : List UInt8) : List (Nat × List UInt8) :=
  placed disk fs (UInt32.ofNat (fileBlockCount fs inode) * fs.blockSize)
    ((visits disk fs inode stack).drop (fileBlockCount fs inode))

/-- The blocks that are read behind the last block of the file lie, when `buf_offset` has
wrapped, on blocks of the file, and leave its content as it is. Without a wrap there are none. -/
structure HarmlessBehindEnd (disk : Disk) (fs : Ext2Fs) (inode : Inode) (stack : List UInt8) : Prop where
  inside : ∀ item ∈ behindEnd disk fs inode stack,
    item.1 + item.2.length ≤ fileBlockCount fs inode * fs.blockSize.toNat
  content : ((behindEnd disk fs inode stack).foldl (fun bytes item => overwrite bytes item.1 item.2)
    (fileBytes disk fs inode)).take inode.iSize.toNat = (fileBytes disk fs inode).take inode.iSize.toNat

section BehindEnd

variable {disk : Disk} {fs : Ext2Fs} {inode : Inode} {stack : List UInt8}

theorem length_foldl_overwrite {items : List (Nat × List UInt8)} {values : List UInt8}
    (inside : ∀ item ∈ items, item.1 + item.2.length ≤ values.length) :
    (items.foldl (fun bytes item => overwrite bytes item.1 item.2) values).length = values.length := by
  induction items generalizing values with
  | nil => rfl
  | cons item items ih =>
      have first := length_overwrite (inside item List.mem_cons_self)
      rw [List.foldl_cons, ih, first]
      intro other member
      rw [first]
      exact inside other (List.mem_cons_of_mem _ member)

/-- Stores inside what the memory starts with replace parts of it. -/
theorem holds_storeAll {items : List (Nat × List UInt8)} {memory : Nat → UInt8} {values : List UInt8}
    (inside : ∀ item ∈ items, item.1 + item.2.length ≤ values.length) (holds : Holds memory values) :
    Holds (storeAll memory items) (items.foldl (fun bytes item => overwrite bytes item.1 item.2) values) := by
  induction items generalizing memory values with
  | nil => exact holds
  | cons item items ih =>
      have first := inside item List.mem_cons_self
      apply ih
      · intro other member
        rw [length_overwrite first]
        exact inside other (List.mem_cons_of_mem _ member)
      · exact holds.store first

/-- The final memory of a read of a covered file. -/
theorem Covered.ext2ReadFile_eq (covered : Covered disk fs inode) (sized : fs.BlockSized) (memory : Nat → UInt8) :
    ∃ middle, Holds middle (fileBytes disk fs inode) ∧
      (∀ i, fileBlockCount fs inode * fs.blockSize.toNat ≤ i → middle i = memory i) ∧
      (ext2ReadFile disk fs inode stack memory).2 = storeAll middle (behindEnd disk fs inode stack) := by
  obtain ⟨front, more, walk, length, pointers⟩ := covered.visits_eq stack
  obtain ⟨holds, untouched⟩ := covered.holds sized length pointers memory
  refine ⟨_, holds, untouched, ?_⟩
  rw [Ext2.ext2ReadFile_eq, behindEnd, walk, placed_append, storeAll_append, UInt32.zero_add, List.drop_left' length,
    length]

/-- Only an empty block could lie at the end of the file by chance. -/
theorem covers_last {item : Nat × List UInt8} (sized : fs.BlockSized) (member : item ∈ behindEnd disk fs inode stack)
    (beyond : fileBlockCount fs inode * fs.blockSize.toNat < item.1 + item.2.length) :
    Covers item (item.1 + item.2.length - 1) := by
  obtain ⟨size, k, _, _, _, _, place⟩ := mem_placed sized member
  have some : item.2.length ≠ 0 := by
    intro none
    have zero : fs.blockSize = 0 := UInt32.toNat_inj.mp (size.symm.trans none)
    have start : item.1 = 0 := by
      rw [place, zero, UInt32.mul_zero, UInt32.mul_zero]
      rfl
    omega
  constructor <;> omega

/-- `ext2_read_file` reads a file right exactly when its pointers cover it and what is read
behind its last block does no harm. -/
theorem ext2ReadFile_reads_iff (disk : Disk) (fs : Ext2Fs) (inode : Inode) (stack : List UInt8)
    (sized : fs.BlockSized) :
    ReadsFile disk fs inode stack ↔ Covered disk fs inode ∧ HarmlessBehindEnd disk fs inode stack := by
  constructor
  · intro reads
    have result : ∀ memory, (ext2ReadFile disk fs inode stack memory).1 = true := fun memory => by
      rw [ext2ReadFile_eq]
    have covered := (reads (fun _ => 0) (result _)).1
    have length := covered.length_fileBytes sized
    have inside : ∀ item ∈ behindEnd disk fs inode stack,
        item.1 + item.2.length ≤ fileBlockCount fs inode * fs.blockSize.toNat := by
      intro item member
      by_contra beyond
      have covers := covers_last sized member (Nat.lt_of_not_le beyond)
      -- a byte behind the last block gets a value that another memory did not have there
      obtain ⟨middle, _, _, final⟩ := @Covered.ext2ReadFile_eq disk fs inode stack covered sized fun _ => 0
      let value := storeAll middle (behindEnd disk fs inode stack) (item.1 + item.2.length - 1)
      obtain ⟨middle', _, _, final'⟩ := @Covered.ext2ReadFile_eq disk fs inode stack covered sized fun _ => value + 1
      have kept := (reads (fun _ => value + 1) (result _)).2.2 (item.1 + item.2.length - 1) (by omega)
      rw [final', storeAll_of_covers member covers middle' middle] at kept
      have different : value ≠ value + 1 := by simp
      exact different kept
    refine ⟨covered, inside, ?_⟩
    obtain ⟨middle, holds, _, final⟩ := @Covered.ext2ReadFile_eq disk fs inode stack covered sized fun _ => 0
    have stored := holds_storeAll (fun item member => by
      rw [length]
      exact inside item member) holds
    have read := (reads (fun _ => 0) (result _)).2.1
    rw [final] at read
    apply (stored.take _).eq read
    rw [List.length_take, List.length_take, length_foldl_overwrite (by rwa [length])]
  · rintro ⟨covered, harmless⟩ memory _
    obtain ⟨middle, holds, untouched, final⟩ := @Covered.ext2ReadFile_eq disk fs inode stack covered sized memory
    have length := covered.length_fileBytes sized
    have stored := holds_storeAll (fun item member => by
      rw [length]
      exact harmless.inside item member) holds
    refine ⟨covered, ?_, fun i behind => ?_⟩
    · rw [final, ← harmless.content]
      exact stored.take _
    · rw [final, storeAll_of_not_covers, untouched i behind]
      rintro item member ⟨_, below⟩
      have most := harmless.inside item member
      omega

/-- As long as a loop goes on, the counter is not zero. -/
theorem remaining_ne_zero {blocks : List UInt32} {remaining : UInt32} {k : Nat}
    (inside : k < (visited fs.blockSize blocks remaining).length) : remaining - UInt32.ofNat k * fs.blockSize ≠ 0 := by
  induction blocks generalizing remaining k with
  | nil => exact absurd inside (Nat.not_lt_zero _)
  | cons block blocks ih =>
      rw [visited] at inside
      split_ifs at inside with finished zero
      · exact absurd inside (Nat.not_lt_zero _)
      · exact absurd inside (Nat.not_lt_zero _)
      · cases k with
        | zero =>
            have none : UInt32.ofNat 0 * fs.blockSize = 0 := UInt32.zero_mul
            rw [none, UInt32.sub_zero]
            exact finished
        | succ k =>
            rw [← remaining_succ]
            exact ih (Nat.lt_of_succ_lt_succ inside)

/-- The walk stops when the counter is zero. -/
theorem length_visits_le {count : Nat} (finished : inode.iSize - UInt32.ofNat count * fs.blockSize = 0) :
    (visits disk fs inode stack).length ≤ count := by
  by_contra more
  have inside := Nat.lt_of_not_le more
  unfold visits at inside
  dsimp only at inside
  generalize direct : visited fs.blockSize (inode.iBlock.take 12) inode.iSize = front at inside
  have first : ¬ count < front.length := by
    intro early
    rw [← direct] at early
    exact remaining_ne_zero early finished
  split_ifs at inside with goes
  · rw [List.length_append] at inside
    obtain ⟨k, rfl⟩ := Nat.exists_eq_add_of_le (Nat.le_of_not_lt first)
    apply remaining_ne_zero (Nat.lt_of_add_lt_add_left inside)
    rw [← finished, UInt32.ofNat_add]
    grind
  · exact first inside

theorem length_visits_le_capacity : (visits disk fs inode stack).length ≤ 12 + fs.blockSize.toNat / 4 := by
  have direct := (@length_visited_le fs (inode.iBlock.take 12) inode.iSize).trans (List.length_take_le _ _)
  unfold visits
  dsimp only
  split_ifs
  · have table := @length_visited_le fs
      (pointersIn (fs.blockSize / 4).toNat ((ext2ReadBlock disk fs (inode.iBlock.getD 12 0)).getD stack))
      (inode.iSize - UInt32.ofNat (visited fs.blockSize (inode.iBlock.take 12) inode.iSize).length * fs.blockSize)
    have capacity : (fs.blockSize / 4).toNat = fs.blockSize.toNat / 4 := UInt32.toNat_div _ _
    rw [length_pointersIn] at table
    rw [List.length_append]
    omega
  · omega

/-- Nothing is read behind the end of a file of whole blocks. -/
theorem Covered.harmlessBehindEnd (covered : Covered disk fs inode)
    (whole : fs.blockSize.toNat ∣ inode.iSize.toNat) : HarmlessBehindEnd disk fs inode stack := by
  obtain ⟨blocks, size⟩ := whole
  have count : fileBlockCount fs inode * fs.blockSize.toNat = inode.iSize.toNat := by
    have room := covered.room
    rcases Nat.eq_zero_or_pos (fileBlockCount fs inode) with none | positive
    · rw [none, Nat.zero_mul] at room ⊢
      omega
    · have below := @lt_size_of_lt_fileBlockCount fs inode (fileBlockCount fs inode - 1) (by omega)
      rw [size, Nat.mul_comm fs.blockSize.toNat] at below room ⊢
      have less := Nat.lt_of_mul_lt_mul_right below
      have more := Nat.le_of_mul_le_mul_right room (Nat.pos_of_ne_zero fun none => by simp [none] at below)
      rw [show fileBlockCount fs inode = blocks by omega]
  have finished : inode.iSize - UInt32.ofNat (fileBlockCount fs inode) * fs.blockSize = 0 := by
    apply UInt32.toNat_inj.mp
    rw [toNat_remaining count.le, count, Nat.sub_self]
    rfl
  have none : behindEnd disk fs inode stack = [] := by
    rw [behindEnd, List.drop_of_length_le (length_visits_le finished)]
    rfl
  constructor
  · intro item member
    rw [none] at member
    exact absurd member List.not_mem_nil
  · rw [none]
    rfl

/-- With blocks of at most 64 KiB `buf_offset` does not wrap: only pointers out of range do no
harm. -/
theorem harmlessBehindEnd_iff (sized : fs.BlockSized) (some : fs.blockSize ≠ 0) (small : fs.blockSize.toNat ≤ 65536) :
    HarmlessBehindEnd disk fs inode stack ↔
      ∀ block ∈ (visits disk fs inode stack).drop (fileBlockCount fs inode), fs.super.sBlocksCount ≤ block := by
  have positive : 0 < fs.blockSize.toNat := Nat.pos_of_ne_zero fun none => some (UInt32.toNat_inj.mp none)
  constructor
  · intro harmless block member
    by_contra inRange
    obtain ⟨k, inside, there⟩ := List.mem_iff_getElem.mp member
    have most := @length_visits_le_capacity disk fs inode stack
    rw [List.length_drop] at inside
    have read : ∃ bytes, ext2ReadBlock disk fs block = Option.some bytes := by
      unfold ext2ReadBlock
      rw [if_neg inRange]
      exact ⟨_, rfl⟩
    obtain ⟨bytes, read⟩ := read
    have stored := harmless.inside _ (mem_placed_of_read (List.getElem?_eq_some_iff.mpr ⟨_, there⟩) read)
    have product := Nat.mul_le_mul_right fs.blockSize.toNat
      (show fileBlockCount fs inode + k ≤ 12 + fs.blockSize.toNat / 4 by omega)
    have bound : (12 + fs.blockSize.toNat / 4) * fs.blockSize.toNat ≤ (12 + 16384) * 65536 :=
      Nat.mul_le_mul (by omega) small
    have place : (UInt32.ofNat (fileBlockCount fs inode) * fs.blockSize + UInt32.ofNat k * fs.blockSize).toNat =
        (fileBlockCount fs inode + k) * fs.blockSize.toNat := by
      rw [← UInt32.add_mul, ← UInt32.ofNat_add, UInt32.toNat_mul, UInt32.toNat_ofNat', Nat.mod_mul_mod]
      exact Nat.mod_eq_of_lt (by omega)
    rw [place, length_ext2ReadBlock sized read, Nat.add_mul] at stored
    omega
  · intro outside
    have none : behindEnd disk fs inode stack = [] := by
      apply List.eq_nil_iff_forall_not_mem.mpr
      intro item member
      obtain ⟨_, k, _, block, there, read, _⟩ := mem_placed sized member
      have far := outside block (List.mem_of_getElem? there)
      unfold ext2ReadBlock at read
      rw [if_pos far] at read
      simp at read
    constructor
    · intro item member
      rw [none] at member
      exact absurd member List.not_mem_nil
    · rw [none]
      rfl

end BehindEnd

/-- A disk whose sectors are filled with their numbers. -/
def numberedDisk : Disk := ⟨fun lba => List.replicate 512 (UInt8.ofNat lba), fun _ => List.length_replicate⟩

/-- A volume of eight blocks of 1024 bytes on it. -/
def numberedFs : Ext2Fs where
  startLba := 0
  blockSize := 1024
  super := { newSuperblock 64 with sLogBlockSize := 0 }
  groups := List.replicate 32 0

/-- An inode with the blocks 3 and 4. -/
def twoBlockInode (size : UInt32) : Inode where
  iMode := 0x8000
  iUid := 0
  iSize := size
  iGid := 0
  iLinksCount := 1
  iBlocks := 4
  iBlock := 3 :: 4 :: List.replicate 13 0

theorem ext2ReadFile_reads_2048 : ReadsFile numberedDisk numberedFs (twoBlockInode 2048) [] := by
  have covered : Covered numberedDisk numberedFs (twoBlockInode 2048) := by
    constructor
    · decide
    · decide +kernel
  have harmless := @Covered.harmlessBehindEnd numberedDisk numberedFs (twoBlockInode 2048) [] covered (by decide)
  exact (ext2ReadFile_reads_iff numberedDisk numberedFs (twoBlockInode 2048) [] rfl).mpr ⟨covered, harmless⟩

/-- A file of one byte: the pointers cover it, and its second pointer is read as well, so that
bytes behind its block change. -/
theorem ext2ReadFile_overruns :
    Covered numberedDisk numberedFs (twoBlockInode 1) ∧ fileBlockCount numberedFs (twoBlockInode 1) = 1 ∧
      (∀ memory, (ext2ReadFile numberedDisk numberedFs (twoBlockInode 1) [] memory).1 = true) ∧
      (ext2ReadFile numberedDisk numberedFs (twoBlockInode 1) [] fun _ => 0).2 1024 = 8 ∧
      ¬ ReadsFile numberedDisk numberedFs (twoBlockInode 1) [] := by
  have covered : Covered numberedDisk numberedFs (twoBlockInode 1) := by
    constructor
    · decide
    · decide +kernel
  have value : (ext2ReadFile numberedDisk numberedFs (twoBlockInode 1) [] fun _ => 0).2 1024 = 8 := by decide +kernel
  have returned : ∀ memory, (ext2ReadFile numberedDisk numberedFs (twoBlockInode 1) [] memory).1 = true := by
    intro memory
    rw [ext2ReadFile_eq]
  refine ⟨covered, by decide, returned, value, fun reads => ?_⟩
  have kept := (reads (fun _ => 0) (returned _)).2.2 1024 (by decide)
  rw [value] at kept
  exact absurd kept (by decide)

end KeblaOS.Ext2
