import KeblaOS.Lib.PagedMemory

/-!
# The kernel heap

`kheap_alloc`, `kheap_free` of `kheap.c` and `malloc`, `free`, `calloc`, `realloc` of
`stdlib.c`, over memory in which `vm_alloc` maps a page of its own and `vm_free` unmaps it.
A freshly mapped page has arbitrary contents. Addresses and sizes are 64-bit numbers: sums
wrap around. A call has no result when it touches a page that is not mapped.
-/

namespace KeblaOS.Memory

/-- `h_va_head` and the memory the heap hands out. -/
structure Heap where
  head : Nat
  memory : PagedMemory

/-- 64-bit arithmetic. -/
def wrap (value : Nat) : Nat := value % 18446744073709551616

/-- `HIGHER_HALF_START_ADDR`, where the heap starts. -/
def heapStart : Nat := 0xFFFF800000001000

/-- `HIGHER_HALF_END_ADDR`. -/
def heapEnd : Nat := 0xFFFFFFFFFFFFFFFF

/-- `(size + 0xFFF) & ~0xFFF`, in pages. -/
def pageCount (size : Nat) : Nat := wrap (size + 0xFFF) / 4096

/-- `ALIGN8`. -/
def align8 (size : Nat) : Nat := wrap (size + 7) / 8 * 8

/-! ## Pages of the heap -/

/-- The loop of `kheap_alloc`. The head moves by one page towards `stop` each time, so that
the pages of the request bound the number of turns. -/
def kheapAllocLoop (contents : Nat → UInt8) (stop : Nat) : Nat → Heap → Heap
  | 0, heap => heap
  | count + 1, heap =>
      if heap.head < stop then
        kheapAllocLoop contents stop count
          ⟨wrap (heap.head + 4096), heap.memory.mapPage contents (heap.head / 4096)⟩
      else heap

/-- `kheap_alloc`; the address is 0 for `NULL`. -/
def kheapAlloc (contents : Nat → UInt8) (heap : Heap) (size : Nat) : Nat × Heap :=
  let pages := pageCount size
  if heapEnd < wrap (heap.head + 4096 * pages) then (0, heap)
  else
    let va := heap.head
    let heap := kheapAllocLoop contents (wrap (va + 4096 * pages)) pages heap
    -- the padding between two allocations
    (va, { heap with head := wrap (heap.head + 4096) })

/-- The loop of `kheap_free`, for a size of so many pages. -/
def kheapFreeLoop (memory : PagedMemory) (va : Nat) : Nat → PagedMemory
  | 0 => memory
  | count + 1 => kheapFreeLoop (memory.unmapPage (va / 4096)) (wrap (va + 4096)) count

/-- `kheap_free`. -/
def kheapFree (heap : Heap) (ptr size : Nat) : Heap :=
  if ptr = 0 ∨ size = 0 then heap
  else { heap with memory := kheapFreeLoop heap.memory ptr (pageCount size) }

/-! ## Blocks -/

/-- `MAGIC`. -/
def magic : UInt8 := 0xAB

/-- Clear a `malloc_header_t` and set its `size` (at 0) and its `magic` (at 24). -/
def initHeader (memory : PagedMemory) (header size : Nat) : Option PagedMemory := do
  let memory ← memory.store header (List.replicate 32 0)
  let memory ← memory.storeWord header size
  memory.store (header + 24) [magic]

/-- `malloc`; the address is 0 for `NULL`. -/
def malloc (contents : Nat → UInt8) (heap : Heap) (size : Nat) : Option (Nat × Heap) :=
  if size = 0 then some (0, heap)
  else
    let size := align8 size
    let (header, heap) := kheapAlloc contents heap (wrap (32 + size + 32))
    if header = 0 then some (0, heap)
    else do
      let memory ← initHeader heap.memory header size
      let ptr := wrap (header + 32)
      let memory ← memory.store ptr (List.replicate size 0)
      let memory ← initHeader memory (wrap (header + 32 + size)) size
      some (ptr, { heap with memory := memory })

/-- `free`. A block without its magic numbers is left alone. -/
def free (heap : Heap) (ptr : Nat) : Option Heap :=
  if ptr = 0 then some heap
  else do
    let header := wrap (ptr + (18446744073709551616 - 32))
    let size ← heap.memory.loadWord header
    let tailer := wrap (ptr + size)
    let headerMagic ← heap.memory.load (header + 24) 1
    let tailerMagic ← heap.memory.load (tailer + 24) 1
    if headerMagic ≠ [magic] ∨ tailerMagic ≠ [magic] then some heap
    else do
      let memory ← heap.memory.store (header + 24) [0]
      let memory ← memory.storeWord header 0
      let memory ← memory.store (tailer + 24) [0]
      some (kheapFree { heap with memory := memory } header (wrap (32 + size + 32)))

/-- `calloc`. -/
def calloc (contents : Nat → UInt8) (heap : Heap) (nmemb size : Nat) : Option (Nat × Heap) := do
  let total := wrap (nmemb * size)
  let (ptr, heap) ← malloc contents heap total
  if ptr = 0 then some (0, heap)
  else do
    let memory ← heap.memory.store ptr (List.replicate total 0)
    some (ptr, { heap with memory := memory })

/-- `realloc`. -/
def realloc (contents : Nat → UInt8) (heap : Heap) (ptr size : Nat) : Option (Nat × Heap) :=
  if ptr = 0 then malloc contents heap size
  else if size = 0 then (free heap ptr).map fun heap => (0, heap)
  else do
    let header := wrap (ptr + (18446744073709551616 - 32))
    let headerMagic ← heap.memory.load (header + 24) 1
    if headerMagic ≠ [magic] then some (0, heap)
    else do
      let oldSize ← heap.memory.loadWord header
      if oldSize = size then some (ptr, heap)
      else do
        let (newPtr, heap) ← malloc contents heap size
        if newPtr = 0 then some (0, heap)
        else do
          let data ← heap.memory.load ptr (min oldSize size)
          let memory ← heap.memory.store newPtr data
          let heap ← free { heap with memory := memory } ptr
          some (newPtr, heap)

/-! ## What the page loops do -/

theorem wrap_of_lt {value : Nat} (small : value < 18446744073709551616) : wrap value = value :=
  Nat.mod_eq_of_lt small

/-- As long as the addresses do not wrap around, `kheap_alloc` maps the pages asked for. -/
theorem kheapAllocLoop_eq {contents : Nat → UInt8} {first count : Nat} {memory : PagedMemory}
    (room : 4096 * (first + count) < 18446744073709551616) :
    kheapAllocLoop contents (4096 * (first + count)) count ⟨4096 * first, memory⟩ =
      ⟨4096 * (first + count), memory.mapPages contents first count⟩ := by
  induction count generalizing first memory with
  | zero => rfl
  | succ count ih =>
      have ahead : 4096 * first < 4096 * (first + (count + 1)) := by omega
      have next : wrap (4096 * first + 4096) = 4096 * (first + 1) := wrap_of_lt (by omega)
      have here : 4096 * first / 4096 = first := by omega
      have shift : first + (count + 1) = first + 1 + count := by omega
      rw [kheapAllocLoop, if_pos ahead, next, here, shift]
      exact ih (by omega)

/-- While the pages end inside the address space, `kheap_alloc` maps them at the head. -/
theorem kheapAlloc_maps {contents : Nat → UInt8} {first size : Nat} {memory : PagedMemory}
    (room : 4096 * (first + pageCount size) < 18446744073709551616) :
    kheapAlloc contents ⟨4096 * first, memory⟩ size =
      (4096 * first,
        ⟨wrap (4096 * (first + pageCount size + 1)), memory.mapPages contents first (pageCount size)⟩) := by
  have stop : wrap (4096 * first + 4096 * pageCount size) = 4096 * (first + pageCount size) := by
    rw [wrap_of_lt (by omega)]
    omega
  have inside : ¬ heapEnd < 4096 * (first + pageCount size) := by
    unfold heapEnd
    omega
  unfold kheapAlloc
  simp only [stop]
  rw [if_neg inside, kheapAllocLoop_eq room]
  rfl

theorem kheapFreeLoop_eq {first count : Nat} {memory : PagedMemory}
    (room : 4096 * (first + count) < 18446744073709551616) :
    kheapFreeLoop memory (4096 * first) count = memory.unmapPages first count := by
  induction count generalizing first memory with
  | zero => rfl
  | succ count ih =>
      have next : wrap (4096 * first + 4096) = 4096 * (first + 1) := wrap_of_lt (by omega)
      have here : 4096 * first / 4096 = first := by omega
      rw [kheapFreeLoop, next, here]
      exact ih (by omega)

/-! ## Headers -/

/-- The bytes of an initialised header or tailer. -/
def headerBytes (size : Nat) : List UInt8 :=
  Buffer.leBytes 8 size ++ (List.replicate 16 0 ++ (magic :: List.replicate 7 0))

@[simp] theorem length_headerBytes (size : Nat) : (headerBytes size).length = 32 := by
  simp [headerBytes]

theorem initHeader_eq {memory : PagedMemory} {header size : Nat} (accessible : memory.Accessible header 32) :
    initHeader memory header size = some (memory.write header (headerBytes size)) := by
  have stored : ∀ (memory : PagedMemory) (offset : Nat) (data : List UInt8), memory.Accessible header 32 →
      offset + data.length ≤ 32 → memory.store (header + offset) data = some (memory.write (header + offset) data) :=
    fun memory offset data accessible fits =>
      PagedMemory.store_of_accessible (accessible.mono (by omega) (by omega))
  let cleared : List UInt8 := List.replicate 32 0
  let sized := Buffer.overwrite cleared 0 (Buffer.leBytes 8 size)
  have word := @PagedMemory.write_write_within memory header cleared (Buffer.leBytes 8 size) 0 (by simp [cleared])
  have tag := @PagedMemory.write_write_within memory header sized [magic] 24
    (by simp [sized, cleared, Buffer.length_overwrite])
  have written : Buffer.overwrite sized 24 [magic] = headerBytes size := rfl
  have clearing := stored memory 0 cleared accessible (by simp [cleared])
  have sizing := stored (memory.write header cleared) 0 (Buffer.leBytes 8 size) accessible (by simp)
  have tagging := stored (memory.write header sized) 24 [magic] accessible (by simp)
  rw [Nat.add_zero] at clearing sizing word
  rw [word] at sizing
  rw [tag, written] at tagging
  unfold initHeader PagedMemory.storeWord
  rw [clearing, Option.bind_eq_bind, Option.bind_some, sizing, Option.bind_some]
  exact tagging

/-- The words of an initialised header. -/
theorem header_fields {memory : PagedMemory} {header size : Nat} (initialised : memory.read header 32 = headerBytes size)
    (small : size < 18446744073709551616) (accessible : memory.Accessible header 32) :
    memory.loadWord header = some size ∧ memory.load (header + 24) 1 = some [magic] := by
  have word : memory.read header 8 = Buffer.leBytes 8 size := by
    have part := @PagedMemory.read_eq_slice memory header 32 0 8 (by omega)
    rw [Nat.add_zero, initialised] at part
    rw [part]
    rfl
  have tag : memory.read (header + 24) 1 = [magic] := by
    rw [@PagedMemory.read_eq_slice memory header 32 24 1 (by omega), initialised]
    rfl
  constructor
  · rw [PagedMemory.loadWord, PagedMemory.load_of_accessible (accessible.mono (Nat.le_refl _) (by omega)), word,
      Option.map_some, Buffer.leNat_leBytes_of_lt (by omega)]
  · rw [PagedMemory.load_of_accessible (accessible.mono (by omega) (by omega)), tag]

/-! ## The effect of a call -/

/-- The pages of a block with so many payload bytes between its header and tailer. -/
def pagesFor (capacity : Nat) : Nat := (32 + capacity + 32 + 0xFFF) / 4096

/-- A block sits at page `first`, with the page behind it never mapped and the head of the
heap further up. -/
structure Placed (heap : Heap) (first capacity : Nat) : Prop where
  positive : 0 < first
  below : 4096 * (first + pagesFor capacity + 1) ≤ heap.head
  mapped : ∀ page, first ≤ page → page < first + pagesFor capacity → heap.memory.mapped page = true
  used : ∀ page, first ≤ page → page < first + pagesFor capacity → heap.memory.maps page ≠ 0
  guarded : heap.memory.maps (first + pagesFor capacity) = 0
  header : heap.memory.read (4096 * first) 32 = headerBytes capacity
  tailer : heap.memory.read (4096 * first + 32 + capacity) 32 = headerBytes capacity

/-- A block was made at the head of the heap. -/
structure Granted (before after : Heap) (first capacity : Nat) : Prop where
  start : before.head = 4096 * first
  head : after.head = 4096 * (first + pagesFor capacity + 1)
  mapped : ∀ page, after.memory.mapped page =
    if first ≤ page ∧ page < first + pagesFor capacity then true else before.memory.mapped page
  maps : ∀ page, after.memory.maps page =
    if first ≤ page ∧ page < first + pagesFor capacity then before.memory.maps page + 1
    else before.memory.maps page
  header : after.memory.read (4096 * first) 32 = headerBytes capacity
  tailer : after.memory.read (4096 * first + 32 + capacity) 32 = headerBytes capacity
  frame : ∀ byte < 4096 * first, after.memory.bytes byte = before.memory.bytes byte

/-- The pages of a block were unmapped. -/
structure Released (before after : Heap) (first capacity : Nat) : Prop where
  head : after.head = before.head
  mapped : ∀ page, after.memory.mapped page =
    if first ≤ page ∧ page < first + pagesFor capacity then false else before.memory.mapped page
  maps : after.memory.maps = before.memory.maps
  frame : ∀ byte, byte < 4096 * first ∨ 4096 * (first + pagesFor capacity) ≤ byte →
    after.memory.bytes byte = before.memory.bytes byte

theorem block_in_pages (capacity : Nat) : 64 + capacity ≤ 4096 * pagesFor capacity := by
  unfold pagesFor
  omega

theorem pageCount_block {capacity : Nat} (room : 4096 * pagesFor capacity < 18446744073709551616) :
    pageCount (wrap (32 + capacity + 32)) = pagesFor capacity := by
  unfold pagesFor at room ⊢
  rw [wrap_of_lt (by omega), pageCount, wrap_of_lt (by omega)]

theorem Granted.accessible {before after : Heap} {first capacity start len : Nat}
    (granted : Granted before after first capacity) (lower : 4096 * first ≤ start)
    (upper : start + len ≤ 4096 * (first + pagesFor capacity)) : after.memory.Accessible start len :=
  .of_pages (fun page low high => by rw [granted.mapped, if_pos ⟨low, high⟩]) lower upper

theorem Placed.accessible {heap : Heap} {first capacity start len : Nat} (placed : Placed heap first capacity)
    (lower : 4096 * first ≤ start) (upper : start + len ≤ 4096 * (first + pagesFor capacity)) :
    heap.memory.Accessible start len :=
  .of_pages placed.mapped lower upper

/-- Writing into the payload of a new block. -/
theorem Granted.write {before after : Heap} {first capacity offset : Nat} {data : List UInt8}
    (granted : Granted before after first capacity) (fits : offset + data.length ≤ capacity) :
    Granted before { after with memory := after.memory.write (4096 * first + 32 + offset) data } first capacity where
  start := granted.start
  head := granted.head
  mapped := granted.mapped
  maps := granted.maps
  header := (PagedMemory.read_write_apart (by omega)).trans granted.header
  tailer := (PagedMemory.read_write_apart (by omega)).trans granted.tailer
  frame byte below := (PagedMemory.bytes_write_of_outside (by omega)).trans (granted.frame byte below)

/-- A zeroed block between its header and its tailer. -/
def newBlock (memory : PagedMemory) (header capacity : Nat) : PagedMemory :=
  ((memory.write header (headerBytes capacity)).write (header + 32) (List.replicate capacity 0)).write
    (header + 32 + capacity) (headerBytes capacity)

section NewBlock

variable {memory : PagedMemory} {header capacity : Nat}

theorem read_newBlock_header : (newBlock memory header capacity).read header 32 = headerBytes capacity := by
  have written := PagedMemory.read_write_self memory header (headerBytes capacity)
  rw [length_headerBytes] at written
  rw [newBlock, PagedMemory.read_write_apart (by omega), PagedMemory.read_write_apart (by omega), written]

theorem read_newBlock_payload :
    (newBlock memory header capacity).read (header + 32) capacity = List.replicate capacity 0 := by
  have written := PagedMemory.read_write_self (memory.write header (headerBytes capacity)) (header + 32)
    (List.replicate capacity 0)
  rw [List.length_replicate] at written
  rw [newBlock, PagedMemory.read_write_apart (by omega), written]

theorem read_newBlock_tailer :
    (newBlock memory header capacity).read (header + 32 + capacity) 32 = headerBytes capacity := by
  have written := PagedMemory.read_write_self
    ((memory.write header (headerBytes capacity)).write (header + 32) (List.replicate capacity 0))
    (header + 32 + capacity) (headerBytes capacity)
  rwa [length_headerBytes] at written

@[simp] theorem mapped_newBlock : (newBlock memory header capacity).mapped = memory.mapped := rfl

@[simp] theorem maps_newBlock : (newBlock memory header capacity).maps = memory.maps := rfl

theorem bytes_newBlock_of_before {byte : Nat} (before : byte < header) :
    (newBlock memory header capacity).bytes byte = memory.bytes byte := by
  rw [newBlock, PagedMemory.bytes_write_of_outside (by omega), PagedMemory.bytes_write_of_outside (by omega),
    PagedMemory.bytes_write_of_outside (by omega)]

/-- The stores of `malloc`. -/
theorem initBlock_eq {Result : Type} (accessible : memory.Accessible header (64 + capacity))
    (next : PagedMemory → Option Result) :
    ((initHeader memory header capacity).bind fun memory =>
      (memory.store (header + 32) (List.replicate capacity 0)).bind fun memory =>
        (initHeader memory (header + 32 + capacity) capacity).bind next) =
      next (newBlock memory header capacity) := by
  have front : memory.Accessible header 32 := accessible.mono (Nat.le_refl _) (by omega)
  have payload : memory.Accessible (header + 32) (List.replicate capacity (0 : UInt8)).length :=
    accessible.mono (by omega) (by rw [List.length_replicate]; omega)
  have back : memory.Accessible (header + 32 + capacity) 32 := accessible.mono (by omega) (by omega)
  rw [initHeader_eq front, Option.bind_some,
    PagedMemory.store_of_accessible (PagedMemory.accessible_write.mpr payload), Option.bind_some,
    initHeader_eq (PagedMemory.accessible_write.mpr (PagedMemory.accessible_write.mpr back)), Option.bind_some,
    newBlock]

end NewBlock

/-- Past `kheap_alloc`, `malloc` writes the header, clears the payload and writes the tailer. -/
theorem malloc_of_allocated {contents : Nat → UInt8} {heap after : Heap} {va size : Nat} (nonzero : size ≠ 0)
    (place : va ≠ 0)
    (allocated : kheapAlloc contents heap (wrap (32 + align8 size + 32)) = (va, after)) :
    malloc contents heap size = (initHeader after.memory va (align8 size)).bind fun memory =>
      (memory.store (wrap (va + 32)) (List.replicate (align8 size) 0)).bind fun memory =>
        (initHeader memory (wrap (va + 32 + align8 size)) (align8 size)).bind fun memory =>
          some (wrap (va + 32), { after with memory := memory }) := by
  unfold malloc
  rw [if_neg nonzero]
  dsimp only
  rw [allocated]
  dsimp only
  rw [if_neg place]
  rfl

/-- `malloc` of a non-zero size, while its pages end inside the address space. -/
theorem malloc_eq {contents : Nat → UInt8} {memory : PagedMemory} {first size : Nat} (positive : 0 < first)
    (nonzero : size ≠ 0) (room : 4096 * (first + pagesFor (align8 size)) < 18446744073709551616) :
    malloc contents ⟨4096 * first, memory⟩ size =
      some (4096 * first + 32, ⟨wrap (4096 * (first + pagesFor (align8 size) + 1)),
        newBlock (memory.mapPages contents first (pagesFor (align8 size))) (4096 * first) (align8 size)⟩) := by
  have inside := block_in_pages (align8 size)
  have count := @pageCount_block (align8 size) (by omega)
  have allocated := @kheapAlloc_maps contents first (wrap (32 + align8 size + 32)) memory (by rwa [count])
  have payload : wrap (4096 * first + 32) = 4096 * first + 32 := wrap_of_lt (by omega)
  have behind : wrap (4096 * first + 32 + align8 size) = 4096 * first + 32 + align8 size := wrap_of_lt (by omega)
  have accessible : (memory.mapPages contents first (pagesFor (align8 size))).Accessible (4096 * first)
      (64 + align8 size) :=
    .of_pages (fun page low high => by rw [PagedMemory.mapped_mapPages, if_pos ⟨low, high⟩]) (Nat.le_refl _) (by omega)
  rw [malloc_of_allocated nonzero (by omega) allocated, count, payload, behind]
  exact initBlock_eq accessible fun memory =>
    some (4096 * first + 32, (⟨wrap (4096 * (first + pagesFor (align8 size) + 1)), memory⟩ : Heap))

/-- `malloc` of a non-zero size returns a zeroed block at the head. -/
theorem malloc_granted {contents : Nat → UInt8} {heap : Heap} {first size : Nat} (start : heap.head = 4096 * first)
    (positive : 0 < first) (nonzero : size ≠ 0)
    (room : 4096 * (first + pagesFor (align8 size) + 1) < 18446744073709551616) :
    ∃ after, malloc contents heap size = some (4096 * first + 32, after) ∧
      Granted heap after first (align8 size) ∧
      after.memory.read (4096 * first + 32) (align8 size) = List.replicate (align8 size) 0 := by
  obtain ⟨head, memory⟩ := heap
  obtain rfl : head = 4096 * first := start
  refine ⟨_, malloc_eq positive nonzero (by omega), ⟨rfl, wrap_of_lt room, fun page => ?_, fun page => ?_,
    read_newBlock_header, read_newBlock_tailer, fun byte below => ?_⟩, read_newBlock_payload⟩
  · rw [mapped_newBlock, PagedMemory.mapped_mapPages]
  · rw [maps_newBlock, PagedMemory.maps_mapPages]
  · rw [bytes_newBlock_of_before below, PagedMemory.bytes_mapPages_of_before below]

/-- A block whose header and tailer `free` has cleared. -/
def clearedBlock (memory : PagedMemory) (header capacity : Nat) : PagedMemory :=
  ((memory.write (header + 24) [0]).write header (Buffer.leBytes 8 0)).write (header + 32 + capacity + 24) [0]

section ClearedBlock

variable {memory : PagedMemory} {header capacity : Nat}

@[simp] theorem mapped_clearedBlock : (clearedBlock memory header capacity).mapped = memory.mapped := rfl

@[simp] theorem maps_clearedBlock : (clearedBlock memory header capacity).maps = memory.maps := rfl

theorem bytes_clearedBlock_of_outside {byte : Nat} (outside : byte < header ∨ header + 64 + capacity ≤ byte) :
    (clearedBlock memory header capacity).bytes byte = memory.bytes byte := by
  have word : (Buffer.leBytes 8 0).length = 8 := Buffer.length_leBytes 8 0
  have single : [(0 : UInt8)].length = 1 := rfl
  rw [clearedBlock, PagedMemory.bytes_write_of_outside (by omega), PagedMemory.bytes_write_of_outside (by omega),
    PagedMemory.bytes_write_of_outside (by omega)]

/-- The stores of `free`. -/
theorem clearBlock_eq {Result : Type} (accessible : memory.Accessible header (64 + capacity))
    (next : PagedMemory → Option Result) :
    ((memory.store (header + 24) [0]).bind fun memory =>
      (memory.storeWord header 0).bind fun memory =>
        (memory.store (header + 32 + capacity + 24) [0]).bind next) =
      next (clearedBlock memory header capacity) := by
  have single : [(0 : UInt8)].length = 1 := rfl
  have front : memory.Accessible (header + 24) [(0 : UInt8)].length := accessible.mono (by omega) (by omega)
  have word : memory.Accessible header (Buffer.leBytes 8 0).length :=
    accessible.mono (Nat.le_refl _) (by rw [Buffer.length_leBytes]; omega)
  have back : memory.Accessible (header + 32 + capacity + 24) [(0 : UInt8)].length :=
    accessible.mono (by omega) (by omega)
  rw [PagedMemory.store_of_accessible front, Option.bind_some, PagedMemory.storeWord,
    PagedMemory.store_of_accessible (PagedMemory.accessible_write.mpr word), Option.bind_some,
    PagedMemory.store_of_accessible (PagedMemory.accessible_write.mpr (PagedMemory.accessible_write.mpr back)),
    Option.bind_some, clearedBlock]

end ClearedBlock

theorem Released.of_clearedBlock {heap : Heap} {first capacity pages : Nat} (count : pages = pagesFor capacity) :
    Released heap ⟨heap.head, (clearedBlock heap.memory (4096 * first) capacity).unmapPages first pages⟩ first
      capacity where
  head := rfl
  mapped page := by rw [PagedMemory.mapped_unmapPages, mapped_clearedBlock, count]
  maps := by rw [PagedMemory.maps_unmapPages, maps_clearedBlock]
  frame byte outside := by
    have inside := block_in_pages capacity
    rw [PagedMemory.bytes_unmapPages, bytes_clearedBlock_of_outside (by omega)]

/-- `free` of a block unmaps its pages. -/
theorem free_released {heap : Heap} {first capacity : Nat} (placed : Placed heap first capacity)
    (room : heap.head < 18446744073709551616) :
    ∃ after, free heap (4096 * first + 32) = some after ∧ Released heap after first capacity := by
  obtain ⟨head, memory⟩ := heap
  have limit : head < 18446744073709551616 := room
  have positive := placed.positive
  have below : 4096 * (first + pagesFor capacity + 1) ≤ head := placed.below
  have inside := block_in_pages capacity
  have count : pageCount (wrap (32 + capacity + 32)) = pagesFor capacity :=
    pageCount_block (by omega)
  have header : wrap (4096 * first + 32 + (18446744073709551616 - 32)) = 4096 * first := by
    unfold wrap
    omega
  have tailer : wrap (4096 * first + 32 + capacity) = 4096 * first + 32 + capacity := wrap_of_lt (by omega)
  have nonzero : ¬ (4096 * first = 0 ∨ wrap (32 + capacity + 32) = 0) := by
    rw [wrap_of_lt (by omega)]
    omega
  have accessible : memory.Accessible (4096 * first) (64 + capacity) :=
    placed.accessible (Nat.le_refl _) (by omega)
  obtain ⟨size, headerMagic⟩ := header_fields placed.header (by omega) (accessible.mono (Nat.le_refl _) (by omega))
  obtain ⟨-, tailerMagic⟩ := header_fields placed.tailer (by omega) (accessible.mono (by omega) (by omega))
  have cleared := clearBlock_eq accessible fun memory =>
    some (kheapFree ⟨head, memory⟩ (4096 * first) (wrap (32 + capacity + 32)))
  have unmapped : ∀ left, kheapFree ⟨head, left⟩ (4096 * first) (wrap (32 + capacity + 32)) =
      ⟨head, left.unmapPages first (pagesFor capacity)⟩ := by
    intro left
    rw [kheapFree, if_neg nonzero, count, kheapFreeLoop_eq (by omega)]
  rw [unmapped] at cleared
  refine ⟨_, ?_, Released.of_clearedBlock rfl⟩
  unfold free
  rw [if_neg (by omega)]
  simp only [header, size, Option.bind_eq_bind, Option.bind_some, tailer, headerMagic, tailerMagic, ne_eq,
    not_true_eq_false, or_self, if_false]
  exact cleared

theorem le_align8 {size : Nat} (small : size + 7 < 18446744073709551616) : size ≤ align8 size := by
  rw [align8, wrap_of_lt small]
  omega

/-- A block stays in place when another one is made. -/
theorem Placed.granted {before after : Heap} {first capacity first' capacity' : Nat}
    (placed : Placed before first capacity) (granted : Granted before after first' capacity') :
    Placed after first capacity := by
  have below := placed.below
  have start := granted.start
  have inside := block_in_pages capacity
  refine ⟨placed.positive, ?_, fun page low high => ?_, fun page low high => ?_, ?_, ?_, ?_⟩
  · rw [granted.head]
    omega
  · rw [granted.mapped, if_neg (by omega)]
    exact placed.mapped page low high
  · rw [granted.maps, if_neg (by omega)]
    exact placed.used page low high
  · rw [granted.maps, if_neg (by omega)]
    exact placed.guarded
  · rw [PagedMemory.read_congr fun i _ => granted.frame _ (by omega)]
    exact placed.header
  · rw [PagedMemory.read_congr fun i _ => granted.frame _ (by omega)]
    exact placed.tailer

/-- `calloc` returns a block that reads as zero. -/
theorem calloc_granted {contents : Nat → UInt8} {heap : Heap} {first nmemb size : Nat}
    (start : heap.head = 4096 * first) (positive : 0 < first) (nonzero : nmemb * size ≠ 0)
    (small : nmemb * size + 7 < 18446744073709551616)
    (room : 4096 * (first + pagesFor (align8 (nmemb * size)) + 1) < 18446744073709551616) :
    ∃ after, calloc contents heap nmemb size = some (4096 * first + 32, after) ∧
      Granted heap after first (align8 (nmemb * size)) ∧
      after.memory.read (4096 * first + 32) (nmemb * size) = List.replicate (nmemb * size) 0 := by
  obtain ⟨made, returned, granted, -⟩ := @malloc_granted contents heap first _ start positive nonzero room
  have total : wrap (nmemb * size) = nmemb * size := wrap_of_lt (by omega)
  have within := le_align8 small
  have inside := block_in_pages (align8 (nmemb * size))
  unfold calloc
  generalize nmemb * size = count at *
  have accessible : made.memory.Accessible (4096 * first + 32) (List.replicate count (0 : UInt8)).length := by
    rw [List.length_replicate]
    exact granted.accessible (by omega) (by omega)
  have zeroed := PagedMemory.read_write_self made.memory (4096 * first + 32) (List.replicate count 0)
  rw [List.length_replicate] at zeroed
  refine ⟨{ made with memory := made.memory.write (4096 * first + 32) (List.replicate count 0) }, ?_,
    @Granted.write heap made first _ 0 _ granted (by rw [List.length_replicate]; omega), zeroed⟩
  simp only [total, returned, Option.bind_eq_bind, Option.bind_some, PagedMemory.store_of_accessible accessible]
  rw [if_neg (by omega)]

/-- `realloc` to the capacity of the block. -/
theorem realloc_same {contents : Nat → UInt8} {heap : Heap} {first capacity : Nat}
    (placed : Placed heap first capacity) (room : heap.head < 18446744073709551616) (nonzero : capacity ≠ 0) :
    realloc contents heap (4096 * first + 32) capacity = some (4096 * first + 32, heap) := by
  have positive := placed.positive
  have below := placed.below
  have inside := block_in_pages capacity
  have header : wrap (4096 * first + 32 + (18446744073709551616 - 32)) = 4096 * first := by
    unfold wrap
    omega
  obtain ⟨size, headerMagic⟩ := header_fields placed.header (by omega)
    (placed.accessible (Nat.le_refl _) (by omega))
  unfold realloc
  rw [if_neg (by omega), if_neg nonzero]
  simp only [header, size, headerMagic, Option.bind_eq_bind, Option.bind_some, ne_eq, not_true_eq_false, if_false,
    if_true]

/-- `realloc` to any other size makes a block at the head, copies what fits and frees the
old one. -/
theorem realloc_moved {contents : Nat → UInt8} {heap : Heap} {old capacity first size : Nat}
    (placed : Placed heap old capacity) (start : heap.head = 4096 * first) (nonzero : size ≠ 0)
    (other : size ≠ capacity) (small : size + 7 < 18446744073709551616)
    (room : 4096 * (first + pagesFor (align8 size) + 1) < 18446744073709551616) :
    ∃ made after, realloc contents heap (4096 * old + 32) size = some (4096 * first + 32, after) ∧
      Granted heap made first (align8 size) ∧ Released made after old capacity ∧
      made.memory.read (4096 * first + 32) (min capacity size) =
        heap.memory.read (4096 * old + 32) (min capacity size) := by
  have positive := placed.positive
  have below := placed.below
  have inside := block_in_pages capacity
  have header : wrap (4096 * old + 32 + (18446744073709551616 - 32)) = 4096 * old := by
    unfold wrap
    omega
  obtain ⟨oldSize, headerMagic⟩ := header_fields placed.header (by omega)
    (placed.accessible (Nat.le_refl _) (by omega))
  obtain ⟨fresh, returned, granted, -⟩ := @malloc_granted contents heap first size start (by omega) nonzero room
  have within := le_align8 small
  have inside' := block_in_pages (align8 size)
  have kept := placed.granted granted
  let data := heap.memory.read (4096 * old + 32) (min capacity size)
  have length : data.length = min capacity size := PagedMemory.length_read
  have loaded : fresh.memory.load (4096 * old + 32) (min capacity size) = some data := by
    rw [PagedMemory.load_of_accessible (kept.accessible (by omega) (by omega))]
    exact congrArg some (PagedMemory.read_congr fun i _ => granted.frame _ (by omega))
  have accessible : fresh.memory.Accessible (4096 * first + 32) data.length :=
    granted.accessible (by omega) (by omega)
  have copied := @Granted.write heap fresh first (align8 size) 0 data granted (by omega)
  rw [Nat.add_zero] at copied
  obtain ⟨after, freed, released⟩ := free_released (placed.granted copied) (by rw [copied.head]; exact room)
  have contains := PagedMemory.read_write_self fresh.memory (4096 * first + 32) data
  rw [length] at contains
  refine ⟨_, after, ?_, copied, released, contains⟩
  unfold realloc
  rw [if_neg (by omega), if_neg nonzero]
  simp only [header, oldSize, headerMagic, Option.bind_eq_bind, Option.bind_some, ne_eq, not_true_eq_false, if_false,
    returned, loaded, PagedMemory.store_of_accessible accessible, freed]
  rw [if_neg (Ne.symm other), if_neg (by omega)]

end KeblaOS.Memory
