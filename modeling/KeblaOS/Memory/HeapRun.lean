import KeblaOS.Lib.Run
import KeblaOS.Memory.Heap

/-!
# Runs of the heap

What the clients of the heap hold: the live blocks with the bytes in them. The head of the
heap only moves up and leaves one page behind every block, so that no page is mapped twice
and the page behind a block stays unmapped for good. A block is freed by the extent that
its header and tailer name, which is the one it was made with as long as the clients keep
to the sizes they asked for.
-/

namespace KeblaOS.Memory

/-- A live block: its address, the bytes in the size asked for, and the pages that were
mapped for it. -/
structure Block where
  ptr : Nat
  bytes : List UInt8
  pages : Nat → Prop

/-- The heap, the live blocks, and the sizes of all allocations so far, rounded to pages
and with a guard page each. -/
structure HeapSystem where
  heap : Heap
  live : List Block
  spent : Nat

inductive HeapCall where
  | malloc (size : Nat)
  | calloc (nmemb size : Nat)
  | realloc (ptr size : Nat)
  | free (ptr : Nat)
  | write (ptr offset : Nat) (data : List UInt8)

/-- A size rounded to pages, and a guard page. -/
def footprint (size : Nat) : Nat := if size = 0 then 0 else (size + 4095) / 4096 * 4096 + 4096

namespace HeapSystem

/-- Nothing is mapped yet. -/
def initial (bytes : Nat → UInt8) : HeapSystem := ⟨⟨heapStart, ⟨fun _ => false, fun _ => 0, bytes⟩⟩, [], 0⟩

/-- What a call adds to the total: `realloc` to the size in the header allocates nothing. -/
def cost (system : HeapSystem) : HeapCall → Nat
  | .malloc size => footprint size
  | .calloc nmemb size => footprint (nmemb * size)
  | .realloc ptr size =>
      if ptr ≠ 0 ∧ system.heap.memory.loadWord (ptr - 32) = some size then 0 else footprint size
  | .free _ => 0
  | .write _ _ _ => 0

/-- The block that a call has returned. -/
def newBlock (system : HeapSystem) (heap : Heap) (ptr size : Nat) : Block :=
  ⟨ptr, heap.memory.read ptr size, fun page => heap.memory.maps page ≠ system.heap.memory.maps page⟩

/-- The live blocks without the one at `ptr`. -/
def without (system : HeapSystem) (ptr : Nat) : List Block := system.live.filter (·.ptr ≠ ptr)

/-- The live blocks with the one at `ptr` changed. -/
def changing (system : HeapSystem) (ptr : Nat) (change : List UInt8 → List UInt8) : List Block :=
  system.live.map fun block => if block.ptr = ptr then { block with bytes := change block.bytes } else block

/-- The live blocks after `malloc` or `calloc`. -/
def granting (system : HeapSystem) (heap : Heap) (ptr size : Nat) : List Block :=
  if ptr = 0 then system.live else system.newBlock heap ptr size :: system.live

/-- The live blocks after `realloc`. -/
def moving (system : HeapSystem) (old : Nat) (heap : Heap) (ptr size : Nat) : List Block :=
  if old = 0 then system.granting heap ptr size
  else if size = 0 then system.without old
  else if ptr = 0 then system.live
  else if ptr = old then system.changing old fun _ => heap.memory.read ptr size
  else system.newBlock heap ptr size :: system.without old

/-- A call on the heap, and what its client makes of the answer. Freshly mapped pages have
the contents given. -/
def perform (contents : Nat → UInt8) (system : HeapSystem) (call : HeapCall) : Option HeapSystem :=
  let spent := system.spent + system.cost call
  match call with
  | .malloc size =>
      (Memory.malloc contents system.heap size).map fun (ptr, heap) => ⟨heap, system.granting heap ptr size, spent⟩
  | .calloc nmemb size =>
      (Memory.calloc contents system.heap nmemb size).map fun (ptr, heap) =>
        ⟨heap, system.granting heap ptr (nmemb * size), spent⟩
  | .realloc old size =>
      (Memory.realloc contents system.heap old size).map fun (ptr, heap) =>
        ⟨heap, system.moving old heap ptr size, spent⟩
  | .free ptr => (Memory.free system.heap ptr).map fun heap => ⟨heap, system.without ptr, spent⟩
  | .write ptr offset data =>
      (system.heap.memory.store (ptr + offset) data).map fun memory =>
        ⟨{ system.heap with memory := memory }, system.changing ptr (Buffer.overwrite · offset data), spent⟩

/-- There is a live block at an address. -/
def Live (system : HeapSystem) (ptr : Nat) : Prop := ∃ block ∈ system.live, block.ptr = ptr

/-- The calls on live blocks, and writes inside the sizes asked for. -/
def Permitted (system : HeapSystem) : HeapCall → Prop
  | .malloc size => size < 18446744073709551616
  | .calloc nmemb size => nmemb < 18446744073709551616 ∧ size < 18446744073709551616
  | .realloc ptr size => size < 18446744073709551616 ∧ (ptr = 0 ∨ system.Live ptr)
  | .free ptr => ptr = 0 ∨ system.Live ptr
  | .write ptr offset data => ∃ block ∈ system.live, block.ptr = ptr ∧ offset + data.length ≤ block.bytes.length

instance (system : HeapSystem) : (call : HeapCall) → Decidable (system.Permitted call)
  | .malloc _ => inferInstanceAs (Decidable (_ < _))
  | .calloc _ _ => inferInstanceAs (Decidable (_ ∧ _))
  | .realloc ptr _ => inferInstanceAs (Decidable (_ ∧ (_ ∨ ∃ block ∈ system.live, block.ptr = ptr)))
  | .free ptr => inferInstanceAs (Decidable (_ ∨ ∃ block ∈ system.live, block.ptr = ptr))
  | .write ptr offset data =>
      inferInstanceAs (Decidable (∃ block ∈ system.live, block.ptr = ptr ∧ offset + data.length ≤ block.bytes.length))

/-- Calls one after the other, as long as they are permitted. -/
def performAll (contents : Nat → UInt8) (system : HeapSystem) : List HeapCall → Option HeapSystem
  | [] => some system
  | call :: rest =>
      if system.Permitted call then (system.perform contents call).bind fun next => next.performAll contents rest
      else none

end HeapSystem

/-- A permitted call. -/
def HeapStep (before : HeapSystem) (call : HeapCall) (after : HeapSystem) : Prop :=
  before.Permitted call ∧ ∃ contents, before.perform contents call = some after

/-- What a call has to leave. -/
def HeapCall.Outcome (before after : HeapSystem) : HeapCall → Prop
  | .malloc size =>
      size ≠ 0 → ∃ block, block.bytes.length = size ∧ after.live = block :: before.live
  | .calloc nmemb size =>
      nmemb * size ≠ 0 →
        ∃ block, block.bytes = List.replicate (nmemb * size) 0 ∧ after.live = block :: before.live
  | .realloc ptr size =>
      (ptr = 0 → size ≠ 0 → ∃ block, block.bytes.length = size ∧ after.live = block :: before.live) ∧
      ∀ old ∈ before.live, old.ptr = ptr →
        (∀ other ∈ before.live, other.ptr ≠ ptr → other ∈ after.live) ∧
        (size ≠ 0 → ∃ block ∈ after.live, block.bytes.length = size ∧
          block.bytes.take (min old.bytes.length size) = old.bytes.take (min old.bytes.length size)) ∧
        (size = 0 → after.live = before.without ptr)
  | .free ptr =>
      after.live = before.without ptr ∧
      ∀ old ∈ before.live, old.ptr = ptr → (∀ page, old.pages page → before.heap.memory.mapped page = true) ∧
        ∀ page, after.heap.memory.mapped page = true ↔ before.heap.memory.mapped page = true ∧ ¬ old.pages page
  | .write ptr offset data =>
      after.live = before.changing ptr (Buffer.overwrite · offset data)

/-! ## The invariant -/

/-- A block is where its header says, and its bytes are in its payload. -/
structure Block.At (heap : Heap) (block : Block) (first capacity : Nat) : Prop where
  placed : Placed heap first capacity
  ptr : block.ptr = 4096 * first + 32
  pages : ∀ page, block.pages page ↔ first ≤ page ∧ page < first + pagesFor capacity
  fits : block.bytes.length ≤ capacity
  bytes : heap.memory.read block.ptr block.bytes.length = block.bytes

/-- No page belongs to both blocks. -/
def Block.Apart (left right : Block) : Prop := ∀ page, left.pages page → ¬ right.pages page

instance : Std.Symm Block.Apart := ⟨fun _ _ apart page right left => apart page left right⟩

namespace HeapSystem

structure Sound (system : HeapSystem) : Prop where
  aligned : system.heap.head % 4096 = 0
  lower : heapStart ≤ system.heap.head
  upper : 2 * system.heap.head ≤ 2 * heapStart + 3 * system.spent
  fresh : ∀ page, system.heap.head ≤ 4096 * page →
    system.heap.memory.maps page = 0 ∧ system.heap.memory.mapped page = false
  placed : ∀ block ∈ system.live, ∃ first capacity, block.At system.heap first capacity
  apart : system.live.Pairwise Block.Apart
  backed : ∀ page, system.heap.memory.mapped page = true → ∃ block ∈ system.live, block.pages page

/-- The pages below the head are not mapped again. -/
structure Continues (before after : HeapSystem) : Prop where
  head : before.heap.head ≤ after.heap.head
  maps : ∀ page, 4096 * page < before.heap.head → after.heap.memory.maps page = before.heap.memory.maps page

theorem Continues.refl (system : HeapSystem) : Continues system system := ⟨Nat.le_refl _, fun _ _ => rfl⟩

theorem Continues.trans {before between after : HeapSystem} (first : Continues before between)
    (second : Continues between after) : Continues before after where
  head := first.head.trans second.head
  maps page below := (second.maps page (Nat.lt_of_lt_of_le below first.head)).trans (first.maps page below)

/-- The state after a call is sound, continues the one before and is what the call has to
leave. -/
structure Keeps (before : HeapSystem) (call : HeapCall) (after : HeapSystem) : Prop where
  sound : after.Sound
  continues : Continues before after
  outcome : call.Outcome before after

theorem sound_initial (bytes : Nat → UInt8) : (initial bytes).Sound where
  aligned := by
    show heapStart % 4096 = 0
    decide
  lower := Nat.le_refl _
  upper := Nat.le_add_right _ _
  fresh _ _ := ⟨rfl, rfl⟩
  placed _ member := by simp [initial] at member
  apart := .nil
  backed _ mapped := by simp [initial] at mapped

end HeapSystem

namespace Block.At

variable {heap after : Heap} {block other : Block} {first capacity : Nat}

/-- A block does not notice changes elsewhere. -/
theorem congr (at_ : block.At heap first capacity) (head : heap.head ≤ after.head)
    (mapped : ∀ page, first ≤ page → page < first + pagesFor capacity →
      after.memory.mapped page = heap.memory.mapped page)
    (maps : ∀ page, first ≤ page → page ≤ first + pagesFor capacity →
      after.memory.maps page = heap.memory.maps page)
    (bytes : ∀ byte, 4096 * first ≤ byte → byte < 4096 * (first + pagesFor capacity) →
      after.memory.bytes byte = heap.memory.bytes byte) : block.At after first capacity := by
  have inside := block_in_pages capacity
  have fits := at_.fits
  have ptr := at_.ptr
  refine ⟨⟨at_.placed.positive, at_.placed.below.trans head, fun page low high => ?_, fun page low high => ?_, ?_,
    ?_, ?_⟩, at_.ptr, at_.pages, at_.fits, ?_⟩
  · rw [mapped page low high]
    exact at_.placed.mapped page low high
  · rw [maps page low (Nat.le_of_lt high)]
    exact at_.placed.used page low high
  · rw [maps _ (Nat.le_add_right _ _) (Nat.le_refl _)]
    exact at_.placed.guarded
  · rw [PagedMemory.read_congr fun i _ => bytes _ (by omega) (by omega)]
    exact at_.placed.header
  · rw [PagedMemory.read_congr fun i _ => bytes _ (by omega) (by omega)]
    exact at_.placed.tailer
  · rw [PagedMemory.read_congr fun i _ => bytes _ (by omega) (by omega)]
    exact at_.bytes

/-- Nor does it notice another block being made. -/
theorem granted {first' capacity' : Nat} (at_ : block.At heap first capacity)
    (granted : Granted heap after first' capacity') : block.At after first capacity := by
  have below := at_.placed.below
  have start := granted.start
  have head := granted.head
  refine at_.congr (by omega) (fun page low high => ?_) (fun page low high => ?_)
    fun byte low high => granted.frame byte (by omega)
  · rw [granted.mapped, if_neg (by omega)]
  · rw [granted.maps, if_neg (by omega)]

/-- Blocks apart leave a page between them that belongs to neither. -/
theorem separated {first' capacity' : Nat} (left : block.At heap first capacity)
    (right : other.At heap first' capacity') (apart : block.Apart other) :
    first + pagesFor capacity < first' ∨ first' + pagesFor capacity' < first := by
  have inside := block_in_pages capacity
  have inside' := block_in_pages capacity'
  have only := (left.pages first).mpr ⟨Nat.le_refl _, by omega⟩
  have only' := (right.pages first').mpr ⟨Nat.le_refl _, by omega⟩
  rcases Nat.le_total first first' with before | behind
  · have outside := mt (left.pages first').mpr fun shared => apart first' shared only'
    have guard : first' ≠ first + pagesFor capacity := by
      rintro rfl
      exact right.placed.used _ (Nat.le_refl _) (by omega) left.placed.guarded
    omega
  · have outside := mt (right.pages first).mpr (apart first only)
    have guard : first ≠ first' + pagesFor capacity' := by
      rintro rfl
      exact left.placed.used _ (Nat.le_refl _) (by omega) right.placed.guarded
    omega

/-- The header of a block, as `realloc` reads it. -/
theorem loadWord (at_ : block.At heap first capacity) (room : heap.head < 18446744073709551616) :
    heap.memory.loadWord (block.ptr - 32) = some capacity := by
  have below := at_.placed.below
  have inside := block_in_pages capacity
  have header : block.ptr - 32 = 4096 * first := by
    rw [at_.ptr]
    omega
  rw [header]
  exact (header_fields at_.placed.header (by omega) (at_.placed.accessible (Nat.le_refl _) (by omega))).1

end Block.At

namespace HeapSystem.Sound

variable {system : HeapSystem} {first capacity : Nat}

/-- Live blocks at the same address are the same. -/
theorem eq_of_ptr (sound : system.Sound) {block other : Block} (member : block ∈ system.live)
    (member' : other ∈ system.live) (same : other.ptr = block.ptr) : other = block := by
  by_contra different
  obtain ⟨first, capacity, place⟩ := sound.placed block member
  obtain ⟨first', capacity', place'⟩ := sound.placed other member'
  have apart := sound.apart.forall member' member different
  have separated := place'.separated place apart
  have ptr := place.ptr
  have ptr' := place'.ptr
  omega

/-- A block made at the head. -/
theorem grant (sound : system.Sound) {heap : Heap} {size : Nat} (granted : Granted system.heap heap first capacity)
    (fits : size ≤ capacity)
    (paid : 2 * (4096 * (pagesFor capacity + 1)) ≤ 3 * footprint size) :
    (⟨heap, system.newBlock heap (4096 * first + 32) size :: system.live, system.spent + footprint size⟩ :
      HeapSystem).Sound ∧
    (∀ page, 4096 * page < system.heap.head → heap.memory.maps page = system.heap.memory.maps page) := by
  have start := granted.start
  have head := granted.head
  have lower := sound.lower
  have upper := sound.upper
  have inside := block_in_pages capacity
  have positive : 0 < first := by
    unfold heapStart at lower
    omega
  have earlier : ∀ page, page < first → heap.memory.maps page = system.heap.memory.maps page :=
    fun page below => by rw [granted.maps, if_neg (by omega)]
  have pages : ∀ page, (system.newBlock heap (4096 * first + 32) size).pages page ↔
      first ≤ page ∧ page < first + pagesFor capacity := by
    intro page
    show heap.memory.maps page ≠ system.heap.memory.maps page ↔ _
    rw [granted.maps]
    split_ifs with new
    · exact ⟨fun _ => new, fun _ => by omega⟩
    · exact ⟨fun changed => absurd rfl changed, fun new' => absurd new' new⟩
  refine ⟨⟨?_, ?_, ?_, fun page above => ?_, fun block member => ?_, ?_, fun page mapped => ?_⟩,
    fun page below => earlier page (by omega)⟩
  · show heap.head % 4096 = 0
    omega
  · show heapStart ≤ heap.head
    omega
  · show 2 * heap.head ≤ 2 * heapStart + 3 * (system.spent + footprint size)
    omega
  · have above : heap.head ≤ 4096 * page := above
    obtain ⟨unused, unmapped⟩ := sound.fresh page (by omega)
    exact ⟨by rw [granted.maps, if_neg (by omega), unused], by rw [granted.mapped, if_neg (by omega), unmapped]⟩
  · rcases List.mem_cons.mp member with rfl | old
    · refine ⟨first, capacity, ⟨positive, Nat.le_of_eq head.symm, fun page low high => ?_, fun page low high => ?_, ?_,
        granted.header, granted.tailer⟩, rfl, pages, by rwa [newBlock, PagedMemory.length_read], ?_⟩
      · rw [granted.mapped, if_pos ⟨low, high⟩]
      · rw [granted.maps, if_pos ⟨low, high⟩]
        exact Nat.succ_ne_zero _
      · rw [granted.maps, if_neg (by omega)]
        exact (sound.fresh _ (by omega)).1
      · rw [newBlock, PagedMemory.length_read]
    · obtain ⟨first', capacity', place⟩ := sound.placed block old
      exact ⟨first', capacity', place.granted granted⟩
  · refine List.pairwise_cons.mpr ⟨fun other member page new old => ?_, sound.apart⟩
    obtain ⟨first', capacity', place⟩ := sound.placed other member
    have below := place.placed.below
    have low := ((pages page).mp new).1
    have high := ((place.pages page).mp old).2
    omega
  · have mapped : heap.memory.mapped page = true := mapped
    by_cases new : first ≤ page ∧ page < first + pagesFor capacity
    · exact ⟨_, List.mem_cons_self, (pages page).mpr new⟩
    · rw [granted.mapped, if_neg new] at mapped
      obtain ⟨block, member, holds⟩ := sound.backed page mapped
      exact ⟨block, List.mem_cons_of_mem _ member, holds⟩

/-- A block whose pages were unmapped. -/
theorem release (sound : system.Sound) {heap : Heap} {block : Block} (member : block ∈ system.live)
    (place : block.At system.heap first capacity) (released : Released system.heap heap first capacity) :
    (⟨heap, system.without block.ptr, system.spent⟩ : HeapSystem).Sound := by
  have head := released.head
  have others : ∀ {other : Block}, other ∈ system.without block.ptr → other ∈ system.live ∧ other.ptr ≠ block.ptr := by
    intro other left
    obtain ⟨there, different⟩ := List.mem_filter.mp left
    exact ⟨there, by simpa using different⟩
  refine ⟨?_, ?_, ?_, fun page above => ?_, fun other left => ?_, sound.apart.filter _, fun page mapped => ?_⟩
  · exact head ▸ sound.aligned
  · exact head ▸ sound.lower
  · exact head ▸ sound.upper
  · have above : heap.head ≤ 4096 * page := above
    obtain ⟨unused, unmapped⟩ := sound.fresh page (by omega)
    refine ⟨by rw [released.maps, unused], ?_⟩
    rw [released.mapped, unmapped, ite_self]
  · obtain ⟨there, different⟩ := others left
    obtain ⟨first', capacity', place'⟩ := sound.placed other there
    have apart := place'.separated place (sound.apart.forall there member fun same => different (congrArg Block.ptr same))
    refine ⟨first', capacity', place'.congr (Nat.le_of_eq head.symm) (fun page low high => ?_) (fun page _ _ => ?_)
      fun byte low high => released.frame byte (by omega)⟩
    · rw [released.mapped, if_neg (by omega)]
    · rw [released.maps]
  · have mapped : heap.memory.mapped page = true := mapped
    rw [released.mapped] at mapped
    split_ifs at mapped with gone
    obtain ⟨other, there, holds⟩ := sound.backed page mapped
    refine ⟨other, List.mem_filter.mpr ⟨there, ?_⟩, holds⟩
    have different : other.ptr ≠ block.ptr := by
      intro same
      obtain rfl := sound.eq_of_ptr member there same
      exact gone ((place.pages page).mp holds)
    simpa using different

/-- A block whose payload was written to. -/
theorem rewrite (sound : system.Sound) {block : Block} (member : block ∈ system.live)
    (place : block.At system.heap first capacity) {memory : PagedMemory} {change : List UInt8 → List UInt8}
    (mapped : memory.mapped = system.heap.memory.mapped) (maps : memory.maps = system.heap.memory.maps)
    (frame : ∀ byte, byte < 4096 * first + 32 ∨ 4096 * first + 32 + capacity ≤ byte →
      memory.bytes byte = system.heap.memory.bytes byte)
    (fits : (change block.bytes).length ≤ capacity)
    (bytes : memory.read block.ptr (change block.bytes).length = change block.bytes) :
    (⟨{ system.heap with memory := memory }, system.changing block.ptr change, system.spent⟩ : HeapSystem).Sound := by
  have inside := block_in_pages capacity
  have changed : ∀ {other : Block}, other ∈ system.changing block.ptr change → ∃ old ∈ system.live,
      other = if old.ptr = block.ptr then { old with bytes := change old.bytes } else old := by
    intro other member
    obtain ⟨old, there, rfl⟩ := List.mem_map.mp member
    exact ⟨old, there, rfl⟩
  refine ⟨sound.aligned, sound.lower, sound.upper, fun page above => ?_, fun other member' => ?_, ?_,
    fun page backed => ?_⟩
  · exact ⟨maps ▸ (sound.fresh page above).1, mapped ▸ (sound.fresh page above).2⟩
  · obtain ⟨old, there, rfl⟩ := changed member'
    split_ifs with same
    · obtain rfl := sound.eq_of_ptr member there same
      refine ⟨first, capacity, ⟨place.placed.positive, place.placed.below, ?_, ?_, ?_, ?_, ?_⟩, place.ptr, place.pages,
        fits, bytes⟩
      · exact mapped ▸ place.placed.mapped
      · exact maps ▸ place.placed.used
      · exact maps ▸ place.placed.guarded
      · rw [PagedMemory.read_congr fun i _ => frame _ (by omega)]
        exact place.placed.header
      · rw [PagedMemory.read_congr fun i _ => frame _ (by omega)]
        exact place.placed.tailer
    · obtain ⟨first', capacity', place'⟩ := sound.placed old there
      have apart := place'.separated place (sound.apart.forall there member fun equal => same (congrArg Block.ptr equal))
      exact ⟨first', capacity', place'.congr (Nat.le_refl _) (fun page _ _ => congrFun mapped page)
        (fun page _ _ => congrFun maps page) fun byte _ _ => frame byte (by omega)⟩
  · refine List.pairwise_map.mpr (sound.apart.imp fun apart => ?_)
    split_ifs <;> exact apart
  · obtain ⟨old, there, holds⟩ := sound.backed page (mapped ▸ backed)
    refine ⟨_, List.mem_map_of_mem there, ?_⟩
    split_ifs <;> exact holds

/-! ## One call -/

/-- Within the total of 2^46 bytes the head stays below the end of the address space. -/
theorem head_lt (sound : system.Sound) (budget : system.spent < 70368744177664) :
    system.heap.head < 18446744073709551616 := by
  have upper := sound.upper
  unfold heapStart at upper
  omega

/-- What a request takes of the heap is at most one and a half of its size in pages with
its guard page. -/
theorem paid_of_footprint {size : Nat} (nonzero : size ≠ 0) (budget : footprint size < 70368744177664) :
    size + 7 < 18446744073709551616 ∧ 2 * (4096 * (pagesFor (align8 size) + 1)) ≤ 3 * footprint size := by
  rw [footprint, if_neg nonzero] at budget ⊢
  have small : size + 7 < 18446744073709551616 := by omega
  refine ⟨small, ?_⟩
  rw [align8, wrap_of_lt small, pagesFor]
  omega

/-- There is room for a request within the total. -/
theorem room (sound : system.Sound) {size : Nat} (start : system.heap.head = 4096 * first) (nonzero : size ≠ 0)
    (budget : system.spent + footprint size < 70368744177664) :
    4096 * (first + pagesFor (align8 size) + 1) < 18446744073709551616 := by
  have upper := sound.upper
  obtain ⟨-, paid⟩ := paid_of_footprint nonzero (by omega)
  unfold heapStart at upper
  omega

theorem start (sound : system.Sound) : ∃ first, system.heap.head = 4096 * first ∧ 0 < first := by
  have aligned := sound.aligned
  have lower := sound.lower
  unfold heapStart at lower
  exact ⟨system.heap.head / 4096, by omega, by omega⟩

/-- `malloc`, for its own sake and for `realloc`. -/
theorem malloc_grants (sound : system.Sound) (contents : Nat → UInt8) {size : Nat}
    (budget : system.spent + footprint size < 70368744177664) :
    ∃ ptr heap, Memory.malloc contents system.heap size = some (ptr, heap) ∧
      (⟨heap, system.granting heap ptr size, system.spent + footprint size⟩ : HeapSystem).Sound ∧
      Continues system ⟨heap, system.granting heap ptr size, system.spent + footprint size⟩ ∧
      (size ≠ 0 → ∃ block, block.bytes.length = size ∧ system.granting heap ptr size = block :: system.live) := by
  by_cases zero : size = 0
  · subst zero
    exact ⟨0, system.heap, rfl, sound, .refl system, fun nonzero => absurd rfl nonzero⟩
  · obtain ⟨first, start, positive⟩ := sound.start
    obtain ⟨small, paid⟩ := paid_of_footprint zero (by omega)
    obtain ⟨heap, returned, granted, -⟩ :=
      @malloc_granted contents system.heap first size start positive zero (sound.room start zero budget)
    obtain ⟨sound', maps⟩ := sound.grant granted (le_align8 small) paid
    have live : system.granting heap (4096 * first + 32) size =
        system.newBlock heap (4096 * first + 32) size :: system.live := if_neg (by omega)
    have head := granted.head
    rw [← live] at sound'
    refine ⟨_, heap, returned, sound', ⟨?_, maps⟩, fun _ => ⟨_, PagedMemory.length_read, live⟩⟩
    show system.heap.head ≤ heap.head
    omega

theorem performs_malloc (sound : system.Sound) (contents : Nat → UInt8) {size : Nat}
    (budget : system.spent + footprint size < 70368744177664) :
    ∃ after, system.perform contents (.malloc size) = some after ∧ Keeps system (.malloc size) after := by
  obtain ⟨ptr, heap, returned, sound', continues, outcome⟩ := sound.malloc_grants contents budget
  refine ⟨⟨heap, system.granting heap ptr size, system.spent + footprint size⟩, ?_, sound', continues, outcome⟩
  rw [perform, returned, Option.map_some]
  rfl

theorem performs_calloc (sound : system.Sound) (contents : Nat → UInt8) {nmemb size : Nat}
    (budget : system.spent + footprint (nmemb * size) < 70368744177664) :
    ∃ after, system.perform contents (.calloc nmemb size) = some after ∧ Keeps system (.calloc nmemb size) after := by
  by_cases zero : nmemb * size = 0
  · have returned : Memory.calloc contents system.heap nmemb size = some (0, system.heap) := by
      rw [Memory.calloc, zero]
      rfl
    refine ⟨⟨system.heap, system.live, system.spent + footprint (nmemb * size)⟩, ?_, ?_, ⟨Nat.le_refl _, fun _ _ => rfl⟩,
      fun nonzero => absurd zero nonzero⟩
    · rw [perform, returned, Option.map_some]
      rfl
    · rw [zero]
      exact sound
  · obtain ⟨first, start, positive⟩ := sound.start
    obtain ⟨small, paid⟩ := paid_of_footprint zero (by omega)
    obtain ⟨heap, returned, granted, zeroed⟩ :=
      @calloc_granted contents system.heap first nmemb size start positive zero small (sound.room start zero budget)
    obtain ⟨sound', maps⟩ := sound.grant granted (le_align8 small) paid
    have head := granted.head
    refine ⟨_, ?_, sound', ⟨?_, maps⟩, fun _ => ⟨_, zeroed, rfl⟩⟩
    · have live : system.granting heap (4096 * first + 32) (nmemb * size) =
          system.newBlock heap (4096 * first + 32) (nmemb * size) :: system.live := if_neg (by omega)
      rw [perform, returned, Option.map_some]
      dsimp only
      rw [live]
      rfl
    · show system.heap.head ≤ heap.head
      omega

/-- A call on a live block has its place at hand. -/
theorem live_placed (sound : system.Sound) {ptr : Nat} (live : system.Live ptr) :
    ∃ block ∈ system.live, block.ptr = ptr ∧ ∃ first capacity, block.At system.heap first capacity ∧
      ptr = 4096 * first + 32 := by
  obtain ⟨block, member, rfl⟩ := live
  obtain ⟨first, capacity, place⟩ := sound.placed block member
  exact ⟨block, member, rfl, first, capacity, place, place.ptr⟩

/-- No live block is at `NULL`. -/
theorem without_null (sound : system.Sound) : system.without 0 = system.live := by
  refine List.filter_eq_self.mpr fun block member => ?_
  obtain ⟨first, capacity, place⟩ := sound.placed block member
  have ptr := place.ptr
  have nonzero : block.ptr ≠ 0 := by omega
  simpa using nonzero

/-- `free` of a live block, for its own sake and for `realloc`. -/
theorem free_releases (sound : system.Sound) (budget : system.spent < 70368744177664) {block : Block}
    (member : block ∈ system.live) (place : block.At system.heap first capacity) :
    ∃ heap, Memory.free system.heap block.ptr = some heap ∧ Released system.heap heap first capacity ∧
      (⟨heap, system.without block.ptr, system.spent⟩ : HeapSystem).Sound ∧
      Continues system ⟨heap, system.without block.ptr, system.spent⟩ := by
  obtain ⟨heap, freed, released⟩ := free_released place.placed (sound.head_lt budget)
  rw [← place.ptr] at freed
  exact ⟨heap, freed, released, sound.release member place released, Nat.le_of_eq released.head.symm,
    fun page _ => congrFun released.maps page⟩

theorem performs_free (sound : system.Sound) (contents : Nat → UInt8) (budget : system.spent < 70368744177664)
    {ptr : Nat} (permitted : ptr = 0 ∨ system.Live ptr) :
    ∃ after, system.perform contents (.free ptr) = some after ∧ Keeps system (.free ptr) after := by
  rcases permitted with rfl | live
  · refine ⟨⟨system.heap, system.without 0, system.spent⟩, rfl, ?_, ⟨Nat.le_refl _, fun _ _ => rfl⟩, rfl,
      fun old member null => ?_⟩
    · rw [sound.without_null]
      exact sound
    · obtain ⟨first, capacity, place⟩ := sound.placed old member
      have ptr := place.ptr
      omega
  · obtain ⟨block, member, rfl, first, capacity, place, -⟩ := sound.live_placed live
    obtain ⟨heap, freed, released, sound', continues⟩ := sound.free_releases budget member place
    refine ⟨⟨heap, system.without block.ptr, system.spent⟩, ?_, sound', continues, rfl, fun old there same => ?_⟩
    · rw [perform, freed, Option.map_some]
      rfl
    · obtain rfl := sound.eq_of_ptr member there same
      refine ⟨fun page holds => ?_, fun page => ?_⟩
      · obtain ⟨low, high⟩ := (place.pages page).mp holds
        exact place.placed.mapped page low high
      · show heap.memory.mapped page = true ↔ _
        rw [released.mapped, place.pages]
        split_ifs with gone
        · exact ⟨fun impossible => by simp at impossible, fun kept => absurd gone kept.2⟩
        · exact ⟨fun mapped => ⟨mapped, gone⟩, fun kept => kept.1⟩

theorem performs_write (sound : system.Sound) (contents : Nat → UInt8) {block : Block} {offset : Nat}
    {data : List UInt8} (member : block ∈ system.live) (inside : offset + data.length ≤ block.bytes.length) :
    ∃ after, system.perform contents (.write block.ptr offset data) = some after ∧
      Keeps system (.write block.ptr offset data) after := by
  obtain ⟨first, capacity, place⟩ := sound.placed block member
  have ptr := place.ptr
  have fits := place.fits
  have pages := block_in_pages capacity
  have accessible : system.heap.memory.Accessible (block.ptr + offset) data.length :=
    place.placed.accessible (by omega) (by omega)
  have length : (Buffer.overwrite block.bytes offset data).length = block.bytes.length :=
    Buffer.length_overwrite inside
  have contains : (system.heap.memory.write (block.ptr + offset) data).read block.ptr block.bytes.length =
      Buffer.overwrite block.bytes offset data := by
    rw [PagedMemory.read_write_within inside, place.bytes]
  refine ⟨⟨{ system.heap with memory := system.heap.memory.write (block.ptr + offset) data },
    system.changing block.ptr (Buffer.overwrite · offset data), system.spent⟩, ?_, ?_,
    ⟨Nat.le_refl _, fun _ _ => rfl⟩, rfl⟩
  · rw [perform, PagedMemory.store_of_accessible accessible, Option.map_some]
    rfl
  · exact sound.rewrite member place rfl rfl (fun byte outside => PagedMemory.bytes_write_of_outside (by omega))
      (by rwa [length]) (by rw [length, contains])

/-- `realloc` to the capacity of the block. -/
theorem performs_realloc_same (sound : system.Sound) (contents : Nat → UInt8)
    (budget : system.spent < 70368744177664) {block : Block} (member : block ∈ system.live)
    (place : block.At system.heap first capacity) (nonzero : capacity ≠ 0) :
    ∃ after, system.perform contents (.realloc block.ptr capacity) = some after ∧
      Keeps system (.realloc block.ptr capacity) after := by
  have ptr := place.ptr
  have fits := place.fits
  have room := sound.head_lt budget
  have returned := @realloc_same contents _ _ _ place.placed room nonzero
  rw [← ptr] at returned
  have live : system.moving block.ptr system.heap block.ptr capacity =
      system.changing block.ptr fun _ => system.heap.memory.read block.ptr capacity := by
    rw [moving, if_neg (by omega), if_neg nonzero, if_neg (by omega), if_pos rfl]
  have cost : system.cost (.realloc block.ptr capacity) = 0 := if_pos ⟨by omega, place.loadWord room⟩
  refine ⟨⟨system.heap, system.changing block.ptr fun _ => system.heap.memory.read block.ptr capacity, system.spent⟩,
    ?_, ?_, ⟨Nat.le_refl _, fun _ _ => rfl⟩, fun null => by omega, fun old there same => ⟨?_, fun _ => ?_, fun zero =>
      absurd zero nonzero⟩⟩
  · rw [perform, returned, Option.map_some, cost]
    dsimp only
    rw [live]
    rfl
  · exact sound.rewrite member place rfl rfl (fun _ _ => rfl) (Nat.le_of_eq PagedMemory.length_read)
      (by rw [PagedMemory.length_read])
  · intro other member' different
    exact List.mem_map.mpr ⟨other, member', if_neg different⟩
  · obtain rfl := sound.eq_of_ptr member there same
    refine ⟨_, List.mem_map.mpr ⟨old, there, if_pos rfl⟩, PagedMemory.length_read, ?_⟩
    show (system.heap.memory.read old.ptr capacity).take _ = _
    rw [Nat.min_eq_left fits, PagedMemory.take_read fits, place.bytes, List.take_length]

/-- `realloc` to another size. -/
theorem performs_realloc_moved (sound : system.Sound) (contents : Nat → UInt8) {size : Nat}
    (budget : system.spent + footprint size < 70368744177664) {block : Block} (member : block ∈ system.live)
    (place : block.At system.heap first capacity) (nonzero : size ≠ 0) (other : size ≠ capacity) :
    ∃ after, system.perform contents (.realloc block.ptr size) = some after ∧
      Keeps system (.realloc block.ptr size) after := by
  have ptr := place.ptr
  have fits := place.fits
  have below := place.placed.below
  have bytes := place.bytes
  obtain ⟨next, start, positive⟩ := sound.start
  obtain ⟨small, paid⟩ := paid_of_footprint nonzero (by omega)
  obtain ⟨made, heap, returned, granted, released, copied⟩ :=
    @realloc_moved contents _ _ _ next size place.placed start nonzero other small (sound.room start nonzero budget)
  rw [← ptr] at returned copied
  obtain ⟨sound', maps⟩ := sound.grant granted (le_align8 small) paid
  let between : HeapSystem :=
    ⟨made, system.newBlock made (4096 * next + 32) size :: system.live, system.spent + footprint size⟩
  have left : between.without block.ptr = system.newBlock made (4096 * next + 32) size :: system.without block.ptr :=
    List.filter_cons_of_pos (by
      have different : (system.newBlock made (4096 * next + 32) size).ptr ≠ block.ptr := by
        show 4096 * next + 32 ≠ block.ptr
        omega
      simpa using different)
  have finished := sound'.release (List.mem_cons_of_mem _ member) (place.granted granted) released
  have unread : heap.memory.read (4096 * next + 32) size = made.memory.read (4096 * next + 32) size :=
    PagedMemory.read_congr fun i _ => released.frame _ (by omega)
  have same : system.newBlock heap (4096 * next + 32) size = system.newBlock made (4096 * next + 32) size := by
    rw [newBlock, newBlock, unread, released.maps]
  have live : system.moving block.ptr heap (4096 * next + 32) size =
      system.newBlock made (4096 * next + 32) size :: system.without block.ptr := by
    rw [moving, if_neg (by omega), if_neg nonzero, if_neg (by omega), if_neg (by omega), same]
  have word := place.loadWord (sound.head_lt (by omega))
  have cost : system.cost (.realloc block.ptr size) = footprint size := by
    refine if_neg fun unchanged => other ?_
    rw [word] at unchanged
    exact (Option.some.inj unchanged.2).symm
  have head : heap.head = 4096 * (next + pagesFor (align8 size) + 1) := released.head.trans granted.head
  refine ⟨⟨heap, system.newBlock made (4096 * next + 32) size :: system.without block.ptr,
    system.spent + footprint size⟩, ?_, ?_, ⟨?_, fun page low => ?_⟩, fun null => by omega,
    fun old there same => ⟨fun kept member' different => ?_, fun _ => ⟨_, List.mem_cons_self, PagedMemory.length_read, ?_⟩,
      fun zero => absurd zero nonzero⟩⟩
  · rw [perform, returned, Option.map_some, cost]
    dsimp only
    rw [live]
  · rw [← left]
    exact finished
  · show system.heap.head ≤ heap.head
    omega
  · exact (congrFun released.maps page).trans (maps page low)
  · exact List.mem_cons_of_mem _ (List.mem_filter.mpr ⟨member', by simpa using different⟩)
  · obtain rfl := sound.eq_of_ptr member there same
    show (made.memory.read (4096 * next + 32) size).take _ = _
    have shorter : min old.bytes.length size ≤ min capacity size := by omega
    rw [PagedMemory.take_read (Nat.min_le_right _ _), ← PagedMemory.take_read shorter, copied,
      PagedMemory.take_read shorter, ← PagedMemory.take_read (Nat.min_le_left old.bytes.length size), bytes]

/-- Every permitted call within the total has a result, which is what the call has to
leave. -/
theorem performs (sound : system.Sound) (contents : Nat → UInt8) {call : HeapCall} (permitted : system.Permitted call)
    (budget : system.spent + system.cost call < 70368744177664) :
    ∃ after, system.perform contents call = some after ∧ Keeps system call after := by
  cases call with
  | malloc size => exact sound.performs_malloc contents budget
  | calloc nmemb size => exact sound.performs_calloc contents budget
  | realloc ptr size =>
      obtain ⟨-, rfl | live⟩ := permitted
      · have cost : system.cost (.realloc 0 size) = footprint size := by
          rw [HeapSystem.cost, if_neg fun same => same.1 rfl]
        rw [cost] at budget
        obtain ⟨ptr, heap, returned, sound', continues, outcome⟩ := sound.malloc_grants contents budget
        refine ⟨⟨heap, system.granting heap ptr size, system.spent + footprint size⟩, ?_, sound', continues,
          fun _ => outcome, fun old member null => ?_⟩
        · rw [perform, cost, Memory.realloc, if_pos rfl, returned, Option.map_some]
          rfl
        · obtain ⟨first, capacity, place⟩ := sound.placed old member
          have ptr := place.ptr
          omega
      · obtain ⟨block, member, rfl, first, capacity, place, ptr⟩ := sound.live_placed live
        have total : system.spent < 70368744177664 := by omega
        by_cases zero : size = 0
        · subst zero
          obtain ⟨heap, freed, released, sound', continues⟩ := sound.free_releases total member place
          have cost : system.cost (.realloc block.ptr 0) = 0 := ite_self _
          refine ⟨⟨heap, system.without block.ptr, system.spent⟩, ?_, sound', continues, fun null => by omega,
            fun old there same => ⟨fun other member' different => ?_, fun nonzero => absurd rfl nonzero, fun _ => rfl⟩⟩
          · have live : system.moving block.ptr heap 0 0 = system.without block.ptr := by
              rw [moving, if_neg (by omega), if_pos rfl]
            rw [perform, cost, Memory.realloc, if_neg (by omega), if_pos rfl, freed, Option.map_some, Option.map_some]
            dsimp only
            rw [live]
            rfl
          · exact List.mem_filter.mpr ⟨member', by simpa using different⟩
        · by_cases unchanged : size = capacity
          · subst unchanged
            exact sound.performs_realloc_same contents total member place zero
          · have word := place.loadWord (sound.head_lt total)
            have cost : system.cost (.realloc block.ptr size) = footprint size := by
              refine if_neg fun same => unchanged ?_
              rw [word] at same
              exact (Option.some.inj same.2).symm
            rw [cost] at budget
            exact sound.performs_realloc_moved contents budget member place zero unchanged
  | free ptr => exact sound.performs_free contents budget permitted
  | write ptr offset data =>
      obtain ⟨block, member, rfl, inside⟩ := permitted
      exact sound.performs_write contents member inside

end HeapSystem.Sound

/-! ## Runs -/

theorem HeapSystem.spent_perform {contents : Nat → UInt8} {system after : HeapSystem} {call : HeapCall}
    (performed : system.perform contents call = some after) : after.spent = system.spent + system.cost call := by
  cases call with
  | malloc size => obtain ⟨_, -, rfl⟩ := Option.map_eq_some_iff.mp performed; rfl
  | calloc nmemb size => obtain ⟨_, -, rfl⟩ := Option.map_eq_some_iff.mp performed; rfl
  | realloc ptr size => obtain ⟨_, -, rfl⟩ := Option.map_eq_some_iff.mp performed; rfl
  | free ptr => obtain ⟨_, -, rfl⟩ := Option.map_eq_some_iff.mp performed; rfl
  | write ptr offset data => obtain ⟨_, -, rfl⟩ := Option.map_eq_some_iff.mp performed; rfl

/-- One step of a run within the total. -/
theorem HeapSystem.Sound.step {before after : HeapSystem} {call : HeapCall} (sound : before.Sound)
    (step : HeapStep before call after) (budget : after.spent < 70368744177664) :
    before.spent ≤ after.spent ∧ Keeps before call after := by
  obtain ⟨permitted, contents, performed⟩ := step
  have spent := HeapSystem.spent_perform performed
  obtain ⟨after', performed', keeps⟩ := sound.performs contents permitted (by omega)
  obtain rfl := Option.some.inj (performed.symm.trans performed')
  exact ⟨by omega, keeps⟩

/-- A run within the total from a sound state. -/
theorem HeapSystem.Sound.run {start finish : HeapSystem} {calls : List HeapCall} (sound : start.Sound)
    (run : Run HeapStep start calls finish) (budget : finish.spent < 70368744177664) :
    finish.Sound ∧ HeapSystem.Continues start finish := by
  induction run with
  | nil => exact ⟨sound, .refl start⟩
  | snoc prior taken ih =>
      -- the total only grows, so the run up to here was within it as well
      have spent := HeapSystem.spent_perform taken.2.choose_spec
      obtain ⟨sound', continues⟩ := ih (by omega)
      obtain ⟨-, keeps⟩ := sound'.step taken budget
      exact ⟨keeps.sound, continues.trans keeps.continues⟩

/-- No call so far or later on, within the total, maps the page. -/
def HeapSystem.NeverMapped (system : HeapSystem) (page : Nat) : Prop :=
  ∀ calls later, Run HeapStep system calls later → later.spent < 70368744177664 → later.heap.memory.maps page = 0

/-- One block ends before a page that is never mapped, and the other one starts behind it. -/
def HeapSystem.Separated (system : HeapSystem) (left right : Block) : Prop :=
  ∃ page, system.NeverMapped page ∧
    (left.ptr + left.bytes.length ≤ 4096 * page ∧ 4096 * (page + 1) ≤ right.ptr ∨
      right.ptr + right.bytes.length ≤ 4096 * page ∧ 4096 * (page + 1) ≤ left.ptr)

/-- The page behind a block stays unmapped. -/
theorem HeapSystem.Sound.neverMapped_guard {system : HeapSystem} (sound : system.Sound) {block : Block}
    {first capacity : Nat} (place : block.At system.heap first capacity) :
    system.NeverMapped (first + pagesFor capacity) := by
  intro calls later run budget
  obtain ⟨-, continues⟩ := sound.run run budget
  have below := place.placed.below
  rw [continues.maps _ (by omega)]
  exact place.placed.guarded

/-- In every run of calls on live blocks within a total of 2^46 bytes: live blocks are
disjoint with a page between them that is never mapped, they hold their bytes, the mapped
pages are theirs, and every further call within the total succeeds with the outcome it has
to have. -/
theorem heap_run_sound {bytes : Nat → UInt8} {calls : List HeapCall} {system : HeapSystem}
    (run : Run HeapStep (HeapSystem.initial bytes) calls system) (budget : system.spent < 70368744177664) :
    system.live.Pairwise system.Separated ∧
    (∀ block ∈ system.live, block.ptr ≠ 0 ∧
      system.heap.memory.load block.ptr block.bytes.length = some block.bytes) ∧
    (∀ page, system.heap.memory.mapped page = true ↔ ∃ block ∈ system.live, block.pages page) ∧
    ∀ contents call, system.Permitted call → system.spent + system.cost call < 70368744177664 →
      ∃ after, system.perform contents call = some after ∧ call.Outcome system after := by
  obtain ⟨sound, -⟩ := (HeapSystem.sound_initial bytes).run run budget
  refine ⟨?_, fun block member => ?_, fun page => ⟨sound.backed page, ?_⟩, fun contents call permitted within => ?_⟩
  · refine List.Pairwise.imp_of_mem (fun {left right} member member' apart => ?_) sound.apart
    obtain ⟨first, capacity, place⟩ := sound.placed left member
    obtain ⟨first', capacity', place'⟩ := sound.placed right member'
    have inside := block_in_pages capacity
    have inside' := block_in_pages capacity'
    have ptr := place.ptr
    have ptr' := place'.ptr
    have fits := place.fits
    have fits' := place'.fits
    rcases place.separated place' apart with before | behind
    · exact ⟨_, sound.neverMapped_guard place, .inl ⟨by omega, by omega⟩⟩
    · exact ⟨_, sound.neverMapped_guard place', .inr ⟨by omega, by omega⟩⟩
  · obtain ⟨first, capacity, place⟩ := sound.placed block member
    have inside := block_in_pages capacity
    have ptr := place.ptr
    have fits := place.fits
    refine ⟨by omega, ?_⟩
    rw [PagedMemory.load_of_accessible (place.placed.accessible (by omega) (by omega)), place.bytes]
  · rintro ⟨block, member, holds⟩
    obtain ⟨first, capacity, place⟩ := sound.placed block member
    obtain ⟨low, high⟩ := (place.pages page).mp holds
    exact place.placed.mapped page low high
  · obtain ⟨after, performed, keeps⟩ := sound.performs contents permitted within
    exact ⟨after, performed, keeps.outcome⟩

/-- Performing a list of calls is a run of them. -/
theorem HeapSystem.run_of_performAll {contents : Nat → UInt8} {start system finish : HeapSystem}
    {prior calls : List HeapCall} (run : Run HeapStep start prior system)
    (performed : system.performAll contents calls = some finish) : Run HeapStep start (prior ++ calls) finish := by
  induction calls generalizing system prior with
  | nil =>
      obtain rfl := Option.some.inj performed
      rwa [List.append_nil]
  | cons call rest ih =>
      rw [performAll] at performed
      split_ifs at performed with permitted
      obtain ⟨next, taken, later⟩ := Option.bind_eq_some_iff.mp performed
      rw [List.append_cons]
      exact ih (run.snoc ⟨permitted, contents, taken⟩) later

/-- A block of 10 bytes, two of them written, moved to 20 bytes behind a zeroed one, which
is freed. -/
theorem heap_run_sound_small :
    ∃ calls system, Run HeapStep (HeapSystem.initial fun _ => 0xCC) calls system ∧
      system.live.map (fun block => (block.ptr, block.bytes.take 6)) = [(0xFFFF800000005020, [0, 0, 0, 1, 2, 0])] ∧
      system.live.Pairwise system.Separated ∧
      ∀ block ∈ system.live, block.ptr ≠ 0 ∧
        system.heap.memory.load block.ptr block.bytes.length = some block.bytes := by
  let calls : List HeapCall :=
    [.malloc 10, .write 0xFFFF800000001020 3 [1, 2], .calloc 2 3, .realloc 0xFFFF800000001020 20,
      .free 0xFFFF800000003020]
  have performed : ((HeapSystem.initial fun _ => 0xCC).performAll (fun _ => 0xCC) calls).any (fun system =>
      system.spent < 70368744177664 ∧
        system.live.map (fun block => (block.ptr, block.bytes.take 6)) =
          [(0xFFFF800000005020, [0, 0, 0, 1, 2, 0])]) = true := by
    decide +kernel
  obtain ⟨system, taken, checked⟩ := (Option.any_eq_true _ _).mp performed
  obtain ⟨budget, live⟩ := of_decide_eq_true checked
  have run := HeapSystem.run_of_performAll .nil taken
  obtain ⟨apart, kept, -⟩ := heap_run_sound run budget
  exact ⟨_, system, run, live, apart, kept⟩

end KeblaOS.Memory
