import KeblaOS.Memory.HeapRun

/-!
# The size of a block

`malloc` rounds the size up to 8 and adds the header and the trailer, `kheap_alloc` rounds the sum up
to pages, and `calloc` multiplies first, all modulo 2^64. A sum that wraps around behind the rounding to
8 makes a block of pages that are not mapped, and the call faults; the rounding to 8 itself and the
product give a block that is too small.
-/

namespace KeblaOS.Memory

/-! ## The calls -/

/-- A heap whose head has not wrapped around: no page is mapped from the head on. -/
structure SaneHeap where
  first : Nat
  memory : PagedMemory
  positive : 0 < first
  inside : first < 4503599627370496
  fresh : ∀ page, first ≤ page → memory.mapped page = false

def SaneHeap.heap (sane : SaneHeap) : Heap := ⟨4096 * sane.first, sane.memory⟩

@[simp] theorem SaneHeap.heap_memory (sane : SaneHeap) : sane.heap.memory = sane.memory := rfl

/-- A block of the heap. -/
structure PlacedBlock (heap : Heap) where
  first : Nat
  capacity : Nat
  placed : Placed heap first capacity

/-- The calls that return a block; `realloc` gets `NULL` or a block. -/
inductive SizedCall (heap : Heap) where
  | malloc (size : UInt64)
  | calloc (nmemb size : UInt64)
  | realloc (old : Option (PlacedBlock heap)) (size : UInt64)

namespace SizedCall

variable {heap : Heap}

def perform (contents : Nat → UInt8) : SizedCall heap → Option (Nat × Heap)
  | .malloc size => Memory.malloc contents heap size.toNat
  | .calloc nmemb size => Memory.calloc contents heap nmemb.toNat size.toNat
  | .realloc none size => Memory.realloc contents heap 0 size.toNat
  | .realloc (some old) size => Memory.realloc contents heap (4096 * old.first + 32) size.toNat

/-- The bytes asked for. -/
def wanted : SizedCall heap → Nat
  | .malloc size | .realloc _ size => size.toNat
  | .calloc nmemb size => nmemb.toNat * size.toNat

end SizedCall

/-- The pages of a block for this size end inside the address space. -/
def Heap.Serves (heap : Heap) (size : Nat) : Prop :=
  heap.head + 4096 * pagesFor (align8 size) < 18446744073709551616

/-- The size can be rounded up to 8, or there is no page left. -/
def Heap.SizeFits (heap : Heap) (size : Nat) : Prop := size + 7 < 18446744073709551616 ∨ ¬ heap.Serves size

/-- `malloc` and `realloc`: the size fits, or the block to be copied does not fit into one page. `calloc`:
the product is a 64-bit number, or what is left of it is no size that `malloc` and `memset` serve. -/
def SizedCall.Fits {heap : Heap} : SizedCall heap → Prop
  | .malloc size | .realloc none size => heap.SizeFits size.toNat
  | .calloc nmemb size =>
      nmemb.toNat * size.toNat < 18446744073709551616 ∨ wrap (nmemb.toNat * size.toNat) = 0 ∨
        18446744073709551616 ≤ wrap (nmemb.toNat * size.toNat) + 7 ∨ ¬ heap.Serves (wrap (nmemb.toNat * size.toNat))
  | .realloc (some old) size => heap.SizeFits size.toNat ∨ 4064 < old.capacity

/-! ## Blocks that cannot be made -/

section Faults

variable {contents : Nat → UInt8} {first size : Nat} {memory : PagedMemory}

theorem kheapAllocLoop_of_not_lt {stop : Nat} {heap : Heap} (count : Nat) (above : ¬ heap.head < stop) :
    kheapAllocLoop contents stop count heap = heap := by
  cases count with
  | zero => rfl
  | succ count => rw [kheapAllocLoop, if_neg above]

/-- When the pages do not end inside the address space, `kheap_alloc` maps none. -/
theorem kheapAlloc_stays (inside : first < 4503599627370496)
    (wraps : 18446744073709551616 ≤ 4096 * (first + pageCount size)) :
    kheapAlloc contents ⟨4096 * first, memory⟩ size = (4096 * first, ⟨wrap (4096 * first + 4096), memory⟩) := by
  have few : pageCount size < 4503599627370496 := by
    unfold pageCount wrap
    omega
  have stop : ¬ 4096 * first < wrap (4096 * first + 4096 * pageCount size) := by
    unfold wrap
    omega
  have limit : ¬ heapEnd < wrap (4096 * first + 4096 * pageCount size) := by
    unfold heapEnd wrap
    omega
  unfold kheapAlloc
  dsimp only
  rw [if_neg limit, kheapAllocLoop_of_not_lt _ stop]

theorem mapped_of_store {after : PagedMemory} {address : Nat} {data : List UInt8}
    (stored : memory.store address data = some after) : after.mapped = memory.mapped := by
  unfold PagedMemory.store at stored
  split_ifs at stored
  rw [← Option.some.inj stored]
  rfl

theorem mapped_of_initHeader {after : PagedMemory} {header : Nat} (made : initHeader memory header size = some after) :
    after.mapped = memory.mapped := by
  obtain ⟨cleared, clearing, made⟩ := Option.bind_eq_some_iff.mp made
  obtain ⟨sized, sizing, tagging⟩ := Option.bind_eq_some_iff.mp made
  rw [mapped_of_store tagging, mapped_of_store sizing, mapped_of_store clearing]

end Faults

/-! ## What the calls return -/

section Calls

variable {contents : Nat → UInt8} {size : Nat} {sane : SaneHeap}

/-- The heap after `malloc` of a size that it serves. -/
def SaneHeap.grown (sane : SaneHeap) (contents : Nat → UInt8) (size : Nat) : Heap :=
  ⟨wrap (4096 * (sane.first + pagesFor (align8 size) + 1)),
    newBlock (sane.memory.mapPages contents sane.first (pagesFor (align8 size))) (4096 * sane.first) (align8 size)⟩

/-- The memory in which the new block has got what fits of the old one. -/
def SaneHeap.copied (sane : SaneHeap) (contents : Nat → UInt8) (old : PlacedBlock sane.heap) (size : Nat) : PagedMemory :=
  (sane.grown contents size).memory.write (4096 * sane.first + 32)
    (sane.memory.read (4096 * old.first + 32) (min old.capacity size))

section Old

variable (old : PlacedBlock sane.heap)

end Old

end Calls

/-- The heap is a sane one. -/
def Heap.Sane (heap : Heap) : Prop := ∃ sane : SaneHeap, sane.heap = heap

section Sane

variable {contents : Nat → UInt8} {heap after : Heap}

/-- Pages may be unmapped. -/
theorem Heap.Sane.of_unmapped (sane : heap.Sane) (head : after.head = heap.head)
    (mapped : ∀ page, after.memory.mapped page = true → heap.memory.mapped page = true) : after.Sane := by
  obtain ⟨⟨first, memory, positive, inside, fresh⟩, rfl⟩ := sane
  refine ⟨⟨first, after.memory, positive, inside, fun page behind => ?_⟩, ?_⟩
  · by_contra there
    have before := mapped page (by simpa using there)
    rw [SaneHeap.heap_memory, fresh page behind] at before
    exact Bool.noConfusion before
  · show (⟨4096 * first, after.memory⟩ : Heap) = after
    rw [show 4096 * first = after.head from head.symm]

/-- `kheap_alloc` leaves a sane heap, unless the head wraps around. -/
theorem Heap.Sane.kheapAlloc (sane : heap.Sane) {size : Nat}
    (ahead : heap.head ≤ (Memory.kheapAlloc contents heap size).2.head) :
    (Memory.kheapAlloc contents heap size).2.Sane := by
  obtain ⟨⟨first, memory, positive, inside, fresh⟩, rfl⟩ := sane
  change 4096 * first ≤ (Memory.kheapAlloc contents ⟨4096 * first, memory⟩ size).2.head at ahead
  show (Memory.kheapAlloc contents ⟨4096 * first, memory⟩ size).2.Sane
  by_cases room : 4096 * (first + pageCount size) < 18446744073709551616
  · rw [kheapAlloc_maps room] at ahead ⊢
    dsimp only at ahead ⊢
    have whole : 4096 * (first + pageCount size + 1) < 18446744073709551616 := by
      unfold wrap at ahead
      omega
    rw [wrap_of_lt whole]
    refine ⟨⟨first + pageCount size + 1, memory.mapPages contents first (pageCount size), by omega, by omega,
      fun page behind => ?_⟩, rfl⟩
    rw [PagedMemory.mapped_mapPages, if_neg (by omega)]
    exact fresh page (by omega)
  · rw [kheapAlloc_stays inside (Nat.not_lt.mp room)] at ahead ⊢
    dsimp only at ahead ⊢
    have whole : 4096 * first + 4096 < 18446744073709551616 := by
      unfold wrap at ahead
      omega
    rw [wrap_of_lt whole]
    exact ⟨⟨first + 1, memory, by omega, by omega, fun page behind => fresh page (by omega)⟩, rfl⟩

/-- What `malloc` leaves is what `kheap_alloc` left, with other contents. -/
theorem malloc_heap {ptr size : Nat} (returned : Memory.malloc contents heap size = some (ptr, after)) :
    after = heap ∨ ∃ rounded, after.head = (kheapAlloc contents heap rounded).2.head ∧
      after.memory.mapped = (kheapAlloc contents heap rounded).2.memory.mapped := by
  unfold Memory.malloc at returned
  by_cases zero : size = 0
  · rw [if_pos zero] at returned
    exact .inl (Prod.mk.inj (Option.some.inj returned)).2.symm
  · rw [if_neg zero] at returned
    dsimp only at returned
    refine .inr ⟨wrap (32 + align8 size + 32), ?_⟩
    generalize kheapAlloc contents heap (wrap (32 + align8 size + 32)) = allocated at returned ⊢
    obtain ⟨header, made⟩ := allocated
    dsimp only at returned ⊢
    by_cases null : header = 0
    · rw [if_pos null] at returned
      obtain ⟨-, rfl⟩ := Prod.mk.inj (Option.some.inj returned)
      exact ⟨rfl, rfl⟩
    · rw [if_neg null] at returned
      obtain ⟨first, initFirst, returned⟩ := Option.bind_eq_some_iff.mp returned
      obtain ⟨second, zeroed, returned⟩ := Option.bind_eq_some_iff.mp returned
      obtain ⟨third, initThird, returned⟩ := Option.bind_eq_some_iff.mp returned
      obtain ⟨-, rfl⟩ := Prod.mk.inj (Option.some.inj returned)
      refine ⟨rfl, ?_⟩
      rw [mapped_of_initHeader initThird, mapped_of_store zeroed, mapped_of_initHeader initFirst]

theorem Heap.Sane.malloc {ptr size : Nat} (sane : heap.Sane)
    (returned : Memory.malloc contents heap size = some (ptr, after)) (ahead : heap.head ≤ after.head) : after.Sane := by
  rcases malloc_heap returned with rfl | ⟨rounded, head, mapped⟩
  · exact sane
  · rw [head] at ahead
    exact (sane.kheapAlloc ahead).of_unmapped head fun page there => by rwa [← mapped]

theorem mapped_kheapFreeLoop {memory : PagedMemory} {va count page : Nat}
    (there : (kheapFreeLoop memory va count).mapped page = true) : memory.mapped page = true := by
  induction count generalizing memory va with
  | zero => exact there
  | succ count ih =>
      have left := ih there
      change Function.update memory.mapped (va / 4096) false page = true at left
      by_cases here : page = va / 4096
      · rw [here, Function.update_self] at left
        exact absurd left (by decide)
      · rwa [Function.update_of_ne here] at left

/-- `kheap_free` keeps the head and maps nothing. -/
theorem kheapFree_heap (heap : Heap) (ptr size : Nat) :
    (kheapFree heap ptr size).head = heap.head ∧
      ∀ page, (kheapFree heap ptr size).memory.mapped page = true → heap.memory.mapped page = true := by
  unfold kheapFree
  by_cases nothing : ptr = 0 ∨ size = 0
  · rw [if_pos nothing]
    exact ⟨rfl, fun _ there => there⟩
  · rw [if_neg nothing]
    exact ⟨rfl, fun _ there => mapped_kheapFreeLoop there⟩

/-- `free` unmaps pages, whatever it is given. -/
theorem free_heap {ptr : Nat} (returned : free heap ptr = some after) :
    after.head = heap.head ∧ ∀ page, after.memory.mapped page = true → heap.memory.mapped page = true := by
  unfold free at returned
  by_cases null : ptr = 0
  · rw [if_pos null] at returned
    obtain rfl := Option.some.inj returned
    exact ⟨rfl, fun _ there => there⟩
  · rw [if_neg null] at returned
    obtain ⟨size, _, returned⟩ := Option.bind_eq_some_iff.mp returned
    obtain ⟨headerMagic, _, returned⟩ := Option.bind_eq_some_iff.mp returned
    obtain ⟨tailerMagic, _, returned⟩ := Option.bind_eq_some_iff.mp returned
    by_cases broken : headerMagic ≠ [magic] ∨ tailerMagic ≠ [magic]
    · rw [if_pos broken] at returned
      obtain rfl := Option.some.inj returned
      exact ⟨rfl, fun _ there => there⟩
    · rw [if_neg broken] at returned
      obtain ⟨first, clearFirst, returned⟩ := Option.bind_eq_some_iff.mp returned
      obtain ⟨second, clearSecond, returned⟩ := Option.bind_eq_some_iff.mp returned
      obtain ⟨third, clearThird, returned⟩ := Option.bind_eq_some_iff.mp returned
      have mapped : third.mapped = heap.memory.mapped := by
        rw [mapped_of_store clearThird, mapped_of_store clearSecond, mapped_of_store clearFirst]
      rw [← Option.some.inj returned, ← mapped]
      exact kheapFree_heap { heap with memory := third } _ _

theorem Heap.Sane.free {ptr : Nat} (sane : heap.Sane) (returned : Memory.free heap ptr = some after) : after.Sane :=
  sane.of_unmapped (free_heap returned).1 (free_heap returned).2

/-- A store leaves the pages. -/
theorem Heap.Sane.store {memory : PagedMemory} {address : Nat} {data : List UInt8} (sane : heap.Sane)
    (stored : heap.memory.store address data = some memory) : Heap.Sane { heap with memory := memory } :=
  sane.of_unmapped rfl fun page there => by rwa [← mapped_of_store stored]

theorem Heap.Sane.calloc {ptr nmemb size : Nat} (sane : heap.Sane)
    (returned : Memory.calloc contents heap nmemb size = some (ptr, after)) (ahead : heap.head ≤ after.head) :
    after.Sane := by
  obtain ⟨⟨made, between⟩, allocated, returned⟩ := Option.bind_eq_some_iff.mp returned
  dsimp only at returned
  by_cases null : made = 0
  · rw [if_pos null] at returned
    obtain ⟨-, rfl⟩ := Prod.mk.inj (Option.some.inj returned)
    exact sane.malloc allocated ahead
  · rw [if_neg null] at returned
    obtain ⟨memory, zeroed, returned⟩ := Option.bind_eq_some_iff.mp returned
    obtain ⟨-, rfl⟩ := Prod.mk.inj (Option.some.inj returned)
    exact (sane.malloc allocated ahead).store zeroed

theorem Heap.Sane.realloc {old ptr size : Nat} (sane : heap.Sane)
    (returned : Memory.realloc contents heap old size = some (ptr, after)) (ahead : heap.head ≤ after.head) :
    after.Sane := by
  unfold Memory.realloc at returned
  by_cases null : old = 0
  · rw [if_pos null] at returned
    exact sane.malloc returned ahead
  · rw [if_neg null] at returned
    by_cases zero : size = 0
    · rw [if_pos zero] at returned
      obtain ⟨freed, done, pair⟩ := Option.map_eq_some_iff.mp returned
      obtain ⟨-, rfl⟩ := Prod.mk.inj pair
      exact sane.free done
    · rw [if_neg zero] at returned
      obtain ⟨headerMagic, _, returned⟩ := Option.bind_eq_some_iff.mp returned
      by_cases broken : headerMagic ≠ [magic]
      · rw [if_pos broken] at returned
        obtain ⟨-, rfl⟩ := Prod.mk.inj (Option.some.inj returned)
        exact sane
      · rw [if_neg broken] at returned
        obtain ⟨oldSize, _, returned⟩ := Option.bind_eq_some_iff.mp returned
        by_cases same : oldSize = size
        · rw [if_pos same] at returned
          obtain ⟨-, rfl⟩ := Prod.mk.inj (Option.some.inj returned)
          exact sane
        · rw [if_neg same] at returned
          obtain ⟨⟨made, between⟩, allocated, returned⟩ := Option.bind_eq_some_iff.mp returned
          dsimp only at returned
          by_cases none : made = 0
          · rw [if_pos none] at returned
            obtain ⟨-, rfl⟩ := Prod.mk.inj (Option.some.inj returned)
            exact sane.malloc allocated ahead
          · rw [if_neg none] at returned
            obtain ⟨data, _, returned⟩ := Option.bind_eq_some_iff.mp returned
            obtain ⟨memory, copied, returned⟩ := Option.bind_eq_some_iff.mp returned
            obtain ⟨freed, done, returned⟩ := Option.bind_eq_some_iff.mp returned
            obtain ⟨-, rfl⟩ := Prod.mk.inj (Option.some.inj returned)
            have head := (free_heap done).1
            rw [head] at ahead
            exact ((sane.malloc allocated ahead).store copied).free done

end Sane

/-- Any call with any arguments that does not take the head past the end of the address space. -/
structure AheadStep (before : HeapSystem) (call : HeapCall) (after : HeapSystem) : Prop where
  performed : ∃ contents, before.perform contents call = some after
  ahead : before.heap.head ≤ after.heap.head

/-- Until the head wraps around, the heap is sane, whatever its clients do. -/
theorem sane_run {bytes : Nat → UInt8} {calls : List HeapCall} {system : HeapSystem}
    (run : Run AheadStep (HeapSystem.initial bytes) calls system) : system.heap.Sane := by
  refine run.invariant (fun system => system.heap.Sane) ?_ fun {before call after} sane step => ?_
  · have start : 4096 * (heapStart / 4096) = heapStart := by decide
    refine ⟨⟨heapStart / 4096, ⟨fun _ => false, fun _ => 0, bytes⟩, by decide, by decide, fun _ _ => rfl⟩, ?_⟩
    rw [SaneHeap.heap, start]
    rfl
  · obtain ⟨⟨contents, performed⟩, ahead⟩ := step
    cases call with
    | malloc size =>
        obtain ⟨answer, returned, rfl⟩ := Option.map_eq_some_iff.mp performed
        exact sane.malloc returned ahead
    | calloc nmemb size =>
        obtain ⟨answer, returned, rfl⟩ := Option.map_eq_some_iff.mp performed
        exact sane.calloc returned ahead
    | realloc ptr size =>
        obtain ⟨answer, returned, rfl⟩ := Option.map_eq_some_iff.mp performed
        exact sane.realloc returned ahead
    | free ptr =>
        obtain ⟨heap, returned, rfl⟩ := Option.map_eq_some_iff.mp performed
        exact sane.free returned
    | write ptr offset data =>
        obtain ⟨memory, stored, rfl⟩ := Option.map_eq_some_iff.mp performed
        exact sane.store stored

end KeblaOS.Memory
