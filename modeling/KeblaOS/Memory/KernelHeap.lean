import KeblaOS.Memory.UserIsolation
import KeblaOS.Memory.Walk

/-!
# Buffers of the kernel heap for the disk controllers

`kheap_alloc` and `kheap_free` over the page tables. The drivers hand `vir_to_phys` of a
buffer to the controller, while the processor goes through the page tables; the two agree
when the frame that `vm_alloc` takes for a page is the one at the page's offset in the
direct map. Nothing in `kheap_alloc` sees to that.
-/

namespace KeblaOS.Memory

/-- The page tables and `h_va_head`. -/
structure KernelHeap where
  machine : Machine
  head : UInt64

namespace KernelHeap

/-- The turns that a loop over the pages of `size` bytes takes. -/
def pageTurns (size : UInt64) : Nat := (pageFloor (size + 0xFFF)).toNat / 4096

/-- The loop of `kheap_alloc`, which takes at most `count` turns; `none` when the kernel halts. -/
def kheapAllocLoop (type : AllocationType) (stop : UInt64) : Nat → KernelHeap → Option KernelHeap
  | 0, heap => some heap
  | count + 1, heap =>
      if heap.head < stop then
        (vmAlloc heap.machine heap.head type).bind fun machine =>
          kheapAllocLoop type stop count ⟨machine, heap.head + 4096⟩
      else some heap

/-- `kheap_alloc`; the address is 0 for `NULL`. -/
def kheapAlloc (heap : KernelHeap) (size : UInt64) (type : AllocationType) : Option (UInt64 × KernelHeap) :=
  let rounded := pageFloor (size + 0xFFF)
  if 0xFFFFFFFFFFFFFFFF < heap.head + rounded then some (0, heap)
  else
    let va := heap.head
    (kheapAllocLoop type (va + rounded) (pageTurns size) heap).map fun heap =>
      -- the padding between two allocations
      (va, { heap with head := heap.head + 4096 })

/-- The loop of `kheap_free`. -/
def kheapFreeLoop (va : UInt64) : Nat → Machine → Option Machine
  | 0, machine => some machine
  | count + 1, machine => (vmFree machine va).bind (kheapFreeLoop (va + 4096) count)

/-- `kheap_free`. -/
def kheapFree (heap : KernelHeap) (ptr size : UInt64) : Option KernelHeap :=
  if ptr = 0 ∨ size = 0 then some heap
  else (kheapFreeLoop ptr (pageTurns size) heap.machine).map fun machine => { heap with machine := machine }

end KernelHeap

/-- A buffer that `kheap_alloc` has returned. -/
structure HeapBuffer where
  base : UInt64
  size : UInt64
deriving DecidableEq

inductive BufferCall where
  | kheapAlloc (size : UInt64) (type : AllocationType)
  | kheapFree (ptr size : UInt64)
deriving DecidableEq

/-- The heap with the buffers returned by `kheap_alloc` of which no page was freed since. -/
structure BufferState where
  heap : KernelHeap
  live : List HeapBuffer

/-- None of the pages freed is a page of the buffer. -/
def HeapBuffer.Spared (buffer : HeapBuffer) (ptr size : UInt64) : Prop :=
  ∀ i < KernelHeap.pageTurns size, ∀ j < KernelHeap.pageTurns buffer.size,
    pagePath (buffer.base + 4096 * UInt64.ofNat j) ≠ pagePath (ptr + 4096 * UInt64.ofNat i)

instance (buffer : HeapBuffer) (ptr size : UInt64) : Decidable (buffer.Spared ptr size) :=
  inferInstanceAs (Decidable (∀ i < _, ∀ j < _, _ ≠ _))

/-- A call of `kheap_alloc`, or of `kheap_free` for any address and size. -/
def BufferState.perform (state : BufferState) : BufferCall → Option BufferState
  | .kheapAlloc size type =>
      (state.heap.kheapAlloc size type).map fun (ptr, heap) =>
        ⟨heap, if ptr = 0 then state.live else ⟨ptr, size⟩ :: state.live⟩
  | .kheapFree ptr size =>
      (state.heap.kheapFree ptr size).map fun heap =>
        ⟨heap, state.live.filter fun buffer => ptr = 0 ∨ buffer.Spared ptr size⟩

/-- For every byte of a buffer, `vir_to_phys` gives the address that the processor accesses. -/
def BufferState.DmaAgrees (hhdm : UInt64) (state : BufferState) : Prop :=
  ∀ buffer ∈ state.live, ∀ offset < buffer.size,
    state.heap.machine.translate (buffer.base + offset) = some (virToPhys hhdm (buffer.base + offset))

/-! ## Frames at their offset -/

/-- The frames that `vm_alloc` takes for a page: `get_page` takes one first if the page is missing. -/
def frameCost (machine : Machine) (root : TableBase) (va : UInt64) : Nat :=
  if (machine.entry root (pagePath va)).present then 1 else 2

/-- The frames that the pages before a page of a buffer take. -/
def framesBefore (machine : Machine) (root : TableBase) (head : UInt64) : Nat → Nat
  | 0 => 0
  | j + 1 => framesBefore machine root head j + frameCost machine root (head + 4096 * UInt64.ofNat j)

/-- The free frames of the bitmap, taken in their order, lie at the offsets of the pages of a buffer. -/
structure FramesAtOffset (hhdm : UInt64) (machine : Machine) (root : TableBase) (head : UInt64) (count : Nat) : Prop where
  above : ∀ j < count, hhdm < head + 4096 * UInt64.ofNat j
  nonzero : ∀ j < count, ∀ bitNo, nthFrame machine.pmm (framesBefore machine root head j) = some bitNo →
    frameAddress machine.pmm bitNo ≠ 0
  placed : ∀ j < count, ∀ bitNo, nthFrame machine.pmm (framesBefore machine root head (j + 1) - 1) = some bitNo →
    frameAddress machine.pmm bitNo = head + 4096 * UInt64.ofNat j - hhdm

/-- Each table that `get_page` asks `kmalloc_a` for is a fresh one below 1 TiB. -/
def Given (machine : Machine) (root : TableBase) (va : UInt64) : Prop :=
  TablesMade (fun machine => (kmallocA machine.pmm 4096 1).1 ≠ 0 ∧ FreshNext machine root) machine root va

/-- The same for every page that the loop of `kheap_alloc` passes. -/
def LoopGiven (root : TableBase) (type : AllocationType) (stop : UInt64) : Nat → KernelHeap → Prop
  | 0, _ => True
  | count + 1, heap =>
      heap.head < stop → Given heap.machine root heap.head ∧
        ∀ machine, vmAlloc heap.machine heap.head type = some machine →
          LoopGiven root type stop count ⟨machine, heap.head + 4096⟩

/-- `kheap_alloc` computes no address that wraps around. -/
def KernelHeap.Room (heap : KernelHeap) (size : UInt64) : Prop :=
  size.toNat + 4095 < 18446744073709551616 ∧
    heap.head.toNat + 4096 * KernelHeap.pageTurns size + 4096 < 18446744073709551616

instance (heap : KernelHeap) (size : UInt64) : Decidable (heap.Room size) := inferInstanceAs (Decidable (_ ∧ _))

/-- Any call that does not halt the kernel. -/
def BufferStep (before : BufferState) (call : BufferCall) (after : BufferState) : Prop :=
  before.perform call = some after

/-- A call over tables below 1 TiB; `kheap_alloc` has room, gets the tables it asks for and finds the
frames at the offsets of its pages. -/
structure OffsetStep (hhdm : UInt64) (root : TableBase) (before : BufferState) (call : BufferCall)
    (after : BufferState) : Prop where
  performed : before.perform call = some after
  room : ∀ size type, call = .kheapAlloc size type → before.heap.Room size
  low : ∀ size type, call = .kheapAlloc size type → ∀ j < KernelHeap.pageTurns size,
    before.heap.machine.LowTables root (before.heap.head + 4096 * UInt64.ofNat j)
  given : ∀ size type, call = .kheapAlloc size type →
    LoopGiven root type (before.heap.head + pageFloor (size + 0xFFF)) (KernelHeap.pageTurns size) before.heap
  frames : ∀ size type, call = .kheapAlloc size type →
    FramesAtOffset hhdm before.heap.machine root before.heap.head (KernelHeap.pageTurns size)
  freed : ∀ ptr size, call = .kheapFree ptr size → ∀ i < KernelHeap.pageTurns size,
    before.heap.machine.LowTables root (ptr + 4096 * UInt64.ofNat i)

/-! ## One page -/

section Page

variable {hhdm : UInt64} {root : TableBase} {before after machine : Machine} {va : UInt64}

/-- The page is mapped to its offset in the direct map. -/
structure AtOffset (hhdm : UInt64) (machine : Machine) (root : TableBase) (va : UInt64) : Prop where
  above : hhdm < va
  present : (machine.entry root (pagePath va)).present = true
  frame : (machine.entry root (pagePath va)).frame <<< 12 = va - hhdm

/-- `get_page` with the tables it asks for returns no entry only for the frame at address zero. -/
theorem getPage_none (nonnull : root.base ≠ 0) (given : Given before root va)
    (returned : getPage before va true root.base = some (none, after)) :
    ∃ bitNo, nthFrame before.pmm 0 = some bitNo ∧ frameAddress before.pmm bitNo = 0 := by
  have made : TablesMade (fun machine => (kmallocA machine.pmm 4096 1).1 ≠ 0) before root va :=
    ⟨fun absent => (given.pdpt absent).1, fun pdpt after taken absent => (given.pd pdpt after taken absent).1,
      fun pd after taken absent => (given.pt pd after taken absent).1⟩
  obtain ⟨pt, third, walked⟩ := directories_some made
  obtain ⟨head, pmm⟩ := directories_head before va true root.base
  rw [walked] at pmm
  rw [getPage_eq_directories, if_neg nonnull, walked] at returned
  replace returned : leafPage third (tableSlot pt va 12) (va < higherHalfStart) = some (none, after) := returned
  unfold leafPage at returned
  dsimp only at returned pmm
  split_ifs at returned with present
  · cases returned
  · obtain ⟨⟨page, pmm'⟩, allocated, finished⟩ := Option.map_eq_some_iff.mp returned
    obtain ⟨bitNo, free, marked, written⟩ := allocFrame_entry allocated
    have start := (setFrame_sameLayout marked).start
    rw [pmm] at free start
    have zero : page.frame = 0 := by
      by_contra nonzero
      dsimp only at finished
      rw [if_neg nonzero] at finished
      cases finished
    have first : freeFrameBitNo before.pmm = some bitNo := by
      rw [← free]
      exact freeFrameBitNo_congr rfl rfl
    refine ⟨bitNo, first, ?_⟩
    rw [written] at zero
    dsimp only at zero start
    rw [frameAddress, ← start, zero]
    rfl

/-- What `vm_alloc` of a page does when it does not give up. -/
structure Mapped (before after : Machine) (root : TableBase) (va : UInt64) : Prop where
  tree : after.IsTree root
  cr3 : after.cr3 = root.base
  others : ∀ {other}, pagePath other ≠ pagePath va →
    after.entry root (pagePath other) = before.entry root (pagePath other)
  low : ∀ {other}, before.LowTables root other → after.LowTables root other
  start : after.pmm.usableStart = before.pmm.usableStart
  frames : ∀ taken, nthFrame after.pmm taken = nthFrame before.pmm (frameCost before root va + taken)
  present : (after.entry root (pagePath va)).present = true
  frame : ∃ bitNo, nthFrame before.pmm (frameCost before root va - 1) = some bitNo ∧
    (after.entry root (pagePath va)).frame <<< 12 = frameAddress before.pmm bitNo

theorem vmAlloc_mapped {type : AllocationType} (nonnull : root.base ≠ 0) (cr3 : before.cr3 = root.base)
    (tree : before.IsTree root) (low : before.LowTables root va) (given : Given before root va)
    (nonzero : ∀ bitNo, nthFrame before.pmm 0 = some bitNo → frameAddress before.pmm bitNo ≠ 0)
    (returned : vmAlloc before va type = some after) : Mapped before after root va := by
  have supplied : Supplied before root va :=
    ⟨fun absent _ => (given.pdpt absent).2, fun pdpt after taken absent _ => (given.pd pdpt after taken absent).2,
      fun pd after taken absent _ => (given.pt pd after taken absent).2⟩
  rcases vmAlloc_cases nonnull cr3 tree low supplied returned with
    ⟨gave, -⟩ | ⟨between, slot, page, entry, got, allocated, set, present, frame, -⟩
  · obtain ⟨bitNo, first, zero⟩ := getPage_none nonnull given gave
    exact absurd zero (nonzero bitNo first)
  · have self := set.entry_self (Nat.le_of_eq (length_pagePath va))
    obtain ⟨bitNo, free, marked, written⟩ := allocFrame_entry allocated
    have last := setFrame_sameLayout marked
    -- the frame for the page comes first, or after the one that `get_page` has taken
    have taken : nthFrame before.pmm (frameCost before root va - 1) = some bitNo ∧
        after.pmm.usableStart = before.pmm.usableStart ∧
        ∀ taken, nthFrame after.pmm taken = nthFrame before.pmm (frameCost before root va + taken) := by
      rcases got.supply with ⟨head, ⟨pmm, there⟩ | ⟨absent, first, lowest, marked'⟩⟩
      · rw [pmm] at free marked last
        have first : freeFrameBitNo before.pmm = some bitNo := by
          rw [← free]
          exact freeFrameBitNo_congr rfl rfl
        rw [frameCost, if_pos (there rfl)]
        refine ⟨first, last.start, fun taken => ?_⟩
        rw [Nat.add_comm]
        exact @nthFrame_setFrame before.pmm after.pmm bitNo first head marked taken
      · have missing : ¬ (before.entry root (pagePath va)).present = true := by simp [absent]
        have second := nthFrame_setFrame lowest marked'
        rw [frameCost, if_neg missing]
        refine ⟨(second 0).symm.trans free, last.start.trans (setFrame_sameLayout marked').start, fun taken => ?_⟩
        rw [Nat.add_comm, ← Nat.add_assoc taken 1 1, ← second (taken + 1)]
        exact @nthFrame_setFrame between.pmm after.pmm bitNo free between.pmm.physMemHead marked taken
    obtain ⟨which, start, frames⟩ := taken
    refine ⟨set.tree, set.cr3.trans (got.cr3.trans cr3), fun {other} different => ?_,
      fun low' => set.lowTables (got.lowTables low'), start, frames, by rw [self, present], bitNo, which, ?_⟩
    · rw [set.entry_other (Nat.le_of_eq (length_pagePath other)) different, got.page_other different]
    · rw [self, frame, written, frameAddress, start]

/-- `vm_free` keeps the entries of other pages. -/
theorem vmFree_page_other (nonnull : root.base ≠ 0) (cr3 : before.cr3 = root.base) (tree : before.IsTree root)
    (low : before.LowTables root va) (returned : vmFree before va = some after) :
    after.IsTree root ∧ after.cr3 = root.base ∧ (∀ {other}, before.LowTables root other → after.LowTables root other) ∧
      ∀ {other}, pagePath other ≠ pagePath va →
        after.entry root (pagePath other) = before.entry root (pagePath other) := by
  rcases vmFree_cases nonnull cr3 tree low returned with
    ⟨-, rfl⟩ | got | ⟨between, slot, page, entry, got, -, set, -, -⟩
  · exact ⟨tree, cr3, id, fun _ => rfl⟩
  · exact ⟨got.tree, got.cr3.trans cr3, got.lowTables, got.page_other⟩
  · refine ⟨set.tree, set.cr3.trans (got.cr3.trans cr3), fun low' => set.lowTables (got.lowTables low'),
      fun {other} different => ?_⟩
    rw [set.entry_other (Nat.le_of_eq (length_pagePath other)) different, got.page_other different]

theorem AtOffset.congr (atOffset : AtOffset hhdm before root va)
    (same : after.entry root (pagePath va) = before.entry root (pagePath va)) : AtOffset hhdm after root va := by
  refine ⟨atOffset.above, ?_, ?_⟩
  · rw [same]
    exact atOffset.present
  · rw [same]
    exact atOffset.frame

theorem canonical_of_upper (upper : higherHalfStart ≤ va) : Canonical va := by
  rw [UInt64.le_iff_toNat_le] at upper
  refine .inr (UInt64.le_iff_toNat_le.mpr ?_)
  simp only [higherHalfStart, UInt64.reduceToNat] at upper ⊢
  omega

/-- For every byte of the page, the two notions of a physical address agree. -/
theorem AtOffset.translate {byte : UInt64} (atOffset : AtOffset hhdm machine root va)
    (cr3 : machine.cr3 = root.base) (upper : higherHalfStart ≤ byte) (aligned : va.toNat % 4096 = 0)
    (page : byte.toNat / 4096 = va.toNat / 4096) :
    machine.translate byte = some (virToPhys hhdm byte) := by
  obtain ⟨above, present, frame⟩ := atOffset
  have path : pagePath byte = pagePath va := (pagePath_eq_iff byte va).mpr (by rw [page])
  have floor : pageFloor machine.cr3 = root.base := by
    have base := root.aligned
    rw [cr3]
    apply UInt64.toNat_inj.mp
    rw [toNat_pageFloor]
    omega
  have low : (byte &&& 0xFFF).toNat = byte.toNat % 4096 := by
    rw [UInt64.toNat_and]
    exact Nat.and_two_pow_sub_one_eq_mod _ 12
  rw [← path] at present frame
  rw [Machine.translate_of_present floor (canonical_of_upper upper) present, frame, Option.some.injEq]
  have bound := byte.toNat_lt
  have bound' := va.toNat_lt
  rw [UInt64.lt_iff_toNat_lt] at above
  have positive : byte ≠ 0 := by
    rintro rfl
    rw [UInt64.le_iff_toNat_le] at upper
    exact absurd upper (by decide)
  have beyond : ¬ byte ≤ hhdm := by
    rw [UInt64.le_iff_toNat_le]
    omega
  rw [virToPhys, if_neg positive, if_neg beyond]
  apply UInt64.toNat_inj.mp
  rw [UInt64.toNat_add, low, UInt64.toNat_sub, UInt64.toNat_sub]
  omega

/-- Different pages of the upper half have different paths. -/
theorem pagePath_ne_of_upper {other : UInt64} (upper : higherHalfStart ≤ va) (upper' : higherHalfStart ≤ other)
    (different : va.toNat / 4096 ≠ other.toNat / 4096) : pagePath va ≠ pagePath other := by
  intro same
  have pages := (pagePath_eq_iff_of_canonical (canonical_of_upper upper) (canonical_of_upper upper')).mp same
  rw [← UInt64.toNat_inj, toNat_shiftRight_page, toNat_shiftRight_page] at pages
  exact different pages

end Page

/-! ## The loops -/

section Loops

variable {hhdm stop : UInt64} {root : TableBase} {type : AllocationType} {count : Nat}

/-- The frames for the pages that are left, after the first one is mapped. -/
theorem FramesAtOffset.next {machine after : Machine} {head : UInt64} (upper : higherHalfStart ≤ head)
    (room : head.toNat + 4096 * (count + 1) < 18446744073709551616)
    (frames : FramesAtOffset hhdm machine root head (count + 1)) (mapped : Mapped machine after root head) :
    FramesAtOffset hhdm after root (head + 4096) count := by
  have cost : ∀ j < count, frameCost after root (head + 4096 + 4096 * UInt64.ofNat j) =
      frameCost machine root (head + 4096 * UInt64.ofNat (j + 1)) := by
    intro j below
    have inside : 4096 * (j + 1) ≤ 4096 * (count + 1) := Nat.mul_le_mul_left _ (Nat.succ_le_succ (Nat.le_of_lt below))
    have place := @toNat_add_pages head (j + 1) (Nat.lt_of_le_of_lt (Nat.add_le_add_left inside _) room)
    have above : higherHalfStart ≤ head + 4096 * UInt64.ofNat (j + 1) := by
      rw [UInt64.le_iff_toNat_le] at upper ⊢
      omega
    have same := mapped.others (pagePath_ne_of_upper above upper (by omega))
    rw [← add_pages_succ, frameCost, frameCost, same]
  have before : ∀ j ≤ count, framesBefore machine root head (j + 1) =
      frameCost machine root head + framesBefore after root (head + 4096) j := by
    intro j within
    induction j with
    | zero =>
        show 0 + frameCost machine root (head + 4096 * UInt64.ofNat 0) = frameCost machine root head + 0
        rw [add_pages_zero, Nat.zero_add, Nat.add_zero]
    | succ j ih => rw [framesBefore, ih (Nat.le_of_succ_le within), framesBefore, cost j within, Nat.add_assoc]
  have address : frameAddress after.pmm = frameAddress machine.pmm := by
    funext bitNo
    rw [frameAddress, frameAddress, mapped.start]
  have positive : ∀ j < count, 0 < framesBefore after root (head + 4096) (j + 1) := by
    intro j _
    rw [framesBefore, frameCost]
    split_ifs <;> omega
  refine ⟨fun j below => ?_, fun j below bitNo found => ?_, fun j below bitNo found => ?_⟩
  · rw [← add_pages_succ]
    exact frames.above (j + 1) (Nat.succ_lt_succ below)
  · rw [mapped.frames, ← before j (Nat.le_of_lt below)] at found
    rw [address]
    exact frames.nonzero (j + 1) (Nat.succ_lt_succ below) bitNo found
  · have some := positive j below
    rw [mapped.frames, ← Nat.add_sub_assoc some, ← before (j + 1) below] at found
    rw [address, ← add_pages_succ]
    exact frames.placed (j + 1) (Nat.succ_lt_succ below) bitNo found

/-- The loop of `kheap_alloc` has mapped its pages to their offsets and left the pages below
alone. -/
structure LoopDone (hhdm : UInt64) (root : TableBase) (before after : KernelHeap) (count : Nat) : Prop where
  head : after.head.toNat = before.head.toNat + 4096 * count
  tree : after.machine.IsTree root
  cr3 : after.machine.cr3 = root.base
  mapped : ∀ j < count, AtOffset hhdm after.machine root (before.head + 4096 * UInt64.ofNat j)
  kept : ∀ {va}, higherHalfStart ≤ va → va.toNat / 4096 < before.head.toNat / 4096 →
    after.machine.entry root (pagePath va) = before.machine.entry root (pagePath va)

theorem kheapAllocLoop_done {before after : KernelHeap} (nonnull : root.base ≠ 0)
    (cr3 : before.machine.cr3 = root.base) (tree : before.machine.IsTree root) (upper : higherHalfStart ≤ before.head)
    (room : before.head.toNat + 4096 * count < 18446744073709551616)
    (ends : stop.toNat = before.head.toNat + 4096 * count)
    (low : ∀ j < count, before.machine.LowTables root (before.head + 4096 * UInt64.ofNat j))
    (given : LoopGiven root type stop count before) (frames : FramesAtOffset hhdm before.machine root before.head count)
    (returned : KernelHeap.kheapAllocLoop type stop count before = some after) :
    LoopDone hhdm root before after count := by
  induction count generalizing before with
  | zero =>
      obtain rfl := Option.some.inj returned
      exact ⟨rfl, tree, cr3, fun j below => absurd below (Nat.not_lt_zero j), fun _ _ => rfl⟩
  | succ count ih =>
      have below : before.head < stop := UInt64.lt_iff_toNat_lt.mpr (by omega)
      rw [KernelHeap.kheapAllocLoop, if_pos below] at returned
      obtain ⟨machine, allocated, rest⟩ := Option.bind_eq_some_iff.mp returned
      obtain ⟨wanted, later⟩ := given below
      have here := low 0 (Nat.succ_pos count)
      rw [add_pages_zero] at here
      have mapped := vmAlloc_mapped nonnull cr3 tree here wanted (frames.nonzero 0 (Nat.succ_pos count)) allocated
      have first : AtOffset hhdm machine root before.head := by
        obtain ⟨bitNo, taken, frame⟩ := mapped.frame
        have above := frames.above 0 (Nat.succ_pos count)
        have cost : framesBefore before.machine root before.head (0 + 1) = frameCost before.machine root before.head := by
          rw [framesBefore, framesBefore, add_pages_zero, Nat.zero_add]
        rw [← cost] at taken
        have place := frames.placed 0 (Nat.succ_pos count) bitNo taken
        rw [add_pages_zero] at above place
        exact ⟨above, mapped.present, frame.trans place⟩
      have next : (before.head + 4096).toNat = before.head.toNat + 4096 := by
        simp only [UInt64.toNat_add, UInt64.reduceToNat]
        omega
      have upper' : higherHalfStart ≤ before.head + 4096 := by
        rw [UInt64.le_iff_toNat_le] at upper ⊢
        omega
      have lows : ∀ j < count, machine.LowTables root (before.head + 4096 + 4096 * UInt64.ofNat j) := by
        intro j below
        rw [← add_pages_succ]
        exact mapped.low (low (j + 1) (Nat.succ_lt_succ below))
      have done := @ih ⟨machine, before.head + 4096⟩ mapped.cr3 mapped.tree upper' (by dsimp only; omega)
        (by dsimp only; omega) lows (later machine allocated) (frames.next upper room mapped) rest
      have head := done.head
      dsimp only at head
      refine ⟨by omega, done.tree, done.cr3, fun j small => ?_, fun {va} high lower => ?_⟩
      · cases j with
        | zero =>
            rw [add_pages_zero]
            exact first.congr (done.kept upper (by dsimp only; omega))
        | succ j =>
            rw [add_pages_succ]
            exact done.mapped j (by omega)
      · rw [done.kept high (by dsimp only; omega)]
        exact mapped.others (pagePath_ne_of_upper high upper (by omega))

theorem kheapFreeLoop_kept {before after : Machine} {va : UInt64} (nonnull : root.base ≠ 0)
    (cr3 : before.cr3 = root.base) (tree : before.IsTree root)
    (low : ∀ i < count, before.LowTables root (va + 4096 * UInt64.ofNat i))
    (returned : KernelHeap.kheapFreeLoop va count before = some after) :
    after.IsTree root ∧ after.cr3 = root.base ∧
      ∀ {other}, (∀ i < count, pagePath other ≠ pagePath (va + 4096 * UInt64.ofNat i)) →
        after.entry root (pagePath other) = before.entry root (pagePath other) := by
  induction count generalizing before va with
  | zero =>
      obtain rfl := Option.some.inj returned
      exact ⟨tree, cr3, fun _ => rfl⟩
  | succ count ih =>
      obtain ⟨machine, freed, rest⟩ := Option.bind_eq_some_iff.mp returned
      have first := low 0 (Nat.succ_pos count)
      rw [add_pages_zero] at first
      obtain ⟨tree', cr3', lows, others⟩ := vmFree_page_other nonnull cr3 tree first freed
      obtain ⟨tree'', cr3'', kept⟩ := ih cr3' tree' (fun i below => by
        rw [← add_pages_succ]
        exact lows (low (i + 1) (Nat.succ_lt_succ below))) rest
      refine ⟨tree'', cr3'', fun {other} spared => ?_⟩
      have later : ∀ i < count, pagePath other ≠ pagePath (va + 4096 + 4096 * UInt64.ofNat i) := by
        intro i below
        rw [← add_pages_succ]
        exact spared (i + 1) (Nat.succ_lt_succ below)
      have here := spared 0 (Nat.succ_pos count)
      rw [add_pages_zero] at here
      rw [kept later, others here]

end Loops

/-! ## Runs -/

/-- The buffer lies in whole pages of the upper half, below the head. -/
structure HeapBuffer.Below (buffer : HeapBuffer) (head : UInt64) : Prop where
  upper : higherHalfStart ≤ buffer.base
  aligned : buffer.base.toNat % 4096 = 0
  below : buffer.base.toNat + 4096 * KernelHeap.pageTurns buffer.size ≤ head.toNat
  covered : buffer.size.toNat ≤ 4096 * KernelHeap.pageTurns buffer.size

/-- Every page of a live buffer is mapped to its offset. -/
structure BuffersAtOffset (hhdm : UInt64) (root : TableBase) (state : BufferState) : Prop where
  cr3 : state.heap.machine.cr3 = root.base
  tree : state.heap.machine.IsTree root
  upper : higherHalfStart ≤ state.heap.head
  aligned : state.heap.head.toNat % 4096 = 0
  placed : ∀ buffer ∈ state.live, buffer.Below state.heap.head
  mapped : ∀ buffer ∈ state.live, ∀ j < KernelHeap.pageTurns buffer.size,
    AtOffset hhdm state.heap.machine root (buffer.base + 4096 * UInt64.ofNat j)

theorem KernelHeap.toNat_rounded (size : UInt64) :
    (pageFloor (size + 0xFFF)).toNat = 4096 * KernelHeap.pageTurns size := by
  rw [KernelHeap.pageTurns, toNat_pageFloor]
  omega

/-- The pages of `kheap_alloc` hold the size asked for. -/
theorem KernelHeap.Room.covered {heap : KernelHeap} {size : UInt64} (room : heap.Room size) :
    size.toNat ≤ 4096 * KernelHeap.pageTurns size := by
  have small := room.1
  have sum : (size + 0xFFF).toNat = size.toNat + 4095 := by
    simp only [UInt64.toNat_add, UInt64.reduceToNat]
    omega
  rw [KernelHeap.pageTurns, toNat_pageFloor, sum]
  omega

section Steps

variable {hhdm : UInt64} {root : TableBase} {before after : BufferState}

theorem BuffersAtOffset.kheapAlloc {size : UInt64} {type : AllocationType} {ptr : UInt64} {heap : KernelHeap}
    (nonnull : root.base ≠ 0) (atOffset : BuffersAtOffset hhdm root before) (room : before.heap.Room size)
    (low : ∀ j < KernelHeap.pageTurns size,
      before.heap.machine.LowTables root (before.heap.head + 4096 * UInt64.ofNat j))
    (given : LoopGiven root type (before.heap.head + pageFloor (size + 0xFFF)) (KernelHeap.pageTurns size) before.heap)
    (frames : FramesAtOffset hhdm before.heap.machine root before.heap.head (KernelHeap.pageTurns size))
    (returned : before.heap.kheapAlloc size type = some (ptr, heap)) :
    BuffersAtOffset hhdm root ⟨heap, if ptr = 0 then before.live else ⟨ptr, size⟩ :: before.live⟩ := by
  have covered := room.covered
  have fits := room.2
  have rounded := KernelHeap.toNat_rounded size
  have upper := atOffset.upper
  have aligned := atOffset.aligned
  have ends : (before.heap.head + pageFloor (size + 0xFFF)).toNat =
      before.heap.head.toNat + 4096 * KernelHeap.pageTurns size := by
    rw [UInt64.toNat_add, rounded]
    omega
  have inside : ¬ (0xFFFFFFFFFFFFFFFF : UInt64) < before.heap.head + pageFloor (size + 0xFFF) := by
    rw [UInt64.lt_iff_toNat_lt]
    simp only [UInt64.reduceToNat]
    have bound := (before.heap.head + pageFloor (size + 0xFFF)).toNat_lt
    omega
  rw [KernelHeap.kheapAlloc] at returned
  dsimp only at returned
  rw [if_neg inside] at returned
  obtain ⟨looped, loop, pair⟩ := Option.map_eq_some_iff.mp returned
  obtain ⟨rfl, rfl⟩ := Prod.mk.inj pair
  have done := kheapAllocLoop_done nonnull atOffset.cr3 atOffset.tree upper (by omega) ends low given frames loop
  have nonzero : before.heap.head ≠ 0 := by
    intro zero
    rw [zero] at upper
    exact absurd upper (by decide)
  have head : (looped.head + 4096).toNat = before.heap.head.toNat + 4096 * KernelHeap.pageTurns size + 4096 := by
    rw [UInt64.toNat_add, done.head]
    simp only [UInt64.reduceToNat]
    omega
  rw [if_neg nonzero]
  rw [UInt64.le_iff_toNat_le] at upper
  refine ⟨done.cr3, done.tree, ?_, ?_, fun buffer member => ?_, fun buffer member j small => ?_⟩
  · rw [UInt64.le_iff_toNat_le, head]
    omega
  · rw [head]
    omega
  · rcases List.mem_cons.mp member with rfl | earlier
    · exact ⟨atOffset.upper, aligned, by dsimp only; omega, covered⟩
    · have placed := atOffset.placed buffer earlier
      have below := placed.below
      exact ⟨placed.upper, placed.aligned, by dsimp only; omega, placed.covered⟩
  · rcases List.mem_cons.mp member with rfl | earlier
    · exact done.mapped j small
    · -- a page below the old head
      have placed := atOffset.placed buffer earlier
      have below := placed.below
      have start := placed.upper
      rw [UInt64.le_iff_toNat_le] at start
      have page := @toNat_add_pages buffer.base j (by omega)
      exact (atOffset.mapped buffer earlier j small).congr
        (done.kept (UInt64.le_iff_toNat_le.mpr (by omega)) (by omega))

theorem BuffersAtOffset.kheapFree {ptr size : UInt64} {heap : KernelHeap} (nonnull : root.base ≠ 0)
    (atOffset : BuffersAtOffset hhdm root before)
    (low : ∀ i < KernelHeap.pageTurns size, before.heap.machine.LowTables root (ptr + 4096 * UInt64.ofNat i))
    (returned : before.heap.kheapFree ptr size = some heap) :
    BuffersAtOffset hhdm root
      ⟨heap, before.live.filter fun buffer => ptr = 0 ∨ buffer.Spared ptr size⟩ := by
  have placed : ∀ buffer ∈ before.live.filter fun buffer => ptr = 0 ∨ buffer.Spared ptr size,
      buffer.Below before.heap.head := fun buffer member => atOffset.placed buffer (List.mem_of_mem_filter member)
  have mapped := fun buffer (member : buffer ∈ before.live.filter fun buffer => ptr = 0 ∨ buffer.Spared ptr size) =>
    atOffset.mapped buffer (List.mem_of_mem_filter member)
  rw [KernelHeap.kheapFree] at returned
  split_ifs at returned with nothing
  · obtain rfl := Option.some.inj returned
    exact ⟨atOffset.cr3, atOffset.tree, atOffset.upper, atOffset.aligned, placed, mapped⟩
  · obtain ⟨machine, freed, rfl⟩ := Option.map_eq_some_iff.mp returned
    obtain ⟨tree, cr3, kept⟩ := kheapFreeLoop_kept nonnull atOffset.cr3 atOffset.tree low freed
    refine ⟨cr3, tree, atOffset.upper, atOffset.aligned, placed, fun buffer member j small => ?_⟩
    have spared : buffer.Spared ptr size := by
      have kept := of_decide_eq_true (List.mem_filter.mp member).2
      exact kept.resolve_left fun zero => nothing (.inl zero)
    exact (mapped buffer member j small).congr (kept fun i below => spared i below j small)

theorem BuffersAtOffset.step {call : BufferCall} (nonnull : root.base ≠ 0)
    (atOffset : BuffersAtOffset hhdm root before) (step : OffsetStep hhdm root before call after) :
    BuffersAtOffset hhdm root after := by
  have performed := step.performed
  cases call with
  | kheapAlloc size type =>
      obtain ⟨⟨ptr, heap⟩, returned, rfl⟩ := Option.map_eq_some_iff.mp performed
      exact atOffset.kheapAlloc nonnull (step.room size type rfl) (step.low size type rfl) (step.given size type rfl)
        (step.frames size type rfl) returned
  | kheapFree ptr size =>
      obtain ⟨heap, returned, rfl⟩ := Option.map_eq_some_iff.mp performed
      exact atOffset.kheapFree nonnull (step.freed ptr size rfl) returned

theorem BuffersAtOffset.dmaAgrees (atOffset : BuffersAtOffset hhdm root before) : before.DmaAgrees hhdm := by
  intro buffer member offset inside
  obtain ⟨upper, aligned, below, covered⟩ := atOffset.placed buffer member
  rw [UInt64.lt_iff_toNat_lt] at inside
  have bound := before.heap.head.toNat_lt
  have byte : (buffer.base + offset).toNat = buffer.base.toNat + offset.toNat := by
    rw [UInt64.toNat_add]
    omega
  have page := @toNat_add_pages buffer.base (offset.toNat / 4096) (by omega)
  have high : higherHalfStart ≤ buffer.base + offset := by
    rw [UInt64.le_iff_toNat_le] at upper ⊢
    omega
  exact (atOffset.mapped buffer member (offset.toNat / 4096) (by omega)).translate atOffset.cr3 high (by omega) (by omega)

/-- In every run in which `kheap_alloc` gets the frames at the offsets of its pages, the
address that `vir_to_phys` computes for a byte of a live buffer is the one that the page
tables translate it to. -/
theorem kheap_run_dmaAgrees {machine : Machine} {calls : List BufferCall} {finish : BufferState}
    (nonnull : root.base ≠ 0) (cr3 : machine.cr3 = root.base) (tree : machine.IsTree root)
    (run : Run (OffsetStep hhdm root) ⟨⟨machine, higherHalfStart⟩, []⟩ calls finish) : finish.DmaAgrees hhdm := by
  have initial : BuffersAtOffset hhdm root ⟨⟨machine, higherHalfStart⟩, []⟩ :=
    ⟨cr3, tree, UInt64.le_refl _, (by decide : higherHalfStart.toNat % 4096 = 0), fun _ member => by simp at member, fun _ member => by simp at member⟩
  exact (run.invariant (BuffersAtOffset hhdm root) initial fun atOffset step => atOffset.step nonnull step).dmaAgrees

end Steps

/-- Managed memory from `0x1000` on; the first two pages of the heap are present already. -/
def offsetMachine : Machine :=
  { upperMachine with
      pmm := { upperMachine.pmm with usableStart := 0x1000 }
      slots := fun slot =>
        if slot = 0x4008 ∨ slot = 0x4010 then ⟨true, true, false, 1, false⟩ else upperMachine.slots slot }

theorem offsetMachine_isChain : offsetMachine.IsChain fun level => if level = 0 then 256 else 0 := by
  refine Machine.isChain_of_present fun slot directory present => ?_
  have other : ¬ (slot = 0x4008 ∨ slot = 0x4010) := by
    rintro (rfl | rfl)
    · exact absurd directory (by decide)
    · exact absurd directory (by decide)
  simp only [offsetMachine, if_neg other] at present
  rcases upperMachine_present present with rfl | rfl | rfl
  · exact ⟨0, by decide, by decide, by decide⟩
  · exact ⟨1, by decide, by decide, by decide⟩
  · exact ⟨2, by decide, by decide, by decide⟩

/-- The tables for the two pages are there. -/
theorem offsetMachine_given (stop : UInt64) : LoopGiven pagedRoot .data stop 2 ⟨offsetMachine, higherHalfStart⟩ := by
  refine fun _ => ⟨TablesMade.of_present (by decide +kernel) (by decide +kernel) (by decide +kernel),
    fun machine allocated _ => ?_⟩
  let second := (vmAlloc offsetMachine higherHalfStart .data).getD offsetMachine
  have computed : vmAlloc offsetMachine higherHalfStart .data = some second :=
    eq_some_getD_of_isSome _ (by decide +kernel)
  obtain rfl : second = machine := Option.some.inj (computed.symm.trans allocated)
  exact ⟨TablesMade.of_present (by decide +kernel) (by decide +kernel) (by decide +kernel), fun _ _ => trivial⟩

/-- Each of the two pages takes one frame, the first ones of the memory. -/
theorem offsetMachine_frames : FramesAtOffset 0xFFFF800000000000 offsetMachine pagedRoot higherHalfStart 2 := by
  have above : ∀ j < 2, (0xFFFF800000000000 : UInt64) < higherHalfStart + 4096 * UInt64.ofNat j := by decide
  have before : ∀ j < 3, framesBefore offsetMachine pagedRoot higherHalfStart j = j := by decide +kernel
  have frames : ∀ j < 2, (nthFrame offsetMachine.pmm j).map (frameAddress offsetMachine.pmm) =
      some (higherHalfStart + 4096 * UInt64.ofNat j - 0xFFFF800000000000) := by decide +kernel
  have place : ∀ j < 2, ∀ bitNo, nthFrame offsetMachine.pmm j = some bitNo →
      frameAddress offsetMachine.pmm bitNo = higherHalfStart + 4096 * UInt64.ofNat j - 0xFFFF800000000000 := by
    intro j below bitNo found
    have frame := frames j below
    rw [found] at frame
    exact Option.some.inj frame
  refine ⟨above, fun j below bitNo found => ?_, fun j below bitNo found => ?_⟩
  · rw [before j (by omega)] at found
    rw [place j below bitNo found]
    exact (by decide : ∀ j < 2, higherHalfStart + 4096 * UInt64.ofNat j - 0xFFFF800000000000 ≠ 0) j below
  · rw [before (j + 1) (by omega), Nat.add_sub_cancel] at found
    exact place j below bitNo found

/-- A request for two pages. -/
theorem OffsetStep.of_pages {hhdm size : UInt64} {root : TableBase} {before after : BufferState} {type : AllocationType}
    (performed : before.perform (.kheapAlloc size type) = some after) (pages : KernelHeap.pageTurns size = 2)
    (room : before.heap.Room size)
    (low : ∀ j < 2, before.heap.machine.LowTables root (before.heap.head + 4096 * UInt64.ofNat j))
    (given : ∀ stop, LoopGiven root type stop 2 before.heap)
    (frames : FramesAtOffset hhdm before.heap.machine root before.heap.head 2) :
    OffsetStep hhdm root before (.kheapAlloc size type) after := by
  refine ⟨performed, fun _ _ same => ?_, fun _ _ same => ?_, fun _ _ same => ?_, fun _ _ same => ?_,
    fun _ _ same => absurd same (by simp)⟩
  all_goals obtain ⟨rfl, rfl⟩ := BufferCall.kheapAlloc.inj same
  · exact room
  all_goals rw [pages]
  · exact low
  · exact given _
  · exact frames

/-- A buffer of two pages gets the frames `0x1000` and `0x2000`. -/
theorem kheap_run_dmaAgrees_offset :
    ∃ finish, Run (OffsetStep 0xFFFF800000000000 pagedRoot) ⟨⟨offsetMachine, higherHalfStart⟩, []⟩
        [.kheapAlloc 0x1800 .data] finish ∧
      finish.live = [⟨0xFFFF800000001000, 0x1800⟩] ∧ finish.DmaAgrees 0xFFFF800000000000 := by
  let start : BufferState := ⟨⟨offsetMachine, higherHalfStart⟩, []⟩
  have computed : (start.perform (.kheapAlloc 0x1800 .data)).map BufferState.live =
      some [⟨0xFFFF800000001000, 0x1800⟩] := by decide +kernel
  obtain ⟨finish, performed, live⟩ := Option.map_eq_some_iff.mp computed
  have step : OffsetStep 0xFFFF800000000000 pagedRoot start (.kheapAlloc 0x1800 .data) finish :=
    .of_pages performed (by decide) (by decide) (by decide +kernel) offsetMachine_given offsetMachine_frames
  have run : Run (OffsetStep 0xFFFF800000000000 pagedRoot) start [.kheapAlloc 0x1800 .data] finish :=
    Run.snoc .nil step
  exact ⟨finish, run, live, kheap_run_dmaAgrees (by decide) (by decide) offsetMachine_isChain.isTree run⟩

/-- A page of the heap is mapped to a frame far from its offset. -/
theorem kheapAlloc_dma_apart :
    upperMachine.IsTree pagedRoot ∧ upperMachine.cr3 = pagedRoot.base ∧
      ∃ finish, Run BufferStep ⟨⟨upperMachine, higherHalfStart⟩, []⟩ [.kheapAlloc 0x1000 .data] finish ∧
        ⟨0xFFFF800000001000, 0x1000⟩ ∈ finish.live ∧
        finish.heap.machine.translate 0xFFFF800000001000 = some 0x101000 ∧
        virToPhys 0xFFFF800000000000 0xFFFF800000001000 = 0x1000 ∧
        ¬ finish.DmaAgrees 0xFFFF800000000000 := by
  let start : BufferState := ⟨⟨upperMachine, higherHalfStart⟩, []⟩
  let finish := (start.perform (.kheapAlloc 0x1000 .data)).getD start
  have step : BufferStep start (.kheapAlloc 0x1000 .data) finish := eq_some_getD_of_isSome _ (by decide +kernel)
  have member : ⟨0xFFFF800000001000, 0x1000⟩ ∈ finish.live := by decide +kernel
  have translated : finish.heap.machine.translate 0xFFFF800000001000 = some 0x101000 := by decide +kernel
  have computed : virToPhys 0xFFFF800000000000 0xFFFF800000001000 = 0x1000 := by decide
  refine ⟨upperMachine_isChain.isTree, by decide, finish, Run.snoc .nil step, member, translated, computed, fun agrees => ?_⟩
  have same : finish.heap.machine.translate 0xFFFF800000001000 = some (virToPhys 0xFFFF800000000000 0xFFFF800000001000) :=
    agrees _ member 0 (by decide)
  rw [translated, computed] at same
  exact absurd same (by decide)

end KeblaOS.Memory
