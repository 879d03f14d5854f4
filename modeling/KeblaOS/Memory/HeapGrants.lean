import KeblaOS.Lib.Run
import KeblaOS.Memory.KernelHeap

/-!
# The two virtual heaps

`kheap_alloc` and `uheap_alloc` move a head through one half of the address space each and call
`vm_alloc` for the pages they pass. The size is rounded up to pages, added to the head for the test of
the limit and again for the end of the loop, all modulo 2^64, and the size of `uheap_alloc` comes from
a system call. A call that wraps around returns an address without a page behind it.
-/

namespace KeblaOS.Memory

/-- The halves of the address space. -/
inductive Half where
  | lower
  | higher
deriving DecidableEq

/-- `LOWER_HALF_START_ADDR` and `HIGHER_HALF_START_ADDR`. -/
def Half.startAddr : Half → UInt64
  | .lower => 0x1000
  | .higher => higherHalfStart

/-- `LOWER_HALF_END_ADDR` and `HIGHER_HALF_END_ADDR`. -/
def Half.endAddr : Half → UInt64
  | .lower => 0x00007FFFFFFFFFFF
  | .higher => 0xFFFFFFFFFFFFFFFF

/-- The first value of `l_va_head` and of `h_va_head`. -/
def Half.firstHead : Half → UInt64
  | .lower => 0x500000 + Half.lower.startAddr
  | .higher => Half.higher.startAddr

/-- What a call has done: the address returned, the pages passed to `vm_alloc`, the page tables and the
head afterwards. -/
structure HeapAnswer where
  va : UInt64
  pages : List UInt64
  machine : Machine
  head : UInt64

/-- The loop of both functions, which takes at most `count` turns. -/
def heapAllocLoop (type : AllocationType) (stop : UInt64) : Nat → Machine → UInt64 → Option (List UInt64 × Machine × UInt64)
  | 0, machine, head => some ([], machine, head)
  | count + 1, machine, head =>
      if head < stop then
        (vmAlloc machine head type).bind fun machine =>
          (heapAllocLoop type stop count machine (head + 4096)).map fun (pages, rest) => (head :: pages, rest)
      else some ([], machine, head)

/-- `kheap_alloc` and `uheap_alloc`, with the end of their half. -/
def heapAlloc (half : Half) (machine : Machine) (head size : UInt64) (type : AllocationType) : Option HeapAnswer :=
  let rounded := pageFloor (size + 0xFFF)
  if half.endAddr < head + rounded then some ⟨0, [], machine, head⟩
  else
    (heapAllocLoop type (head + rounded) (KernelHeap.pageTurns size) machine head).map fun (pages, machine, after) =>
      ⟨head, pages, machine, after + 4096⟩

/-- `uheap_alloc`, with `l_va_head`. -/
def uheapAlloc (machine : Machine) (head size : UInt64) (type : AllocationType) : Option HeapAnswer :=
  heapAlloc .lower machine head size type

/-- The loop of `kheap_alloc` without the record of its pages. -/
theorem kheapAllocLoop_eq_heapAllocLoop (type : AllocationType) (stop : UInt64) (count : Nat) (machine : Machine) (head : UInt64) :
    KernelHeap.kheapAllocLoop type stop count ⟨machine, head⟩ =
      (heapAllocLoop type stop count machine head).map fun (_, machine, head) => ⟨machine, head⟩ := by
  induction count generalizing machine head with
  | zero => rfl
  | succ count ih =>
      rw [KernelHeap.kheapAllocLoop, heapAllocLoop]
      dsimp only
      by_cases below : head < stop
      · rw [if_pos below, if_pos below]
        cases vmAlloc machine head type with
        | none => rfl
        | some machine =>
            show KernelHeap.kheapAllocLoop type stop count ⟨machine, head + 4096⟩ = _
            rw [ih, Option.bind_some, Option.map_map]
            rfl
      · rw [if_neg below, if_neg below]
        rfl

/-- `kheap_alloc` is the function of the higher half. -/
theorem kheapAlloc_eq_heapAlloc (machine : Machine) (head size : UInt64) (type : AllocationType) :
    KernelHeap.kheapAlloc ⟨machine, head⟩ size type =
      (heapAlloc .higher machine head size type).map fun answer => (answer.va, ⟨answer.machine, answer.head⟩) := by
  rw [KernelHeap.kheapAlloc, heapAlloc]
  dsimp only
  rw [kheapAllocLoop_eq_heapAllocLoop, show Half.higher.endAddr = 0xFFFFFFFFFFFFFFFF from rfl]
  by_cases refused : (0xFFFFFFFFFFFFFFFF : UInt64) < head + pageFloor (size + 0xFFF)
  · rw [if_pos refused, if_pos refused]
    rfl
  · rw [if_neg refused, if_neg refused, Option.map_map, Option.map_map]
    rfl

/-! ## Runs of both -/

/-- The bytes from an address on, so many of them; the numbers do not wrap around. -/
def InRange (base size : UInt64) (byte : Nat) : Prop := base.toNat ≤ byte ∧ byte < base.toNat + size.toNat

/-- A call that has returned an address. -/
structure HeapGrant where
  half : Half
  size : UInt64
  answer : HeapAnswer

/-- Every page of the range lies in its half and was passed to `vm_alloc`, and the head is behind it. -/
structure HeapGrant.Served (grant : HeapGrant) : Prop where
  inside : ∀ byte, InRange grant.answer.va grant.size byte →
    grant.half.startAddr.toNat ≤ byte ∧ byte ≤ grant.half.endAddr.toNat
  passed : ∀ byte, InRange grant.answer.va grant.size byte →
    ∃ page ∈ grant.answer.pages, page.toNat = byte / 4096 * 4096
  beyond : grant.answer.va.toNat + grant.size.toNat < grant.answer.head.toNat

/-- The ranges of two grants have no byte in common. -/
def HeapGrant.Apart (grant other : HeapGrant) : Prop :=
  ∀ byte, ¬ (InRange grant.answer.va grant.size byte ∧ InRange other.answer.va other.size byte)

/-- The page tables, the two heads, and all grants, the newest first. -/
structure VirtualHeaps where
  machine : Machine
  heads : Half → UInt64
  grants : List HeapGrant

/-- `kheap_alloc(size, type)` or `uheap_alloc(size, type)`, by the half. -/
structure GrantCall where
  half : Half
  size : UInt64
  type : AllocationType
deriving DecidableEq

/-- A call that does not halt the kernel. -/
def VirtualHeaps.perform (heaps : VirtualHeaps) (call : GrantCall) : Option VirtualHeaps :=
  (heapAlloc call.half heaps.machine (heaps.heads call.half) call.size call.type).map fun answer =>
    { machine := answer.machine
      heads := Function.update heaps.heads call.half answer.head
      grants := if answer.va = 0 then heaps.grants else ⟨call.half, call.size, answer⟩ :: heaps.grants }

def GrantStep (before : VirtualHeaps) (call : GrantCall) (after : VirtualHeaps) : Prop := before.perform call = some after

/-- Before the first call. -/
def VirtualHeaps.boot (machine : Machine) : VirtualHeaps := ⟨machine, Half.firstHead, []⟩

/-- Every grant is served and the grants are apart from each other. -/
structure VirtualHeaps.Sound (heaps : VirtualHeaps) : Prop where
  served : ∀ grant ∈ heaps.grants, grant.Served
  apart : heaps.grants.Pairwise HeapGrant.Apart

/-- The test of the limit refuses the call, or neither the rounding of the size nor the end of its pages
and the padding behind them wraps around. -/
def GrantCall.Fits (call : GrantCall) (heaps : VirtualHeaps) : Prop :=
  call.half.endAddr < heaps.heads call.half + pageFloor (call.size + 0xFFF) ∨
    KernelHeap.Room ⟨heaps.machine, heaps.heads call.half⟩ call.size

instance GrantCall.decidableFits (call : GrantCall) (heaps : VirtualHeaps) : Decidable (call.Fits heaps) :=
  inferInstanceAs (Decidable (_ ∨ _))

/-- A call that fits. -/
structure FittingStep (before : VirtualHeaps) (call : GrantCall) (after : VirtualHeaps) : Prop where
  taken : GrantStep before call after
  fits : call.Fits before

/-! ## The pages passed -/

/-- Nothing is passed when the end is not above the head. -/
theorem heapAllocLoop_of_le {type : AllocationType} {stop head : UInt64} (count : Nat) (machine : Machine)
    (above : stop ≤ head) : heapAllocLoop type stop count machine head = some ([], machine, head) := by
  cases count with
  | zero => rfl
  | succ count => rw [heapAllocLoop, if_neg (UInt64.not_lt.mpr above)]

/-- With the end so many pages above the head, the loop passes these pages. -/
theorem heapAllocLoop_passes {type : AllocationType} {stop head head' : UInt64} {count : Nat} {machine machine' : Machine}
    {pages : List UInt64} (ends : stop.toNat = head.toNat + 4096 * count)
    (looped : heapAllocLoop type stop count machine head = some (pages, machine', head')) :
    head'.toNat = head.toNat + 4096 * count ∧ ∀ i < count, ∃ page ∈ pages, page.toNat = head.toNat + 4096 * i := by
  induction count generalizing machine head pages with
  | zero =>
      obtain ⟨-, -, rfl⟩ := by simpa [heapAllocLoop] using looped
      exact ⟨rfl, fun i below => absurd below (Nat.not_lt_zero i)⟩
  | succ count ih =>
      have bound := stop.toNat_lt
      have next : (head + 4096).toNat = head.toNat + 4096 := by
        simp only [UInt64.toNat_add, UInt64.reduceToNat]
        omega
      rw [heapAllocLoop, if_pos (UInt64.lt_iff_toNat_lt.mpr (by omega))] at looped
      obtain ⟨between, _, looped⟩ := Option.bind_eq_some_iff.mp looped
      obtain ⟨⟨rest, machine'', head''⟩, rested, same⟩ := Option.map_eq_some_iff.mp looped
      obtain ⟨rfl, pair⟩ := Prod.mk.inj same
      obtain ⟨rfl, rfl⟩ := Prod.mk.inj pair
      obtain ⟨end', passed⟩ := ih (by omega) rested
      refine ⟨by omega, fun i below => ?_⟩
      cases i with
      | zero => exact ⟨head, List.mem_cons_self .., rfl⟩
      | succ i =>
          obtain ⟨page, member, place⟩ := passed i (by omega)
          exact ⟨page, List.mem_cons_of_mem _ member, by omega⟩

section Calls

variable {half : Half} {machine : Machine} {head size : UInt64} {type : AllocationType} {answer : HeapAnswer}

/-- A call that is not refused and wraps nowhere has served its range. -/
theorem heapAlloc_served (aligned : head.toNat % 4096 = 0) (start : half.startAddr.toNat ≤ head.toNat)
    (room : KernelHeap.Room ⟨machine, head⟩ size) (taken : ¬ half.endAddr < head + pageFloor (size + 0xFFF))
    (answered : heapAlloc half machine head size type = some answer) :
    HeapGrant.Served ⟨half, size, answer⟩ ∧ answer.va = head ∧ answer.head.toNat % 4096 = 0 := by
  have covered := room.covered
  have fits := room.2
  have rounded := KernelHeap.toNat_rounded size
  dsimp only at fits
  have ends : (head + pageFloor (size + 0xFFF)).toNat = head.toNat + 4096 * KernelHeap.pageTurns size := by
    rw [UInt64.toNat_add, rounded]
    omega
  rw [heapAlloc] at answered
  dsimp only at answered
  rw [if_neg taken] at answered
  obtain ⟨⟨pages, after, head'⟩, looped, rfl⟩ := Option.map_eq_some_iff.mp answered
  obtain ⟨moved, passed⟩ := heapAllocLoop_passes ends looped
  have last : (head' + 4096).toNat = head.toNat + 4096 * KernelHeap.pageTurns size + 4096 := by
    rw [UInt64.toNat_add, moved]
    simp only [UInt64.reduceToNat]
    omega
  rw [UInt64.lt_iff_toNat_lt, ends] at taken
  refine ⟨⟨fun byte range => ?_, fun byte range => ?_, ?_⟩, rfl, by dsimp only; omega⟩
  · obtain ⟨above, below⟩ := range
    dsimp only at above below ⊢
    omega
  · obtain ⟨above, below⟩ := range
    dsimp only at above below ⊢
    obtain ⟨page, member, place⟩ := passed (byte / 4096 - head.toNat / 4096) (by omega)
    exact ⟨page, member, by omega⟩
  · dsimp only
    omega

/-- A call that is not refused and wraps somewhere has not. -/
theorem heapAlloc_not_served (aligned : head.toNat % 4096 = 0)
    (wraps : ¬ KernelHeap.Room ⟨machine, head⟩ size) (taken : ¬ half.endAddr < head + pageFloor (size + 0xFFF))
    (answered : heapAlloc half machine head size type = some answer) :
    ¬ HeapGrant.Served ⟨half, size, answer⟩ ∧ answer.va = head := by
  have rounded := KernelHeap.toNat_rounded size
  have sum : (size + 0xFFF).toNat = (size.toNat + 4095) % 18446744073709551616 := UInt64.toNat_add _ _
  have floor := toNat_pageFloor (size + 0xFFF)
  have bound := head.toNat_lt
  have bound' := size.toNat_lt
  have ends : (head + pageFloor (size + 0xFFF)).toNat =
      (head.toNat + 4096 * KernelHeap.pageTurns size) % 18446744073709551616 := by
    rw [UInt64.toNat_add, rounded]
  rw [heapAlloc] at answered
  dsimp only at answered
  rw [if_neg taken] at answered
  obtain ⟨⟨pages, after, head'⟩, looped, rfl⟩ := Option.map_eq_some_iff.mp answered
  refine ⟨fun served => ?_, rfl⟩
  by_cases whole : head.toNat + 4096 * KernelHeap.pageTurns size < 18446744073709551616 ∧
      size.toNat + 4095 < 18446744073709551616
  · -- only the padding wraps: the head is 0
    obtain ⟨moved, _⟩ := heapAllocLoop_passes (by omega) looped
    have last : (head' + 4096).toNat = (head'.toNat + 4096) % 18446744073709551616 := UInt64.toNat_add _ _
    have beyond := served.beyond
    have close : ¬ head.toNat + 4096 * KernelHeap.pageTurns size + 4096 < 18446744073709551616 := fun small =>
      wraps ⟨whole.2, small⟩
    dsimp only at beyond
    omega
  · -- the end of the loop is not above the head, and no page is passed
    have none : (head + pageFloor (size + 0xFFF)) ≤ head := by
      rw [UInt64.le_iff_toNat_le, ends]
      omega
    rw [heapAllocLoop_of_le _ _ none] at looped
    obtain ⟨rfl, -⟩ := Prod.mk.inj (Option.some.inj looped)
    obtain ⟨page, member, _⟩ := served.passed head.toNat ⟨Nat.le_refl _, by dsimp only; omega⟩
    exact absurd member (List.not_mem_nil)

end Calls

/-! ## The invariant -/

/-- What holds between calls that fit: besides, the heads are aligned, stay in their half and lie behind
the grants of it. -/
structure HeadsBehind (heaps : VirtualHeaps) : Prop where
  sound : heaps.Sound
  aligned : ∀ half, (heaps.heads half).toNat % 4096 = 0
  start : ∀ half : Half, half.startAddr.toNat ≤ (heaps.heads half).toNat
  behind : ∀ grant ∈ heaps.grants, grant.answer.va.toNat + grant.size.toNat < (heaps.heads grant.half).toNat

theorem Half.startAddr_pos (half : Half) : 0 < half.startAddr.toNat := by
  cases half <;> decide

theorem Half.firstHead_aligned (half : Half) : half.firstHead.toNat % 4096 = 0 := by
  cases half <;> decide

theorem Half.startAddr_le_firstHead (half : Half) : half.startAddr.toNat ≤ half.firstHead.toNat := by
  cases half <;> decide

theorem HeadsBehind.boot (machine : Machine) : HeadsBehind (VirtualHeaps.boot machine) where
  sound := ⟨fun _ member => absurd member List.not_mem_nil, .nil⟩
  aligned := Half.firstHead_aligned
  start := Half.startAddr_le_firstHead
  behind _ member := absurd member List.not_mem_nil

section Steps

variable {before after : VirtualHeaps} {call : GrantCall}

/-- The halves have no byte in common. -/
theorem HeapGrant.Served.apart_of_ne {grant other : HeapGrant} (served : grant.Served) (served' : other.Served)
    (different : grant.half ≠ other.half) : grant.Apart other := by
  rintro byte ⟨here, there⟩
  have inside := served.inside byte here
  have inside' := served'.inside byte there
  have gap : Half.lower.endAddr.toNat < Half.higher.startAddr.toNat := by decide
  cases first : grant.half with
  | lower =>
      cases second : other.half with
      | lower => exact different (first.trans second.symm)
      | higher =>
          rw [first] at inside
          rw [second] at inside'
          omega
  | higher =>
      cases second : other.half with
      | lower =>
          rw [first] at inside
          rw [second] at inside'
          omega
      | higher => exact different (first.trans second.symm)

theorem HeadsBehind.head_ne_zero (holds : HeadsBehind before) (half : Half) : before.heads half ≠ 0 := by
  intro zero
  have start := holds.start half
  rw [zero] at start
  exact absurd half.startAddr_pos (Nat.not_lt.mpr start)

theorem HeadsBehind.step (holds : HeadsBehind before) (step : FittingStep before call after) : HeadsBehind after := by
  obtain ⟨answer, answered, rfl⟩ := Option.map_eq_some_iff.mp step.taken
  by_cases refused : call.half.endAddr < before.heads call.half + pageFloor (call.size + 0xFFF)
  · rw [heapAlloc] at answered
    dsimp only at answered
    rw [if_pos refused] at answered
    obtain rfl := Option.some.inj answered
    rw [if_pos rfl, Function.update_eq_self]
    exact ⟨⟨holds.sound.served, holds.sound.apart⟩, holds.aligned, holds.start, holds.behind⟩
  · have room := step.fits.resolve_left refused
    have start := holds.start call.half
    obtain ⟨served, place, aligned⟩ := heapAlloc_served (holds.aligned call.half) start room refused answered
    have beyond := served.beyond
    dsimp only at beyond
    rw [place] at beyond
    rw [if_neg (place ▸ holds.head_ne_zero call.half)]
    refine ⟨⟨fun grant member => ?_, List.pairwise_cons.mpr ⟨fun other member => ?_, holds.sound.apart⟩⟩,
      fun half => ?_, fun half => ?_, fun grant member => ?_⟩
    · rcases List.mem_cons.mp member with rfl | earlier
      · exact served
      · exact holds.sound.served grant earlier
    · by_cases same : call.half = other.half
      · rintro byte ⟨here, there⟩
        have behind := holds.behind other member
        have above := here.1
        have below := there.2
        dsimp only at above
        rw [← same] at behind
        rw [place] at above
        omega
      · exact served.apart_of_ne (holds.sound.served other member) same
    · dsimp only
      by_cases same : half = call.half
      · rw [same, Function.update_self]
        exact aligned
      · rw [Function.update_of_ne same]
        exact holds.aligned half
    · dsimp only
      by_cases same : half = call.half
      · rw [same, Function.update_self]
        omega
      · rw [Function.update_of_ne same]
        exact holds.start half
    · dsimp only
      rcases List.mem_cons.mp member with rfl | earlier
      · rw [Function.update_self]
        exact served.beyond
      · have behind := holds.behind grant earlier
        by_cases same : grant.half = call.half
        · rw [same] at behind ⊢
          rw [Function.update_self]
          omega
        · rwa [Function.update_of_ne same]

/-- After a call that does not fit a grant is not served. -/
theorem HeadsBehind.not_sound (holds : HeadsBehind before) (step : GrantStep before call after)
    (misfit : ¬ call.Fits before) : ¬ after.Sound := by
  intro sound
  obtain ⟨taken, wraps⟩ := not_or.mp misfit
  obtain ⟨answer, answered, rfl⟩ := Option.map_eq_some_iff.mp step
  obtain ⟨unserved, place⟩ := heapAlloc_not_served (holds.aligned call.half) wraps taken answered
  refine unserved (sound.served _ ?_)
  rw [if_neg (place ▸ holds.head_ne_zero call.half)]
  exact List.mem_cons_self ..

end Steps

/-- In every run of calls that fit all grants are served and apart, and the first call that does not fit
breaks this. -/
theorem virtualHeaps_run_sound {machine : Machine} {calls : List GrantCall} {heaps : VirtualHeaps}
    (run : Run FittingStep (VirtualHeaps.boot machine) calls heaps) :
    heaps.Sound ∧ ∀ {call after}, GrantStep heaps call after → (after.Sound ↔ call.Fits heaps) := by
  have holds := run.invariant HeadsBehind (HeadsBehind.boot machine) fun holds step => holds.step step
  refine ⟨holds.sound, fun {call after} step => ⟨fun sound => ?_, fun fits => (holds.step ⟨step, fits⟩).sound⟩⟩
  by_contra misfit
  exact holds.not_sound step misfit sound

/-- A page for a user and one for the kernel. -/
theorem virtualHeaps_run_sound_pages :
    ∃ heaps, Run FittingStep (VirtualHeaps.boot pagedMachine) [⟨.lower, 0x1000, .data⟩, ⟨.higher, 0x800, .data⟩] heaps ∧
      heaps.grants.map (fun grant => grant.answer.va) = [0xFFFF800000001000, 0x501000] ∧ heaps.Sound := by
  let start := VirtualHeaps.boot pagedMachine
  let middle := (start.perform ⟨.lower, 0x1000, .data⟩).getD start
  let finish := (middle.perform ⟨.higher, 0x800, .data⟩).getD start
  have first : FittingStep start ⟨.lower, 0x1000, .data⟩ middle :=
    ⟨eq_some_getD_of_isSome _ (by decide +kernel), by decide +kernel⟩
  have second : FittingStep middle ⟨.higher, 0x800, .data⟩ finish :=
    ⟨eq_some_getD_of_isSome _ (by decide +kernel), by decide +kernel⟩
  have run : Run FittingStep start [⟨.lower, 0x1000, .data⟩, ⟨.higher, 0x800, .data⟩] finish :=
    Run.snoc (Run.snoc .nil first) second
  exact ⟨finish, run, by decide +kernel, (virtualHeaps_run_sound run).1⟩

/-- `uheap_alloc` of 2^64 - 1 bytes returns the head and passes no page. -/
theorem uheapAlloc_wraps :
    ∃ heaps, Run GrantStep (VirtualHeaps.boot pagedMachine) [⟨.lower, 0xFFFFFFFFFFFFFFFF, .data⟩] heaps ∧
      heaps.grants.map (fun grant => (grant.answer.va, grant.answer.pages)) = [(0x501000, [])] ∧ ¬ heaps.Sound := by
  let start := VirtualHeaps.boot pagedMachine
  let finish := (start.perform ⟨.lower, 0xFFFFFFFFFFFFFFFF, .data⟩).getD start
  have step : GrantStep start ⟨.lower, 0xFFFFFFFFFFFFFFFF, .data⟩ finish := eq_some_getD_of_isSome _ (by decide +kernel)
  exact ⟨finish, Run.snoc .nil step, by decide +kernel,
    (HeadsBehind.boot pagedMachine).not_sound step (by decide +kernel)⟩

end KeblaOS.Memory
