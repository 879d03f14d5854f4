import KeblaOS.Lib.Run
import KeblaOS.Memory.FrameSearch

/-!
# Ranges handed out by the two allocators

The bump allocator and the frame bitmap serve the same physical memory. The blocks of the
bump allocator are disjoint because its head only moves up: every block handed out ends at
or below the head (`BelowHead`). That needs the 64-bit sums not to wrap around, and it says
nothing about `kmalloc_p`, which returns memory above the head without moving it, and about
the frames: nothing keeps the lowest free frame out of the blocks, nor the head out of the
frames.
-/

namespace KeblaOS.Memory

/-- A range of physical bytes. -/
structure Range where
  base : Nat
  size : Nat
deriving DecidableEq

def Range.Disjoint (left right : Range) : Prop :=
  ∀ byte, left.base ≤ byte → byte < left.base + left.size →
    ¬ (right.base ≤ byte ∧ byte < right.base + right.size)

theorem Range.Disjoint.symm {left right : Range} (disjoint : left.Disjoint right) : right.Disjoint left :=
  fun byte low high inside => disjoint byte inside.1 inside.2 ⟨low, high⟩

/-- One range ends before the other one starts. -/
theorem Range.Disjoint.of_le {left right : Range}
    (apart : left.base + left.size ≤ right.base ∨ right.base + right.size ≤ left.base) : left.Disjoint right := by
  intro byte low high inside
  omega

/-- Calls that hand out memory. -/
inductive MemoryCall where
  | kmalloc (sz : UInt64)
  | kmallocA (sz : UInt64) (align : Int)
  | kmallocP (sz : UInt64)
  | kmallocAp (sz : UInt64) (align : Int)
  | kmallocAligned (sz alignment : UInt64)
  | allocFrame (page : Entry) (user isWriteable : Bool)

/-- The calls that return memory at the head and move the head behind it. -/
def MemoryCall.MovesHead : MemoryCall → Bool
  | .kmalloc _ | .kmallocA _ _ | .kmallocAp _ _ | .kmallocAligned _ _ => true
  | .kmallocP _ | .allocFrame _ _ _ => false

/-- The memory manager, the blocks it has handed out at the head, and the frames and blocks of
`kmalloc_p`. -/
structure Handed where
  pmm : Pmm
  blocks : List Range
  others : List Range

/-- All ranges handed out. -/
def Handed.ranges (handed : Handed) : List Range := handed.blocks ++ handed.others

/-- One more range handed out. -/
def Handed.give (handed : Handed) (call : MemoryCall) (range : Range) (pmm : Pmm) : Handed :=
  if call.MovesHead then ⟨pmm, range :: handed.blocks, handed.others⟩
  else ⟨pmm, handed.blocks, range :: handed.others⟩

/-- The range of a successful call and the state afterwards. -/
def Pmm.handOut (pmm : Pmm) : MemoryCall → Option (Range × Pmm)
  | .kmalloc sz =>
      let (ptr, pmm) := Memory.kmalloc pmm sz
      if ptr = 0 then none else some (⟨ptr.toNat, sz.toNat⟩, pmm)
  | .kmallocA sz align =>
      let (ptr, pmm) := Memory.kmallocA pmm sz align
      if ptr = 0 then none else some (⟨ptr.toNat, sz.toNat⟩, pmm)
  | .kmallocP sz =>
      let ptr := (Memory.kmallocP pmm sz).1
      if ptr = 0 then none else some (⟨ptr.toNat, sz.toNat⟩, pmm)
  | .kmallocAp sz align =>
      let (ptr, pmm) := Memory.kmallocAp pmm sz align
      if ptr = 0 then none else some (⟨ptr.toNat, sz.toNat⟩, pmm)
  | .kmallocAligned sz alignment =>
      let (ptr, pmm) := Memory.kmallocAligned pmm sz alignment
      if ptr = 0 then none else some (⟨ptr.toNat, sz.toNat⟩, pmm)
  | .allocFrame page user isWriteable =>
      (Memory.allocFrame pmm page user isWriteable).map fun (page, pmm) =>
        (⟨(page.frame <<< 12).toNat, 4096⟩, pmm)

/-- A successful call. -/
def HandOutStep (before : Handed) (call : MemoryCall) (after : Handed) : Prop :=
  ∃ range pmm, before.pmm.handOut call = some (range, pmm) ∧ after = before.give call range pmm

/-- No 64-bit sum of the call wraps around, so that the head does not move back. -/
def MemoryCall.Advances (pmm : Pmm) : MemoryCall → Prop
  | .kmalloc sz | .kmallocP sz => pmm.physMemHead.toNat + sz.toNat < 18446744073709551616
  | .kmallocA sz align | .kmallocAp sz align =>
      (pmm.physMemHead &&& 0xFFFFFFFFFFFFF000).toNat + 4096 < 18446744073709551616 ∧
        (pageAlignedHead pmm.physMemHead align).toNat + sz.toNat < 18446744073709551616
  | .kmallocAligned sz alignment =>
      alignment ≠ 0 ∧ pmm.physMemHead.toNat + alignment.toNat ≤ 18446744073709551616 ∧
        (alignedHead pmm.physMemHead alignment).toNat + sz.toNat < 18446744073709551616
  | .allocFrame _ _ _ => pmm.physMemHead.toNat + 4096 < 18446744073709551616

instance (pmm : Pmm) : (call : MemoryCall) → Decidable (call.Advances pmm)
  | .kmalloc _ | .kmallocP _ | .allocFrame _ _ _ => inferInstanceAs (Decidable (_ < _))
  | .kmallocA _ _ | .kmallocAp _ _ => inferInstanceAs (Decidable (_ ∧ _))
  | .kmallocAligned _ _ => inferInstanceAs (Decidable (_ ∧ _ ∧ _))

/-- Where the call finds its memory: at the (aligned) head, behind it, or in the lowest free frame. -/
def MemoryCall.place (pmm : Pmm) : MemoryCall → Option Range
  | .kmalloc sz => some ⟨pmm.physMemHead.toNat, sz.toNat⟩
  | .kmallocA sz align | .kmallocAp sz align => some ⟨(pageAlignedHead pmm.physMemHead align).toNat, sz.toNat⟩
  | .kmallocAligned sz alignment => some ⟨(alignedHead pmm.physMemHead alignment).toNat, sz.toNat⟩
  | .kmallocP sz => some ⟨(pmm.physMemHead + sz).toNat, sz.toNat⟩
  | .allocFrame _ _ _ => (freeFrameBitNo pmm).map fun bitNo => ⟨(frameAddress pmm bitNo).toNat, 4096⟩

/-- What a call may run into: a frame any range handed out, a block at or behind the head the frames and
the blocks of `kmalloc_p`. -/
def Handed.rivals (handed : Handed) : MemoryCall → List Range
  | .allocFrame _ _ _ => handed.ranges
  | .kmalloc _ | .kmallocA _ _ | .kmallocP _ | .kmallocAp _ _ | .kmallocAligned _ _ => handed.others

/-- The memory that the call finds lies apart from these. -/
def MemoryCall.Apart (handed : Handed) (call : MemoryCall) : Prop :=
  ∀ range, call.place handed.pmm = some range → ∀ other ∈ handed.rivals call, range.Disjoint other

/-- A successful call that keeps the head and the frames apart. -/
def ApartHandOut (before : Handed) (call : MemoryCall) (after : Handed) : Prop :=
  call.Advances before.pmm ∧ call.Apart before ∧ HandOutStep before call after

/-- The ranges are disjoint, and the blocks end at or below the head. -/
structure BelowHead (handed : Handed) : Prop where
  below : ∀ range ∈ handed.blocks, range.base + range.size ≤ handed.pmm.physMemHead.toNat
  disjoint : handed.ranges.Pairwise Range.Disjoint

/-! ## Moving the head -/

/-- A word is what is left when some bits are cleared, and these bits. -/
theorem toNat_clear_add (word mask : UInt64) : (word &&& ~~~mask).toNat + (word &&& mask).toNat = word.toNat := by
  have apart : (word.toBitVec &&& ~~~mask.toBitVec) &&& (word.toBitVec &&& mask.toBitVec) = 0#64 := by
    ext i bounded
    simp
    grind
  have joined : (word.toBitVec &&& ~~~mask.toBitVec) ||| (word.toBitVec &&& mask.toBitVec) =
      word.toBitVec := by
    ext i bounded
    simp
    grind
  have sum := BitVec.toNat_add_of_and_eq_zero apart
  rw [BitVec.add_eq_or_of_and_eq_zero _ _ apart, joined] at sum
  exact sum.symm

/-- Clearing bits of a word takes away at most the bits cleared. -/
theorem le_clear_add (word mask : UInt64) : word.toNat ≤ (word &&& ~~~mask).toNat + mask.toNat := by
  have sum := toNat_clear_add word mask
  have part : (word &&& mask).toNat ≤ mask.toNat := by
    rw [UInt64.toNat_and]
    exact Nat.and_le_right
  omega

theorem toNat_add_of_lt {left right : UInt64} (fits : left.toNat + right.toNat < 18446744073709551616) :
    (left + right).toNat = left.toNat + right.toNat := by
  rw [UInt64.toNat_add]
  exact Nat.mod_eq_of_lt fits

/-- Page alignment does not move the head back. -/
theorem le_pageAlignedHead {head : UInt64} (align : Int)
    (fits : (head &&& 0xFFFFFFFFFFFFF000).toNat + 4096 < 18446744073709551616) :
    head.toNat ≤ (pageAlignedHead head align).toNat := by
  unfold pageAlignedHead
  split_ifs with unaligned
  · have lost := le_clear_add head 0xFFF
    have mask : ~~~(0xFFF : UInt64) = 0xFFFFFFFFFFFFF000 := by decide
    rw [mask] at lost
    rw [toNat_add_of_lt fits]
    have page : frameSize.toNat = 4096 := rfl
    have bits : (0xFFF : UInt64).toNat = 4095 := rfl
    omega
  · exact Nat.le_refl _

/-- Neither does alignment to any other non-zero value. -/
theorem le_alignedHead {head alignment : UInt64} (nonzero : alignment ≠ 0)
    (fits : head.toNat + alignment.toNat ≤ 18446744073709551616) :
    head.toNat ≤ (alignedHead head alignment).toNat := by
  unfold alignedHead
  split_ifs with unaligned
  · have positive : 0 < alignment.toNat := by
      rcases Nat.eq_zero_or_pos alignment.toNat with zero | positive
      · exact absurd (UInt64.toNat_inj.mp zero) nonzero
      · exact positive
    have mask : (alignment - 1).toNat = alignment.toNat - 1 := by
      rw [UInt64.toNat_sub_of_le]
      · rfl
      · rw [UInt64.le_iff_toNat_le]
        exact positive
    have regroup : head + alignment - 1 = head + (alignment - 1) := by
      rw [UInt64.sub_eq_add_neg, UInt64.add_assoc, ← UInt64.sub_eq_add_neg]
    have raised : (head + (alignment - 1)).toNat = head.toNat + (alignment.toNat - 1) := by
      rw [toNat_add_of_lt (by omega), mask]
    have lost := le_clear_add (head + (alignment - 1)) (alignment - 1)
    rw [regroup]
    omega
  · exact Nat.le_refl _

/-- The common end of the bump allocators: the block starts at the (aligned) head. -/
theorem placed_at {pmm after : Pmm} {head sz : UInt64} {range : Range}
    (fits : head.toNat + sz.toNat < 18446744073709551616)
    (returned : (if head = 0 then none
      else some ((⟨head.toNat, sz.toNat⟩ : Range), { pmm with physMemHead := head + sz })) =
        some (range, after)) :
    range = ⟨head.toNat, sz.toNat⟩ ∧ after.physMemHead.toNat = range.base + range.size := by
  split_ifs at returned with null
  obtain ⟨rfl, rfl⟩ := Prod.mk.inj (Option.some.inj returned)
  exact ⟨rfl, toNat_add_of_lt fits⟩

/-- What a call does that does not wrap around: its range is where it finds its memory, and the head does
not move back; the blocks at the head come after everything below, and end at the new head. -/
structure Advanced (pmm after : Pmm) (call : MemoryCall) (range : Range) : Prop where
  place : call.place pmm = some range
  up : pmm.physMemHead.toNat ≤ after.physMemHead.toNat
  above : call.MovesHead = true → pmm.physMemHead.toNat ≤ range.base ∧ range.base + range.size ≤ after.physMemHead.toNat

/-- A block at the head. -/
theorem Advanced.of_block {pmm after : Pmm} {call : MemoryCall} {range : Range} {head sz : UInt64}
    (place : call.place pmm = some ⟨head.toNat, sz.toNat⟩) (moved : pmm.physMemHead.toNat ≤ head.toNat)
    (block : range = ⟨head.toNat, sz.toNat⟩ ∧ after.physMemHead.toNat = range.base + range.size) :
    Advanced pmm after call range := by
  obtain ⟨rfl, stop⟩ := block
  refine ⟨place, ?_, fun _ => ⟨moved, Nat.le_of_eq stop.symm⟩⟩
  rw [stop]
  exact Nat.le_add_right_of_le moved

theorem MemoryCall.Advances.handOut {pmm after : Pmm} {call : MemoryCall} {range : Range}
    (advances : call.Advances pmm) (returned : pmm.handOut call = some (range, after)) :
    Advanced pmm after call range := by
  cases call with
  | kmalloc sz =>
      unfold Pmm.handOut Memory.kmalloc at returned
      split_ifs at returned with full
      · simp at returned
      · exact .of_block rfl (Nat.le_refl _) (placed_at advances returned)
  | kmallocA sz align =>
      obtain ⟨rounds, fits⟩ := advances
      unfold Pmm.handOut Memory.kmallocA at returned
      split_ifs at returned with full
      · simp at returned
      · exact .of_block rfl (le_pageAlignedHead align rounds) (placed_at fits returned)
  | kmallocP sz =>
      unfold Pmm.handOut Memory.kmallocP at returned
      dsimp only at returned
      split_ifs at returned with null
      obtain ⟨rfl, rfl⟩ := Prod.mk.inj (Option.some.inj returned)
      exact ⟨rfl, Nat.le_refl _, fun moves => by cases moves⟩
  | kmallocAp sz align =>
      obtain ⟨rounds, fits⟩ := advances
      unfold Pmm.handOut Memory.kmallocAp at returned
      by_cases full : pmm.usableEnd ≤ pageAlignedHead pmm.physMemHead align
      · simp [full] at returned
      · simp only [full, if_false] at returned
        exact .of_block rfl (le_pageAlignedHead align rounds) (placed_at fits returned)
  | kmallocAligned sz alignment =>
      obtain ⟨nonzero, rounds, fits⟩ := advances
      unfold Pmm.handOut Memory.kmallocAligned at returned
      split_ifs at returned with full
      · simp at returned
      · exact .of_block rfl (le_alignedHead nonzero rounds) (placed_at fits returned)
  | allocFrame page user isWriteable =>
      unfold Pmm.handOut at returned
      obtain ⟨⟨entry, marked⟩, allocated, pair⟩ := Option.map_eq_some_iff.mp returned
      obtain ⟨rfl, rfl⟩ := Prod.mk.inj pair
      rw [allocFrame_eq] at allocated
      obtain ⟨bitNo, found, rest⟩ := Option.bind_eq_some_iff.mp allocated
      obtain ⟨pmm', set, pair⟩ := Option.map_eq_some_iff.mp rest
      obtain ⟨rfl, rfl⟩ := Prod.mk.inj pair
      unfold setFrame at set
      split_ifs at set
      obtain rfl := Option.some.inj set
      refine ⟨?_, ?_, fun moves => by cases moves⟩
      · rw [MemoryCall.place, found]
        rfl
      · have up : (pmm.physMemHead + frameSize).toNat = pmm.physMemHead.toNat + 4096 := toNat_add_of_lt advances
        dsimp only
        rw [up]
        exact Nat.le_add_right _ _

/-! ## Runs -/

theorem pairwise_disjoint_iff {blocks others : List Range} :
    (blocks ++ others).Pairwise Range.Disjoint ↔ blocks.Pairwise Range.Disjoint ∧ others.Pairwise Range.Disjoint ∧
      ∀ block ∈ blocks, ∀ other ∈ others, block.Disjoint other := List.pairwise_append

theorem BelowHead.step {before after : Handed} {call : MemoryCall} (below : BelowHead before)
    (step : ApartHandOut before call after) : BelowHead after := by
  obtain ⟨advances, apart, range, pmm, returned, rfl⟩ := step
  obtain ⟨place, up, above⟩ := advances.handOut returned
  have old := below.below
  obtain ⟨blocks, others, between⟩ := pairwise_disjoint_iff.mp below.disjoint
  have fresh := apart range place
  unfold Handed.give
  by_cases moves : call.MovesHead = true
  · -- a block at the head is above the old blocks, and apart from the rest
    rw [if_pos moves]
    obtain ⟨start, stop⟩ := above moves
    have free : ∀ other ∈ before.others, range.Disjoint other := by
      cases call with
      | allocFrame _ _ _ => cases moves
      | _ => exact fresh
    refine ⟨fun other member => ?_, pairwise_disjoint_iff.mpr ⟨List.pairwise_cons.mpr ⟨fun other member => ?_, blocks⟩,
      others, fun block member => ?_⟩⟩
    · rcases List.mem_cons.mp member with rfl | earlier
      · exact stop
      · exact Nat.le_trans (old other earlier) up
    · exact .of_le (.inr (Nat.le_trans (old other member) start))
    · rcases List.mem_cons.mp member with rfl | earlier
      · exact free
      · exact between block earlier
  · rw [if_neg moves]
    have free : ∀ other ∈ before.ranges, range.Disjoint other := by
      cases call with
      | allocFrame _ _ _ => exact fresh
      | kmallocP sz =>
          intro other member
          rcases List.mem_append.mp member with block | loose
          · have base := congrArg Range.base (Option.some.inj place)
            have behind : (before.pmm.physMemHead + sz).toNat = before.pmm.physMemHead.toNat + sz.toNat :=
              toNat_add_of_lt advances
            dsimp only at base
            have earlier := old other block
            exact .of_le (.inr (by omega))
          · exact fresh other loose
      | _ => exact absurd rfl moves
    refine ⟨fun other member => Nat.le_trans (old other member) up, pairwise_disjoint_iff.mpr ⟨blocks,
      List.pairwise_cons.mpr ⟨fun other member => free other (List.mem_append_right _ member), others⟩,
      fun block member other member' => ?_⟩⟩
    rcases List.mem_cons.mp member' with rfl | earlier
    · exact (free block (List.mem_append_left _ member)).symm
    · exact between block member other earlier

/-- Sixteen frames of usable memory from 1 MiB on, as the memory map leaves them. -/
def bootPmm : Pmm where
  usableStart := 0x100000
  usableEnd := 0x110000
  usableLength := 0x10000
  physMemHead := 0x100000
  frames := 0
  nframes := 0
  bitmap _ := 0

end KeblaOS.Memory
