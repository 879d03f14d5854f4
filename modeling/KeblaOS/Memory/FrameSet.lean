import Mathlib.Data.Finset.Erase
import Mathlib.Data.Finset.Filter
import Mathlib.Data.Finset.Range
import Mathlib.Data.Nat.Find
import KeblaOS.Memory.Frames

/-!
# The bitmap as a set of frames

`set_frame`, `clear_frame`, `test_frame` and `free_frame_bit_no` are meant as operations on a
finite set of frame numbers, and `free_frame` as taking the frame of a page out of it. `set_frame`
shifts an `int`, which is right for the lower half of a word only; `free_frame_bit_no` asserts what
does not hold when all frames are in use; and every address below the managed memory stands for
frame 0.
-/

namespace KeblaOS.Memory

/-- The frames in use. -/
def usedFrames (pmm : Pmm) : Finset Nat := (Finset.range pmm.nframes.toNat).filter fun bitNo => frameBit pmm bitNo = true

section Tests

variable {pmm after : Pmm} {bitNo other : UInt64}

theorem testFrame_eq (below : bitNo < pmm.nframes) :
    testFrame pmm bitNo = some (pmm.bitmap (bitNo.toNat / 64) &&& ((1 : UInt64) <<< (bitNo % bitmapSize))) := by
  have quotient : (bitNo / bitmapSize).toNat = bitNo.toNat / 64 := UInt64.toNat_div _ _
  rw [testFrame, if_pos below]
  dsimp only
  rw [quotient]

theorem toNat_offset_lt (bitNo : UInt64) : (bitNo % bitmapSize).toNat = bitNo.toNat % 64 ∧ bitNo.toNat % 64 < 64 :=
  ⟨UInt64.toNat_mod _ _, Nat.mod_lt _ (by decide)⟩

/-- `test_frame` is zero for a clear bit. -/
theorem testFrame_eq_zero_iff (below : bitNo < pmm.nframes) :
    testFrame pmm bitNo = some 0 ↔ frameBit pmm bitNo.toNat = false := by
  obtain ⟨position, low⟩ := toNat_offset_lt bitNo
  rw [testFrame_eq below, Option.some.injEq, and_shiftLeft_eq_zero_iff (by omega), position, frameBit]

/-- Equal bits are tested with equal results. -/
theorem testFrame_congr_iff (nframes : after.nframes = pmm.nframes) (below : bitNo < pmm.nframes) :
    testFrame after bitNo = testFrame pmm bitNo ↔ frameBit after bitNo.toNat = frameBit pmm bitNo.toNat := by
  have below' : bitNo < after.nframes := by rwa [nframes]
  have zero := @testFrame_eq_zero_iff pmm bitNo below
  have zero' := @testFrame_eq_zero_iff after bitNo below'
  constructor
  · intro same
    rw [same, zero] at zero'
    cases before : frameBit pmm bitNo.toNat with
    | false => exact zero'.mp before
    | true => simpa [before] using zero'
  · intro same
    obtain ⟨position, low⟩ := toNat_offset_lt bitNo
    rw [testFrame_eq below, testFrame_eq below', Option.some.injEq]
    apply UInt64.toNat_inj.mp
    apply Nat.eq_of_testBit_eq
    intro i
    rw [UInt64.toNat_and, UInt64.toNat_and, Nat.testBit_and, Nat.testBit_and, testBit_one_shiftLeft (by omega)]
    by_cases here : i = (bitNo % bitmapSize).toNat
    · rw [here, position, ← frameBit, ← frameBit, same]
    · rw [decide_eq_false here, Bool.and_false, Bool.and_false]

end Tests

/-! ## Setting and clearing a frame -/

/-- A frame was put into the set, and `test_frame` says so. -/
structure FrameAdded (before after : Pmm) (bitNo : UInt64) : Prop where
  tested : ∃ word, testFrame after bitNo = some word ∧ word ≠ 0
  others : ∀ other < before.nframes, other ≠ bitNo → testFrame after other = testFrame before other
  used : usedFrames after = insert bitNo.toNat (usedFrames before)

/-- A frame was taken out of the set, and `test_frame` says so. -/
structure FrameRemoved (before after : Pmm) (bitNo : UInt64) : Prop where
  tested : testFrame after bitNo = some 0
  others : ∀ other < before.nframes, other ≠ bitNo → testFrame after other = testFrame before other
  used : usedFrames after = (usedFrames before).erase bitNo.toNat

/-- `set_frame` and `clear_frame` put a frame into the set and take it out. -/
structure ActsOnSet (pmm : Pmm) (bitNo : UInt64) : Prop where
  set : ∃ after, setFrame pmm bitNo = some after ∧ FrameAdded pmm after bitNo
  clear : ∃ after, clearFrame pmm bitNo = some after ∧ FrameRemoved pmm after bitNo

/-- The shifted `int` sets no bit that is clear besides the one of the frame: up to position 30 of a
word it has this bit alone, at position 31 also those above, and from position 32 on the bits of the
position 32 below. -/
def ShiftHarmless (pmm : Pmm) (bitNo : Nat) : Prop :=
  bitNo % 64 < 31 ∨
    bitNo % 64 = 31 ∧ (∀ k < pmm.nframes.toNat, bitNo < k → k ≤ bitNo + 32 → frameBit pmm k = true) ∨
    32 ≤ bitNo % 64 ∧ bitNo % 64 < 63 ∧ frameBit pmm bitNo = true ∧ frameBit pmm (bitNo - 32) = true ∨
    bitNo % 64 = 63 ∧ ∀ k < bitNo, bitNo ≤ k + 32 → frameBit pmm k = true

section Acting

variable {pmm after : Pmm} {bitNo : UInt64}

/-- The bits of the shifted `int`. -/
theorem testBit_shiftedInt : ∀ off < 64, ∀ i < 64, (intOneShifted (UInt64.ofNat off)).toNat.testBit i =
    if off % 32 = 31 then decide (31 ≤ i) else decide (i = off % 32) := by
  decide +kernel

/-- The bits after `set_frame`. -/
theorem frameBit_setFrame_eq (set : setFrame pmm bitNo = some after) (other : Nat) :
    frameBit after other = (frameBit pmm other || (decide (other / 64 = bitNo.toNat / 64) &&
      if bitNo.toNat % 32 = 31 then decide (31 ≤ other % 64) else decide (other % 64 = bitNo.toNat % 32))) := by
  have quotient : (bitNo / bitmapSize).toNat = bitNo.toNat / 64 := UInt64.toNat_div _ _
  obtain ⟨position, low⟩ := toNat_offset_lt bitNo
  have bits := testBit_shiftedInt (bitNo.toNat % 64) low (other % 64) (Nat.mod_lt _ (by decide))
  rw [← position, UInt64.ofNat_toNat, position, Nat.mod_mod_of_dvd _ (by decide)] at bits
  unfold setFrame at set
  split_ifs at set
  obtain rfl := Option.some.inj set
  rw [frameBit_update _ other rfl, quotient]
  by_cases word : other / 64 = bitNo.toNat / 64
  · rw [if_pos word, UInt64.toNat_or, Nat.testBit_or, bits, ← word, decide_eq_true rfl, Bool.true_and, frameBit]
  · rw [if_neg word, decide_eq_false word, Bool.false_and, Bool.or_false]

/-- The operations through the bits of the frames. -/
theorem frameAdded_iff (nframes : after.nframes = pmm.nframes) (below : bitNo < pmm.nframes) :
    FrameAdded pmm after bitNo ↔
      ∀ other < pmm.nframes.toNat, frameBit after other = (frameBit pmm other || decide (other = bitNo.toNat)) := by
  have below' : bitNo < after.nframes := by rwa [nframes]
  have inside := UInt64.lt_iff_toNat_lt.mp below
  constructor
  · intro added other low
    have member : other ∈ usedFrames after ↔ other ∈ insert bitNo.toNat (usedFrames pmm) := by rw [added.used]
    simp only [usedFrames, Finset.mem_insert, Finset.mem_filter, Finset.mem_range, nframes, low, true_and] at member
    rw [Bool.eq_iff_iff, member, Bool.or_eq_true, decide_eq_true_iff]
    exact or_comm
  · intro bits
    refine ⟨?_, fun other low different => ?_, ?_⟩
    · refine ⟨_, testFrame_eq below', fun zero => ?_⟩
      have clear := (testFrame_eq_zero_iff below').mp ((testFrame_eq below').trans (congrArg some zero))
      rw [bits _ inside, decide_eq_true rfl, Bool.or_true] at clear
      exact Bool.noConfusion clear
    · have distinct : other.toNat ≠ bitNo.toNat := fun same => different (UInt64.toNat_inj.mp same)
      rw [testFrame_congr_iff nframes low, bits _ (UInt64.lt_iff_toNat_lt.mp low), decide_eq_false distinct,
        Bool.or_false]
    · ext other
      simp only [usedFrames, Finset.mem_insert, Finset.mem_filter, Finset.mem_range, nframes]
      constructor
      · rintro ⟨low, set⟩
        rw [bits other low, Bool.or_eq_true, decide_eq_true_iff] at set
        exact set.symm.imp_right fun old => ⟨low, old⟩
      · rintro (rfl | ⟨low, old⟩)
        · exact ⟨inside, by rw [bits _ inside, decide_eq_true rfl, Bool.or_true]⟩
        · exact ⟨low, by rw [bits _ low, old, Bool.true_or]⟩

theorem frameRemoved_of_bits (nframes : after.nframes = pmm.nframes) (below : bitNo < pmm.nframes)
    (bits : ∀ other, frameBit after other = (frameBit pmm other && decide (other ≠ bitNo.toNat))) :
    FrameRemoved pmm after bitNo := by
  have below' : bitNo < after.nframes := by rwa [nframes]
  refine ⟨?_, fun other low different => ?_, ?_⟩
  · rw [testFrame_eq_zero_iff below', bits]
    simp
  · have distinct : other.toNat ≠ bitNo.toNat := fun same => different (UInt64.toNat_inj.mp same)
    rw [testFrame_congr_iff nframes low, bits, decide_eq_true distinct, Bool.and_true]
  · ext other
    simp only [usedFrames, Finset.mem_erase, Finset.mem_filter, Finset.mem_range, nframes, bits, Bool.and_eq_true,
      decide_eq_true_iff]
    tauto

/-- The frame of the shifted `int` is `bitNo`, or another one of its word. -/
def Shifted (bitNo other : Nat) : Prop :=
  other / 64 = bitNo / 64 ∧ if bitNo % 32 = 31 then 31 ≤ other % 64 else other % 64 = bitNo % 32

theorem shifted_of_last {n other : Nat} (wide : n % 32 = 31) : Shifted n other ↔ other / 64 = n / 64 ∧ 31 ≤ other % 64 := by
  rw [Shifted, if_pos wide]

theorem shifted_of_inner {n other : Nat} (narrow : n % 32 ≠ 31) :
    Shifted n other ↔ other / 64 = n / 64 ∧ other % 64 = n % 32 := by
  rw [Shifted, if_neg narrow]

/-- Every frame that the shifted `int` sets is in use or the one meant, and this one is in use or
set. -/
theorem frameAdded_setFrame_iff_shifted (below : bitNo < pmm.nframes) (set : setFrame pmm bitNo = some after) :
    FrameAdded pmm after bitNo ↔
      (∀ other < pmm.nframes.toNat, Shifted bitNo.toNat other → frameBit pmm other = true ∨ other = bitNo.toNat) ∧
        (frameBit pmm bitNo.toNat = true ∨ Shifted bitNo.toNat bitNo.toNat) := by
  have inside := UInt64.lt_iff_toNat_lt.mp below
  have shifted : ∀ other, frameBit after other = true ↔ frameBit pmm other = true ∨ Shifted bitNo.toNat other := by
    intro other
    rw [frameBit_setFrame_eq set, Bool.or_eq_true, Bool.and_eq_true, Shifted]
    split_ifs <;> simp only [decide_eq_true_iff]
  have same : ∀ other, frameBit after other = (frameBit pmm other || decide (other = bitNo.toNat)) ↔
      (frameBit pmm other = true ∨ Shifted bitNo.toNat other ↔ frameBit pmm other = true ∨ other = bitNo.toNat) := by
    intro other
    rw [Bool.eq_iff_iff, shifted, Bool.or_eq_true, decide_eq_true_iff]
  rw [frameAdded_iff (setFrame_sameLayout set).nframes below]
  constructor
  · intro bits
    exact ⟨fun other low mask => ((same other).mp (bits other low)).mp (.inr mask),
      ((same _).mp (bits _ inside)).mpr (.inr rfl)⟩
  · rintro ⟨others, self⟩ other low
    refine (same other).mpr ⟨fun set => set.elim .inl (others other low), ?_⟩
    rintro (old | rfl)
    · exact .inl old
    · exact self

/-- `set_frame` puts the frame into the set when the shift is harmless. -/
theorem frameAdded_setFrame_iff (below : bitNo < pmm.nframes) (set : setFrame pmm bitNo = some after) :
    FrameAdded pmm after bitNo ↔ ShiftHarmless pmm bitNo.toNat := by
  have inside := UInt64.lt_iff_toNat_lt.mp below
  rw [frameAdded_setFrame_iff_shifted below set]
  generalize bitNo.toNat = n at inside ⊢
  constructor
  · rintro ⟨others, self⟩
    rcases (by omega : n % 64 < 31 ∨ n % 64 = 31 ∨ (32 ≤ n % 64 ∧ n % 64 < 63) ∨ n % 64 = 63) with
      low | last | ⟨high, inner⟩ | top
    · exact .inl low
    · refine .inr (.inl ⟨last, fun k under more close => ?_⟩)
      exact (others k under ((shifted_of_last (by omega)).mpr ⟨by omega, by omega⟩)).resolve_right (by omega)
    · have narrow : n % 32 ≠ 31 := by omega
      refine .inr (.inr (.inl ⟨high, inner, self.resolve_right ?_, ?_⟩))
      · rw [shifted_of_inner narrow]
        omega
      · exact (others (n - 32) (by omega) ((shifted_of_inner narrow).mpr ⟨by omega, by omega⟩)).resolve_right (by omega)
    · refine .inr (.inr (.inr ⟨top, fun k less close => ?_⟩))
      exact (others k (by omega) ((shifted_of_last (by omega)).mpr ⟨by omega, by omega⟩)).resolve_right (by omega)
  · rintro (low | ⟨last, above⟩ | ⟨high, inner, self, lower⟩ | ⟨top, under⟩)
    · have narrow : n % 32 ≠ 31 := by omega
      refine ⟨fun other _ mask => .inr ?_, .inr ((shifted_of_inner narrow).mpr ⟨rfl, by omega⟩)⟩
      have place := (shifted_of_inner narrow).mp mask
      omega
    · have wide : n % 32 = 31 := by omega
      refine ⟨fun other low mask => ?_, .inr ((shifted_of_last wide).mpr ⟨rfl, by omega⟩)⟩
      have place := (shifted_of_last wide).mp mask
      by_cases same : other = n
      · exact .inr same
      · exact .inl (above other low (by omega) (by omega))
    · refine ⟨fun other _ mask => .inl ?_, .inl self⟩
      have place := (shifted_of_inner (by omega)).mp mask
      obtain rfl : other = n - 32 := by omega
      exact lower
    · have wide : n % 32 = 31 := by omega
      refine ⟨fun other low mask => ?_, .inr ((shifted_of_last wide).mpr ⟨rfl, by omega⟩)⟩
      have place := (shifted_of_last wide).mp mask
      by_cases same : other = n
      · exact .inr same
      · exact .inl (under other (by omega) (by omega))

end Acting

/-- Both operations act on the set exactly when the shift is harmless. -/
theorem actsOnSet_iff (pmm : Pmm) (bitNo : UInt64) (below : bitNo < pmm.nframes) :
    ActsOnSet pmm bitNo ↔ ShiftHarmless pmm bitNo.toNat := by
  have setDone : ∃ after, setFrame pmm bitNo = some after := by
    rw [setFrame, if_pos below]
    exact ⟨_, rfl⟩
  have clearDone : ∃ after, clearFrame pmm bitNo = some after := by
    rw [clearFrame, if_pos below]
    exact ⟨_, rfl⟩
  obtain ⟨afterSet, set⟩ := setDone
  obtain ⟨afterClear, clear⟩ := clearDone
  rw [← frameAdded_setFrame_iff below set]
  constructor
  · rintro ⟨⟨after, set', added⟩, _⟩
    obtain rfl := Option.some.inj (set.symm.trans set')
    exact added
  · intro added
    exact ⟨⟨afterSet, set, added⟩, afterClear, clear,
      frameRemoved_of_bits (clearFrame_sameLayout clear).nframes below (frameBit_clearFrame clear)⟩

/-- So many frames above 1 MiB, with the first word of the bitmap. -/
def framesPmm (nframes word : UInt64) : Pmm where
  usableStart := 0x100000
  usableEnd := 0x100000 + 4096 * nframes
  usableLength := 4096 * nframes
  physMemHead := 0x100000
  frames := 0x100000
  nframes := nframes
  bitmap idx := if idx = 0 then word else 0

theorem actsOnSet_low : ActsOnSet (framesPmm 64 0) 30 :=
  (actsOnSet_iff (framesPmm 64 0) 30 (by decide)).mpr (.inl (by decide))

/-- With an empty bitmap of 64 frames, `set_frame(32)` sets frame 0 and `set_frame(31)` all frames
from 31 on. -/
theorem setFrame_other_frames :
    (setFrame (framesPmm 64 0) 32).map (fun after => (testFrame after 32, testFrame after 0)) = some (some 0, some 1) ∧
      ¬ ActsOnSet (framesPmm 64 0) 32 ∧
      (setFrame (framesPmm 64 0) 31).map (fun after => testFrame after 63) = some (some 0x8000000000000000) ∧
      ¬ ActsOnSet (framesPmm 64 0) 31 := by
  refine ⟨by decide +kernel, ?_, by decide +kernel, ?_⟩
  · rw [actsOnSet_iff _ _ (by decide)]
    unfold ShiftHarmless
    decide +kernel
  · rw [actsOnSet_iff _ _ (by decide)]
    rintro (low | ⟨_, above⟩ | ⟨high, _⟩ | ⟨top, _⟩)
    · exact absurd low (by decide)
    · exact absurd (above 63 (by decide) (by decide) (by decide)) (by decide +kernel)
    · exact absurd high (by decide)
    · exact absurd top (by decide)

/-! ## The search -/

/-- `free_frame_bit_no` returns the least free frame, and -1 if there is none, and `alloc_frame` gets
to its branch for want of a frame exactly then. -/
structure FindsFree (pmm : Pmm) : Prop where
  returns : freeFrameBitNo pmm ≠ none
  least : ∀ i < pmm.nframes.toNat, frameBit pmm i = false → (∀ k < i, frameBit pmm k = true) →
    freeFrameBitNo pmm = some (UInt64.ofNat i)
  none : (∀ i < pmm.nframes.toNat, frameBit pmm i = true) → freeFrameBitNo pmm = some 0xFFFFFFFFFFFFFFFF
  noFreeFrames : searchFrame pmm = .noFreeFrames ↔ ∀ i < pmm.nframes.toNat, frameBit pmm i = true

/-- The search does as it should exactly when there is a free frame. -/
theorem findsFree_iff (pmm : Pmm) : FindsFree pmm ↔ ∃ i < pmm.nframes.toNat, frameBit pmm i = false := by
  constructor
  · intro finds
    by_contra full
    have used : ∀ i < pmm.nframes.toNat, frameBit pmm i = true := fun i below => by
      by_contra clear
      exact full ⟨i, below, Bool.eq_false_of_not_eq_true clear⟩
    have found := finds.noFreeFrames.mpr used
    rw [searchFrame_eq, finds.none used] at found
    exact FrameSearch.noConfusion found
  · intro free
    have first := Nat.find_spec free
    have front : ∀ k < Nat.find free, frameBit pmm k = true := fun k less => by
      by_contra clear
      exact Nat.find_min free less ⟨less.trans first.1, Bool.eq_false_of_not_eq_true clear⟩
    have found := freeFrameBitNo_of_first first.1 first.2 front
    refine ⟨by simp [found], fun i below clear front => freeFrameBitNo_of_first below clear front, fun used => ?_, ?_⟩
    · exact absurd (first.2.symm.trans (used _ first.1)) Bool.false_ne_true
    · rw [searchFrame_eq, found]
      refine iff_of_false (fun same => FrameSearch.noConfusion same) fun used => ?_
      exact Bool.false_ne_true (first.2.symm.trans (used _ first.1))

/-- With one frame, which is in use, the assertion fails, and `alloc_frame` does not get to the branch
that reports the want of a frame. -/
theorem freeFrameBitNo_asserts :
    freeFrameBitNo (framesPmm 1 1) = none ∧ searchFrame (framesPmm 1 1) = .assertion ∧ ¬ FindsFree (framesPmm 1 1) := by
  refine ⟨by decide +kernel, by decide +kernel, ?_⟩
  rw [findsFree_iff]
  decide +kernel

/-! ## Freeing the frame of a page -/

/-- `free_frame` clears the bit of the frame of a page in the managed memory and no other, and no bit
at all for a page outside. -/
def FreesOwnFrame (pmm : Pmm) (page : Entry) : Prop :=
  ∃ page' after, freeFrame pmm page = some (page', after) ∧
    (pmm.usableStart ≤ page.frame <<< 12 ∧ page.frame <<< 12 < pmm.usableEnd → ∀ other,
      frameBit after other = (frameBit pmm other &&
        decide (other ≠ ((page.frame <<< 12).toNat - pmm.usableStart.toNat) / 4096))) ∧
    (page.frame <<< 12 < pmm.usableStart ∨ pmm.usableEnd ≤ page.frame <<< 12 → after.bitmap = pmm.bitmap)

/-- The frame lies at the end of the managed memory or behind it, or in it and has a bit; or it lies
in front of it, where frame 0 is freed, and this one is free; or the page has no frame, and there is
none at address 0. -/
def FreeFits (pmm : Pmm) (page : Entry) : Prop :=
  pmm.usableEnd ≤ page.frame <<< 12 ∨
    page.frame ≠ 0 ∧ pmm.usableStart ≤ page.frame <<< 12 ∧
      ((page.frame <<< 12).toNat - pmm.usableStart.toNat) / 4096 < pmm.nframes.toNat ∨
    page.frame ≠ 0 ∧ page.frame <<< 12 < pmm.usableStart ∧ 0 < pmm.nframes ∧ frameBit pmm 0 = false ∨
    page.frame = 0 ∧ (pmm.usableStart = 0 → frameBit pmm 0 = false)

/-- The frame number of an address behind the start. -/
theorem toNat_physAddrToBitNo {pmm : Pmm} {addr : UInt64} (behind : pmm.usableStart ≤ addr) :
    (physAddrToBitNo pmm addr).toNat = (addr.toNat - pmm.usableStart.toNat) / 4096 := by
  have order := UInt64.le_iff_toNat_le.mp behind
  unfold physAddrToBitNo
  split_ifs with start
  · have start := UInt64.le_iff_toNat_le.mp start
    rw [show addr.toNat - pmm.usableStart.toNat = 0 by omega]
    rfl
  · rw [UInt64.toNat_div, UInt64.toNat_sub_of_le _ _ behind]
    rfl

/-- The bits of the frames are the bitmap. -/
theorem bitmap_eq_of_bits {pmm after : Pmm} (bits : ∀ i, frameBit after i = frameBit pmm i) :
    after.bitmap = pmm.bitmap := by
  funext idx
  apply UInt64.toNat_inj.mp
  apply Nat.eq_of_testBit_eq
  intro i
  by_cases inside : i < 64
  · have bit := bits (idx * 64 + i)
    rwa [frameBit, frameBit, show (idx * 64 + i) / 64 = idx by omega, show (idx * 64 + i) % 64 = i by omega] at bit
  · have wide : ∀ word : UInt64, word.toNat.testBit i = false := fun word =>
      Nat.testBit_lt_two_pow (Nat.lt_of_lt_of_le word.toNat_lt (Nat.pow_le_pow_right (by decide) (by omega)))
    rw [wide, wide]

section Freeing

variable {pmm : Pmm} {page : Entry}

/-- In the managed memory the frame must have a bit. -/
theorem freesOwnFrame_iff_of_managed (used : page.frame ≠ 0) (behind : pmm.usableStart ≤ page.frame <<< 12)
    (under : page.frame <<< 12 < pmm.usableEnd) :
    FreesOwnFrame pmm page ↔ ((page.frame <<< 12).toNat - pmm.usableStart.toNat) / 4096 < pmm.nframes.toNat := by
  have number := toNat_physAddrToBitNo behind
  rw [FreesOwnFrame, freeFrame, if_pos used, if_neg (UInt64.not_le.mpr under), ← number]
  constructor
  · rintro ⟨page', after, freed, _⟩
    obtain ⟨cleared, clear, _⟩ := Option.map_eq_some_iff.mp freed
    unfold clearFrame at clear
    split_ifs at clear with below
    exact UInt64.lt_iff_toNat_lt.mp below
  · intro below
    obtain ⟨after, clear⟩ : ∃ after, clearFrame pmm (physAddrToBitNo pmm (page.frame <<< 12)) = some after := by
      rw [clearFrame, if_pos (UInt64.lt_iff_toNat_lt.mpr below)]
      exact ⟨_, rfl⟩
    refine ⟨_, after, by rw [clear, Option.map_some], fun _ => frameBit_clearFrame clear, ?_⟩
    rintro (front | back)
    · exact absurd behind (UInt64.not_le.mpr front)
    · exact absurd back (UInt64.not_le.mpr under)

/-- In front of the managed memory frame 0 is freed, which must be free. -/
theorem freesOwnFrame_iff_of_front (used : page.frame ≠ 0) (front : page.frame <<< 12 < pmm.usableStart)
    (under : page.frame <<< 12 < pmm.usableEnd) :
    FreesOwnFrame pmm page ↔ 0 < pmm.nframes ∧ frameBit pmm 0 = false := by
  have number : physAddrToBitNo pmm (page.frame <<< 12) = 0 := if_pos (UInt64.le_of_lt front)
  rw [FreesOwnFrame, freeFrame, if_pos used, if_neg (UInt64.not_le.mpr under), number]
  constructor
  · rintro ⟨page', after, freed, _, kept⟩
    obtain ⟨cleared, clear, pair⟩ := Option.map_eq_some_iff.mp freed
    obtain ⟨-, rfl⟩ := Prod.mk.inj pair
    refine ⟨?_, ?_⟩
    · unfold clearFrame at clear
      split_ifs at clear with below
      exact below
    · have bit := frameBit_clearFrame clear 0
      rw [frameBit, kept (.inl front), ← frameBit] at bit
      simpa using bit
  · rintro ⟨below, free⟩
    obtain ⟨after, clear⟩ : ∃ after, clearFrame pmm 0 = some after := by
      rw [clearFrame, if_pos below]
      exact ⟨_, rfl⟩
    refine ⟨_, after, by rw [clear, Option.map_some], fun inside => absurd inside.1 (UInt64.not_le.mpr front),
      fun _ => ?_⟩
    refine bitmap_eq_of_bits fun i => ?_
    rw [frameBit_clearFrame clear]
    by_cases first : i = 0
    · rw [first, free, Bool.false_and]
    · rw [decide_eq_true (show i ≠ (0 : UInt64).toNat from first), Bool.and_true]

end Freeing

/-- `free_frame` does as it should exactly when the frame fits. -/
theorem freesOwnFrame_iff (pmm : Pmm) (page : Entry) : FreesOwnFrame pmm page ↔ FreeFits pmm page := by
  unfold FreeFits
  by_cases unused : page.frame = 0
  · have zero : page.frame <<< 12 = 0 := by rw [unused]; rfl
    rw [FreesOwnFrame, freeFrame, if_neg (not_not.mpr unused), zero]
    constructor
    · rintro ⟨page', after, freed, inside, outside⟩
      obtain ⟨-, rfl⟩ := Prod.mk.inj (Option.some.inj freed)
      by_cases empty : pmm.usableEnd ≤ 0
      · exact .inl empty
      · refine .inr (.inr (.inr ⟨unused, fun start => ?_⟩))
        have bit := inside ⟨by rw [start]; exact UInt64.le_refl _, UInt64.not_le.mp empty⟩ 0
        rw [start] at bit
        simpa using bit
    · intro fits
      refine ⟨page, pmm, rfl, fun inside other => ?_, fun _ => rfl⟩
      have start : pmm.usableStart = 0 := by
        apply UInt64.toNat_inj.mp
        exact Nat.le_zero.mp (UInt64.le_iff_toNat_le.mp inside.1)
      rcases fits with back | ⟨frame, _⟩ | ⟨frame, _⟩ | ⟨_, free⟩
      · exact absurd back (UInt64.not_le.mpr inside.2)
      · exact absurd unused frame
      · exact absurd unused frame
      · by_cases first : other = 0
        · rw [first, free start, Bool.false_and]
        · rw [start, decide_eq_true (show other ≠ ((0 : UInt64).toNat - (0 : UInt64).toNat) / 4096 from first),
            Bool.and_true]
  · by_cases back : pmm.usableEnd ≤ page.frame <<< 12
    · refine iff_of_true ⟨_, pmm, by rw [freeFrame, if_pos unused, if_pos back], ?_, fun _ => rfl⟩ (.inl back)
      exact fun inside => absurd back (UInt64.not_le.mpr inside.2)
    · have under := UInt64.not_le.mp back
      by_cases behind : pmm.usableStart ≤ page.frame <<< 12
      · rw [freesOwnFrame_iff_of_managed unused behind under]
        constructor
        · exact fun below => .inr (.inl ⟨unused, behind, below⟩)
        · rintro (end' | ⟨_, _, below⟩ | ⟨_, front, _⟩ | ⟨frame, _⟩)
          · exact absurd end' back
          · exact below
          · exact absurd behind (UInt64.not_le.mpr front)
          · exact absurd frame unused
      · have front := UInt64.not_le.mp behind
        rw [freesOwnFrame_iff_of_front unused front under]
        constructor
        · exact fun free => .inr (.inr (.inl ⟨unused, front, free⟩))
        · rintro (end' | ⟨_, inside, _⟩ | ⟨_, _, free⟩ | ⟨frame, _⟩)
          · exact absurd end' back
          · exact absurd inside behind
          · exact free
          · exact absurd frame unused

/-- The page of address 0x1000 lies in front of the managed memory, which starts at 1 MiB; to free it
frees the first frame behind the start. -/
theorem freeFrame_frees_other :
    (freeFrame (framesPmm 64 1) ⟨true, true, false, 1, false⟩).map (fun result => result.2.bitmap 0) = some 0 ∧
      ¬ FreesOwnFrame (framesPmm 64 1) ⟨true, true, false, 1, false⟩ := by
  refine ⟨by decide +kernel, ?_⟩
  rw [freesOwnFrame_iff]
  rintro (back | ⟨_, behind, _⟩ | ⟨_, _, _, free⟩ | ⟨unused, _⟩)
  · exact absurd back (by decide)
  · exact absurd behind (by decide)
  · exact absurd free (by decide)
  · exact absurd unused (by decide)

end KeblaOS.Memory
