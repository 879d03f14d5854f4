import Mathlib.Algebra.Group.Nat.Defs
import KeblaOS.Memory.Paging

/-!
# The search for a free frame

`free_frame_bit_no` goes over the words of the bitmap and over the bits of the first word that is
not full. It finds the first clear bit of `nframes + 1` words, which are many more than the bitmap
has, or else -1. Both a bit behind the last frame and -1 stop at its assertion.
-/

namespace KeblaOS.Memory

/-! ## Bits of a word -/

/-- The word `0x1ULL << off`. -/
theorem testBit_one_shiftLeft {off : UInt64} (low : off.toNat < 64) (i : Nat) :
    ((1 : UInt64) <<< off).toNat.testBit i = decide (i = off.toNat) := by
  have value : ((1 : UInt64) <<< off).toNat = 2 ^ off.toNat := by
    rw [UInt64.toNat_shiftLeft, UInt64.toNat_one, Nat.mod_eq_of_lt low, Nat.one_shiftLeft]
    exact Nat.mod_eq_of_lt (Nat.pow_lt_pow_right (by decide) low)
  rw [value, Nat.testBit_two_pow]
  exact decide_eq_decide.mpr eq_comm

/-- Testing one bit of a word. -/
theorem and_shiftLeft_eq_zero_iff {word off : UInt64} (low : off.toNat < 64) :
    word &&& ((1 : UInt64) <<< off) = 0 ↔ word.toNat.testBit off.toNat = false := by
  constructor
  · intro zero
    have bits := congrArg (fun value : UInt64 => value.toNat.testBit off.toNat) zero
    rwa [UInt64.toNat_and, Nat.testBit_and, testBit_one_shiftLeft low, decide_eq_true rfl, Bool.and_true,
      UInt64.toNat_zero, Nat.zero_testBit] at bits
  · intro clear
    apply UInt64.toNat_inj.mp
    apply Nat.eq_of_testBit_eq
    intro i
    rw [UInt64.toNat_and, Nat.testBit_and, testBit_one_shiftLeft low, UInt64.toNat_zero, Nat.zero_testBit]
    by_cases same : i = off.toNat
    · rw [same, clear, Bool.false_and]
    · rw [decide_eq_false same, Bool.and_false]

/-- A word with all bits set. -/
theorem eq_full_iff {word : UInt64} :
    word = 0xFFFFFFFFFFFFFFFF ↔ ∀ i < 64, word.toNat.testBit i = true := by
  have full : (0xFFFFFFFFFFFFFFFF : UInt64).toNat = 2 ^ 64 - 1 := rfl
  constructor
  · rintro rfl i below
    rw [full, Nat.testBit_two_pow_sub_one]
    exact decide_eq_true below
  · intro set
    apply UInt64.toNat_inj.mp
    apply Nat.eq_of_testBit_eq
    intro i
    rw [full, Nat.testBit_two_pow_sub_one]
    by_cases below : i < 64
    · rw [set i below, decide_eq_true below]
    · rw [decide_eq_false below]
      have large : word.toNat < 2 ^ i :=
        Nat.lt_of_lt_of_le word.toNat_lt (Nat.pow_le_pow_right (by decide) (Nat.not_lt.mp below))
      exact Nat.testBit_lt_two_pow large

theorem not_full_lt (word : UInt64) : ¬ 0xFFFFFFFFFFFFFFFF < word := by
  have bound := word.toNat_lt
  have full : (0xFFFFFFFFFFFFFFFF : UInt64).toNat = 2 ^ 64 - 1 := rfl
  rw [UInt64.lt_iff_toNat_lt, full]
  omega

/-! ## The loops -/

section Search

variable {pmm : Pmm} {bitNo : UInt64}

/-- A word that is not full has a first clear bit. -/
theorem freeOffset_eq_some {word : UInt64} (free : word ≠ 0xFFFFFFFFFFFFFFFF) :
    ∃ off, freeOffset word = some off ∧ off < 64 ∧ word.toNat.testBit off = false ∧
      ∀ i < off, word.toNat.testBit i = true := by
  have tested : ∀ off < 64, word &&& ((1 : UInt64) <<< UInt64.ofNat off) = 0 ↔ word.toNat.testBit off = false := by
    intro off below
    have value : (UInt64.ofNat off).toNat = off := UInt64.toNat_ofNat_of_lt' (Nat.lt_trans below (by decide))
    have bit := @and_shiftLeft_eq_zero_iff word (UInt64.ofNat off) (by rwa [value])
    rwa [value] at bit
  cases found : freeOffset word with
  | none =>
      refine absurd (eq_full_iff.mpr fun i below => ?_) free
      have passed := List.find?_eq_none.mp found i (List.mem_range.mpr below)
      rw [decide_eq_true_eq, tested i below] at passed
      simpa using passed
  | some off =>
      have below : off < 64 := List.mem_range.mp (List.mem_of_find?_eq_some found)
      have clear : word.toNat.testBit off = false := (tested off below).mp (by simpa using List.find?_some found)
      refine ⟨off, rfl, below, clear, fun i less => ?_⟩
      obtain ⟨_, _, front⟩ := List.find?_range_eq_some.mp found
      have passed := front i less
      rw [Bool.not_eq_true', decide_eq_false_iff_not, tested i (Nat.lt_trans less below)] at passed
      simpa using passed

theorem frameBit_word {idx off : Nat} (low : off < 64) :
    frameBit pmm (idx * 64 + off) = (pmm.bitmap idx).toNat.testBit off := by
  have word : (idx * 64 + off) / 64 = idx := by omega
  have offset : (idx * 64 + off) % 64 = off := by omega
  rw [frameBit, word, offset]

/-- The loop over the words ends at the first clear bit, or without one. -/
theorem freeBitSearch_cases (remaining idx : Nat) :
    (∃ i, idx * 64 ≤ i ∧ i < (idx + remaining) * 64 ∧ frameBit pmm i = false ∧
        (∀ k, idx * 64 ≤ k → k < i → frameBit pmm k = true) ∧
        freeBitSearch pmm.bitmap remaining idx = UInt64.ofNat i) ∨
      ((∀ k, idx * 64 ≤ k → k < (idx + remaining) * 64 → frameBit pmm k = true) ∧
        freeBitSearch pmm.bitmap remaining idx = 0xFFFFFFFFFFFFFFFF) := by
  induction remaining generalizing idx with
  | zero => exact .inr ⟨fun k low high => by omega, rfl⟩
  | succ remaining ih =>
      rw [freeBitSearch]
      split_ifs with full
      · -- a full word is passed
        have here : ∀ k, idx * 64 ≤ k → k < (idx + 1) * 64 → frameBit pmm k = true := by
          intro k low high
          obtain ⟨off, rfl⟩ := Nat.exists_eq_add_of_le low
          rw [frameBit_word (by omega)]
          exact eq_full_iff.mp full off (by omega)
        rcases ih (idx + 1) with ⟨i, low, high, clear, front, result⟩ | ⟨set, result⟩
        · refine .inl ⟨i, by omega, by omega, clear, fun k above below => ?_, result⟩
          by_cases word : k < (idx + 1) * 64
          · exact here k above word
          · exact front k (by omega) below
        · refine .inr ⟨fun k above below => ?_, result⟩
          by_cases word : k < (idx + 1) * 64
          · exact here k above word
          · exact set k (by omega) (by omega)
      · obtain ⟨off, found, low, clear, front⟩ := freeOffset_eq_some full
        rw [found]
        refine .inl ⟨idx * 64 + off, by omega, by omega, ?_, fun k above below => ?_, rfl⟩
        · rw [frameBit_word low, clear]
        · obtain ⟨i, rfl⟩ := Nat.exists_eq_add_of_le above
          rw [frameBit_word (by omega)]
          exact front i (by omega)

/-- The search ends at the first clear bit if this is the bit of a frame. -/
theorem freeFrameBitNo_of_first {i : Nat} (below : i < pmm.nframes.toNat) (clear : frameBit pmm i = false)
    (front : ∀ k < i, frameBit pmm k = true) : freeFrameBitNo pmm = some (UInt64.ofNat i) := by
  have bound := pmm.nframes.toNat_lt
  have search := @freeBitSearch_cases pmm (pmm.nframes.toNat + 1) 0
  rw [Nat.zero_mul, Nat.zero_add] at search
  rcases search with ⟨k, _, _, clear', front', result⟩ | ⟨set, _⟩
  · obtain rfl : k = i := by
      rcases Nat.lt_trichotomy k i with less | equal | more
      · exact absurd (clear'.symm.trans (front k less)) Bool.false_ne_true
      · exact equal
      · exact absurd (clear.symm.trans (front' i (Nat.zero_le _) more)) Bool.false_ne_true
    have inside : UInt64.ofNat k < pmm.nframes := by
      rwa [UInt64.lt_iff_toNat_lt, UInt64.toNat_ofNat_of_lt' (Nat.lt_trans below bound)]
    rw [freeFrameBitNo, result]
    exact if_pos inside
  · exact absurd (clear.symm.trans (set i (Nat.zero_le _) (by omega))) Bool.false_ne_true

/-- The bit found by the search is the bit of a frame that is not taken. -/
theorem freeFrameBitNo_cases (few : pmm.nframes.toNat < 2 ^ 52) (found : freeFrameBitNo pmm = some bitNo) :
    bitNo.toNat < pmm.nframes.toNat ∧ frameBit pmm bitNo.toNat = false := by
  unfold freeFrameBitNo at found
  dsimp only at found
  split_ifs at found with below
  obtain rfl := Option.some.inj found
  have search := @freeBitSearch_cases pmm (pmm.nframes.toNat + 1) 0
  rw [Nat.zero_add] at search
  rcases search with ⟨i, _, high, clear, _, result⟩ | ⟨_, result⟩
  · have value : (UInt64.ofNat i).toNat = i := UInt64.toNat_ofNat_of_lt' (by show i < 2 ^ 64; omega)
    rw [result, UInt64.lt_iff_toNat_lt, value] at below
    rw [result, value]
    exact ⟨below, clear⟩
  · rw [result] at below
    exact absurd below (not_full_lt pmm.nframes)

/-- -1 is not the number of a frame. -/
theorem searchFrame_eq (pmm : Pmm) :
    searchFrame pmm = (freeFrameBitNo pmm).elim .assertion FrameSearch.found := by
  unfold searchFrame
  cases found : freeFrameBitNo pmm with
  | none => rfl
  | some bitNo =>
      have below : bitNo < pmm.nframes := by
        unfold freeFrameBitNo at found
        dsimp only at found
        split_ifs at found with inside
        rwa [← Option.some.inj found]
      have number : bitNo ≠ 0xFFFFFFFFFFFFFFFF := by
        rintro rfl
        exact not_full_lt pmm.nframes below
      exact if_neg number

/-- `alloc_frame` gets its frame from the search. -/
theorem allocFrame_eq (pmm : Pmm) (page : Entry) (user isWriteable : Bool) :
    allocFrame pmm page user isWriteable = (freeFrameBitNo pmm).bind fun bitNo =>
      (setFrame pmm bitNo).map fun pmm =>
        ({ page with
            present := true
            rw := isWriteable
            user := user
            frame := field40 ((pmm.usableStart + bitNo * frameSize) >>> 12) }, pmm) := by
  rw [allocFrame, searchFrame_eq]
  cases freeFrameBitNo pmm with
  | none => rfl
  | some bitNo => rfl

end Search

/-! ## Frames one after the other -/

/-- The address of a frame, as the 40 bits in a page entry have it. -/
def frameAddress (pmm : Pmm) (bitNo : UInt64) : UInt64 :=
  field40 ((pmm.usableStart + bitNo * frameSize) >>> 12) <<< 12

/-- The memory manager after so many calls of `alloc_frame`; `none` when the kernel halts. -/
def pmmAfterFrames (pmm : Pmm) : Nat → Option Pmm
  | 0 => some pmm
  | taken + 1 => (freeFrameBitNo pmm).bind fun bitNo => (setFrame pmm bitNo).bind fun pmm => pmmAfterFrames pmm taken

/-- The frame that the next call takes. -/
def nthFrame (pmm : Pmm) (taken : Nat) : Option UInt64 := (pmmAfterFrames pmm taken).bind freeFrameBitNo

section Frames

variable {pmm after : Pmm} {bitNo : UInt64}

theorem freeFrameBitNo_congr (bitmap : after.bitmap = pmm.bitmap) (nframes : after.nframes = pmm.nframes) :
    freeFrameBitNo after = freeFrameBitNo pmm := by
  rw [freeFrameBitNo, freeFrameBitNo, bitmap, nframes]

/-- The bitmap decides which frames are taken. -/
theorem nthFrame_congr (bitmap : after.bitmap = pmm.bitmap) (nframes : after.nframes = pmm.nframes) (taken : Nat) :
    nthFrame after taken = nthFrame pmm taken := by
  induction taken generalizing pmm after with
  | zero => exact freeFrameBitNo_congr bitmap nframes
  | succ taken ih =>
      show ((freeFrameBitNo after).bind _).bind _ = ((freeFrameBitNo pmm).bind _).bind _
      rw [freeFrameBitNo_congr bitmap nframes]
      cases freeFrameBitNo pmm with
      | none => rfl
      | some bitNo =>
          simp only [Option.bind_some, setFrame, bitmap, nframes]
          split_ifs with below
          · refine ih ?_ ?_
            · rfl
            · rfl
          · rfl

/-- When a frame is marked, the one after it is next. -/
theorem nthFrame_setFrame (found : freeFrameBitNo pmm = some bitNo) {head : UInt64}
    (set : setFrame { pmm with physMemHead := head } bitNo = some after) (taken : Nat) :
    nthFrame after taken = nthFrame pmm (taken + 1) := by
  show _ = ((freeFrameBitNo pmm).bind _).bind _
  unfold setFrame at set
  dsimp only at set
  split_ifs at set with below
  obtain rfl := Option.some.inj set
  rw [found, Option.bind_some, setFrame, if_pos below, Option.bind_some]
  refine nthFrame_congr ?_ ?_ taken
  · rfl
  · rfl

end Frames

end KeblaOS.Memory
