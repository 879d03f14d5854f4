import Mathlib.Algebra.Group.Nat.Defs
import Mathlib.Data.Nat.Basic
import KeblaOS.Memory.Ranges

/-!
# Runs of the bump allocator

`set_usable_mem` puts `phys_mem_head` at the start of the usable memory. `kmalloc`, `kmalloc_a`,
`kmalloc_ap` and `kmalloc_aligned` move it up and `kfree` moves it back to the address it is given, when
address and size add up to it. The limit is tested against the head alone, so the last block may end
behind the usable memory, and the sums may wrap around; `kfree` does not know the blocks.
-/

namespace KeblaOS.Memory

/-! ## The usable memory -/

/-- `struct limine_memmap_entry`. -/
structure MemmapEntry where
  base : UInt64
  length : UInt64
  type : UInt64

/-- The globals before `set_usable_mem`, which are zero. -/
def staticPmm (bitmap : Nat → UInt64) : Pmm where
  usableStart := 0
  usableEnd := 0
  usableLength := 0
  physMemHead := 0
  frames := 0
  nframes := 0
  bitmap := bitmap

/-- One turn of the loop of `set_usable_mem`: the longest entry of type `LIMINE_MEMMAP_USABLE` so far. -/
def takeEntry (pmm : Pmm) (entry : MemmapEntry) : Pmm :=
  if entry.type = 0 then
    if pmm.usableLength < entry.length then
      { pmm with
        usableStart := entry.base
        usableLength := entry.length
        usableEnd := entry.base + entry.length }
    else pmm
  else pmm

/-- `set_usable_mem`; without entries it returns at once. -/
def setUsableMem (entries : Option (List MemmapEntry)) (pmm : Pmm) : Pmm :=
  match entries with
  | none => pmm
  | some entries =>
      let pmm := entries.foldl takeEntry pmm
      let start := pmm.usableStart &&& 0xFFFFFFFFFFFFF000
      { pmm with
        usableStart := start
        physMemHead := start
        usableLength := pmm.usableEnd - start }

/-- The head starts at the start of the usable memory. -/
theorem physMemHead_setUsableMem (entries : Option (List MemmapEntry)) (bitmap : Nat → UInt64) :
    (setUsableMem entries (staticPmm bitmap)).physMemHead = (setUsableMem entries (staticPmm bitmap)).usableStart := by
  cases entries with
  | none => rfl
  | some entries => rfl

/-! ## The calls -/

/-- `kfree`. -/
def kfree (pmm : Pmm) (ptr size : UInt64) : Pmm :=
  if ptr = 0 then pmm
  else if ptr + size = pmm.physMemHead then { pmm with physMemHead := ptr }
  else pmm

/-- A power of two that is a 64-bit word. -/
def powerOfTwo (log : Fin 64) : UInt64 := UInt64.ofNat (2 ^ log.val)

/-- The functions that move the head up; the alignment of `kmalloc_aligned` is a power of two. -/
inductive BumpRequest where
  | kmalloc (sz : UInt64)
  | kmallocA (sz : UInt64) (align : Int)
  | kmallocAp (sz : UInt64) (align : Int)
  | kmallocAligned (sz : UInt64) (log : Fin 64)
deriving DecidableEq

/-- The address returned and the state afterwards. -/
def Pmm.bump (pmm : Pmm) : BumpRequest → UInt64 × Pmm
  | .kmalloc sz => Memory.kmalloc pmm sz
  | .kmallocA sz align => Memory.kmallocA pmm sz align
  | .kmallocAp sz align => Memory.kmallocAp pmm sz align
  | .kmallocAligned sz log => Memory.kmallocAligned pmm sz (powerOfTwo log)

def BumpRequest.size : BumpRequest → UInt64
  | .kmalloc sz | .kmallocA sz _ | .kmallocAp sz _ | .kmallocAligned sz _ => sz

/-- The alignment asked for. -/
def BumpRequest.unit : BumpRequest → Nat
  | .kmalloc _ => 1
  | .kmallocA _ align | .kmallocAp _ align => if align = 1 then 4096 else 1
  | .kmallocAligned _ log => 2 ^ log.val

/-- `kmalloc_ap` aligns before it tests the limit. -/
def BumpRequest.alignsFirst : BumpRequest → Bool
  | .kmallocAp _ _ => true
  | _ => false

/-- The multiple of the unit at or above a number. -/
def roundUp (unit number : Nat) : Nat := (number + (unit - 1)) / unit * unit

/-- The head that is compared with the end, if no sum wraps around. -/
def exactTested (pmm : Pmm) (request : BumpRequest) : Nat :=
  if request.alignsFirst then roundUp request.unit pmm.physMemHead.toNat else pmm.physMemHead.toNat

/-- The head after a call, if no sum wraps around. -/
def exactHead (pmm : Pmm) (request : BumpRequest) : Nat :=
  if pmm.usableEnd.toNat ≤ exactTested pmm request then exactTested pmm request
  else roundUp request.unit pmm.physMemHead.toNat + request.size.toNat

/-! ## Alignment -/

theorem roundUp_of_dvd {unit number : Nat} (positive : 0 < unit) (multiple : unit ∣ number) :
    roundUp unit number = number := by
  obtain ⟨q, rfl⟩ := multiple
  rw [roundUp, Nat.mul_add_div positive, Nat.div_eq_of_lt (by omega), Nat.add_zero, Nat.mul_comm]

theorem le_roundUp {unit : Nat} (positive : 0 < unit) (number : Nat) : number ≤ roundUp unit number := by
  have parts := Nat.div_add_mod (number + (unit - 1)) unit
  have rest := Nat.mod_lt (number + (unit - 1)) positive
  rw [Nat.mul_comm] at parts
  rw [roundUp]
  omega

theorem dvd_roundUp (unit number : Nat) : unit ∣ roundUp unit number := Nat.dvd_mul_left unit _

/-- In 64 bits the sum may wrap around before the low bits are cleared; the result is that of rounding
up modulo 2^64. -/
theorem roundUp_mod {unit : Nat} (number : Nat) (divides : unit ∣ 18446744073709551616) :
    (number + (unit - 1)) % 18446744073709551616 / unit * unit = roundUp unit number % 18446744073709551616 := by
  obtain ⟨q, whole⟩ := divides
  rw [whole, Nat.mod_mul_right_div_self, roundUp, Nat.mul_comm _ unit, Nat.mul_comm _ unit, Nat.mul_mod_mul_left]

theorem toNat_powerOfTwo (log : Fin 64) : (powerOfTwo log).toNat = 2 ^ log.val := by
  rw [powerOfTwo, UInt64.toNat_ofNat']
  exact Nat.mod_eq_of_lt (Nat.pow_lt_pow_right (by decide) log.isLt)

theorem toNat_powerOfTwo_sub_one (log : Fin 64) : (powerOfTwo log - 1).toNat = 2 ^ log.val - 1 := by
  have positive : 0 < 2 ^ log.val := Nat.two_pow_pos log.val
  rw [UInt64.toNat_sub_of_le, toNat_powerOfTwo]
  · rfl
  · rw [UInt64.le_iff_toNat_le, toNat_powerOfTwo]
    exact positive

/-- The low bits of a word. -/
theorem toNat_and_powerOfTwo (word : UInt64) (log : Fin 64) :
    (word &&& (powerOfTwo log - 1)).toNat = word.toNat % 2 ^ log.val := by
  rw [UInt64.toNat_and, toNat_powerOfTwo_sub_one, Nat.and_two_pow_sub_one_eq_mod]

/-- A word without its low bits. -/
theorem toNat_clear_powerOfTwo (word : UInt64) (log : Fin 64) :
    (word &&& ~~~(powerOfTwo log - 1)).toNat = word.toNat / 2 ^ log.val * 2 ^ log.val := by
  have sum := toNat_clear_add word (powerOfTwo log - 1)
  have parts := Nat.div_add_mod word.toNat (2 ^ log.val)
  rw [toNat_and_powerOfTwo] at sum
  rw [Nat.mul_comm] at parts
  omega

theorem toNat_alignedHead (head : UInt64) (log : Fin 64) :
    (alignedHead head (powerOfTwo log)).toNat = roundUp (2 ^ log.val) head.toNat % 18446744073709551616 := by
  have positive : 0 < 2 ^ log.val := Nat.two_pow_pos log.val
  unfold alignedHead
  split_ifs with unaligned
  · have regroup : head + powerOfTwo log - 1 = head + (powerOfTwo log - 1) := by
      rw [UInt64.sub_eq_add_neg, UInt64.add_assoc, ← UInt64.sub_eq_add_neg]
    rw [toNat_clear_powerOfTwo, regroup, UInt64.toNat_add, toNat_powerOfTwo_sub_one]
    exact roundUp_mod _ (Nat.pow_dvd_pow 2 (Nat.le_of_lt log.isLt))
  · have aligned : head.toNat % 2 ^ log.val = 0 := by
      rw [← toNat_and_powerOfTwo, not_not.mp unaligned]
      rfl
    rw [roundUp_of_dvd positive (Nat.dvd_of_mod_eq_zero aligned)]
    exact (Nat.mod_eq_of_lt head.toNat_lt).symm

theorem toNat_pageAlignedHead (head : UInt64) (align : Int) :
    (pageAlignedHead head align).toNat =
      roundUp (if align = 1 then 4096 else 1) head.toNat % 18446744073709551616 := by
  have bound := head.toNat_lt
  have floor : (head &&& 0xFFFFFFFFFFFFF000).toNat = head.toNat / 4096 * 4096 := toNat_clear_powerOfTwo head 12
  have low : (head &&& 0xFFF).toNat = head.toNat % 4096 := toNat_and_powerOfTwo head 12
  unfold pageAlignedHead
  split_ifs with both wanted wanted
  · have page : frameSize.toNat = 4096 := rfl
    have rest : head.toNat % 4096 ≠ 0 := by
      rw [← low]
      exact fun zero => both.2 (UInt64.toNat_inj.mp zero)
    rw [UInt64.toNat_add, floor, page, roundUp]
    omega
  · exact absurd both.1 wanted
  · have aligned : head.toNat % 4096 = 0 := by
      by_contra rest
      rw [← low] at rest
      exact both ⟨wanted, fun zero => rest (by rw [zero]; rfl)⟩
    rw [roundUp_of_dvd (by decide) (Nat.dvd_of_mod_eq_zero aligned)]
    exact (Nat.mod_eq_of_lt bound).symm
  · rw [roundUp_of_dvd (by decide) (Nat.one_dvd _)]
    exact (Nat.mod_eq_of_lt bound).symm

/-! ## One call -/

section Requests

variable (pmm : Pmm) (request : BumpRequest)

/-- The aligned head. -/
def BumpRequest.aligned : BumpRequest → UInt64
  | .kmalloc _ => pmm.physMemHead
  | .kmallocA _ align | .kmallocAp _ align => pageAlignedHead pmm.physMemHead align
  | .kmallocAligned _ log => alignedHead pmm.physMemHead (powerOfTwo log)

/-- The head that is compared with the end. -/
def BumpRequest.tested : UInt64 := if request.alignsFirst then request.aligned pmm else pmm.physMemHead

theorem BumpRequest.unit_pos : 0 < request.unit := by
  cases request with
  | kmalloc sz => exact Nat.one_pos
  | kmallocA sz align | kmallocAp sz align =>
      show 0 < if align = 1 then 4096 else 1
      split_ifs <;> decide
  | kmallocAligned sz log => exact Nat.two_pow_pos log.val

theorem BumpRequest.toNat_aligned :
    (request.aligned pmm).toNat = roundUp request.unit pmm.physMemHead.toNat % 18446744073709551616 := by
  cases request with
  | kmalloc sz =>
      show pmm.physMemHead.toNat = roundUp 1 pmm.physMemHead.toNat % 18446744073709551616
      rw [roundUp_of_dvd (by decide) (Nat.one_dvd _)]
      exact (Nat.mod_eq_of_lt pmm.physMemHead.toNat_lt).symm
  | kmallocA sz align | kmallocAp sz align => exact toNat_pageAlignedHead _ align
  | kmallocAligned sz log => exact toNat_alignedHead _ log

theorem BumpRequest.toNat_tested :
    (request.tested pmm).toNat = exactTested pmm request % 18446744073709551616 := by
  rw [tested, exactTested]
  split_ifs
  · exact request.toNat_aligned pmm
  · exact (Nat.mod_eq_of_lt pmm.physMemHead.toNat_lt).symm

/-- The four functions are one, up to the alignment and where it stands. -/
theorem Pmm.bump_eq :
    pmm.bump request =
      if pmm.usableEnd ≤ request.tested pmm then (0, { pmm with physMemHead := request.tested pmm })
      else (request.aligned pmm, { pmm with physMemHead := request.aligned pmm + request.size }) := by
  cases request with
  | kmalloc sz => rfl
  | kmallocA sz align => rfl
  | kmallocAp sz align => rfl
  | kmallocAligned sz log => rfl

end Requests

/-! ## Runs -/

/-- A block returned for a size. -/
structure BumpBlock where
  ptr : UInt64
  size : UInt64
deriving DecidableEq

/-- The memory manager and the blocks that were not freed, the most recent first. -/
structure BumpState where
  pmm : Pmm
  live : List BumpBlock

inductive BumpCall where
  | alloc (request : BumpRequest)
  | kfree (ptr size : UInt64)
deriving DecidableEq

/-- A call. A block is gone when `kfree` takes the head back to it. -/
def BumpState.perform (state : BumpState) : BumpCall → BumpState
  | .alloc request =>
      let (ptr, pmm) := state.pmm.bump request
      ⟨pmm, if ptr = 0 then state.live else ⟨ptr, request.size⟩ :: state.live⟩
  | .kfree ptr size =>
      ⟨Memory.kfree state.pmm ptr size,
        if state.live.head? = some ⟨ptr, size⟩ ∧ ptr + size = state.pmm.physMemHead then state.live.tail else state.live⟩

/-- A non-zero result lies in the usable memory and is aligned; no sum for the head wraps around; and
the head goes down in a `kfree` of the most recent block only. -/
structure SoundBump (before : BumpState) (call : BumpCall) (after : BumpState) : Prop where
  taken : after = before.perform call
  within : ∀ request, call = .alloc request → (before.pmm.bump request).1 ≠ 0 →
    before.pmm.usableStart.toNat ≤ (before.pmm.bump request).1.toNat ∧
      (before.pmm.bump request).1.toNat + request.size.toNat ≤ before.pmm.usableEnd.toNat
  aligned : ∀ request, call = .alloc request → (before.pmm.bump request).1 ≠ 0 →
    request.unit ∣ (before.pmm.bump request).1.toNat
  exact : ∀ request, call = .alloc request → after.pmm.physMemHead.toNat = exactHead before.pmm request
  kept : after.pmm.physMemHead < before.pmm.physMemHead →
    ∃ block, before.live.head? = some block ∧ call = .kfree block.ptr block.size

/-- The head tested does not wrap around, and the request is refused, or the head is 0, or the block
ends in the usable memory. -/
def BumpRequest.Fits (request : BumpRequest) (pmm : Pmm) : Prop :=
  exactTested pmm request < 18446744073709551616 ∧
    (pmm.usableEnd.toNat ≤ exactTested pmm request ∨ pmm.physMemHead = 0 ∨
      roundUp request.unit pmm.physMemHead.toNat + request.size.toNat ≤ pmm.usableEnd.toNat)

/-- A `kfree` changes nothing, or does not take the head down, or has the most recent block. -/
def BumpCall.Fits : BumpCall → BumpState → Prop
  | .alloc request, state => request.Fits state.pmm
  | .kfree ptr size, state =>
      ptr = 0 ∨ ptr + size ≠ state.pmm.physMemHead ∨ state.pmm.physMemHead ≤ ptr ∨ state.live.head? = some ⟨ptr, size⟩

instance (request : BumpRequest) (pmm : Pmm) : Decidable (request.Fits pmm) := inferInstanceAs (Decidable (_ ∧ _))

instance : (call : BumpCall) → (state : BumpState) → Decidable (call.Fits state)
  | .alloc _, _ => inferInstanceAs (Decidable (BumpRequest.Fits _ _))
  | .kfree _ _, _ => inferInstanceAs (Decidable (_ ∨ _))

/-- A call that fits. -/
structure FittingBump (before : BumpState) (call : BumpCall) (after : BumpState) : Prop where
  taken : after = before.perform call
  fits : call.Fits before

/-- The head and the live blocks are not below the start. -/
structure AboveStart (state : BumpState) : Prop where
  head : state.pmm.usableStart.toNat ≤ state.pmm.physMemHead.toNat
  blocks : ∀ block ∈ state.live, state.pmm.usableStart.toNat ≤ block.ptr.toNat

section Steps

variable {before after : BumpState} {request : BumpRequest} {call : BumpCall}

theorem exactTested_le_exactHead (pmm : Pmm) (request : BumpRequest) :
    pmm.physMemHead.toNat ≤ exactTested pmm request ∧ exactTested pmm request ≤ exactHead pmm request := by
  have up := le_roundUp request.unit_pos pmm.physMemHead.toNat
  rw [exactHead]
  unfold exactTested
  split_ifs <;> omega

theorem performed_head (before : BumpState) (request : BumpRequest) :
    (before.perform (.alloc request)).pmm = (before.pmm.bump request).2 :=
  rfl

/-- A sound request fits. -/
theorem BumpRequest.Fits.of_sound (sound : SoundBump before (.alloc request) (before.perform (.alloc request))) :
    request.Fits before.pmm := by
  have exact := sound.exact request rfl
  have tested := request.toNat_tested before.pmm
  have aligned := request.toNat_aligned before.pmm
  have order := exactTested_le_exactHead before.pmm request
  have up := le_roundUp request.unit_pos before.pmm.physMemHead.toNat
  have below := (before.perform (.alloc request)).pmm.physMemHead.toNat_lt
  have whole : exactTested before.pmm request < 18446744073709551616 := by omega
  rw [Nat.mod_eq_of_lt whole] at tested
  refine ⟨whole, ?_⟩
  by_cases refused : before.pmm.usableEnd ≤ request.tested before.pmm
  · have limit := UInt64.le_iff_toNat_le.mp refused
    exact .inl (by omega)
  · have room := UInt64.lt_iff_toNat_lt.mp (UInt64.not_le.mp refused)
    rw [exactHead, if_neg (by omega)] at exact
    rw [Nat.mod_eq_of_lt (by omega)] at aligned
    by_cases zero : request.aligned before.pmm = 0
    · rw [zero, UInt64.toNat_zero] at aligned
      have start : before.pmm.physMemHead.toNat = 0 := by omega
      exact .inr (.inl (UInt64.toNat_inj.mp start))
    · have answer : (before.pmm.bump request).1 = request.aligned before.pmm := by
        rw [Pmm.bump_eq, if_neg refused]
      have within := (sound.within request rfl (by rwa [answer])).2
      rw [answer, aligned] at within
      exact .inr (.inr within)

/-- A request that is refused is sound. -/
theorem soundBump_of_refused (whole : exactTested before.pmm request < 18446744073709551616)
    (refused : before.pmm.usableEnd ≤ request.tested before.pmm) :
    SoundBump before (.alloc request) (before.perform (.alloc request)) := by
  have limit := UInt64.le_iff_toNat_le.mp refused
  have order := exactTested_le_exactHead before.pmm request
  have tested := request.toNat_tested before.pmm
  rw [Nat.mod_eq_of_lt whole] at tested
  have answer : (before.pmm.bump request).1 = 0 := by rw [Pmm.bump_eq, if_pos refused]
  have moved : (before.perform (.alloc request)).pmm.physMemHead = request.tested before.pmm := by
    rw [performed_head, Pmm.bump_eq, if_pos refused]
  refine ⟨rfl, ?_, ?_, ?_, fun less => ?_⟩
  · rintro _ ⟨⟩ nonzero
    exact absurd answer nonzero
  · rintro _ ⟨⟩ nonzero
    exact absurd answer nonzero
  · rintro _ ⟨⟩
    rw [moved, exactHead, if_pos (by omega), tested]
  · rw [moved, UInt64.lt_iff_toNat_lt] at less
    omega

/-- A block that ends in the usable memory, or starts at address 0, is sound. -/
theorem soundBump_of_granted (above : AboveStart before) (whole : exactTested before.pmm request < 18446744073709551616)
    (taken : ¬ before.pmm.usableEnd ≤ request.tested before.pmm)
    (fits : before.pmm.physMemHead = 0 ∨
      roundUp request.unit before.pmm.physMemHead.toNat + request.size.toNat ≤ before.pmm.usableEnd.toNat) :
    SoundBump before (.alloc request) (before.perform (.alloc request)) := by
  have start := above.head
  have up := le_roundUp request.unit_pos before.pmm.physMemHead.toNat
  have bound := before.pmm.usableEnd.toNat_lt
  have small := request.size.toNat_lt
  have room := UInt64.lt_iff_toNat_lt.mp (UInt64.not_le.mp taken)
  have tested := request.toNat_tested before.pmm
  rw [Nat.mod_eq_of_lt whole] at tested
  have origin : before.pmm.physMemHead = 0 → roundUp request.unit before.pmm.physMemHead.toNat = 0 := fun zero => by
    rw [zero, UInt64.toNat_zero, roundUp_of_dvd request.unit_pos (Nat.dvd_zero _)]
  have sums : roundUp request.unit before.pmm.physMemHead.toNat + request.size.toNat < 18446744073709551616 := by
    rcases fits with zero | inside
    · rw [origin zero]
      omega
    · omega
  have aligned := request.toNat_aligned before.pmm
  rw [Nat.mod_eq_of_lt (by omega)] at aligned
  have stop : (request.aligned before.pmm + request.size).toNat =
      roundUp request.unit before.pmm.physMemHead.toNat + request.size.toNat := by
    rw [toNat_add_of_lt (by omega), aligned]
  have answer : (before.pmm.bump request).1 = request.aligned before.pmm := by
    rw [Pmm.bump_eq, if_neg taken]
  have moved : (before.perform (.alloc request)).pmm.physMemHead = request.aligned before.pmm + request.size := by
    rw [performed_head, Pmm.bump_eq, if_neg taken]
  refine ⟨rfl, ?_, ?_, ?_, fun less => ?_⟩
  · rintro _ ⟨⟩ nonzero
    rw [answer] at nonzero
    rw [answer, aligned]
    refine ⟨by omega, fits.resolve_left fun zero => nonzero (UInt64.toNat_inj.mp ?_)⟩
    rw [aligned, origin zero]
    rfl
  · rintro _ ⟨⟩ _
    rw [answer, aligned]
    exact dvd_roundUp _ _
  · rintro _ ⟨⟩
    rw [moved, stop, exactHead, if_neg (by omega)]
  · rw [moved, UInt64.lt_iff_toNat_lt, stop] at less
    omega

/-- A request is sound exactly when it fits. -/
theorem soundBump_alloc_iff (above : AboveStart before) :
    SoundBump before (.alloc request) (before.perform (.alloc request)) ↔ request.Fits before.pmm := by
  refine ⟨.of_sound, ?_⟩
  rintro ⟨whole, fits⟩
  by_cases refused : before.pmm.usableEnd ≤ request.tested before.pmm
  · exact soundBump_of_refused whole refused
  · have room := UInt64.lt_iff_toNat_lt.mp (UInt64.not_le.mp refused)
    rw [request.toNat_tested, Nat.mod_eq_of_lt whole] at room
    exact soundBump_of_granted above whole refused (fits.resolve_left (Nat.not_le.mpr room))

/-- So is a `kfree`. -/
theorem soundBump_kfree_iff {ptr size : UInt64} :
    SoundBump before (.kfree ptr size) (before.perform (.kfree ptr size)) ↔ BumpCall.Fits (.kfree ptr size) before := by
  have head : (before.perform (.kfree ptr size)).pmm = Memory.kfree before.pmm ptr size := rfl
  constructor
  · intro sound
    by_cases null : ptr = 0
    · exact .inl null
    · by_cases last : ptr + size = before.pmm.physMemHead
      · have moved : (before.perform (.kfree ptr size)).pmm.physMemHead = ptr := by
          rw [head, Memory.kfree, if_neg null, if_pos last]
        by_cases less : ptr < before.pmm.physMemHead
        · obtain ⟨⟨ptr', size'⟩, recent, same⟩ := sound.kept (by rwa [moved])
          obtain ⟨rfl, rfl⟩ := BumpCall.kfree.inj same
          exact .inr (.inr (.inr recent))
        · exact .inr (.inr (.inl (UInt64.not_lt.mp less)))
      · exact .inr (.inl last)
  · intro fits
    refine ⟨rfl, fun _ same => (nomatch same), fun _ same => (nomatch same), fun _ same => (nomatch same), fun less => ?_⟩
    rw [head, Memory.kfree] at less
    split_ifs at less with null last
    · exact absurd less (UInt64.lt_irrefl _)
    · rcases fits with zero | other | back | recent
      · exact absurd zero null
      · exact absurd last other
      · exact absurd less (UInt64.not_lt.mpr back)
      · exact ⟨_, recent, rfl⟩
    · exact absurd less (UInt64.lt_irrefl _)

theorem soundBump_iff (above : AboveStart before) :
    SoundBump before call (before.perform call) ↔ call.Fits before := by
  cases call with
  | alloc request => exact soundBump_alloc_iff above
  | kfree ptr size => exact soundBump_kfree_iff

/-- Sound calls stay above the start. -/
theorem AboveStart.step (above : AboveStart before) (sound : SoundBump before call after) : AboveStart after := by
  obtain rfl := sound.taken
  have start := above.head
  cases call with
  | alloc request =>
      have layout : (before.perform (.alloc request)).pmm.usableStart = before.pmm.usableStart := by
        show (before.pmm.bump request).2.usableStart = _
        rw [Pmm.bump_eq]
        split_ifs <;> rfl
      have exact := sound.exact request rfl
      have order := exactTested_le_exactHead before.pmm request
      refine ⟨by rw [layout]; omega, fun block member => ?_⟩
      rw [layout]
      have live : (before.perform (.alloc request)).live = if (before.pmm.bump request).1 = 0 then before.live
          else ⟨(before.pmm.bump request).1, request.size⟩ :: before.live := rfl
      rw [live] at member
      split_ifs at member with null
      · exact above.blocks block member
      · rcases List.mem_cons.mp member with rfl | earlier
        · exact (sound.within request rfl null).1
        · exact above.blocks block earlier
  | kfree ptr size =>
      have layout : (before.perform (.kfree ptr size)).pmm.usableStart = before.pmm.usableStart := by
        show (Memory.kfree before.pmm ptr size).usableStart = _
        rw [Memory.kfree]
        split_ifs <;> rfl
      refine ⟨?_, fun block member => ?_⟩
      · rw [layout]
        by_cases less : (before.perform (.kfree ptr size)).pmm.physMemHead < before.pmm.physMemHead
        · obtain ⟨⟨ptr', size'⟩, recent, same⟩ := sound.kept less
          obtain ⟨rfl, rfl⟩ := BumpCall.kfree.inj same
          have moved : (before.perform (.kfree ptr size)).pmm.physMemHead = ptr := by
            show (Memory.kfree before.pmm ptr size).physMemHead = ptr
            have differs := UInt64.ne_of_lt less
            change (Memory.kfree before.pmm ptr size).physMemHead ≠ _ at differs
            rw [Memory.kfree] at differs ⊢
            split_ifs at differs ⊢ with null last
            · exact absurd rfl differs
            · rfl
            · exact absurd rfl differs
          rw [moved]
          exact above.blocks _ (List.mem_of_head? recent)
        · have kept := UInt64.le_iff_toNat_le.mp (UInt64.not_lt.mp less)
          omega
      · rw [layout]
        have live : (before.perform (.kfree ptr size)).live =
            if before.live.head? = some ⟨ptr, size⟩ ∧ ptr + size = before.pmm.physMemHead then before.live.tail
            else before.live := rfl
        rw [live] at member
        split_ifs at member
        · exact above.blocks block (List.mem_of_mem_tail member)
        · exact above.blocks block member

end Steps

/-- The state that `set_usable_mem` leaves. -/
def BumpState.boot (entries : Option (List MemmapEntry)) (bitmap : Nat → UInt64) : BumpState :=
  ⟨setUsableMem entries (staticPmm bitmap), []⟩

/-- From `set_usable_mem` on every call of a run of calls that fit is sound, and a further call is sound
exactly when it fits. -/
theorem bump_run_sound {entries : Option (List MemmapEntry)} {bitmap : Nat → UInt64} {calls : List BumpCall}
    {state : BumpState} (run : Run FittingBump (BumpState.boot entries bitmap) calls state) :
    Run SoundBump (BumpState.boot entries bitmap) calls state ∧
      ∀ call, SoundBump state call (state.perform call) ↔ call.Fits state := by
  have initial : AboveStart (BumpState.boot entries bitmap) := by
    refine ⟨Nat.le_of_eq ?_, fun _ member => absurd member List.not_mem_nil⟩
    exact congrArg UInt64.toNat (physMemHead_setUsableMem entries bitmap).symm
  obtain ⟨same, sound, rfl, above⟩ := run.simulation (fun state same => same = state ∧ AboveStart state) ⟨rfl, initial⟩
    (by
      rintro before call after _ ⟨rfl, above⟩ step
      have sound := (soundBump_iff above).mpr step.fits
      rw [← step.taken] at sound
      exact ⟨after, sound, rfl, above.step sound⟩)
  exact ⟨sound, fun call => soundBump_iff above⟩

/-- 64 KiB of usable memory from 1 MiB on. -/
def usableMap : List MemmapEntry := [⟨0, 0x9F000, 1⟩, ⟨0x100000, 0x10000, 0⟩]

/-- Two blocks, the second one aligned to a page, which is freed again. -/
theorem bump_run_sound_blocks :
    ∃ state, Run SoundBump (BumpState.boot (some usableMap) fun _ => 0)
        [.alloc (.kmalloc 100), .alloc (.kmallocA 4096 1), .kfree 0x101000 4096] state ∧
      state.live = [⟨0x100000, 100⟩] ∧ state.pmm.physMemHead = 0x101000 := by
  let start := BumpState.boot (some usableMap) fun _ => 0
  let first := start.perform (.alloc (.kmalloc 100))
  let second := first.perform (.alloc (.kmallocA 4096 1))
  have run : Run FittingBump start [.alloc (.kmalloc 100), .alloc (.kmallocA 4096 1), .kfree 0x101000 4096]
      (second.perform (.kfree 0x101000 4096)) :=
    Run.snoc (Run.snoc (Run.snoc .nil ⟨rfl, by decide +kernel⟩) ⟨rfl, by decide +kernel⟩) ⟨rfl, by decide +kernel⟩
  exact ⟨_, (bump_run_sound run).1, by decide +kernel, by decide +kernel⟩

/-- The first `kmalloc` returns a block of 128 KiB in 64 KiB of usable memory. -/
theorem kmalloc_beyond_end :
    ((BumpState.boot (some usableMap) fun _ => 0).pmm.bump (.kmalloc 0x20000)).1 = 0x100000 ∧
      (BumpState.boot (some usableMap) fun _ => 0).pmm.usableEnd = 0x110000 ∧
      ¬ SoundBump (BumpState.boot (some usableMap) fun _ => 0) (.alloc (.kmalloc 0x20000))
        ((BumpState.boot (some usableMap) fun _ => 0).perform (.alloc (.kmalloc 0x20000))) := by
  have start : ((BumpState.boot (some usableMap) fun _ => 0).pmm.bump (.kmalloc 0x20000)).1 = 0x100000 := by
    decide +kernel
  refine ⟨start, by decide +kernel, fun sound => ?_⟩
  have within := (sound.within _ rfl (by rw [start]; decide)).2
  rw [start] at within
  exact absurd within (by decide +kernel)

end KeblaOS.Memory
