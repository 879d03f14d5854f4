import Mathlib.Logic.Function.Basic
import KeblaOS.Memory.HeapGrants

/-!
# Strings from user memory

`copy_from_user` of `int_syscall_manager.c` tests the address of the first byte only, and it tests it with
`is_user_virt_addr`, which takes every address in front of the higher half for one of user mode. The lower half ends
far before the higher half starts.
-/

namespace KeblaOS.Syscall

open Memory (Half)

/-- Memory as the kernel sees it. -/
abbrev UserMemory := UInt64 → UInt8

/-- `is_user_virt_addr`. -/
def isUserVirtAddr (va : UInt64) : Bool := Half.lower.startAddr ≤ va && va < Half.higher.startAddr

/-- `EINVAL`. -/
def einval : Int := 22

/-- `EFAULT`. -/
def efault : Int := 14

/-- What a call leaves: its result, the addresses it has read and the bytes it has copied, both in order, and
memory. -/
structure Copied where
  code : Int
  reads : List UInt64
  bytes : List UInt8
  memory : UserMemory

/-- The loop of `copy_from_user` from index `i` on, with so many bytes left. Every byte is read to be copied and
again to be compared with zero. -/
def copyLoop (kernelDst userSrc : UInt64) : Nat → Nat → UserMemory → List UInt64 × List UInt8 × UserMemory
  | 0, _, memory => ([], [], memory)
  | left + 1, i, memory =>
      let from_ := userSrc + UInt64.ofNat i
      let byte := memory from_
      let memory := Function.update memory (kernelDst + UInt64.ofNat i) byte
      if memory from_ = 0 then ([from_, from_], [byte], memory)
      else
        let (reads, bytes, memory) := copyLoop kernelDst userSrc left (i + 1) memory
        (from_ :: from_ :: reads, byte :: bytes, memory)

/-- `copy_from_user`. -/
def copyFromUser (memory : UserMemory) (kernelDst userSrc maxLen : UInt64) : Copied :=
  if kernelDst = 0 ∨ userSrc = 0 ∨ maxLen = 0 then ⟨-einval, [], [], memory⟩
  else if isUserVirtAddr userSrc = false then ⟨-efault, [], [], memory⟩
  else
    let (reads, bytes, memory) := copyLoop kernelDst userSrc maxLen.toNat 0 memory
    ⟨0, reads, bytes, Function.update memory (kernelDst + maxLen - 1) 0⟩

/-! ## The user half -/

/-- The addresses of user mode, up to `LOWER_HALF_END_ADDR`. -/
def InUserHalf (va : UInt64) : Prop := va ≤ Half.lower.endAddr

instance decidableInUserHalf (va : UInt64) : Decidable (InUserHalf va) := inferInstanceAs (Decidable (_ ≤ _))

/-- The buffer of the kernel is not in user memory. -/
def KernelBuffer (kernelDst maxLen : UInt64) : Prop := ∀ i < maxLen.toNat, ¬ InUserHalf (kernelDst + UInt64.ofNat i)

/-- The range asked for leaves the user half before a zero byte is found. -/
def LeavesUserHalf (memory : UserMemory) (userSrc maxLen : UInt64) : Prop :=
  ∃ i < maxLen.toNat, ¬ InUserHalf (userSrc + UInt64.ofNat i) ∧
    ∀ j < i, memory (userSrc + UInt64.ofNat j) ≠ 0

/-- A call reads user memory only, fails when the range leaves it, and does not depend on other memory. -/
structure ReadsUserHalf (memory : UserMemory) (kernelDst userSrc maxLen : UInt64) : Prop where
  inside : ∀ va ∈ (copyFromUser memory kernelDst userSrc maxLen).reads, InUserHalf va
  fails : LeavesUserHalf memory userSrc maxLen → (copyFromUser memory kernelDst userSrc maxLen).code ≠ 0
  same : ∀ other, (∀ va, InUserHalf va → memory va = other va) →
    (copyFromUser memory kernelDst userSrc maxLen).bytes = (copyFromUser other kernelDst userSrc maxLen).bytes ∧
      (copyFromUser memory kernelDst userSrc maxLen).code = (copyFromUser other kernelDst userSrc maxLen).code

/-- The checks refuse the call. -/
def Refused (kernelDst userSrc maxLen : UInt64) : Prop :=
  kernelDst = 0 ∨ userSrc = 0 ∨ maxLen = 0 ∨ isUserVirtAddr userSrc = false

/-- The first byte is in the user half, and so is the last one of the range or a zero byte of it. -/
def StaysInUserHalf (memory : UserMemory) (userSrc maxLen : UInt64) : Prop :=
  InUserHalf userSrc ∧
    (userSrc.toNat + maxLen.toNat ≤ Half.lower.endAddr.toNat + 1 ∨
      ∃ i < maxLen.toNat, userSrc.toNat + i ≤ Half.lower.endAddr.toNat ∧ memory (userSrc + UInt64.ofNat i) = 0)

section Copy

variable {memory other : UserMemory} {kernelDst userSrc maxLen : UInt64}

theorem copyFromUser_refused (refused : Refused kernelDst userSrc maxLen) :
    ∃ code, code ≠ 0 ∧ ∀ memory, copyFromUser memory kernelDst userSrc maxLen = ⟨code, [], [], memory⟩ := by
  unfold copyFromUser
  by_cases invalid : kernelDst = 0 ∨ userSrc = 0 ∨ maxLen = 0
  · exact ⟨-einval, by decide, fun memory => if_pos invalid⟩
  · have address : isUserVirtAddr userSrc = false := by
      rcases refused with dst | src | length | address
      · exact absurd (.inl dst) invalid
      · exact absurd (.inr (.inl src)) invalid
      · exact absurd (.inr (.inr length)) invalid
      · exact address
    refine ⟨-efault, by decide, fun memory => ?_⟩
    rw [if_neg invalid, if_pos address]

theorem copyFromUser_admitted (admitted : ¬ Refused kernelDst userSrc maxLen) (memory : UserMemory) :
    (copyFromUser memory kernelDst userSrc maxLen).code = 0 ∧
      (copyFromUser memory kernelDst userSrc maxLen).reads = (copyLoop kernelDst userSrc maxLen.toNat 0 memory).1 ∧
      (copyFromUser memory kernelDst userSrc maxLen).bytes = (copyLoop kernelDst userSrc maxLen.toNat 0 memory).2.1 := by
  unfold Refused at admitted
  push Not at admitted
  obtain ⟨dst, src, length, address⟩ := admitted
  have valid : ¬ (kernelDst = 0 ∨ userSrc = 0 ∨ maxLen = 0) := by
    rintro (null | null | zero)
    · exact dst null
    · exact src null
    · exact length zero
  unfold copyFromUser
  rw [if_neg valid, if_neg address]
  exact ⟨rfl, rfl, rfl⟩

/-- A store to the buffer of the kernel leaves user memory alone. -/
theorem update_kernelBuffer {address va : UInt64} (outside : ¬ InUserHalf address) (inside : InUserHalf va)
    (memory : UserMemory) (byte : UInt8) : Function.update memory address byte va = memory va := by
  apply Function.update_of_ne
  rintro rfl
  exact outside inside

/-- The loop from index `i` on reads user memory only, and the same bytes of every memory that has this user half. -/
theorem copyLoop_inside {origin : UserMemory} (left i : Nat)
    (buffer : ∀ k, i ≤ k → k < i + left → ¬ InUserHalf (kernelDst + UInt64.ofNat k))
    (stays : ∀ k, i ≤ k → k < i + left → (∀ j, i ≤ j → j < k → origin (userSrc + UInt64.ofNat j) ≠ 0) →
      InUserHalf (userSrc + UInt64.ofNat k))
    (first : ∀ va, InUserHalf va → memory va = origin va) (second : ∀ va, InUserHalf va → other va = origin va) :
    (∀ va ∈ (copyLoop kernelDst userSrc left i memory).1, InUserHalf va) ∧
      (copyLoop kernelDst userSrc left i memory).2.1 = (copyLoop kernelDst userSrc left i other).2.1 := by
  induction left generalizing i memory other with
  | zero => exact ⟨fun _ impossible => absurd impossible List.not_mem_nil, rfl⟩
  | succ left ih =>
      have here : InUserHalf (userSrc + UInt64.ofNat i) :=
        stays i (Nat.le_refl i) (by omega) fun j above below => absurd above (by omega)
      have outside : ¬ InUserHalf (kernelDst + UInt64.ofNat i) := buffer i (Nat.le_refl i) (by omega)
      unfold copyLoop
      dsimp only
      rw [update_kernelBuffer outside here, update_kernelBuffer outside here, first _ here, second _ here]
      by_cases zero : origin (userSrc + UInt64.ofNat i) = 0
      · rw [if_pos zero, if_pos zero]
        refine ⟨fun va there => ?_, rfl⟩
        simp only [List.mem_cons, List.not_mem_nil, or_false, or_self] at there
        rwa [there]
      · rw [if_neg zero, if_neg zero]
        have later : ∀ k, i + 1 ≤ k → k < i + 1 + left →
            (∀ j, i + 1 ≤ j → j < k → origin (userSrc + UInt64.ofNat j) ≠ 0) →
            InUserHalf (userSrc + UInt64.ofNat k) := by
          intro k above below nonzero
          refine stays k (by omega) (by omega) fun j above' below' => ?_
          rcases Nat.eq_or_lt_of_le above' with rfl | behind
          · exact zero
          · exact nonzero j behind below'
        obtain ⟨reads, bytes⟩ := ih (i + 1) (fun k above below => buffer k (by omega) (by omega)) later
          (fun va inside => (update_kernelBuffer outside inside memory _).trans (first va inside))
          (fun va inside => (update_kernelBuffer outside inside other _).trans (second va inside))
        dsimp only
        refine ⟨fun va there => ?_, congrArg (List.cons _) bytes⟩
        rcases List.mem_cons.mp there with rfl | there
        · exact here
        · rcases List.mem_cons.mp there with rfl | there
          · exact here
          · exact reads va there

/-- The address of a byte that is not behind the end of the address space. -/
theorem toNat_byte {i : Nat} (within : userSrc.toNat + i < 18446744073709551616) :
    (userSrc + UInt64.ofNat i).toNat = userSrc.toNat + i := by
  rw [UInt64.toNat_add, UInt64.toNat_ofNat']
  omega

theorem leavesUserHalf_iff (some_byte : maxLen ≠ 0) :
    LeavesUserHalf memory userSrc maxLen ↔ ¬ StaysInUserHalf memory userSrc maxLen := by
  have positive : maxLen.toNat ≠ 0 := fun zero => some_byte (UInt64.toNat_inj.mp zero)
  have last : Half.lower.endAddr.toNat = 140737488355327 := by decide
  have inside : ∀ va : UInt64, InUserHalf va ↔ va.toNat ≤ 140737488355327 := by
    intro va
    rw [InUserHalf, UInt64.le_iff_toNat_le, last]
  unfold StaysInUserHalf
  rw [last]
  constructor
  · rintro ⟨i, below, outside, nonzero⟩ ⟨starts, ends | ⟨k, below', near, zero⟩⟩
    · rw [inside] at starts outside
      rw [toNat_byte (by omega)] at outside
      omega
    · rw [inside] at starts outside
      have before : i ≤ k := by
        by_contra behind
        exact nonzero k (by omega) zero
      rw [toNat_byte (by omega)] at outside
      omega
  · intro leaves
    by_cases starts : InUserHalf userSrc
    · have start := (inside _).mp starts
      have beyond : ¬ userSrc.toNat + maxLen.toNat ≤ 140737488355327 + 1 := fun ends => leaves ⟨starts, .inl ends⟩
      refine ⟨140737488355328 - userSrc.toNat, by omega, ?_, fun j before zero => ?_⟩
      · rw [inside, toNat_byte (by omega)]
        omega
      · exact leaves ⟨starts, .inr ⟨j, by omega, by omega, zero⟩⟩
    · refine ⟨0, by omega, ?_, fun j before => absurd before (Nat.not_lt_zero j)⟩
      rwa [show UInt64.ofNat 0 = 0 from rfl, UInt64.add_zero]

/-- A call reads user memory only, fails when the range leaves it and does not depend on other memory, exactly when the
checks refuse it, or the range begins in the user half and ends there or has a zero byte there. -/
theorem copyFromUser_readsUserHalf_iff (memory : UserMemory) (buffer : KernelBuffer kernelDst maxLen) :
    ReadsUserHalf memory kernelDst userSrc maxLen ↔
      Refused kernelDst userSrc maxLen ∨ StaysInUserHalf memory userSrc maxLen := by
  by_cases refused : Refused kernelDst userSrc maxLen
  · obtain ⟨code, failed, same⟩ := copyFromUser_refused refused
    refine iff_of_true ⟨?_, ?_, ?_⟩ (.inl refused)
    · rw [same memory]
      exact fun _ impossible => absurd impossible List.not_mem_nil
    · intro _
      rw [same memory]
      exact failed
    · intro other _
      rw [same memory, same other]
      exact ⟨rfl, rfl⟩
  · obtain ⟨code, reads, bytes⟩ := copyFromUser_admitted refused memory
    have some_byte : maxLen ≠ 0 := fun zero => refused (.inr (.inr (.inl zero)))
    constructor
    · intro readsUser
      by_contra outside
      exact readsUser.fails ((leavesUserHalf_iff some_byte).mpr fun stays => outside (.inr stays)) code
    · rintro (impossible | stays)
      · exact absurd impossible refused
      · have never : ¬ LeavesUserHalf memory userSrc maxLen := fun leaves =>
          (leavesUserHalf_iff some_byte).mp leaves stays
        have inside : ∀ k, 0 ≤ k → k < 0 + maxLen.toNat →
            (∀ j, 0 ≤ j → j < k → memory (userSrc + UInt64.ofNat j) ≠ 0) → InUserHalf (userSrc + UInt64.ofNat k) := by
          intro k _ below nonzero
          by_contra outside
          exact never ⟨k, by omega, outside, fun j before => nonzero j (Nat.zero_le j) before⟩
        have loop := fun (other : UserMemory) => @copyLoop_inside memory other kernelDst userSrc memory maxLen.toNat 0
          (fun k _ below => buffer k (by omega)) inside fun _ _ => rfl
        refine ⟨?_, fun leaves => absurd leaves never, fun other same => ?_⟩
        · rw [reads]
          exact (loop memory fun _ _ => rfl).1
        · obtain ⟨code', _, bytes'⟩ := copyFromUser_admitted refused other
          rw [code, code', bytes, bytes']
          exact ⟨(loop other fun va inside => (same va inside).symm).2, rfl⟩

end Copy

/-- Memory with this byte in the higher half and zero bytes in user memory. -/
def kernelSecret (byte : UInt8) : UserMemory := fun va => if InUserHalf va then 0 else byte

/-- The first page of the higher half passes the test of the address: its bytes are copied. -/
theorem copyFromUser_reads_kernel_page :
    KernelBuffer 0xFFFFC00000000000 2 ∧
      (copyFromUser (kernelSecret 0x41) 0xFFFFC00000000000 0xFFFF800000000800 2).code = 0 ∧
      (copyFromUser (kernelSecret 0x41) 0xFFFFC00000000000 0xFFFF800000000800 2).bytes = [0x41, 0x41] ∧
      (copyFromUser (kernelSecret 0x42) 0xFFFFC00000000000 0xFFFF800000000800 2).bytes = [0x42, 0x42] ∧
      ¬ ReadsUserHalf (kernelSecret 0x41) 0xFFFFC00000000000 0xFFFF800000000800 2 := by
  have first : (copyFromUser (kernelSecret 0x41) 0xFFFFC00000000000 0xFFFF800000000800 2).bytes = [0x41, 0x41] := by
    decide
  have second : (copyFromUser (kernelSecret 0x42) 0xFFFFC00000000000 0xFFFF800000000800 2).bytes = [0x42, 0x42] := by
    decide
  refine ⟨?_, by decide, first, second, fun reads => ?_⟩
  · unfold KernelBuffer
    decide
  · have same := (reads.same (kernelSecret 0x42) fun va inside => ?_).1
    · rw [first, second] at same
      exact absurd same (by decide)
    · unfold kernelSecret
      rw [if_pos inside, if_pos inside]

/-- A range in user memory. -/
theorem copyFromUser_readsUserHalf_range : ReadsUserHalf (kernelSecret 0x41) 0xFFFFC00000000000 0x400000 16 :=
  (copyFromUser_readsUserHalf_iff (kernelSecret 0x41) (by unfold KernelBuffer; decide)).mpr
    (.inr ⟨by decide, .inl (by decide)⟩)

end KeblaOS.Syscall
