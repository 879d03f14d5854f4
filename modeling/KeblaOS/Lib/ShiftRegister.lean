import Mathlib.Data.List.Basic
import Mathlib.Tactic.Ring
import KeblaOS.Lib.XorLinear

/-!
# Shift registers with feedback

A register moves its bits down by one place and adds a constant whenever a one falls out. Symbols are added to
it one after the other, with `width` shifts behind each. The register a message ends in is linear in the message
read as one number, and a difference that is no wider than the register is never lost.
-/

namespace KeblaOS

/-- One shift. -/
def registerShift (feedback x : Nat) : Nat := x / 2 ^^^ x % 2 * feedback

/-- The register behind a message. -/
def absorb (feedback width : Nat) (register : Nat) (message : List Nat) : Nat :=
  message.foldl (fun register symbol => (registerShift feedback)^[width] (register ^^^ symbol)) register

/-- The symbols as one number, the first one lowest. -/
def packed (width : Nat) : List Nat → Nat
  | [] => 0
  | symbol :: rest => symbol ^^^ 2 ^ width * packed width rest

section Shift

variable {feedback x : Nat}

theorem registerShift_linear (feedback : Nat) : XorLinear (registerShift feedback) := by
  have halves : XorLinear fun x => x / 2 := XorLinear.div_two_pow 1
  have fed : XorLinear fun x => x % 2 * feedback := by simpa using XorLinear.guarded 0 feedback
  exact halves.xor fed

theorem registerShift_double (x : Nat) : registerShift feedback (2 * x) = x := by
  rw [registerShift, Nat.mul_mod_right, Nat.zero_mul, Nat.xor_zero, Nat.mul_div_cancel_left x Nat.two_pos]

theorem iterate_registerShift_two_pow_mul (count x : Nat) :
    (registerShift feedback)^[count] (2 ^ count * x) = x := by
  induction count with
  | zero => rw [Nat.pow_zero, Nat.one_mul, Function.iterate_zero_apply]
  | succ count ih =>
      have double : 2 ^ (count + 1) * x = 2 * (2 ^ count * x) := by ring
      rw [Function.iterate_succ_apply, double, registerShift_double, ih]

variable {bits : Nat}

/-- A register of `bits + 1` bits with the feedback constant's highest bit in its highest place. -/
structure Feedback (feedback bits : Nat) : Prop where
  highest : 2 ^ bits ≤ feedback
  inside : feedback < 2 ^ (bits + 1)

theorem Feedback.shift_lt (valid : Feedback feedback bits) (small : x < 2 ^ (bits + 1)) :
    registerShift feedback x < 2 ^ (bits + 1) := by
  apply Nat.xor_lt_two_pow
  · omega
  · rcases Nat.mod_two_eq_zero_or_one x with even | odd
    · rw [even, Nat.zero_mul]
      exact Nat.two_pow_pos _
    · rw [odd, Nat.one_mul]
      exact valid.inside

/-- The shift takes no value but zero to zero. -/
theorem Feedback.shift_ne_zero (valid : Feedback feedback bits) (small : x < 2 ^ (bits + 1)) (nonzero : x ≠ 0) :
    registerShift feedback x ≠ 0 := by
  intro zero
  have highest := valid.highest
  have halves := xor_eq_zero_iff.mp zero
  rw [Nat.pow_succ] at small
  rcases Nat.mod_two_eq_zero_or_one x with even | odd
  · rw [even, Nat.zero_mul] at halves
    omega
  · rw [odd, Nat.one_mul] at halves
    omega

theorem Feedback.iterate_ne_zero (valid : Feedback feedback bits) (count : Nat) (small : x < 2 ^ (bits + 1))
    (nonzero : x ≠ 0) : (registerShift feedback)^[count] x ≠ 0 := by
  induction count generalizing x with
  | zero => exact nonzero
  | succ count ih => exact ih (valid.shift_lt small) (valid.shift_ne_zero small nonzero)

end Shift

/-! ## Messages as numbers -/

section Packed

variable {width : Nat} {message message' : List Nat}

theorem packed_append (front rest : List Nat) :
    packed width (front ++ rest) = packed width front ^^^ 2 ^ (width * front.length) * packed width rest := by
  induction front with
  | nil => rw [List.nil_append, packed, List.length_nil, Nat.mul_zero, Nat.pow_zero, Nat.one_mul, Nat.zero_xor]
  | cons symbol front ih =>
      have shift (x : Nat) : 2 ^ width * (2 ^ (width * front.length) * x) = 2 ^ (width * (front.length + 1)) * x := by
        ring
      rw [List.cons_append, packed, packed, ih, two_pow_mul_xor, shift, Nat.xor_assoc, List.length_cons]

theorem packed_lt (small : ∀ symbol ∈ message, symbol < 2 ^ width) :
    packed width message < 2 ^ (width * message.length) := by
  induction message with
  | nil => exact Nat.two_pow_pos _
  | cons symbol rest ih =>
      rw [List.forall_mem_cons] at small
      have total : width * (rest.length + 1) = width + width * rest.length := by ring
      rw [packed, List.length_cons, total]
      apply Nat.xor_lt_two_pow
      · exact small.1.trans_le (Nat.pow_le_pow_right Nat.two_pos (Nat.le_add_right _ _))
      · rw [Nat.pow_add]
        exact Nat.mul_lt_mul_of_pos_left (ih small.2) (Nat.two_pow_pos width)

theorem packed_zeros (zeros : ∀ symbol ∈ message, symbol = 0) : packed width message = 0 := by
  induction message with
  | nil => rfl
  | cons symbol rest ih =>
      rw [List.forall_mem_cons] at zeros
      rw [packed, zeros.1, ih zeros.2, Nat.mul_zero, Nat.xor_self]

/-- Messages of one length and symbols of `width` bits are told apart by their numbers. -/
theorem packed_injective (same : message.length = message'.length) (small : ∀ symbol ∈ message, symbol < 2 ^ width)
    (small' : ∀ symbol ∈ message', symbol < 2 ^ width) (equal : packed width message = packed width message') :
    message = message' := by
  induction message generalizing message' with
  | nil => exact (List.length_eq_zero_iff.mp same.symm).symm
  | cons symbol rest ih =>
      cases message' with
      | nil => exact absurd same (Nat.succ_ne_zero _)
      | cons symbol' rest' =>
          rw [List.forall_mem_cons] at small small'
          rw [List.length_cons, List.length_cons, Nat.succ_inj] at same
          rw [packed, packed] at equal
          have low (symbol x : Nat) (bound : symbol < 2 ^ width) : (symbol ^^^ 2 ^ width * x) % 2 ^ width = symbol := by
            rw [Nat.xor_mod_two_pow, Nat.mod_eq_of_lt bound, Nat.mul_mod_right, Nat.xor_zero]
          have high (symbol x : Nat) (bound : symbol < 2 ^ width) : (symbol ^^^ 2 ^ width * x) / 2 ^ width = x := by
            rw [Nat.xor_div_two_pow, Nat.div_eq_of_lt bound, Nat.mul_div_cancel_left x (Nat.two_pow_pos width),
              Nat.zero_xor]
          have first : symbol = symbol' := by rw [← low symbol _ small.1, equal, low symbol' _ small'.1]
          have others : packed width rest = packed width rest' := by
            rw [← high symbol (packed width rest) small.1, equal, high symbol' _ small'.1]
          rw [first, ih same small.2 small'.2 others]

theorem packed_xor (same : message.length = message'.length) :
    packed width message ^^^ packed width message' = packed width (List.zipWith (· ^^^ ·) message message') := by
  induction message generalizing message' with
  | nil =>
      obtain rfl := List.length_eq_zero_iff.mp same.symm
      exact Nat.xor_self 0
  | cons symbol rest ih =>
      cases message' with
      | nil => exact absurd same (Nat.succ_ne_zero _)
      | cons symbol' rest' =>
          rw [List.zipWith_cons_cons, packed, packed, packed, ← ih (Nat.succ.inj same),
            two_pow_mul_xor, xor_xor_xor_comm]

/-- Symbols that are zero outside of a window are a number no wider than the window, moved to its start. -/
theorem packed_window {start span : Nat} (inside : start ≤ message.length)
    (zeros : ∀ i symbol, message[i]? = some symbol → i < start ∨ start + span ≤ i → symbol = 0) :
    packed width message = 2 ^ (width * start) * packed width ((message.drop start).take span) := by
  have front : packed width (message.take start) = 0 := by
    apply packed_zeros
    intro symbol member
    obtain ⟨i, found⟩ := List.mem_iff_getElem?.mp member
    rw [List.getElem?_take] at found
    split_ifs at found with before
    exact zeros i symbol found (.inl before)
  have behind : packed width ((message.drop start).drop span) = 0 := by
    apply packed_zeros
    intro symbol member
    obtain ⟨i, found⟩ := List.mem_iff_getElem?.mp member
    rw [List.drop_drop, List.getElem?_drop] at found
    exact zeros _ symbol found (.inr (by omega))
  have length : (message.take start).length = start := List.length_take_of_le inside
  conv_lhs => rw [← List.take_append_drop start message, ← List.take_append_drop span (message.drop start)]
  rw [packed_append, packed_append, front, behind, length, Nat.mul_zero, Nat.xor_zero, Nat.zero_xor]

end Packed

/-! ## Registers behind messages -/

section Absorb

variable {feedback width register : Nat} {message message' : List Nat}

/-- The message is shifted through as one number. -/
theorem absorb_eq (message : List Nat) : absorb feedback width register message =
    (registerShift feedback)^[width * message.length] (register ^^^ packed width message) := by
  induction message generalizing register with
  | nil => rw [packed, Nat.xor_zero, List.length_nil, Nat.mul_zero]; rfl
  | cons symbol rest ih =>
      have linear := (registerShift_linear feedback).iterate width
      have step : absorb feedback width register (symbol :: rest) =
          absorb feedback width ((registerShift feedback)^[width] (register ^^^ symbol)) rest := rfl
      -- the rest of the message enters with the first symbol, `width` places higher
      have together : (registerShift feedback)^[width] (register ^^^ symbol) ^^^ packed width rest =
          (registerShift feedback)^[width] (register ^^^ packed width (symbol :: rest)) := by
        rw [packed, ← Nat.xor_assoc, linear (register ^^^ symbol), iterate_registerShift_two_pow_mul]
      rw [step, ih, together, ← Function.iterate_add_apply, List.length_cons, Nat.mul_succ]

theorem absorb_xor (same : message.length = message'.length) :
    absorb feedback width register message ^^^ absorb feedback width register message' =
      (registerShift feedback)^[width * message.length] (packed width message ^^^ packed width message') := by
  have linear := (registerShift_linear feedback).iterate (width * message.length)
  rw [absorb_eq, absorb_eq, ← same, ← linear, xor_xor_xor_comm, Nat.xor_self, Nat.zero_xor]

end Absorb

/-! ## Bursts -/

/-- Two lists of one length that differ, and only at positions of a window. -/
structure Burst {α : Type*} (list list' : List α) (start span : Nat) : Prop where
  same : list.length = list'.length
  differ : list ≠ list'
  within : ∀ i, list[i]? ≠ list'[i]? → start ≤ i ∧ i < start + span

namespace Burst

section Lists

variable {α β : Type*} {list list' : List α} {start span : Nat}

theorem map {f : α → β} (burst : Burst list list' start span) (injective : Function.Injective f) :
    Burst (list.map f) (list'.map f) start span where
  same := by rw [List.length_map, List.length_map, burst.same]
  differ := fun equal => burst.differ (List.map_injective_iff.mpr injective equal)
  within := by
    intro i differs
    apply burst.within i
    intro equal
    apply differs
    rw [List.getElem?_map, List.getElem?_map, equal]

/-- The window starts inside the lists. -/
theorem start_lt (burst : Burst list list' start span) : start < list.length := by
  by_contra outside
  apply burst.differ
  apply List.ext_getElem?
  intro i
  by_contra differs
  have window := burst.within i differs
  have same := burst.same
  rw [List.getElem?_eq_none (by omega), List.getElem?_eq_none (by omega)] at differs
  exact differs rfl

end Lists

variable {feedback width start span bits register : Nat} {message message' : List Nat}

/-- The symbols of two messages differ only inside of the window. -/
theorem changes_zero (burst : Burst message message' start span) {i symbol : Nat}
    (found : (List.zipWith (· ^^^ ·) message message')[i]? = some symbol) (outside : i < start ∨ start + span ≤ i) :
    symbol = 0 := by
  rw [List.getElem?_zipWith_eq_some] at found
  obtain ⟨a, b, first, second, rfl⟩ := found
  by_contra differs
  rw [xor_eq_zero_iff] at differs
  have window := burst.within i (by rw [first, second]; exact fun both => differs (Option.some.inj both))
  omega

/-- The difference of two messages is a number no wider than the window, moved to its start. -/
theorem packed_xor (burst : Burst message message' start span) (small : ∀ symbol ∈ message, symbol < 2 ^ width)
    (small' : ∀ symbol ∈ message', symbol < 2 ^ width) :
    ∃ change, change ≠ 0 ∧ change < 2 ^ (width * span) ∧
      packed width message ^^^ packed width message' = 2 ^ (width * start) * change := by
  let changes := List.zipWith (· ^^^ ·) message message'
  have bound : ∀ symbol ∈ changes, symbol < 2 ^ width := by
    intro symbol member
    obtain ⟨i, found⟩ := List.mem_iff_getElem?.mp member
    rw [List.getElem?_zipWith_eq_some] at found
    obtain ⟨a, b, first, second, rfl⟩ := found
    exact Nat.xor_lt_two_pow (small a (List.mem_of_getElem? first)) (small' b (List.mem_of_getElem? second))
  have inside : start ≤ changes.length := by
    have before := burst.start_lt
    rw [List.length_zipWith, ← burst.same]
    omega
  have whole : packed width changes = 2 ^ (width * start) * packed width ((changes.drop start).take span) :=
    packed_window inside fun i symbol found outside => burst.changes_zero found outside
  have equal : packed width message ^^^ packed width message' = packed width changes := KeblaOS.packed_xor burst.same
  refine ⟨packed width ((changes.drop start).take span), ?_, ?_, equal.trans whole⟩
  · intro zero
    rw [zero, Nat.mul_zero, ← equal, xor_eq_zero_iff] at whole
    exact burst.differ (packed_injective burst.same small small' whole)
  · apply (packed_lt fun symbol member => bound symbol (List.mem_of_mem_drop (List.mem_of_mem_take member))).trans_le
    apply Nat.pow_le_pow_right Nat.two_pos
    exact Nat.mul_le_mul_left width (List.length_take_le _ _)

/-- A difference no wider than the register leaves different registers behind. -/
theorem absorb_ne (burst : Burst message message' start span) (valid : Feedback feedback bits)
    (fits : width * span ≤ bits + 1) (small : ∀ symbol ∈ message, symbol < 2 ^ width)
    (small' : ∀ symbol ∈ message', symbol < 2 ^ width) :
    absorb feedback width register message ≠ absorb feedback width register message' := by
  obtain ⟨change, nonzero, narrow, equal⟩ := burst.packed_xor small small'
  have inside := burst.start_lt
  have places : width * message.length = width * (message.length - start) + width * start := by
    rw [← Nat.mul_add]
    congr 1
    omega
  intro same
  have zero := xor_eq_zero_iff.mpr same
  rw [absorb_xor burst.same, equal, places, Function.iterate_add_apply, iterate_registerShift_two_pow_mul] at zero
  have wide : change < 2 ^ (bits + 1) := narrow.trans_le (Nat.pow_le_pow_right Nat.two_pos fits)
  exact valid.iterate_ne_zero _ wide nonzero zero

end Burst

end KeblaOS
