import Mathlib.Data.Nat.Bitwise
import Mathlib.Logic.Function.Iterate

/-!
# Functions that carry XOR to XOR

Natural numbers stand for vectors of bits. A function that carries XOR to XOR is known from its values on the
powers of two, its columns: `independent` eliminates one column after the other, and where it finds no zero
column, only zero is taken to zero.
-/

namespace KeblaOS

/-- The function carries XOR to XOR. -/
def XorLinear (f : Nat → Nat) : Prop := ∀ x y, f (x ^^^ y) = f x ^^^ f y

variable {f g : Nat → Nat} {x y : Nat}

theorem xor_eq_zero_iff : x ^^^ y = 0 ↔ x = y := by
  constructor
  · intro zero
    calc x = x ^^^ y ^^^ y := (Nat.xor_xor_cancel_right x y).symm
      _ = y := by rw [zero, Nat.zero_xor]
  · rintro rfl
    exact Nat.xor_self x

/-- Two pairs are combined in either order. -/
theorem xor_xor_xor_comm (a b c d : Nat) : a ^^^ b ^^^ (c ^^^ d) = a ^^^ c ^^^ (b ^^^ d) := by
  rw [Nat.xor_assoc, Nat.xor_assoc, ← Nat.xor_assoc b, Nat.xor_comm b c, Nat.xor_assoc c]

theorem two_pow_mul_xor (n x y : Nat) : 2 ^ n * (x ^^^ y) = 2 ^ n * x ^^^ 2 ^ n * y := by
  apply Nat.eq_of_testBit_eq
  intro i
  simp only [Nat.testBit_two_pow_mul, Nat.testBit_xor, Bool.and_xor_distrib_left]

/-- What lies below a power of two and what lies above do not meet. -/
theorem xor_two_pow_mul {low n : Nat} (below : low < 2 ^ n) (high : Nat) : low ^^^ 2 ^ n * high = low + 2 ^ n * high := by
  apply Nat.eq_of_testBit_eq
  intro i
  rw [Nat.add_comm, Nat.testBit_two_pow_mul_add high below, Nat.testBit_xor, Nat.testBit_two_pow_mul]
  split_ifs with inside
  · rw [decide_eq_false (by omega), Bool.false_and, Bool.xor_false]
  · have above : low.testBit i = false :=
      Nat.testBit_lt_two_pow (below.trans_le (Nat.pow_le_pow_right Nat.two_pos (by omega)))
    rw [above, decide_eq_true (by omega), Bool.true_and, Bool.false_xor]

namespace XorLinear

theorem map_zero (linear : XorLinear f) : f 0 = 0 := by
  have twice := linear 0 0
  rwa [Nat.xor_self, Nat.xor_self] at twice

theorem id : XorLinear fun x => x := fun _ _ => rfl

theorem comp (outer : XorLinear f) (inner : XorLinear g) : XorLinear fun x => f (g x) := by
  intro x y
  calc f (g (x ^^^ y)) = f (g x ^^^ g y) := by rw [inner]
    _ = f (g x) ^^^ f (g y) := outer _ _

theorem xor (left : XorLinear f) (right : XorLinear g) : XorLinear fun x => f x ^^^ g x := by
  intro x y
  calc f (x ^^^ y) ^^^ g (x ^^^ y) = f x ^^^ f y ^^^ (g x ^^^ g y) := by rw [left, right]
    _ = f x ^^^ g x ^^^ (f y ^^^ g y) := xor_xor_xor_comm _ _ _ _

theorem iterate (linear : XorLinear f) (count : Nat) : XorLinear f^[count] := by
  induction count with
  | zero => exact id
  | succ count ih => exact ih.comp linear

theorem div_two_pow (n : Nat) : XorLinear fun x => x / 2 ^ n := fun _ _ => Nat.xor_div_two_pow

theorem mod_two_pow (n : Nat) : XorLinear fun x => x % 2 ^ n := fun _ _ => Nat.xor_mod_two_pow

theorem two_pow_mul (n : Nat) : XorLinear fun x => 2 ^ n * x := two_pow_mul_xor n

/-- A value that is added if one bit of the argument is set. -/
theorem guarded (bit value : Nat) : XorLinear fun x => x / 2 ^ bit % 2 * value := by
  intro x y
  have bits : (x ^^^ y) / 2 ^ bit % 2 = x / 2 ^ bit % 2 ^^^ y / 2 ^ bit % 2 := by
    rw [Nat.xor_div_two_pow]
    exact Nat.xor_mod_two_pow (n := 1)
  rcases Nat.mod_two_eq_zero_or_one (x / 2 ^ bit) with left | left <;>
    rcases Nat.mod_two_eq_zero_or_one (y / 2 ^ bit) with right | right <;>
    simp [bits, left, right]

theorem map_bit (linear : XorLinear f) (x value : Nat) : f (x % 2 * value) = x % 2 * f value := by
  rcases Nat.mod_two_eq_zero_or_one x with even | odd
  · rw [even, Nat.zero_mul, Nat.zero_mul, linear.map_zero]
  · rw [odd, Nat.one_mul, Nat.one_mul]

end XorLinear

/-! ## Columns -/

/-- The values of `f` on the first `count` powers of two. -/
def bitColumns : Nat → (Nat → Nat) → List Nat
  | 0, _ => []
  | count + 1, f => f 1 :: bitColumns count fun x => f (2 * x)

/-- The XOR of the values whose bits are set. -/
def combine : List Nat → Nat → Nat
  | [], _ => 0
  | value :: rest, x => x % 2 * value ^^^ combine rest (x / 2)

theorem length_bitColumns (count : Nat) (f : Nat → Nat) : (bitColumns count f).length = count := by
  induction count generalizing f with
  | zero => rfl
  | succ count ih => rw [bitColumns, List.length_cons, ih]

theorem bitColumns_congr {count : Nat} (same : ∀ x < 2 ^ count, f x = g x) : bitColumns count f = bitColumns count g := by
  induction count generalizing f g with
  | zero => rfl
  | succ count ih =>
      have first : f 1 = g 1 := same 1 (Nat.one_lt_two_pow (Nat.succ_ne_zero count))
      have others := ih fun x small => same (2 * x) (by omega)
      rw [bitColumns, bitColumns, first, others]

theorem combine_zero (values : List Nat) : combine values 0 = 0 := by
  induction values with
  | nil => rfl
  | cons value rest ih => rw [combine, Nat.zero_mod, Nat.zero_mul, Nat.zero_div, ih, Nat.xor_self]

/-- The lowest bit and the others. -/
theorem lowest_xor_double (x : Nat) : x % 2 * 1 ^^^ 2 * (x / 2) = x :=
  calc x % 2 * 1 ^^^ 2 ^ 1 * (x / 2) = x % 2 * 1 + 2 ^ 1 * (x / 2) := xor_two_pow_mul (by omega) _
    _ = x := by omega

/-- The columns determine the function. -/
theorem combine_bitColumns {count : Nat} (linear : XorLinear f) (small : x < 2 ^ count) :
    combine (bitColumns count f) x = f x := by
  induction count generalizing f x with
  | zero =>
      obtain rfl : x = 0 := by simpa using small
      exact linear.map_zero.symm
  | succ count ih =>
      have double : XorLinear fun x => f (2 * x) := linear.comp (XorLinear.two_pow_mul 1)
      rw [bitColumns, combine, ih double (by omega)]
      calc x % 2 * f 1 ^^^ f (2 * (x / 2)) = f (x % 2 * 1 ^^^ 2 * (x / 2)) := by rw [linear, linear.map_bit]
        _ = f x := by rw [lowest_xor_double]

/-! ## Elimination -/

/-- `value` is added where its highest bit is set. -/
def eliminate (value x : Nat) : Nat := x ^^^ x / 2 ^ value.log2 % 2 * value

/-- No column, reduced by those before it, is zero. -/
def independent (reduce : Nat → Nat) : List Nat → Bool
  | [] => true
  | value :: rest => reduce value != 0 && independent (fun x => eliminate (reduce value) (reduce x)) rest

theorem eliminate_linear (value : Nat) : XorLinear (eliminate value) :=
  XorLinear.id.xor (XorLinear.guarded value.log2 value)

theorem eliminate_self {value : Nat} (nonzero : value ≠ 0) : eliminate value value = 0 := by
  have highest : value / 2 ^ value.log2 % 2 = 1 := by
    simpa [Nat.testBit_eq_decide_div_mod_eq] using Nat.testBit_log2 nonzero
  rw [eliminate, highest, Nat.one_mul, Nat.xor_self]

/-- Reduced columns that passed the elimination combine to zero in one way. -/
theorem eq_zero_of_independent {reduce : Nat → Nat} {values : List Nat} (linear : XorLinear reduce)
    (passed : independent reduce values) (small : x < 2 ^ values.length) (zero : reduce (combine values x) = 0) :
    x = 0 := by
  induction values generalizing reduce x with
  | nil => simpa using small
  | cons value rest ih =>
      rw [independent, Bool.and_eq_true, bne_iff_ne] at passed
      obtain ⟨nonzero, passed⟩ := passed
      rw [List.length_cons, Nat.pow_succ] at small
      rw [combine, linear, linear.map_bit, xor_eq_zero_iff] at zero
      -- whether or not the first column takes part, it is eliminated from the sum of the others
      have eliminated : eliminate (reduce value) (reduce (combine rest (x / 2))) = 0 := by
        rw [← zero, (eliminate_linear _).map_bit, eliminate_self nonzero, Nat.mul_zero]
      have others : x / 2 = 0 := ih ((eliminate_linear _).comp linear) passed (by omega) eliminated
      rw [others, combine_zero, linear.map_zero] at zero
      have even : x % 2 = 0 := (Nat.mul_eq_zero.mp zero).resolve_right nonzero
      omega

/-- Where the columns are independent, only zero is taken to zero. -/
theorem XorLinear.eq_zero {count : Nat} (linear : XorLinear f) (passed : independent (fun x => x) (bitColumns count f))
    (small : x < 2 ^ count) (zero : f x = 0) : x = 0 := by
  apply eq_zero_of_independent XorLinear.id passed
  · rwa [length_bitColumns]
  · rwa [combine_bitColumns linear small]

/-- Where the columns are independent once a mark of the argument is put above them, the mark tells the arguments
taken to zero apart. -/
theorem XorLinear.eq_of_marked {count width : Nat} {mark : Nat → Nat} (linear : XorLinear f) (marks : XorLinear mark)
    (passed : independent (fun x => x) (bitColumns count fun x => f x ^^^ 2 ^ width * mark x))
    (small : x < 2 ^ count) (small' : y < 2 ^ count) (zero : f x = 0) (zero' : f y = 0) (same : mark x = mark y) :
    x = y := by
  have above : XorLinear fun x => 2 ^ width * mark x := (XorLinear.two_pow_mul width).comp marks
  apply xor_eq_zero_iff.mp
  apply (linear.xor above).eq_zero passed (Nat.xor_lt_two_pow small small')
  rw [linear, zero, zero', marks, same, Nat.xor_self, Nat.xor_self, Nat.mul_zero, Nat.xor_self]

end KeblaOS
