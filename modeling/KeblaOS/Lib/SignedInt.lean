import Mathlib.Algebra.Group.Nat.Defs
import Mathlib.Data.Int.Basic

/-!
# Arithmetic without overflow

Sums, differences, products and negatives of 32-bit numbers are those of the integers as long as these
fit into 32 bits, and so are the values of numbers that are converted to 32 bits.
-/

namespace KeblaOS

/-- The integer is the value of a 32-bit number. -/
def FitsInt (value : Int) : Prop := -2147483648 ≤ value ∧ value < 2147483648

namespace FitsInt

variable {a b : Int32}

theorem bmod_eq {value : Int} (fits : FitsInt value) : value.bmod (2 ^ 32) = value :=
  Int.bmod_eq_of_le_mul_two (by have := fits.1; omega) (by have := fits.2; omega)

theorem toInt_add (fits : FitsInt (a.toInt + b.toInt)) : (a + b).toInt = a.toInt + b.toInt := by
  rw [Int32.toInt_add, fits.bmod_eq]

theorem toInt_sub (fits : FitsInt (a.toInt - b.toInt)) : (a - b).toInt = a.toInt - b.toInt := by
  rw [Int32.toInt_sub, fits.bmod_eq]

theorem toInt_mul (fits : FitsInt (a.toInt * b.toInt)) : (a * b).toInt = a.toInt * b.toInt := by
  rw [Int32.toInt_mul, fits.bmod_eq]

theorem toInt_neg (fits : FitsInt (-a.toInt)) : (-a).toInt = -a.toInt := by
  rw [Int32.toInt_neg, fits.bmod_eq]

end FitsInt

/-- A number is reached by adding its distance. -/
theorem toInt_add_distance {a : Int32} {target : Nat} (behind : a.toInt ≤ target) (small : target < 2 ^ 31) :
    (a + Int32.ofNat (target - a.toInt).toNat).toInt = target := by
  have distance : a.toInt + ((target - a.toInt).toNat : Int) = target := by omega
  rw [Int32.toInt_add, Int32.toInt_ofNat', Int.add_bmod_bmod, distance]
  exact FitsInt.bmod_eq ⟨by omega, by omega⟩

/-- Clearing bits of a number that is not negative. -/
theorem toInt_and_le {a : Int32} (b : Int32) (nonnegative : 0 ≤ a.toInt) :
    0 ≤ (a &&& b).toInt ∧ (a &&& b).toInt ≤ a.toInt := by
  have value : ∀ c : Int32, c.toInt = (c.toBitVec.toNat : Int).bmod (2 ^ 32) := fun c =>
    BitVec.toInt_eq_toNat_bmod c.toBitVec
  have less : (a &&& b).toBitVec.toNat ≤ a.toBitVec.toNat := Nat.and_le_left
  have small := a.toBitVec.isLt
  have low : a.toBitVec.toNat < 2 ^ 31 := by
    by_contra high
    have wrapped : (a.toBitVec.toNat : Int) = a.toBitVec.toNat - 2 ^ 32 + (2 ^ 32 : Nat) := by omega
    rw [value, wrapped, Int.add_bmod_right, FitsInt.bmod_eq ⟨by omega, by omega⟩] at nonnegative
    omega
  rw [value a, value (a &&& b), FitsInt.bmod_eq ⟨by omega, by omega⟩, FitsInt.bmod_eq ⟨by omega, by omega⟩]
  exact ⟨by omega, by omega⟩

theorem toInt_toInt32 (value : UInt32) : value.toInt32.toInt = (value.toNat : Int).bmod (2 ^ 32) :=
  BitVec.toInt_eq_toNat_bmod value.toBitVec

/-- A number below `2 ^ 31` is not changed by the conversion to 32 bits. -/
theorem toInt_truncated {value : UInt64} (small : value.toNat < 2 ^ 31) : value.toUInt32.toInt32.toInt = value.toNat := by
  rw [toInt_toInt32, UInt64.toNat_toUInt32, Nat.mod_eq_of_lt (by omega)]
  exact FitsInt.bmod_eq ⟨by omega, by omega⟩

end KeblaOS
