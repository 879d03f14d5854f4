import Mathlib.Data.Nat.Digits.Lemmas

/-!
# Decimal texts

The canonical text of an integer: its digits from the highest to the lowest, without leading zeros,
behind a minus sign if it is negative. Reading the digits from the left gives the number back.
-/

namespace KeblaOS

/-- The character of a digit. -/
def digitByte (digit : Nat) : UInt8 := UInt8.ofNat (0x30 + digit)

/-- The digits of a number from the lowest to the highest one. -/
def lowDigits (value : Nat) : List UInt8 :=
  if value = 0 then [digitByte 0] else (Nat.digits 10 value).map digitByte

/-- The canonical decimal text of an integer. -/
def decimalText (value : Int) : List UInt8 :=
  if value < 0 then 0x2D :: (lowDigits value.natAbs).reverse else (lowDigits value.natAbs).reverse

/-- The number digits stand for, read from the left and appended to one that was read before. -/
def readDigits (value : Nat) (text : List UInt8) : Nat := text.foldl (fun value c => value * 10 + (c.toNat - 0x30)) value

theorem digitByte_toNat {digit : Nat} (single : digit < 10) : (digitByte digit).toNat = 0x30 + digit := by
  rw [digitByte, UInt8.toNat_ofNat']
  omega

/-- The digits of a number are the lowest one and those of the rest. -/
theorem lowDigits_eq (value : Nat) :
    lowDigits value = digitByte (value % 10) :: if 0 < value / 10 then lowDigits (value / 10) else [] := by
  unfold lowDigits
  rcases Nat.eq_zero_or_pos value with rfl | positive
  · rfl
  rw [if_neg (by omega), Nat.digits_def' (by decide) positive, List.map_cons]
  congr 1
  split_ifs with more none
  · omega
  · rfl
  · rw [Nat.eq_zero_of_not_pos more]
    rfl

theorem lowDigits_ne_nil (value : Nat) : lowDigits value ≠ [] := by
  rw [lowDigits_eq]
  exact List.cons_ne_nil _ _

theorem mem_lowDigits {value : Nat} {c : UInt8} (member : c ∈ lowDigits value) :
    ∃ digit < 10, c = digitByte digit := by
  induction value using Nat.strong_induction_on with
  | _ value ih =>
      rw [lowDigits_eq] at member
      rcases List.mem_cons.mp member with rfl | later
      · exact ⟨value % 10, Nat.mod_lt _ (by decide), rfl⟩
      · split_ifs at later with more
        · exact ih (value / 10) (by omega) later
        · exact absurd later List.not_mem_nil

/-- A number below a power of ten has no more digits than the exponent says. -/
theorem length_lowDigits_le {value count : Nat} (positive : 0 < count) (small : value < 10 ^ count) :
    (lowDigits value).length ≤ count := by
  induction count generalizing value with
  | zero => omega
  | succ count ih =>
      rw [lowDigits_eq, List.length_cons]
      split_ifs with more
      · rw [Nat.pow_succ] at small
        have below : value / 10 < 10 ^ count := by omega
        have counted : 0 < count := by
          by_contra none
          obtain rfl : count = 0 := by omega
          omega
        have rest := ih counted below
        omega
      · exact Nat.le_add_left 1 count

/-- Reading the digits of a number gives the number. -/
theorem readDigits_lowDigits (value : Nat) : readDigits 0 (lowDigits value).reverse = value := by
  induction value using Nat.strong_induction_on with
  | _ value ih =>
      have digit := digitByte_toNat (Nat.mod_lt value (by decide : 0 < 10))
      rw [lowDigits_eq, List.reverse_cons, readDigits, List.foldl_append, List.foldl_cons, List.foldl_nil, digit]
      split_ifs with more
      · rw [← readDigits, ih (value / 10) (by omega)]
        omega
      · rw [List.reverse_nil, List.foldl_nil]
        omega

end KeblaOS
