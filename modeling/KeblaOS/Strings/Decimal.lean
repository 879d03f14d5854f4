import KeblaOS.Lib.DecimalText
import KeblaOS.Lib.Exchange

/-!
# Numbers as decimal strings

`int_to_str` and `int_to_ascii` of `string.c` store the digits of a number from the lowest one on,
then the sign, and turn the string around. Both negate a negative number first, which leaves the
least `int` as it is. `atoi` of `stdlib.c` reads a number from a string.
-/

namespace KeblaOS.Strings

/-- The string at the start of a memory, up to its zero. -/
def IsString (memory : Nat → UInt8) (text : List UInt8) : Prop := Holds memory (text ++ [0]) ∧ 0 ∉ text

/-- `n % 10 + '0'` as a `char`. -/
def digitChar (n : Int32) : UInt8 := (n % 10 + 0x30).toUInt32.toUInt8

/-- The sign, if there is one, and the final zero go behind the digits. -/
def endText (negative : Prop) [Decidable negative] (i : Nat) (buffer : Nat → UInt8) : Nat × (Nat → UInt8) :=
  let (i, buffer) := if negative then (i + 1, store buffer i [0x2D]) else (i, buffer)
  (i, store buffer i [0])

/-! ## `int_to_ascii` -/

/-- The loop of `strlen`, which counts in an `int`. -/
def strlenLoop (s : Nat → UInt8) : Nat → Nat → Option Nat
  | 0, _ => none
  | fuel + 1, i => if s i ≠ 0 then strlenLoop s fuel (i + 1) else some i

/-- `strlen`. -/
def strlen (s : Nat → UInt8) : Option Nat := strlenLoop s (2 ^ 31) 0

/-- The loop of `reverse`; its rounds are fewer than the characters. -/
def reverseLoop : Nat → Nat → Nat → (Nat → UInt8) → (Nat → UInt8)
  | 0, _, _, s => s
  | fuel + 1, i, j, s => if i < j then reverseLoop fuel (i + 1) (j - 1) (exchange s i j) else s

/-- `reverse`. For the empty string `j` is -1 there and 0 here, which both end the loop at once. -/
def reverse (s : Nat → UInt8) : Option (Nat → UInt8) := (strlen s).map fun length => reverseLoop length 0 (length - 1) s

/-- The loop of `int_to_ascii`, which stores a digit before it looks at what is left. -/
def asciiLoop : Nat → Int32 → Nat → (Nat → UInt8) → Option (Nat × (Nat → UInt8))
  | 0, _, _, _ => none
  | fuel + 1, n, i, str =>
      let str := store str i [digitChar n]
      if 0 < n / 10 then asciiLoop fuel (n / 10) (i + 1) str else some (i + 1, str)

/-- `int_to_ascii`. No `int` has more than ten digits. -/
def intToAscii (n : Int32) (str : Nat → UInt8) : Option (Nat → UInt8) :=
  let sign := n
  let n := if n < 0 then -n else n
  (asciiLoop 10 n 0 str).bind fun (i, str) => reverse (endText (sign < 0) i str).2

/-! ## `int_to_str` -/

/-- The loop of `int_to_str` over the digits. -/
def strLoop : Nat → Int32 → Nat → (Nat → UInt8) → Option (Nat × (Nat → UInt8))
  | 0, num, i, buffer => if num = 0 then some (i, buffer) else none
  | fuel + 1, num, i, buffer =>
      if num = 0 then some (i, buffer) else strLoop fuel (num / 10) (i + 1) (store buffer i [digitChar num])

/-- The loop of `int_to_str` that reverses the string. -/
def turnLoop (i : Nat) (buffer : Nat → UInt8) : Nat → UInt8 :=
  (List.range (i / 2)).foldl (fun buffer j => exchange buffer j (i - j - 1)) buffer

/-- `int_to_str`. -/
def intToStr (num : Int32) (buffer : Nat → UInt8) : Option (Nat → UInt8) :=
  if num = 0 then some (store (store buffer 0 [0x30]) 1 [0])
  else
    let isNegative := num < 0
    let num := if isNegative then -num else num
    (strLoop 10 num 0 buffer).map fun (i, buffer) =>
      let (i, buffer) := endText isNegative i buffer
      turnLoop i buffer

/-! ## `atoi` -/

/-- The loop of `atoi` over the digits. -/
def atoiDigits : Int32 → List UInt8 → Int32
  | result, [] => result
  | result, c :: str =>
      if 0x30 ≤ c ∧ c ≤ 0x39 then atoiDigits (result * 10 + Int32.ofNat (c.toNat - 0x30)) str else result

/-- `atoi` of the characters in front of the final zero. -/
def atoi (str : List UInt8) : Int32 :=
  let str := str.dropWhile fun c => c = 0x20 ∨ c = 0x09 ∨ c = 0x0A
  match str with
  | [] => 0
  | c :: rest =>
      if c = 0x2D then atoiDigits 0 rest * -1
      else if c = 0x2B then atoiDigits 0 rest * 1
      else atoiDigits 0 (c :: rest) * 1

/-! ## The digits of an `int` -/

theorem digitChar_eq {n : Int32} {value : Nat} (here : n.toInt = value) : digitChar n = digitByte (value % 10) := by
  have small : value % 10 < 10 := Nat.mod_lt _ (by decide)
  have rest : n % 10 = Int32.ofNat (value % 10) := by
    rw [← Int32.toInt_inj, Int32.toInt_mod, here, Int32.toInt_ofNat_of_lt (by omega)]
    rfl
  have chars : ∀ digit < 10, (Int32.ofNat digit + 0x30).toUInt32.toUInt8 = digitByte digit := by decide
  rw [digitChar, rest, chars _ small]

theorem toInt_div_ten {n : Int32} {value : Nat} (here : n.toInt = value) : (n / 10).toInt = (value / 10 : Nat) := by
  rw [Int32.toInt_div_of_ne_right _ _ (by decide), here]
  rfl

theorem zero_lt_div_ten_iff {n : Int32} {value : Nat} (here : n.toInt = value) : 0 < n / 10 ↔ 0 < value / 10 := by
  rw [Int32.lt_iff_toInt_lt, toInt_div_ten here]
  exact Int.natCast_pos

theorem zero_notMem_lowDigits (value : Nat) : 0 ∉ lowDigits value := by
  intro member
  obtain ⟨digit, single, equal⟩ := mem_lowDigits member
  have place := digitByte_toNat single
  have none : (0 : UInt8).toNat = 0 := rfl
  rw [← equal] at place
  omega

/-- The loop of `int_to_ascii` stores the digits of a number behind what is there. -/
theorem asciiLoop_digits {fuel value : Nat} {n : Int32} {str : Nat → UInt8} {stored : List UInt8}
    (here : n.toInt = value) (positive : 0 < fuel) (small : value < 10 ^ fuel) (holds : Holds str stored) :
    ∃ str', asciiLoop fuel n stored.length str = some ((stored ++ lowDigits value).length, str') ∧
      Holds str' (stored ++ lowDigits value) := by
  induction fuel generalizing value n str stored with
  | zero => omega
  | succ fuel ih =>
      have next : Holds (store str stored.length [digitChar n]) (stored ++ [digitChar n]) := holds.storeNext
      rw [asciiLoop, lowDigits_eq, ← digitChar_eq here]
      by_cases more : 0 < value / 10
      · have below : value / 10 < 10 ^ fuel := by
          rw [Nat.pow_succ] at small
          omega
        have rounds : 0 < fuel := by
          by_contra none
          obtain rfl : fuel = 0 := by omega
          omega
        obtain ⟨str', ended, holds'⟩ := ih (toInt_div_ten here) rounds below next
        rw [List.length_append, List.length_singleton] at ended
        rw [if_pos ((zero_lt_div_ten_iff here).mpr more), if_pos more, ended]
        refine ⟨str', ?_, ?_⟩
        · rw [List.append_assoc, List.singleton_append]
        · rwa [List.append_assoc, List.singleton_append] at holds'
      · rw [if_neg (fun positive => more ((zero_lt_div_ten_iff here).mp positive)), if_neg more]
        exact ⟨_, by rw [List.length_append, List.length_singleton], next⟩

theorem strLoop_zero (fuel i : Nat) (buffer : Nat → UInt8) : strLoop fuel 0 i buffer = some (i, buffer) := by
  cases fuel with
  | zero => rw [strLoop, if_pos rfl]
  | succ fuel => rw [strLoop, if_pos rfl]

/-- The loop of `int_to_str` stores the digits of a positive number behind what is there. -/
theorem strLoop_digits {fuel value : Nat} {num : Int32} {buffer : Nat → UInt8} {stored : List UInt8}
    (here : num.toInt = value) (positive : 0 < value) (small : value < 10 ^ fuel) (holds : Holds buffer stored) :
    ∃ buffer', strLoop fuel num stored.length buffer = some ((stored ++ lowDigits value).length, buffer') ∧
      Holds buffer' (stored ++ lowDigits value) := by
  induction fuel generalizing value num buffer stored with
  | zero => omega
  | succ fuel ih =>
      have next : Holds (store buffer stored.length [digitChar num]) (stored ++ [digitChar num]) := holds.storeNext
      have nonzero : num ≠ 0 := by
        rintro rfl
        have none : (0 : Int32).toInt = 0 := rfl
        omega
      rw [strLoop, if_neg nonzero, lowDigits_eq, ← digitChar_eq here]
      by_cases more : 0 < value / 10
      · have below : value / 10 < 10 ^ fuel := by
          rw [Nat.pow_succ] at small
          omega
        obtain ⟨buffer', ended, holds'⟩ := ih (toInt_div_ten here) more below next
        rw [List.length_append, List.length_singleton] at ended
        rw [if_pos more, ended]
        refine ⟨buffer', ?_, ?_⟩
        · rw [List.append_assoc, List.singleton_append]
        · rwa [List.append_assoc, List.singleton_append] at holds'
      · have rest : num / 10 = 0 := by
          rw [← Int32.toInt_inj, toInt_div_ten here, Nat.eq_zero_of_not_pos more]
          rfl
        rw [if_neg more, rest, strLoop_zero]
        exact ⟨_, by rw [List.length_append, List.length_singleton], next⟩

/-! ## Turning the string around -/

theorem strlenLoop_eq {s : Nat → UInt8} {size fuel i : Nat} (ended : s size = 0) (nonzero : ∀ k < size, s k ≠ 0)
    (inside : i ≤ size) (enough : size - i < fuel) : strlenLoop s fuel i = some size := by
  induction fuel generalizing i with
  | zero => omega
  | succ fuel ih =>
      rw [strlenLoop]
      by_cases last : i = size
      · rw [last, if_neg (fun nonzero => nonzero ended)]
      · rw [if_pos (nonzero i (by omega))]
        exact ih (by omega) (by omega)

theorem IsString.strlen_eq {s : Nat → UInt8} {text : List UInt8} (string : IsString s text)
    (short : text.length < 2 ^ 31) : strlen s = some text.length := by
  obtain ⟨holds, nonzero⟩ := string
  refine strlenLoop_eq (holds _ _ ?_) (fun k below => ?_) (Nat.zero_le _) (by omega)
  · rw [List.getElem?_append_right (Nat.le_refl _), Nat.sub_self]
    rfl
  · rw [holds k text[k] (by rw [List.getElem?_append_left below, List.getElem?_eq_getElem below])]
    intro zero
    exact nonzero (zero ▸ List.getElem_mem below)

theorem reverseLoop_turned {memory s : Nat → UInt8} {size count fuel : Nat} (turned : Turned memory s size count)
    (enough : size ≤ 2 * count + 2 * fuel + 1) :
    ∃ count', size ≤ 2 * count' + 1 ∧ Turned memory (reverseLoop fuel count (size - 1 - count) s) size count' := by
  induction fuel generalizing s count with
  | zero => exact ⟨count, by omega, turned⟩
  | succ fuel ih =>
      rw [reverseLoop]
      by_cases front : count < size - 1 - count
      · rw [if_pos front, Nat.sub_sub]
        exact ih (turned.next front) (by omega)
      · rw [if_neg front]
        exact ⟨count, by omega, turned⟩

theorem turnLoop_turned (memory : Nat → UInt8) {size count : Nat} (half : count ≤ size / 2) :
    Turned memory ((List.range count).foldl (fun buffer j => exchange buffer j (size - j - 1)) memory) size count := by
  induction count with
  | zero => exact turned_zero memory size
  | succ count ih =>
      rw [List.range_succ, List.foldl_append, List.foldl_cons, List.foldl_nil, Nat.sub_right_comm]
      exact (ih (by omega)).next (by omega)

theorem IsString.reverse_eq {s : Nat → UInt8} {text : List UInt8} (string : IsString s text)
    (short : text.length < 2 ^ 31) : ∃ s', reverse s = some s' ∧ IsString s' text.reverse := by
  obtain ⟨count, middle, turned⟩ := reverseLoop_turned (turned_zero s text.length)
    (show text.length ≤ 2 * 0 + 2 * text.length + 1 by omega)
  refine ⟨_, by rw [reverse, string.strlen_eq short, Option.map_some, Nat.sub_zero], turned.holds middle string.1, ?_⟩
  rw [List.mem_reverse]
  exact string.2

theorem IsString.turnLoop {buffer : Nat → UInt8} {text : List UInt8} (string : IsString buffer text) :
    IsString (turnLoop text.length buffer) text.reverse := by
  refine ⟨(turnLoop_turned buffer (Nat.le_refl _)).holds (by omega) string.1, ?_⟩
  rw [List.mem_reverse]
  exact string.2

/-! ## Both conversions -/

/-- What both conversions store before they turn the string around. -/
def storedText (value : Nat) (negative : Prop) [Decidable negative] : List UInt8 :=
  lowDigits value ++ if negative then [0x2D] else []

theorem reverse_storedText (n : Int32) : (storedText n.toInt.natAbs (n < 0)).reverse = decimalText n.toInt := by
  have sign : n < 0 ↔ n.toInt < 0 := Int32.lt_iff_toInt_lt
  unfold storedText decimalText
  by_cases negative : n < 0
  · rw [if_pos negative, if_pos (sign.mp negative), List.reverse_append, List.reverse_singleton, List.singleton_append]
  · rw [if_neg negative, if_neg (mt sign.mpr negative), List.append_nil]

theorem zero_notMem_storedText (value : Nat) (negative : Prop) [Decidable negative] : 0 ∉ storedText value negative := by
  unfold storedText
  rw [List.mem_append]
  rintro (digit | sign)
  · exact zero_notMem_lowDigits value digit
  · split_ifs at sign
    · exact absurd sign (by decide)
    · exact absurd sign List.not_mem_nil

theorem length_storedText_lt {value : Nat} (small : value < 10 ^ 10) (negative : Prop) [Decidable negative] :
    (storedText value negative).length < 2 ^ 31 := by
  have digits := length_lowDigits_le (by decide) small
  unfold storedText
  rw [List.length_append]
  split_ifs
  · rw [List.length_singleton]
    omega
  · rw [List.length_nil]
    omega

/-- All but the least `int` have a negative. -/
theorem toInt_magnitude {n : Int32} (other : n ≠ Int32.minValue) :
    (if n < 0 then -n else n).toInt = n.toInt.natAbs := by
  have above := n.le_toInt
  have below := n.toInt_lt
  have least : n.toInt ≠ -2 ^ 31 := fun equal => other (Int32.toInt_inj.mp equal)
  have zero : (0 : Int32).toInt = 0 := rfl
  split_ifs with negative
  · rw [Int32.lt_iff_toInt_lt, zero] at negative
    rw [Int32.toInt_neg, Int.bmod_eq_of_le_mul_two (by omega) (by omega)]
    omega
  · rw [Int32.lt_iff_toInt_lt, zero] at negative
    omega

theorem natAbs_toInt_lt (n : Int32) : n.toInt.natAbs < 10 ^ 10 := by
  have above := n.le_toInt
  have below := n.toInt_lt
  omega

theorem endText_stored {memory : Nat → UInt8} {value : Nat} (holds : Holds memory (lowDigits value)) (negative : Prop)
    [Decidable negative] : (endText negative (lowDigits value).length memory).1 = (storedText value negative).length ∧
      IsString (endText negative (lowDigits value).length memory).2 (storedText value negative) := by
  have nonzero := zero_notMem_storedText value negative
  unfold storedText at nonzero ⊢
  unfold endText
  by_cases sign : negative
  · rw [if_pos sign] at nonzero ⊢
    have next : Holds (store memory (lowDigits value).length [0x2D]) (lowDigits value ++ [0x2D]) := holds.storeNext
    have length : (lowDigits value ++ [(0x2D : UInt8)]).length = (lowDigits value).length + 1 := by
      rw [List.length_append, List.length_singleton]
    have ended : Holds _ (lowDigits value ++ [0x2D] ++ [0]) := next.storeNext
    rw [if_pos sign]
    rw [length] at ended
    exact ⟨length.symm, ended, nonzero⟩
  · rw [if_neg sign, List.append_nil] at nonzero
    rw [if_neg sign, if_neg sign, List.append_nil]
    exact ⟨rfl, holds.storeNext, nonzero⟩

theorem holds_nil (memory : Nat → UInt8) : Holds memory [] := fun i value there => by simp at there

theorem intToAscii_decimal {n : Int32} (other : n ≠ Int32.minValue) (str : Nat → UInt8) :
    ∃ str', intToAscii n str = some str' ∧ IsString str' (decimalText n.toInt) := by
  have small := natAbs_toInt_lt n
  obtain ⟨digits, stored, holds⟩ := asciiLoop_digits (toInt_magnitude other) (by decide) small (holds_nil str)
  obtain ⟨-, string⟩ := endText_stored holds (n < 0)
  obtain ⟨str', turned, string'⟩ := string.reverse_eq (length_storedText_lt small _)
  rw [reverse_storedText] at string'
  rw [List.length_nil] at stored
  refine ⟨str', ?_, string'⟩
  rw [intToAscii, stored, Option.bind_some]
  exact turned

theorem intToStr_decimal {num : Int32} (other : num ≠ Int32.minValue) (buffer : Nat → UInt8) :
    ∃ buffer', intToStr num buffer = some buffer' ∧ IsString buffer' (decimalText num.toInt) := by
  have small := natAbs_toInt_lt num
  unfold intToStr
  by_cases zero : num = 0
  · subst zero
    have first : Holds (store buffer 0 [0x30]) [0x30] := (holds_nil buffer).storeNext
    have ended : Holds (store (store buffer 0 [0x30]) 1 [0]) [0x30, 0] := first.storeNext
    rw [if_pos rfl]
    exact ⟨_, rfl, ended, by decide⟩
  · have positive : 0 < num.toInt.natAbs := by
      have value : num.toInt ≠ 0 := fun equal => zero (Int32.toInt_inj.mp equal)
      omega
    obtain ⟨digits, stored, holds⟩ := strLoop_digits (toInt_magnitude other) positive small (holds_nil buffer)
    obtain ⟨length, string⟩ := endText_stored holds (num < 0)
    have turned := string.turnLoop
    rw [reverse_storedText, ← length] at turned
    rw [List.length_nil] at stored
    rw [if_neg zero]
    dsimp only
    rw [stored, Option.map_some]
    exact ⟨_, rfl, turned⟩

/-! ## The least number -/

/-- A memory starts with one string. -/
theorem IsString.unique {memory : Nat → UInt8} {text other : List UInt8} (string : IsString memory text)
    (string' : IsString memory other) : text = other := by
  -- The zero of the shorter string would lie inside the longer one.
  have shorter : ∀ {text other : List UInt8}, IsString memory text → IsString memory other →
      text.length ≤ other.length := by
    intro text other string string'
    by_contra longer
    have inside : other.length < text.length := by omega
    have zero : memory other.length = 0 := by
      apply string'.1
      rw [List.getElem?_append_right (Nat.le_refl _), Nat.sub_self]
      rfl
    have char : memory other.length = text[other.length] := by
      apply string.1
      rw [List.getElem?_append_left inside, List.getElem?_eq_getElem inside]
    exact string.2 (zero ▸ char ▸ List.getElem_mem inside)
  have length := Nat.le_antisymm (shorter string string') (shorter string' string)
  have equal := string.1.eq string'.1 (by rw [List.length_append, List.length_append, length])
  exact List.append_cancel_right equal

/-- The least `int` has no negative; `int_to_ascii` stores one character and the sign. -/
theorem intToAscii_minValue (str : Nat → UInt8) :
    ∃ str', intToAscii Int32.minValue str = some str' ∧ IsString str' [0x2D, 0x28] := by
  have first : Holds (store str 0 [0x28]) [0x28] := (holds_nil str).storeNext
  have second : Holds (store (store str 0 [0x28]) 1 [0x2D]) [0x28, 0x2D] := first.storeNext
  have third : Holds (store (store (store str 0 [0x28]) 1 [0x2D]) 2 [0]) [0x28, 0x2D, 0] := second.storeNext
  have string : IsString (store (store (store str 0 [0x28]) 1 [0x2D]) 2 [0]) [0x28, 0x2D] := ⟨third, by decide⟩
  exact string.reverse_eq (by decide)

/-! ## `atoi` -/

theorem atoiDigits_eq {value : Nat} {text : List UInt8} (digits : ∀ c ∈ text, 0x30 ≤ c ∧ c ≤ 0x39) :
    atoiDigits (Int32.ofNat value) text = Int32.ofNat (readDigits value text) := by
  induction text generalizing value with
  | nil => rfl
  | cons c text ih =>
      rw [atoiDigits, if_pos (digits c List.mem_cons_self)]
      have next : Int32.ofNat value * 10 + Int32.ofNat (c.toNat - 0x30) = Int32.ofNat (value * 10 + (c.toNat - 0x30)) := by
        rw [Int32.ofNat_add, Int32.ofNat_mul]
        rfl
      rw [next]
      exact ih fun other member => digits other (List.mem_cons_of_mem _ member)

theorem atoiDigits_lowDigits (value : Nat) : atoiDigits 0 (lowDigits value).reverse = Int32.ofNat value := by
  have digits : ∀ c ∈ (lowDigits value).reverse, 0x30 ≤ c ∧ c ≤ 0x39 := by
    intro c member
    obtain ⟨digit, single, rfl⟩ := mem_lowDigits (List.mem_reverse.mp member)
    have place := digitByte_toNat single
    rw [UInt8.le_iff_toNat_le, UInt8.le_iff_toNat_le, place]
    have nine : (0x39 : UInt8).toNat = 0x39 := rfl
    exact ⟨Nat.le_add_right _ _, by omega⟩
  have read := @atoiDigits_eq 0 _ digits
  rwa [readDigits_lowDigits] at read

/-- `atoi` reads back every `int` from its decimal text. -/
theorem atoi_decimalText (n : Int32) : atoi (decimalText n.toInt) = n := by
  have whole : Int32.ofInt n.toInt = n := Int32.ofInt_toInt n
  unfold decimalText
  by_cases negative : n.toInt < 0
  · have magnitude : n.toInt = -(n.toInt.natAbs : Int) := by omega
    rw [if_pos negative, atoi, List.dropWhile_cons_of_neg (by decide)]
    dsimp only
    rw [if_pos rfl, atoiDigits_lowDigits, Int32.mul_comm, ← Int32.neg_eq_neg_one_mul, ← Int32.ofInt_eq_ofNat,
      ← Int32.ofInt_neg, ← magnitude, whole]
  · have magnitude : n.toInt = (n.toInt.natAbs : Int) := by omega
    have read := atoiDigits_lowDigits n.toInt.natAbs
    rw [if_neg negative]
    obtain ⟨c, rest, text⟩ := List.exists_cons_of_ne_nil (List.reverse_ne_nil_iff.mpr (lowDigits_ne_nil n.toInt.natAbs))
    obtain ⟨digit, single, rfl⟩ : ∃ digit < 10, c = digitByte digit :=
      mem_lowDigits (List.mem_reverse.mp (text ▸ List.mem_cons_self))
    have ordinary : ∀ digit < 10, digitByte digit ≠ 0x20 ∧ digitByte digit ≠ 0x09 ∧ digitByte digit ≠ 0x0A ∧
        digitByte digit ≠ 0x2D ∧ digitByte digit ≠ 0x2B := by decide
    obtain ⟨space, tab, newline, minus, plus⟩ := ordinary digit single
    rw [text] at read ⊢
    rw [atoi, List.dropWhile_cons_of_neg (by simp only [space, tab, newline]; decide)]
    dsimp only
    rw [if_neg minus, if_neg plus, read, Int32.mul_one, ← Int32.ofInt_eq_ofNat, ← magnitude, whole]

/-! ## Round trip -/

/-- Both conversions of a number end with its decimal text, from which `atoi` reads the number. -/
def RoundTrips (n : Int32) (buffer buffer' : Nat → UInt8) : Prop :=
  ∃ str str', intToStr n buffer = some str ∧ intToAscii n buffer' = some str' ∧
    IsString str (decimalText n.toInt) ∧ IsString str' (decimalText n.toInt) ∧
    ∀ text, IsString str text ∨ IsString str' text → atoi text = n

theorem not_roundTrips_minValue (buffer buffer' : Nat → UInt8) : ¬ RoundTrips Int32.minValue buffer buffer' := by
  rintro ⟨str, str', -, ended, -, string, -⟩
  obtain ⟨other, ended', string'⟩ := intToAscii_minValue buffer'
  obtain rfl := Option.some.inj (ended.symm.trans ended')
  exact absurd (string.unique string') (by decide)

/-- The conversions agree and are inverted by `atoi` for all numbers but the least one. -/
theorem roundTrips_iff (n : Int32) (buffer buffer' : Nat → UInt8) :
    RoundTrips n buffer buffer' ↔ n ≠ Int32.minValue := by
  constructor
  · rintro trips rfl
    exact not_roundTrips_minValue buffer buffer' trips
  · intro other
    obtain ⟨str, ended, string⟩ := intToStr_decimal other buffer
    obtain ⟨str', ended', string'⟩ := intToAscii_decimal other buffer'
    refine ⟨str, str', ended, ended', string, string', ?_⟩
    rintro text (there | there)
    · rw [there.unique string, atoi_decimalText]
    · rw [there.unique string', atoi_decimalText]

/-- The least number becomes `-(` through one conversion and `-./,),(-*,(` through the other. -/
theorem least_number_garbled :
    ¬ RoundTrips (-2147483648) (fun _ => 0) (fun _ => 0) ∧
      (intToAscii (-2147483648) fun _ => 0).map (fun str => (List.range 3).map str) = some [0x2D, 0x28, 0] ∧
      (intToStr (-2147483648) fun _ => 0).map (fun str => (List.range 12).map str) =
        some [0x2D, 0x2E, 0x2F, 0x2C, 0x29, 0x2C, 0x28, 0x2D, 0x2A, 0x2C, 0x28, 0] := by
  exact ⟨not_roundTrips_minValue _ _, by decide +kernel⟩

end KeblaOS.Strings
