import Mathlib.Data.List.Basic
import KeblaOS.Lib.Stores

/-!
# Exchanges in place

Values of a memory trade places two by two. Exchanging the first with the last value of a region,
the second with the last but one and so on up to the middle reverses the region.
-/

namespace KeblaOS

variable {α : Type*} {memory memory' : Nat → α}

/-- The values at two addresses trade places. -/
def exchange (memory : Nat → α) (i j k : Nat) : α :=
  if k = i then memory j else if k = j then memory i else memory k

/-- The first `count` values of a region of `size` have traded places with the last ones. -/
def Turned (memory memory' : Nat → α) (size count : Nat) : Prop :=
  ∀ k, memory' k = if k < size ∧ (k < count ∨ size ≤ k + count) then memory (size - 1 - k) else memory k

theorem turned_zero (memory : Nat → α) (size : Nat) : Turned memory memory size 0 := by
  intro k
  rw [if_neg]
  omega

theorem Turned.next {size count : Nat} (turned : Turned memory memory' size count) (front : count < size - 1 - count) :
    Turned memory (exchange memory' count (size - 1 - count)) size (count + 1) := by
  intro k
  unfold exchange
  by_cases first : k = count
  · subst first
    rw [if_pos rfl, turned, if_neg (by omega), if_pos (by omega)]
  by_cases last : k = size - 1 - count
  · subst last
    rw [if_neg first, if_pos rfl, turned, if_neg (by omega), if_pos (by omega)]
    congr 1
    omega
  · rw [if_neg first, if_neg last, turned]
    apply if_congr _ rfl rfl
    omega

/-- From the middle on there is nothing left to do. -/
theorem Turned.whole {size count : Nat} (turned : Turned memory memory' size count) (middle : size ≤ 2 * count + 1)
    (k : Nat) : memory' k = if k < size then memory (size - 1 - k) else memory k := by
  rw [turned]
  by_cases inside : k < size
  · rw [if_pos inside]
    by_cases reached : k < count ∨ size ≤ k + count
    · rw [if_pos ⟨inside, reached⟩]
    · rw [if_neg fun both => reached both.2]
      congr 1
      omega
  · rw [if_neg inside, if_neg fun both => inside both.1]

/-- The values a memory starts with stand in it from the last one to the first. -/
theorem Turned.holds {values rest : List α} {count : Nat} (turned : Turned memory memory' values.length count)
    (middle : values.length ≤ 2 * count + 1) (holds : Holds memory (values ++ rest)) :
    Holds memory' (values.reverse ++ rest) := by
  intro i value there
  rw [turned.whole middle]
  by_cases inside : i < values.length
  · rw [if_pos inside]
    rw [List.getElem?_append_left (by rwa [List.length_reverse]), List.getElem?_reverse inside] at there
    apply holds
    rwa [List.getElem?_append_left (by omega)]
  · rw [if_neg inside]
    rw [List.getElem?_append_right (by rw [List.length_reverse]; omega), List.length_reverse] at there
    apply holds
    rwa [List.getElem?_append_right (by omega)]

end KeblaOS
