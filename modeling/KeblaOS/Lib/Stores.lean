import Mathlib.Data.List.GetD
import KeblaOS.Lib.Buffer

/-!
# Stores to memory

A memory is a function from addresses; a store replaces consecutive values. `storeAll` is the
effect of several stores in a row: an address none of them covers keeps its value, and one that
some of them cover ends with a value that does not depend on the memory before.
-/

namespace KeblaOS

open Buffer

variable {α : Type*}

/-- Memory with consecutive values stored from an address on. -/
def store (memory : Nat → α) (pos : Nat) (values : List α) (i : Nat) : α :=
  if pos ≤ i then values.getD (i - pos) (memory i) else memory i

/-- Stores one after the other. -/
def storeAll (memory : Nat → α) : List (Nat × List α) → Nat → α
  | [] => memory
  | item :: items => storeAll (store memory item.1 item.2) items

/-- The address is covered by the store. -/
def Covers (item : Nat × List α) (i : Nat) : Prop := item.1 ≤ i ∧ i < item.1 + item.2.length

/-- The memory starts with the values. -/
def Holds (memory : Nat → α) (values : List α) : Prop := ∀ i value, values[i]? = some value → memory i = value

variable {memory memory' : Nat → α} {pos i : Nat} {values : List α} {items more : List (Nat × List α)}

theorem store_of_covers (covers : Covers (pos, values) i) : some (store memory pos values i) = values[i - pos]? := by
  obtain ⟨above, below⟩ := covers
  have inside : i - pos < values.length := by
    dsimp only at above below
    omega
  rw [store, if_pos above, List.getD_eq_getElem _ _ inside, List.getElem?_eq_getElem inside]

theorem store_of_not_covers (outside : ¬ Covers (pos, values) i) : store memory pos values i = memory i := by
  unfold store
  split_ifs with above
  · apply List.getD_eq_default
    by_contra inside
    exact outside ⟨above, by dsimp only; omega⟩
  · rfl

/-- A store as seen from a base address. -/
theorem store_shift (memory : Nat → α) (base pos : Nat) (values : List α) (i : Nat) :
    store memory (base + pos) values (base + i) = store (fun j => memory (base + j)) pos values i := by
  unfold store
  rw [Nat.add_sub_add_left]
  exact if_congr (Nat.add_le_add_iff_left) rfl rfl

theorem storeAll_append (memory : Nat → α) (items more : List (Nat × List α)) :
    storeAll memory (items ++ more) = storeAll (storeAll memory items) more := by
  induction items generalizing memory with
  | nil => rfl
  | cons item items ih => exact ih _

/-- An address no store covers keeps its value. -/
theorem storeAll_of_not_covers (outside : ∀ item ∈ items, ¬ Covers item i) : storeAll memory items i = memory i := by
  induction items generalizing memory with
  | nil => rfl
  | cons item items ih =>
      rw [storeAll, ih fun other member => outside other (List.mem_cons_of_mem _ member)]
      exact store_of_not_covers (outside item List.mem_cons_self)

theorem storeAll_congr (same : memory i = memory' i) : storeAll memory items i = storeAll memory' items i := by
  induction items generalizing memory memory' with
  | nil => exact same
  | cons item items ih =>
      rw [storeAll, storeAll]
      apply ih
      by_cases covers : Covers item i
      · exact Option.some.inj ((store_of_covers covers).trans (store_of_covers covers).symm)
      · rw [store_of_not_covers covers, store_of_not_covers covers, same]

/-- A covered address ends with a value that the memory before does not decide. -/
theorem storeAll_of_covers {item : Nat × List α} (member : item ∈ items) (covers : Covers item i)
    (memory memory' : Nat → α) : storeAll memory items i = storeAll memory' items i := by
  induction items generalizing memory memory' with
  | nil => exact absurd member List.not_mem_nil
  | cons first items ih =>
      rcases List.mem_cons.mp member with rfl | later
      · rw [storeAll, storeAll]
        apply storeAll_congr
        exact Option.some.inj ((store_of_covers covers).trans (store_of_covers covers).symm)
      · exact ih later _ _

/-- Stores that agree on an address and cover it decide its value. -/
theorem storeAll_eq_of_agree {value : α} (covered : ∃ item ∈ items, Covers item i)
    (agree : ∀ item ∈ items, Covers item i → item.2[i - item.1]? = some value) :
    storeAll memory items i = value := by
  induction items generalizing memory with
  | nil =>
      obtain ⟨item, impossible, _⟩ := covered
      exact absurd impossible List.not_mem_nil
  | cons first items ih =>
      by_cases later : ∃ item ∈ items, Covers item i
      · exact ih later fun item member => agree item (List.mem_cons_of_mem _ member)
      · have here : Covers first i := by
          obtain ⟨item, member, covers⟩ := covered
          rcases List.mem_cons.mp member with rfl | member
          · exact covers
          · exact absurd ⟨item, member, covers⟩ later
        rw [storeAll, storeAll_of_not_covers fun item member covers => later ⟨item, member, covers⟩]
        exact Option.some.inj ((store_of_covers here).trans (agree first List.mem_cons_self here))

theorem Holds.take (holds : Holds memory values) (count : Nat) : Holds memory (values.take count) := by
  intro i value there
  apply holds
  rw [List.getElem?_take] at there
  split_ifs at there
  exact there

/-- A memory starts with one list of a length. -/
theorem Holds.eq {others : List α} (holds : Holds memory values) (holds' : Holds memory others)
    (length : values.length = others.length) : values = others := by
  apply List.ext_getElem length
  intro i inside inside'
  rw [← holds i _ (List.getElem?_eq_getElem inside), ← holds' i _ (List.getElem?_eq_getElem inside')]

/-- A store inside what the memory starts with replaces a part of it. -/
theorem Holds.store {data : List α} (holds : Holds memory values) (inside : pos + data.length ≤ values.length) :
    Holds (store memory pos data) (overwrite values pos data) := by
  intro i value there
  have front : (values.take pos).length = pos := by
    rw [List.length_take]
    omega
  rw [overwrite, List.append_assoc] at there
  by_cases covers : Covers (pos, data) i
  · obtain ⟨above, below⟩ := covers
    dsimp only at above below
    apply Option.some.inj
    rw [store_of_covers ⟨above, below⟩, ← there, List.getElem?_append_right (by omega), front,
      List.getElem?_append_left (by omega)]
  · rw [store_of_not_covers covers]
    apply holds
    rw [← there]
    by_cases before : i < pos
    · rw [List.getElem?_append_left (by omega), List.getElem?_take_of_lt before]
    · have behind : pos + data.length ≤ i := by
        by_contra less
        exact covers ⟨by omega, by dsimp only; omega⟩
      rw [List.getElem?_append_right (by omega), front, List.getElem?_append_right (by omega), List.getElem?_drop]
      congr 1
      omega

/-- Stores of pieces that lie one behind the other, the first at the end of what the memory starts
with. -/
theorem Holds.storeNext {data : List α} (holds : Holds memory values) :
    Holds (KeblaOS.store memory values.length data) (values ++ data) := by
  intro i value there
  by_cases covers : Covers (values.length, data) i
  · apply Option.some.inj
    rw [store_of_covers covers, ← there, List.getElem?_append_right covers.1]
  · rw [store_of_not_covers covers]
    apply holds
    rw [← there]
    by_cases before : i < values.length
    · rw [List.getElem?_append_left before]
    · have behind : values.length + data.length ≤ i := by
        by_contra less
        exact covers ⟨by omega, by dsimp only; omega⟩
      rw [List.getElem?_eq_none (by omega), List.getElem?_eq_none (by rw [List.length_append]; omega)]

end KeblaOS
