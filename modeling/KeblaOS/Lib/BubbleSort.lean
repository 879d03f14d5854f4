import Mathlib.Data.List.Perm.Basic
import KeblaOS.Lib.Exchange

/-!
# Bubble sort

Passes over the first `count` values, in which neighbours in the wrong order trade places. After the
`i`-th pass the last `i` values dominate all values in front of them. Values that trade places are not
equivalent, so that equivalent ones keep their order.
-/

namespace KeblaOS

variable {α : Type*}

/-- A value is not smaller than any in front of it. -/
def Dominates (greater : α → α → Prop) (values : Nat → α) (b : Nat) : Prop := ∀ a ≤ b, ¬ greater (values a) (values b)

theorem dominates_zero {greater : α → α → Prop} (asymm : ∀ a b, greater a b → ¬ greater b a) (values : Nat → α) :
    Dominates greater values 0 := by
  intro a first
  obtain rfl := Nat.le_zero.mp first
  intro wrong
  exact asymm _ _ wrong wrong

variable (greater : α → α → Prop) [DecidableRel greater]

/-- Neighbours trade places if they are in the wrong order. -/
def bubbleStep (values : Nat → α) (j : Nat) : Nat → α :=
  if greater (values j) (values (j + 1)) then exchange values j (j + 1) else values

/-- One pass over the first `count` values. -/
def bubblePass (count : Nat) (values : Nat → α) : Nat → α := (List.range (count - 1)).foldl (bubbleStep greater) values

/-- As many passes as there are values. -/
def bubbleSort (count : Nat) (values : Nat → α) : Nat → α :=
  (List.range count).foldl (fun values _ => bubblePass greater count values) values

variable {greater} {values : Nat → α} {count : Nat}

theorem bubbleStep_swaps {j : Nat} (wrong : greater (values j) (values (j + 1))) :
    bubbleStep greater values j = exchange values j (j + 1) :=
  if_pos wrong

theorem bubbleStep_keeps {j : Nat} (right : ¬ greater (values j) (values (j + 1))) :
    bubbleStep greater values j = values :=
  if_neg right

/-- Neighbours that trade places. -/
theorem exchange_neighbours (values : Nat → α) (j : Nat) : exchange values j (j + 1) j = values (j + 1) ∧
    exchange values j (j + 1) (j + 1) = values j ∧
    ∀ k, k ≠ j → k ≠ j + 1 → exchange values j (j + 1) k = values k := by
  unfold exchange
  refine ⟨if_pos rfl, ?_, fun k first second => ?_⟩
  · rw [if_neg (Nat.succ_ne_self j), if_pos rfl]
  · rw [if_neg first, if_neg second]

/-! ## Sortedness -/

/-- A dominating value in front of the neighbours stays. -/
theorem dominates_front {j b : Nat} (dominates : Dominates greater values b) (front : b < j) :
    Dominates greater (bubbleStep greater values j) b := by
  intro a before
  by_cases wrong : greater (values j) (values (j + 1))
  · obtain ⟨-, -, others⟩ := exchange_neighbours values j
    rw [bubbleStep_swaps wrong, others a (by omega) (by omega), others b (by omega) (by omega)]
    exact dominates a before
  · rw [bubbleStep_keeps wrong]
    exact dominates a before

/-- A dominating value behind the neighbours stays. -/
theorem dominates_behind {j b : Nat} (dominates : Dominates greater values b) (behind : j + 1 < b) :
    Dominates greater (bubbleStep greater values j) b := by
  intro a before
  by_cases wrong : greater (values j) (values (j + 1))
  · obtain ⟨first, second, others⟩ := exchange_neighbours values j
    rw [bubbleStep_swaps wrong, others b (by omega) (by omega)]
    by_cases here : a = j
    · rw [here, first]
      exact dominates (j + 1) (by omega)
    by_cases next : a = j + 1
    · rw [next, second]
      exact dominates j (by omega)
    · rw [others a here next]
      exact dominates a before
  · rw [bubbleStep_keeps wrong]
    exact dominates a before

section Sorted

variable (asymm : ∀ a b, greater a b → ¬ greater b a)
  (trans : ∀ a b c, ¬ greater a b → ¬ greater b c → ¬ greater a c)

include asymm trans

/-- A step carries a dominating value on. -/
theorem dominates_bubbleStep {j : Nat} (here : Dominates greater values j) :
    Dominates greater (bubbleStep greater values j) (j + 1) := by
  intro a before
  by_cases wrong : greater (values j) (values (j + 1))
  · obtain ⟨first, second, others⟩ := exchange_neighbours values j
    rw [bubbleStep_swaps wrong, second]
    rcases Nat.lt_trichotomy a j with less | rfl | more
    · rw [others a (by omega) (by omega)]
      exact here a (by omega)
    · rw [first]
      exact asymm _ _ wrong
    · obtain rfl : a = j + 1 := by omega
      rw [second]
      exact here j (Nat.le_refl j)
  · rw [bubbleStep_keeps wrong]
    rcases Nat.lt_or_ge j a with last | earlier
    · obtain rfl : a = j + 1 := by omega
      exact fun same => asymm _ _ same same
    · exact trans _ _ _ (here a earlier) wrong

/-- During a pass behind which `sorted` values dominate: one more does as soon as the pass has come to it. -/
theorem dominates_pass {sorted steps : Nat} (inside : steps + 1 ≤ count)
    (last : ∀ b, count - sorted ≤ b → b < count → Dominates greater values b) :
    ∀ b < count, (count - sorted ≤ b ∨ b = steps ∨ count - 1 - sorted ≤ b ∧ b ≤ steps) →
      Dominates greater ((List.range steps).foldl (bubbleStep greater) values) b := by
  induction steps with
  | zero =>
      rintro b below (behind | rfl | ⟨-, first⟩)
      · exact last b behind below
      · exact dominates_zero asymm values
      · obtain rfl := Nat.le_zero.mp first
        exact dominates_zero asymm values
  | succ steps ih =>
      have before := ih (by omega)
      rw [List.range_succ, List.foldl_append, List.foldl_cons, List.foldl_nil]
      set passed := (List.range steps).foldl (bubbleStep greater) values with passed_eq
      intro b below place
      rcases Nat.lt_trichotomy b (steps + 1) with front | rfl | behind
      · by_cases neighbour : b = steps
        · -- The next value already dominates, so that the neighbours do not trade places.
          subst neighbour
          have next := before (b + 1) (by omega) (.inl (by omega)) b (Nat.le_succ b)
          rw [bubbleStep_keeps next]
          exact before b below (.inr (.inl rfl))
        · exact dominates_front (before b below (by omega)) (by omega)
      · exact dominates_bubbleStep asymm trans (before steps (by omega) (.inr (.inl rfl)))
      · exact dominates_behind (before b below (.inl (by omega))) behind

/-- After as many passes as there are values, all of them dominate those in front of them. -/
theorem dominates_bubbleSort (count : Nat) (values : Nat → α) {b : Nat} (below : b < count) :
    Dominates greater (bubbleSort greater count values) b := by
  have passes : ∀ sorted ≤ count, ∀ b, count - sorted ≤ b → b < count →
      Dominates greater ((List.range sorted).foldl (fun values _ => bubblePass greater count values) values) b := by
    intro sorted
    induction sorted with
    | zero => intro _ b from_end below; omega
    | succ sorted ih =>
        intro enough b from_end below
        rw [List.range_succ, List.foldl_append, List.foldl_cons, List.foldl_nil]
        exact dominates_pass asymm trans (by omega) (ih (by omega)) b below (by omega)
  exact passes count (Nat.le_refl _) b (by omega) below

end Sorted

/-! ## The same values -/

/-- What an exchange of neighbours in the wrong order keeps, sorting keeps. -/
theorem bubbleSort_invariant (invariant : (Nat → α) → Prop)
    (kept : ∀ values j, j + 1 < count → greater (values j) (values (j + 1)) → invariant values →
      invariant (exchange values j (j + 1))) (start : invariant values) : invariant (bubbleSort greater count values) := by
  have pass : ∀ steps < count, ∀ values, invariant values →
      invariant ((List.range steps).foldl (bubbleStep greater) values) := by
    intro steps
    induction steps with
    | zero => exact fun _ _ holds => holds
    | succ steps ih =>
        intro inside values holds
        rw [List.range_succ, List.foldl_append, List.foldl_cons, List.foldl_nil]
        have before := ih (by omega) values holds
        set passed := (List.range steps).foldl (bubbleStep greater) values with passed_eq
        by_cases wrong : greater (passed steps) (passed (steps + 1))
        · rw [bubbleStep_swaps wrong]
          exact kept passed steps inside wrong before
        · rwa [bubbleStep_keeps wrong]
  have passes : ∀ rounds, invariant ((List.range rounds).foldl (fun values _ => bubblePass greater count values) values) := by
    intro rounds
    induction rounds with
    | zero => exact start
    | succ rounds ih =>
        rw [List.range_succ, List.foldl_append, List.foldl_cons, List.foldl_nil]
        rcases Nat.eq_zero_or_pos count with rfl | some
        · exact ih
        · exact pass (count - 1) (by omega) _ ih
  exact passes count

/-- The first values, in front of neighbours, the neighbours, and the others. -/
theorem map_range_neighbours (values : Nat → α) {j : Nat} (inside : j + 1 < count) :
    ∃ front back, (List.range count).map values = front ++ values j :: values (j + 1) :: back ∧
      (List.range count).map (exchange values j (j + 1)) = front ++ values (j + 1) :: values j :: back := by
  obtain ⟨first, second, others⟩ := exchange_neighbours values j
  have split : List.range count = List.range j ++ j :: (j + 1) :: List.range' (j + 2) (count - j - 2) := by
    obtain ⟨rest, rfl⟩ := Nat.exists_eq_add_of_le (show j + 2 ≤ count by omega)
    rw [List.range_eq_range', List.range_eq_range']
    have left : j + 2 + rest - j - 2 = rest := by omega
    rw [left, Nat.add_assoc, ← List.range'_append_1, Nat.add_comm 2 rest, List.range'_succ, List.range'_succ, Nat.zero_add]
  refine ⟨(List.range j).map values, (List.range' (j + 2) (count - j - 2)).map values, ?_, ?_⟩
  · rw [split, List.map_append, List.map_cons, List.map_cons]
  · rw [split, List.map_append, List.map_cons, List.map_cons, first, second]
    congr 1
    · apply List.map_congr_left
      intro k member
      have below := List.mem_range.mp member
      exact others k (by omega) (by omega)
    · congr 2
      apply List.map_congr_left
      intro k member
      have above := (List.mem_range'_1.mp member).1
      exact others k (by omega) (by omega)

/-- Sorting permutes the values. -/
theorem bubbleSort_perm (greater : α → α → Prop) [DecidableRel greater] (count : Nat) (values : Nat → α) :
    ((List.range count).map (bubbleSort greater count values)).Perm ((List.range count).map values) := by
  apply bubbleSort_invariant fun sorted => ((List.range count).map sorted).Perm ((List.range count).map values)
  · intro sorted j inside _ perm
    obtain ⟨front, back, before, after⟩ := map_range_neighbours sorted inside
    rw [before] at perm
    rw [after]
    exact ((List.Perm.swap _ _ back).append_left front).trans perm
  · exact List.Perm.refl _

/-- Sorting keeps the order of values no two of which are in the wrong order. -/
theorem bubbleSort_stable (count : Nat) (values : Nat → α) (among : α → Bool)
    (equal : ∀ a b, among a = true → among b = true → ¬ greater a b) :
    ((List.range count).map (bubbleSort greater count values)).filter among = ((List.range count).map values).filter among := by
  apply bubbleSort_invariant fun sorted =>
    ((List.range count).map sorted).filter among = ((List.range count).map values).filter among
  · intro sorted j inside wrong same
    obtain ⟨front, back, before, after⟩ := map_range_neighbours sorted inside
    rw [before] at same
    rw [after, ← same, List.filter_append, List.filter_append]
    congr 1
    by_cases first : among (sorted j) = true
    · have second : ¬ among (sorted (j + 1)) = true := fun second => equal _ _ first second wrong
      rw [List.filter_cons_of_neg second, List.filter_cons_of_pos first, List.filter_cons_of_pos first,
        List.filter_cons_of_neg second]
    · by_cases second : among (sorted (j + 1)) = true
      · rw [List.filter_cons_of_pos second, List.filter_cons_of_neg first, List.filter_cons_of_neg first,
          List.filter_cons_of_pos second]
      · rw [List.filter_cons_of_neg second, List.filter_cons_of_neg first, List.filter_cons_of_neg first,
          List.filter_cons_of_neg second]
  · rfl

end KeblaOS
