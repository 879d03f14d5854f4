import KeblaOS.Lib.RecordWalk

/-!
# Binary search

A key is compared with the positions below a bound: first it is greater, then equal, then less. A loop
that compares it with some position between two bounds and goes on in front of that position or
behind it finds one where it is equal, if there is any.
-/

namespace KeblaOS

/-- The key is greater than nothing behind what it is less than, and less than nothing in front of what it is greater
than. -/
structure Bisected (order : Nat → Ordering) (bound : Nat) : Prop where
  less : ∀ i j, i ≤ j → j < bound → order i = .lt → order j = .lt
  greater : ∀ i j, i ≤ j → j < bound → order j = .gt → order i = .gt

/-- The key can only be found between `low` and `high`. -/
structure Narrowed (order : Nat → Ordering) (bound low high : Nat) : Prop where
  inside : high ≤ bound
  front : ∀ i < low, order i = .gt
  behind : ∀ i, high ≤ i → i < bound → order i = .lt

section Search

variable {Result : Type*} {order : Nat → Ordering} {bound : Nat} {found : Nat → Result}
  {round : Nat × Nat → Round (Nat × Nat) (Option Result)}

/-- A round compares the key with a position between the bounds. -/
def Halves (order : Nat → Ordering) (bound : Nat) (found : Nat → Result)
    (round : Nat × Nat → Round (Nat × Nat) (Option Result)) : Prop :=
  ∀ low high, high ≤ bound → (¬ low < high → round (low, high) = .ends none) ∧
    (low < high → ∃ mid, low ≤ mid ∧ mid < high ∧ round (low, high) = match order mid with
      | .lt => .goes (low, mid)
      | .eq => .ends (some (found mid))
      | .gt => .goes (mid + 1, high))

theorem search_from (halves : Halves order bound found round) (bisected : Bisected order bound) {low high : Nat}
    (narrowed : Narrowed order bound low high) :
    ∃ result, EndsWith round (low, high) result ∧
      (∀ place, result = some place → ∃ i < bound, order i = .eq ∧ place = found i) ∧
      (result = none → ∀ i < bound, order i ≠ .eq) := by
  obtain ⟨ended, step⟩ := halves low high narrowed.inside
  by_cases more : low < high
  · obtain ⟨mid, left, right, taken⟩ := step more
    have inside := narrowed.inside
    cases compared : order mid with
    | lt =>
        rw [compared] at taken
        have next : Narrowed order bound low mid :=
          ⟨by omega, narrowed.front, fun i from_mid below => bisected.less mid i from_mid below compared⟩
        obtain ⟨result, ended, rest⟩ := search_from halves bisected next
        exact ⟨result, (endsWith_iff_of_goes taken).mpr ended, rest⟩
    | eq =>
        rw [compared] at taken
        refine ⟨some (found mid), endsWith_of_ends taken, ?_, fun none => absurd none (Option.some_ne_none _)⟩
        rintro place here
        exact ⟨mid, by omega, compared, (Option.some.inj here).symm⟩
    | gt =>
        rw [compared] at taken
        have next : Narrowed order bound (mid + 1) high :=
          ⟨inside, fun i below => bisected.greater i mid (by omega) (by omega) compared, narrowed.behind⟩
        obtain ⟨result, ended, rest⟩ := search_from halves bisected next
        exact ⟨result, (endsWith_iff_of_goes taken).mpr ended, rest⟩
  · refine ⟨none, endsWith_of_ends (ended more), fun place impossible => absurd impossible.symm (Option.some_ne_none _), ?_⟩
    intro _ i below equal
    rcases Nat.lt_or_ge i low with front | behind
    · rw [narrowed.front i front] at equal
      cases equal
    · rw [narrowed.behind i (by omega) below] at equal
      cases equal
termination_by high - low

/-- The search ends, with a position where the key is equal or, if there is none, without one. -/
theorem search_ends (halves : Halves order bound found round) (bisected : Bisected order bound) :
    ∃ result, EndsWith round (0, bound) result ∧
      (∀ place, result = some place → ∃ i < bound, order i = .eq ∧ place = found i) ∧
      (result = none → ∀ i < bound, order i ≠ .eq) :=
  search_from halves bisected
    ⟨Nat.le_refl _, fun i below => absurd below (Nat.not_lt_zero i), fun i from_end below => by omega⟩

end Search

end KeblaOS
