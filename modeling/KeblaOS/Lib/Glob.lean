import Mathlib.Data.List.Infix

/-!
# Glob patterns

Patterns over an alphabet with a relation that says which characters count as the same. A
pattern is a list of symbols: a literal, any one character, or any string.
-/

namespace KeblaOS.Glob

variable {α : Type*} {same : α → α → Prop}

/-- A symbol of a pattern. -/
inductive Symbol (α : Type*) where
  | literal (char : α)
  | one
  | many

/-- The strings of a pattern. -/
inductive Matches (same : α → α → Prop) : List (Symbol α) → List α → Prop where
  | nil : Matches same [] []
  | literal {char other pattern string} (equal : same char other) (rest : Matches same pattern string) :
      Matches same (.literal char :: pattern) (other :: string)
  | one {char pattern string} (rest : Matches same pattern string) :
      Matches same (.one :: pattern) (char :: string)
  | skip {pattern string} (rest : Matches same pattern string) : Matches same (.many :: pattern) string
  | take {char pattern string} (rest : Matches same (.many :: pattern) string) :
      Matches same (.many :: pattern) (char :: string)

namespace Matches

variable {first second : List (Symbol α)} {pattern : List (Symbol α)} {string : List α} {char other : α}

@[simp] theorem nil_iff : Matches same [] string ↔ string = [] := by
  constructor
  · rintro ⟨⟩
    rfl
  · rintro rfl
    exact .nil

@[simp] theorem literal_iff :
    Matches same (.literal char :: pattern) (other :: string) ↔ same char other ∧ Matches same pattern string := by
  constructor
  · rintro ⟨⟩
    exact ⟨‹_›, ‹_›⟩
  · rintro ⟨equal, rest⟩
    exact .literal equal rest

@[simp] theorem one_iff : Matches same (.one :: pattern) (char :: string) ↔ Matches same pattern string := by
  constructor
  · rintro ⟨⟩
    assumption
  · exact .one

/-- A star stands for a beginning of the string. -/
theorem many_iff : Matches same (.many :: pattern) string ↔ ∃ rest, rest <:+ string ∧ Matches same pattern rest := by
  constructor
  · intro found
    induction string with
    | nil =>
        cases found with
        | skip rest => exact ⟨[], List.suffix_rfl, rest⟩
    | cons char string ih =>
        cases found with
        | skip rest => exact ⟨_, List.suffix_rfl, rest⟩
        | take rest =>
            obtain ⟨left, suffix, found⟩ := ih rest
            exact ⟨left, suffix.trans (List.suffix_cons char string), found⟩
  · rintro ⟨rest, ⟨front, rfl⟩, found⟩
    induction front with
    | nil => exact .skip found
    | cons char front ih => exact .take ih

/-- Only stars match the empty string. -/
theorem empty_iff : Matches same pattern [] ↔ ∀ symbol ∈ pattern, symbol = .many := by
  induction pattern with
  | nil => simp
  | cons symbol pattern ih =>
      cases symbol with
      | many => simp [many_iff, ih]
      | literal char =>
          simp only [List.mem_cons, forall_eq_or_imp, reduceCtorEq, false_and, iff_false]
          rintro ⟨⟩
      | one =>
          simp only [List.mem_cons, forall_eq_or_imp, reduceCtorEq, false_and, iff_false]
          rintro ⟨⟩

/-- A pattern in two parts. -/
theorem append_iff : Matches same (first ++ second) string ↔
    ∃ front rest, string = front ++ rest ∧ Matches same first front ∧ Matches same second rest := by
  constructor
  · intro found
    induction first generalizing string with
    | nil => exact ⟨[], string, rfl, .nil, found⟩
    | cons symbol first ih =>
        cases symbol with
        | many =>
            obtain ⟨left, ⟨covered, rfl⟩, later⟩ := many_iff.mp found
            obtain ⟨front, rest, rfl, inFirst, inSecond⟩ := ih later
            refine ⟨covered ++ front, rest, by rw [List.append_assoc], ?_, inSecond⟩
            exact many_iff.mpr ⟨front, List.suffix_append _ _, inFirst⟩
        | literal char =>
            cases found with
            | literal equal found =>
                obtain ⟨front, rest, rfl, inFirst, inSecond⟩ := ih found
                exact ⟨_ :: front, rest, rfl, .literal equal inFirst, inSecond⟩
        | one =>
            cases found with
            | one found =>
                obtain ⟨front, rest, rfl, inFirst, inSecond⟩ := ih found
                exact ⟨_ :: front, rest, rfl, .one inFirst, inSecond⟩
  · rintro ⟨front, rest, rfl, inFirst, inSecond⟩
    induction inFirst with
    | nil => exact inSecond
    | literal equal _ ih => exact .literal equal ih
    | one _ ih => exact .one ih
    | skip _ ih => exact .skip ih
    | take _ ih => exact .take ih

/-- Stars alone match everything. -/
theorem stars (stars : ∀ symbol ∈ pattern, symbol = .many) (some : pattern ≠ []) : Matches same pattern string := by
  cases pattern with
  | nil => exact absurd rfl some
  | cons symbol pattern =>
      obtain rfl := stars symbol List.mem_cons_self
      apply many_iff.mpr
      refine ⟨[], List.nil_suffix, empty_iff.mpr fun other member => ?_⟩
      exact stars other (List.mem_cons_of_mem _ member)

end Matches

end KeblaOS.Glob
