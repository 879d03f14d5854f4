import Mathlib.Data.List.Nodup
import Mathlib.Logic.Function.Basic

/-!
# Chains of cells

A chain lives in a successor map: each cell names the next one and the last cell
names a value that satisfies `stop`. `Linked` is the chain as a list. It is
determined by its first cell, visits no cell twice, and depends on the successor
map only at its own cells, so that changes elsewhere leave it alone. `Listed` is
the same for a list behind a pointer that may be null, with what appending and
unlinking a cell do to it.
-/

namespace KeblaOS

variable {α : Type*}

/-- `Linked next stop start cells`: following `next` from `start` visits exactly
`cells` and then meets a value satisfying `stop`. -/
inductive Linked (next : α → α) (stop : α → Prop) : α → List α → Prop where
  | last {cell} (ends : stop (next cell)) : Linked next stop cell [cell]
  | cons {cell rest} (continues : ¬ stop (next cell)) (tail : Linked next stop (next cell) rest) :
      Linked next stop cell (cell :: rest)

namespace Linked

variable {next next' : α → α} {stop : α → Prop} {start : α} {cells : List α}

/-- A chain starts with its first cell. -/
theorem eq_cons (linked : Linked next stop start cells) : ∃ rest, cells = start :: rest := by
  cases linked with
  | last => exact ⟨[], rfl⟩
  | cons => exact ⟨_, rfl⟩

theorem start_mem (linked : Linked next stop start cells) : start ∈ cells := by
  obtain ⟨rest, rfl⟩ := linked.eq_cons
  exact List.mem_cons_self

theorem ne_nil (linked : Linked next stop start cells) : cells ≠ [] := by
  obtain ⟨rest, rfl⟩ := linked.eq_cons
  exact List.cons_ne_nil _ _

/-- The first cell determines the chain. -/
theorem unique {other : List α} (linked : Linked next stop start cells)
    (linked' : Linked next stop start other) : cells = other := by
  induction linked generalizing other with
  | last ends =>
      cases linked' with
      | last => rfl
      | cons continues _ => exact absurd ends continues
  | cons continues _ ih =>
      cases linked' with
      | last ends => exact absurd ends continues
      | cons _ tail => rw [ih tail]

/-- The cells behind the first one form a chain from its successor. -/
theorem tail_of_ne_nil {cell : α} {rest : List α} (linked : Linked next stop start (cell :: rest))
    (more : rest ≠ []) : start = cell ∧ ¬ stop (next cell) ∧ Linked next stop (next cell) rest := by
  cases linked with
  | last => exact absurd rfl more
  | cons continues tail => exact ⟨rfl, continues, tail⟩

/-- The first cell of a one-cell chain ends it. -/
theorem stop_of_singleton {cell : α} (linked : Linked next stop start [cell]) :
    start = cell ∧ stop (next cell) := by
  cases linked with
  | last ends => exact ⟨rfl, ends⟩
  | cons _ tail => exact absurd rfl tail.ne_nil

/-- Every cell of a chain starts the part of the chain behind it. -/
theorem drop {before after : List α} {cell : α}
    (linked : Linked next stop start (before ++ cell :: after)) :
    Linked next stop cell (cell :: after) := by
  induction before generalizing start with
  | nil =>
      obtain ⟨_, shape⟩ := linked.eq_cons
      obtain ⟨rfl, rfl⟩ := List.cons.inj shape
      exact linked
  | cons head tail ih => exact ih (linked.tail_of_ne_nil (by simp)).2.2

/-- No cell occurs twice: a repeated cell would start two parts of the chain of
different length. -/
theorem nodup (linked : Linked next stop start cells) : cells.Nodup := by
  induction linked with
  | last => simp
  | @cons cell rest continues tail ih =>
      refine List.nodup_cons.mpr ⟨fun repeated => ?_, ih⟩
      obtain ⟨before, after, rfl⟩ := List.append_of_mem repeated
      have whole : Linked next stop cell (cell :: (before ++ cell :: after)) := .cons continues tail
      have lengths := congrArg List.length (whole.unique (drop tail))
      simp only [List.length_cons, List.length_append] at lengths
      omega

/-- Only the successors of the chain's own cells matter. -/
theorem congr (linked : Linked next stop start cells)
    (agree : ∀ cell ∈ cells, next' cell = next cell) : Linked next' stop start cells := by
  induction linked with
  | last ends => exact .last (by rwa [agree _ List.mem_cons_self])
  | @cons cell rest continues tail ih =>
      have same := agree cell List.mem_cons_self
      refine .cons (by rwa [same]) ?_
      rw [same]
      exact ih fun other member => agree other (List.mem_cons_of_mem _ member)

/-- Each cell's successor is another cell of the chain or a stop value. -/
theorem next_mem_or_stop (linked : Linked next stop start cells) {cell : α} (member : cell ∈ cells) :
    next cell ∈ cells ∨ stop (next cell) := by
  induction linked with
  | last ends =>
      rw [List.mem_singleton] at member
      exact .inr (member ▸ ends)
  | cons _ tail ih =>
      rcases List.mem_cons.mp member with rfl | later
      · exact .inl (List.mem_cons_of_mem _ tail.start_mem)
      · exact (ih later).imp_left (List.mem_cons_of_mem _)

/-- Every cell behind the first is a successor, and no stop value. -/
theorem next_of_mem_tail (linked : Linked next stop start cells) {cell : α} (member : cell ∈ cells.tail) :
    ∃ earlier, next earlier = cell ∧ ¬ stop cell := by
  induction linked with
  | last => exact absurd member List.not_mem_nil
  | @cons first rest continues tail ih =>
      obtain ⟨_, rfl⟩ := tail.eq_cons
      rcases List.mem_cons.mp member with rfl | later
      · exact ⟨first, rfl, continues⟩
      · exact ih later

/-- The successor of an inner cell is the cell behind it. -/
theorem next_getElem (linked : Linked next stop start cells) {i : Nat} (inner : i + 1 < cells.length) :
    next cells[i] = cells[i + 1] ∧ ¬ stop (next cells[i]) := by
  induction linked generalizing i with
  | last => simp at inner
  | @cons cell rest continues tail ih =>
      cases i with
      | zero =>
          obtain ⟨_, shape⟩ := tail.eq_cons
          subst shape
          exact ⟨rfl, continues⟩
      | succ i => exact ih (by simpa using inner)

/-- The successor of the last cell is a stop value. -/
theorem stop_getElem (linked : Linked next stop start cells) {i : Nat} (last : i + 1 = cells.length) :
    stop (next cells[i]) := by
  induction linked generalizing i with
  | last ends =>
      obtain rfl : i = 0 := by simpa using last
      exact ends
  | @cons cell rest continues tail ih =>
      cases i with
      | zero =>
          obtain ⟨_, shape⟩ := tail.eq_cons
          subst shape
          simp at last
      | succ i => exact ih (by simpa using last)

/-- Exchanging the part of a chain from one of its cells on, under a map that keeps the
successors of the cells in front of it. -/
theorem replace_tail {front back back' : List α} {cell : α}
    (linked : Linked next stop start (front ++ cell :: back))
    (agree : ∀ earlier ∈ front, next' earlier = next earlier)
    (tail : Linked next' stop cell (cell :: back')) :
    Linked next' stop start (front ++ cell :: back') := by
  induction front generalizing start with
  | nil =>
      obtain ⟨_, shape⟩ := linked.eq_cons
      obtain ⟨rfl, _⟩ := List.cons.inj shape
      exact tail
  | cons head front ih =>
      obtain ⟨rfl, goes, rest⟩ := linked.tail_of_ne_nil (by simp)
      have same := agree start List.mem_cons_self
      refine .cons (by rwa [same]) ?_
      rw [same]
      exact ih rest fun earlier member => agree earlier (List.mem_cons_of_mem _ member)

end Linked

/-- `Listed next null start cells`: following `next` from `start` visits exactly `cells`,
possibly none, and then meets `null`. -/
inductive Listed (next : α → α) (null : α) : α → List α → Prop where
  | nil : Listed next null null []
  | cons {cell rest} (nonnull : cell ≠ null) (tail : Listed next null (next cell) rest) :
      Listed next null cell (cell :: rest)

namespace Listed

variable {next next' : α → α} {null start : α} {cells : List α}

theorem eq_null (listed : Listed next null start []) : start = null := by
  cases listed
  rfl

theorem cons_inv {cell : α} {rest : List α} (listed : Listed next null start (cell :: rest)) :
    start = cell ∧ cell ≠ null ∧ Listed next null (next cell) rest := by
  cases listed with
  | cons nonnull tail => exact ⟨rfl, nonnull, tail⟩

/-- A null pointer starts the empty list only. -/
theorem eq_nil (listed : Listed next null start cells) (first : start = null) : cells = [] := by
  cases listed with
  | nil => rfl
  | cons nonnull => exact absurd first nonnull

theorem null_notMem (listed : Listed next null start cells) : null ∉ cells := by
  induction listed with
  | nil => exact List.not_mem_nil
  | cons nonnull _ ih => simpa using ⟨nonnull.symm, ih⟩

/-- A list that is not empty is a chain that stops at the null pointer. -/
theorem linked (listed : Listed next null start cells) (nonempty : cells ≠ []) :
    Linked next (· = null) start cells := by
  induction listed with
  | nil => exact absurd rfl nonempty
  | @cons cell rest nonnull tail ih =>
      cases rest with
      | nil => exact .last tail.eq_null
      | cons second others =>
          obtain ⟨first, second_ne, _⟩ := tail.cons_inv
          exact .cons (by rwa [first]) (ih (List.cons_ne_nil _ _))

/-- A chain that stops at the null pointer is a list, unless the pointer to it is null. -/
theorem of_linked (linked : Linked next (· = null) start cells) (nonnull : start ≠ null) :
    Listed next null start cells := by
  induction linked with
  | last ends =>
      refine .cons nonnull ?_
      rw [ends]
      exact .nil
  | cons continues _ ih => exact .cons nonnull (ih continues)

theorem nodup (listed : Listed next null start cells) : cells.Nodup := by
  cases cells with
  | nil => exact List.nodup_nil
  | cons => exact (listed.linked (List.cons_ne_nil _ _)).nodup

theorem unique {other : List α} (listed : Listed next null start cells)
    (listed' : Listed next null start other) : cells = other := by
  induction listed generalizing other with
  | nil => exact (listed'.eq_nil rfl).symm
  | cons nonnull _ ih =>
      cases listed' with
      | nil => exact absurd rfl nonnull
      | cons _ tail => rw [ih tail]

/-- Only the successors of the listed cells matter. -/
theorem congr (listed : Listed next null start cells)
    (agree : ∀ cell ∈ cells, next' cell = next cell) : Listed next' null start cells := by
  induction listed with
  | nil => exact .nil
  | @cons cell rest nonnull tail ih =>
      refine .cons nonnull ?_
      rw [agree cell List.mem_cons_self]
      exact ih fun other member => agree other (List.mem_cons_of_mem _ member)

/-- Each cell's successor is listed or null. -/
theorem next_mem_or_null (listed : Listed next null start cells) {cell : α} (member : cell ∈ cells) :
    next cell ∈ cells.tail ∨ next cell = null := by
  induction listed with
  | nil => exact absurd member List.not_mem_nil
  | @cons head rest nonnull tail ih =>
      rcases List.mem_cons.mp member with rfl | later
      · cases rest with
        | nil => exact .inr tail.eq_null
        | cons second others =>
            rw [tail.cons_inv.1]
            exact .inl List.mem_cons_self
      · exact (ih later).imp_left List.mem_of_mem_tail

/-- The successor of a cell is the one listed behind it. -/
theorem next_eq {front back : List α} {cell following : α}
    (listed : Listed next null start (front ++ cell :: following :: back)) : next cell = following := by
  induction front generalizing start with
  | nil => exact listed.cons_inv.2.2.cons_inv.1
  | cons _ _ ih => exact ih listed.cons_inv.2.2

variable [DecidableEq α]

/-- The successors after hanging a cell behind the last one. -/
def hang (next : α → α) (cells : List α) (cell : α) : α → α :=
  match cells.getLast? with
  | none => next
  | some last => Function.update next last cell

theorem hang_of_notMem {cell other : α} (outside : other ∉ cells) : hang next cells cell other = next other := by
  unfold hang
  cases isLast : cells.getLast? with
  | none => rfl
  | some last =>
      have different : other ≠ last := by
        rintro rfl
        exact outside (List.mem_of_getLast? isLast)
      exact Function.update_of_ne different _ _

/-- Hanging a new cell behind the last one appends it. -/
theorem append {cell : α} (listed : Listed next null start cells) (nonnull : cell ≠ null)
    (fresh : cell ∉ cells) (ends : next cell = null) :
    Listed (hang next cells cell) null (cells.head?.getD cell) (cells ++ [cell]) := by
  induction listed with
  | nil =>
      refine .cons nonnull ?_
      show Listed next null (next cell) []
      rw [ends]
      exact .nil
  | @cons head rest headNonnull tail ih =>
      obtain ⟨notHead, notLater⟩ := not_or.mp (mt List.mem_cons.mpr fresh)
      rw [List.head?_cons, Option.getD_some, List.cons_append]
      refine .cons headNonnull ?_
      cases rest with
      | nil =>
          have here : hang next [head] cell = Function.update next head cell := rfl
          rw [here, Function.update_self]
          refine .cons nonnull ?_
          rw [Function.update_of_ne notHead, ends]
          exact .nil
      | cons second others =>
          have same : hang next (head :: second :: others) cell = hang next (second :: others) cell := by
            rw [hang, List.getLast?_cons_cons, hang]
          obtain ⟨first, _, _⟩ := tail.cons_inv
          have distinct : head ∉ second :: others := (List.nodup_cons.mp (Listed.cons headNonnull tail).nodup).1
          rw [same, hang_of_notMem distinct, first]
          exact ih notLater

/-- Letting a cell point past its successor takes the successor out. -/
theorem unlink {front back : List α} {before cell : α}
    (listed : Listed next null start (front ++ before :: cell :: back)) :
    Listed (Function.update next before (next cell)) null start (front ++ before :: back) := by
  induction front generalizing start with
  | nil =>
      obtain ⟨rfl, nonnull, tail⟩ := listed.cons_inv
      have outside : start ∉ cell :: back := (List.nodup_cons.mp listed.nodup).1
      refine .cons nonnull ?_
      rw [Function.update_self]
      refine tail.cons_inv.2.2.congr fun other member => Function.update_of_ne ?_ _ _
      rintro rfl
      exact outside (List.mem_cons_of_mem _ member)
  | cons head front ih =>
      obtain ⟨rfl, nonnull, tail⟩ := listed.cons_inv
      have different : start ≠ before := by
        rintro rfl
        exact (List.nodup_cons.mp listed.nodup).1 (by simp)
      refine .cons nonnull ?_
      rw [Function.update_of_ne different]
      exact ih tail

end Listed

end KeblaOS
