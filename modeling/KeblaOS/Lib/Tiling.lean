import Mathlib.Data.List.Range

/-!
# Tilings

Spans of numbers, one behind the other. `Tiles start spans stop` says that the spans begin at `start`, that
each one begins where the one before it ends, and that the last one ends at `stop`.
-/

namespace KeblaOS

structure Span where
  start : Nat
  size : Nat
deriving DecidableEq

/-- The numbers of a span in order. -/
def Span.numbers (span : Span) : List Nat := List.range' span.start span.size

inductive Tiles : Nat → List Span → Nat → Prop where
  | nil {start} : Tiles start [] start
  | cons {start size rest stop} (behind : Tiles (start + size) rest stop) : Tiles start (⟨start, size⟩ :: rest) stop

namespace Tiles

variable {start stop : Nat} {span : Span} {spans : List Span}

theorem cons_iff : Tiles start (span :: spans) stop ↔ span.start = start ∧ Tiles (start + span.size) spans stop := by
  constructor
  · intro tiles
    cases tiles with
    | cons behind => exact ⟨rfl, behind⟩
  · rintro ⟨rfl, behind⟩
    exact .cons behind

theorem nil_iff : Tiles start [] stop ↔ start = stop := by
  constructor
  · intro tiles
    cases tiles
    rfl
  · rintro rfl
    exact .nil

theorem start_le_stop (tiles : Tiles start spans stop) : start ≤ stop := by
  induction tiles with
  | nil => exact Nat.le_refl _
  | cons _ ih => omega

/-- The spans have all numbers between the two ends, each one once and in order. -/
theorem numbers_eq (tiles : Tiles start spans stop) : spans.flatMap Span.numbers = List.range' start (stop - start) := by
  induction tiles with
  | nil => simp
  | @cons start size rest stop behind ih =>
      have ends := behind.start_le_stop
      have sizes : size + (stop - (start + size)) = stop - start := by omega
      rw [List.flatMap_cons, ih, Span.numbers]
      dsimp only
      rw [List.range'_append_1, sizes]

/-- Spans of bounded size do not reach far. -/
theorem stop_le {bound : Nat} (tiles : Tiles start spans stop) (bounded : ∀ span ∈ spans, span.size ≤ bound) :
    stop ≤ start + bound * spans.length := by
  induction tiles with
  | nil => exact Nat.le_add_right _ _
  | @cons start size rest stop behind ih =>
      have first := bounded _ List.mem_cons_self
      have others := ih fun span there => bounded span (List.mem_cons_of_mem _ there)
      rw [List.length_cons, Nat.mul_succ]
      dsimp only at first
      omega

end Tiles

end KeblaOS
