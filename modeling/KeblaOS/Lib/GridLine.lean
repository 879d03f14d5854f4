import Mathlib.Algebra.Order.Ring.Abs
import Mathlib.Algebra.Order.Ring.Int
import Mathlib.Tactic.Linarith
import Mathlib.Tactic.Ring

/-!
# Lines on a grid

A line from the origin to a corner `(dx, dy)` on integer points, where each step compares twice the
error with `-dy` and `dx` and moves in either direction that passes the comparison. Every point stays
within half a unit of the ideal line, the longer direction moves in every step, and the corner is hit
in the last one.
-/

namespace KeblaOS

/-- A point of the line to `(dx, dy)`. -/
structure OnLine (dx dy i j : Int) : Prop where
  column : 0 ≤ i ∧ i ≤ dx
  row : 0 ≤ j ∧ j ≤ dy
  near : |2 * (dx * j - dy * i)| ≤ max dx dy

/-- The error the steps compare. -/
def lineError (dx dy i j : Int) : Int := dx - dy + (dx * j - dy * i)

/-- The next column. -/
def nextColumn (dx dy i j : Int) : Int := if -dy < 2 * lineError dx dy i j then i + 1 else i

/-- The next row. -/
def nextRow (dx dy i j : Int) : Int := if 2 * lineError dx dy i j < dx then j + 1 else j

theorem lineError_swap (dx dy i j : Int) : lineError dy dx j i = -lineError dx dy i j := by
  unfold lineError
  ring

theorem nextColumn_swap (dx dy i j : Int) : nextColumn dy dx j i = nextRow dx dy i j := by
  rw [nextColumn, nextRow, lineError_swap]
  apply if_congr _ rfl rfl
  omega

theorem nextRow_swap (dx dy i j : Int) : nextRow dy dx j i = nextColumn dx dy i j := (nextColumn_swap dy dx j i).symm

theorem lineError_next (dx dy i j : Int) : lineError dx dy (nextColumn dx dy i j) (nextRow dx dy i j) =
    lineError dx dy i j - (if -dy < 2 * lineError dx dy i j then dy else 0) +
      if 2 * lineError dx dy i j < dx then dx else 0 := by
  unfold nextColumn nextRow
  split_ifs
  all_goals
    unfold lineError
    ring

namespace OnLine

variable {dx dy i j : Int}

theorem origin (right : 0 ≤ dx) (down : 0 ≤ dy) : OnLine dx dy 0 0 where
  column := ⟨Int.le_refl 0, right⟩
  row := ⟨Int.le_refl 0, down⟩
  near := by simp [right]

theorem swap (on : OnLine dx dy i j) : OnLine dy dx j i where
  column := on.row
  row := on.column
  near := by
    rw [← abs_neg, max_comm]
    convert on.near using 2
    ring

/-- A point within half a unit of a flat line is not below the last row. -/
theorem row_le_of_near (flat : 0 < dx) (down : 0 ≤ dy) (inside : i ≤ dx) (near : 2 * (dx * j - dy * i) ≤ dx) :
    j ≤ dy := by
  by_contra below
  have beyond : dx * (dy + 1) ≤ dx * j := mul_le_mul_of_nonneg_left (by omega) (Int.le_of_lt flat)
  have corner : dy * i ≤ dy * dx := mul_le_mul_of_nonneg_left inside down
  rw [mul_add, mul_one, mul_comm dx dy] at beyond
  omega

/-- At the last column, the line is at the last row. -/
theorem row_of_last_column (on : OnLine dx dy dx j) (flat : dy ≤ dx) : j = dy := by
  obtain ⟨-, above⟩ := on.row
  obtain ⟨close, -⟩ := abs_le.mp on.near
  rw [max_eq_left flat] at close
  by_contra other
  have positive : 0 < dx := by
    have first := on.row.1
    omega
  have distance : dx * j ≤ dx * (dy - 1) := mul_le_mul_of_nonneg_left (by omega) (Int.le_of_lt positive)
  rw [mul_sub, mul_one, mul_comm dx dy] at distance
  omega

/-- Along the longer direction every step moves. -/
theorem nextColumn_eq (on : OnLine dx dy i j) (flat : dy ≤ dx) (more : i ≠ dx) : nextColumn dx dy i j = i + 1 := by
  obtain ⟨left, right⟩ := on.column
  obtain ⟨close, close'⟩ := abs_le.mp on.near
  rw [max_eq_left flat] at close close'
  apply if_pos
  rw [lineError]
  rcases Int.lt_or_eq_of_le flat with flatter | diagonal
  · omega
  · -- On a diagonal the error is a multiple of the side, and at most half of the side.
    subst diagonal
    have multiple : dy * j - dy * i = dy * (j - i) := (mul_sub _ _ _).symm
    rw [multiple] at close close' ⊢
    have equal : j = i := by
      by_contra other
      rcases Int.lt_or_gt_of_ne other with less | greater
      · have distance : dy * (j - i) ≤ dy * (-1) := mul_le_mul_of_nonneg_left (by omega) (by omega)
        omega
      · have distance : dy * 1 ≤ dy * (j - i) := mul_le_mul_of_nonneg_left (by omega) (by omega)
        omega
    rw [equal, sub_self, sub_self, mul_zero]
    omega

/-- A step along the longer direction stays on the line. -/
theorem next_of_flat (on : OnLine dx dy i j) (flat : dy ≤ dx) (more : i ≠ dx) :
    OnLine dx dy (nextColumn dx dy i j) (nextRow dx dy i j) := by
  obtain ⟨left, right⟩ := on.column
  obtain ⟨top, bottom⟩ := on.row
  obtain ⟨close, close'⟩ := abs_le.mp on.near
  rw [nextColumn_eq on flat more, nextRow, lineError]
  rw [max_eq_left flat] at close close'
  have column : dy * (i + 1) = dy * i + dy := mul_add_one _ _
  split_ifs with moves
  · have row : dx * (j + 1) = dx * j + dx := mul_add_one _ _
    have near : 2 * (dx * (j + 1) - dy * (i + 1)) ≤ dx := by omega
    refine ⟨by omega, ⟨by omega, row_le_of_near (by omega) (by omega) (by omega) near⟩, ?_⟩
    rw [max_eq_left flat, abs_le]
    omega
  · refine ⟨by omega, ⟨top, bottom⟩, ?_⟩
    rw [max_eq_left flat, abs_le]
    omega

/-- Every step but the last one stays on the line. -/
theorem next (on : OnLine dx dy i j) (more : i ≠ dx ∨ j ≠ dy) :
    OnLine dx dy (nextColumn dx dy i j) (nextRow dx dy i j) ∧ (dy ≤ dx → nextColumn dx dy i j = i + 1) ∧
      (dx ≤ dy → nextRow dx dy i j = j + 1) := by
  have column : dy ≤ dx → i ≠ dx := by
    rintro flat rfl
    exact more.elim (fun other => other rfl) fun other => other (on.row_of_last_column flat)
  have row : dx ≤ dy → j ≠ dy := by
    rintro steep rfl
    exact more.elim (fun other => other (on.swap.row_of_last_column steep)) fun other => other rfl
  refine ⟨?_, fun flat => on.nextColumn_eq flat (column flat), fun steep => ?_⟩
  · rcases Int.le_total dy dx with flat | steep
    · exact on.next_of_flat flat (column flat)
    · have other := (on.swap.next_of_flat steep (row steep)).swap
      rwa [nextColumn_swap, nextRow_swap] at other
  · rw [← nextColumn_swap]
    exact on.swap.nextColumn_eq steep (row steep)

end OnLine

end KeblaOS
