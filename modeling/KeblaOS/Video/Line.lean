import Mathlib.Data.List.Chain
import KeblaOS.Lib.GridLine
import KeblaOS.Lib.RecordWalk
import KeblaOS.Lib.SignedInt
import KeblaOS.Video.Framebuffer

/-!
# Drawing a line

`draw_line` of `vga.c` walks from one end of a line to the other on an error term that both
comparisons of a round see as it was before the round. With coordinates below `2 ^ 28`, no `int`
of the walk overflows and it is the line of `Lib.GridLine`.
-/

namespace KeblaOS.Stdlib

/-- `abs`. -/
def abs (value : Int32) : Int32 := if value < 0 then -value else value

end KeblaOS.Stdlib

namespace KeblaOS.Video

/-- What `draw_line` computes before its loop, and its other parameters. -/
structure LineSetup where
  dx : Int32
  dy : Int32
  sx : Int32
  sy : Int32
  x2 : Int32
  y2 : Int32
  color : UInt32

/-- The variables of the loop, the framebuffer and the points that were plotted. -/
structure LineState where
  x1 : Int32
  y1 : Int32
  err : Int32
  pixels : Pixels
  plotted : List (Int32 × Int32)

/-- The first lines of `draw_line`. -/
def lineSetup (x1 y1 x2 y2 : Int32) (color : UInt32) : LineSetup where
  dx := Stdlib.abs (x2 - x1)
  dy := Stdlib.abs (y2 - y1)
  sx := if x1 < x2 then 1 else -1
  sy := if y1 < y2 then 1 else -1
  x2 := x2
  y2 := y2
  color := color

/-- The current point is plotted. -/
def LineState.plot (state : LineState) (screen : Screen) (line : LineSetup) : LineState :=
  { state with
      pixels := setPixel screen state.pixels state.x1 state.y1 line.color
      plotted := state.plotted ++ [(state.x1, state.y1)] }

/-- The first comparison of a round. -/
def LineState.stepSide (state : LineState) (line : LineSetup) (e2 : Int32) : LineState :=
  if -line.dy < e2 then { state with err := state.err - line.dy, x1 := state.x1 + line.sx } else state

/-- The second comparison of a round. -/
def LineState.stepDown (state : LineState) (line : LineSetup) (e2 : Int32) : LineState :=
  if e2 < line.dx then { state with err := state.err + line.dx, y1 := state.y1 + line.sy } else state

/-- Both comparisons see the error as it was before them. -/
def LineState.advance (state : LineState) (line : LineSetup) : LineState :=
  (state.stepSide line (2 * state.err)).stepDown line (2 * state.err)

/-- A round of the loop of `draw_line`. -/
def lineRound (screen : Screen) (line : LineSetup) (state : LineState) : Round LineState LineState :=
  if state.x1 = line.x2 ∧ state.y1 = line.y2 then .ends (state.plot screen line)
  else .goes ((state.plot screen line).advance line)

/-- `draw_line` returns with the last state of its loop. -/
def DrawsLine (screen : Screen) (pixels : Pixels) (x1 y1 x2 y2 : Int32) (color : UInt32) (result : LineState) : Prop :=
  let line := lineSetup x1 y1 x2 y2 color
  EndsWith (lineRound screen line) ⟨x1, y1, line.dx - line.dy, pixels, []⟩ result

/-- A plotted point as one of the plane. -/
def position (point : Int32 × Int32) : Int × Int := (point.1.toInt, point.2.toInt)

/-- The longer side of the rectangle between two points. -/
def longerSide (x1 y1 x2 y2 : Int) : Int := max |x2 - x1| |y2 - y1|

/-- One point of a line is followed by another. -/
def NextOnLine (x1 y1 x2 y2 : Int) (point next : Int × Int) : Prop :=
  (next.1 = point.1 ∨ next.1 = point.1 + Int.sign (x2 - x1)) ∧
    (next.2 = point.2 ∨ next.2 = point.2 + Int.sign (y2 - y1)) ∧
    (|y2 - y1| ≤ |x2 - x1| → |next.1 - point.1| = 1) ∧ (|x2 - x1| ≤ |y2 - y1| → |next.2 - point.2| = 1)

/-- A point is at most half a pixel away from a line. -/
def NearLine (x1 y1 x2 y2 : Int) (point : Int × Int) : Prop :=
  2 * |(|x2 - x1| * |point.2 - y1| - |y2 - y1| * |point.1 - x1|)| ≤ longerSide x1 y1 x2 y2

/-- The points of a line from one of them to its end. -/
structure LineFrom (x1 y1 x2 y2 : Int) (start : Int × Int) (points : List (Int × Int)) : Prop where
  first : points.head? = some start
  last : points.getLast? = some (x2, y2)
  steps : points.IsChain (NextOnLine x1 y1 x2 y2)
  near : ∀ point ∈ points, NearLine x1 y1 x2 y2 point

/-! ## The walk -/

/-- A coordinate `draw_line` is drawn with. -/
def SmallCoordinate (coordinate : Int32) : Prop := |coordinate.toInt| < 2 ^ 28

section Walk

variable {x1 y1 x2 y2 : Int32}

theorem toInt_abs {value : Int32} (small : value ≠ Int32.minValue) : (Stdlib.abs value).toInt = |value.toInt| := by
  have above := value.le_toInt
  have least : value.toInt ≠ -2 ^ 31 := fun equal => small (Int32.toInt_inj.mp equal)
  have zero : (0 : Int32).toInt = 0 := rfl
  unfold Stdlib.abs
  split_ifs with negative
  · rw [Int32.lt_iff_toInt_lt, zero] at negative
    rw [FitsInt.toInt_neg ⟨by omega, by omega⟩, abs_of_neg negative]
  · rw [Int32.lt_iff_toInt_lt, zero] at negative
    rw [abs_of_nonneg (by omega)]

/-- The distance of two coordinates. -/
theorem toInt_distance {a b : Int32} (small : SmallCoordinate a) (small' : SmallCoordinate b) :
    (Stdlib.abs (b - a)).toInt = |b.toInt - a.toInt| ∧ |b.toInt - a.toInt| < 2 ^ 29 := by
  obtain ⟨left, right⟩ := abs_lt.mp small
  obtain ⟨left', right'⟩ := abs_lt.mp small'
  have difference : (b - a).toInt = b.toInt - a.toInt := FitsInt.toInt_sub ⟨by omega, by omega⟩
  refine ⟨?_, abs_lt.mpr ⟨by omega, by omega⟩⟩
  rw [toInt_abs, difference]
  rintro equal
  have least : (Int32.minValue).toInt = -2147483648 := rfl
  rw [equal, least] at difference
  omega

/-- The walk has taken `i` steps to the side and `j` up or down. -/
structure WalkedTo (x1 y1 x2 y2 : Int32) (i j : Int) (state : LineState) : Prop where
  on : OnLine |x2.toInt - x1.toInt| |y2.toInt - y1.toInt| i j
  column : state.x1.toInt = x1.toInt + Int.sign (x2.toInt - x1.toInt) * i
  row : state.y1.toInt = y1.toInt + Int.sign (y2.toInt - y1.toInt) * j
  err : state.err.toInt = lineError |x2.toInt - x1.toInt| |y2.toInt - y1.toInt| i j

/-- A coordinate reaches the end of its side after as many steps as the side is long. -/
theorem reaches_end {a b : Int32} {steps : Int} (inside : 0 ≤ steps ∧ steps ≤ |b.toInt - a.toInt|) {c : Int32}
    (here : c.toInt = a.toInt + Int.sign (b.toInt - a.toInt) * steps) : c = b ↔ steps = |b.toInt - a.toInt| := by
  rw [← Int32.toInt_inj, here]
  rcases Int.lt_trichotomy (b.toInt - a.toInt) 0 with negative | zero | positive
  · rw [Int.sign_eq_neg_one_of_neg negative]
    rw [abs_of_neg negative] at inside ⊢
    omega
  · rw [zero] at inside ⊢
    simp only [Int.sign_zero, abs_zero] at inside ⊢
    omega
  · rw [Int.sign_eq_one_of_pos positive]
    rw [abs_of_pos positive] at inside ⊢
    omega

/-- One more step in a coordinate that has not reached its end. -/
theorem toInt_step {a b c : Int32} {steps : Int} (small : SmallCoordinate a) (small' : SmallCoordinate b)
    (inside : 0 ≤ steps ∧ steps + 1 ≤ |b.toInt - a.toInt|)
    (here : c.toInt = a.toInt + Int.sign (b.toInt - a.toInt) * steps) :
    (c + if a < b then 1 else -1).toInt = a.toInt + Int.sign (b.toInt - a.toInt) * (steps + 1) := by
  obtain ⟨left, right⟩ := abs_lt.mp small
  obtain ⟨left', right'⟩ := abs_lt.mp small'
  have one : (1 : Int32).toInt = 1 := rfl
  have minusOne : (-1 : Int32).toInt = -1 := rfl
  split_ifs with less
  · rw [Int32.lt_iff_toInt_lt] at less
    rw [Int.sign_eq_one_of_pos (by omega)] at here ⊢
    rw [abs_of_pos (by omega)] at inside
    rw [FitsInt.toInt_add ⟨by omega, by omega⟩]
    omega
  · rw [Int32.lt_iff_toInt_lt] at less
    have more : b.toInt - a.toInt < 0 := by
      by_contra none
      rw [show b.toInt - a.toInt = 0 by omega, abs_zero] at inside
      omega
    rw [Int.sign_eq_neg_one_of_neg more] at here ⊢
    rw [abs_of_neg more] at inside
    rw [FitsInt.toInt_add ⟨by omega, by omega⟩]
    omega

variable {i j : Int} {state : LineState} {screen : Screen} {color : UInt32}

theorem advance_x1 (state : LineState) (line : LineSetup) :
    (state.advance line).x1 = if -line.dy < 2 * state.err then state.x1 + line.sx else state.x1 := by
  by_cases side : -line.dy < 2 * state.err <;> by_cases down : 2 * state.err < line.dx <;>
    simp only [LineState.advance, LineState.stepDown, LineState.stepSide, side, down, if_true, if_false]

theorem advance_y1 (state : LineState) (line : LineSetup) :
    (state.advance line).y1 = if 2 * state.err < line.dx then state.y1 + line.sy else state.y1 := by
  by_cases side : -line.dy < 2 * state.err <;> by_cases down : 2 * state.err < line.dx <;>
    simp only [LineState.advance, LineState.stepDown, LineState.stepSide, side, down, if_true, if_false]

theorem advance_err (state : LineState) (line : LineSetup) :
    (state.advance line).err = (if -line.dy < 2 * state.err then state.err - line.dy else state.err) +
      if 2 * state.err < line.dx then line.dx else 0 := by
  by_cases side : -line.dy < 2 * state.err <;> by_cases down : 2 * state.err < line.dx <;>
    simp only [LineState.advance, LineState.stepDown, LineState.stepSide, side, down, if_true, if_false, Int32.add_zero]

theorem advance_plotted (state : LineState) (line : LineSetup) :
    (state.advance line).pixels = state.pixels ∧ (state.advance line).plotted = state.plotted := by
  by_cases side : -line.dy < 2 * state.err <;> by_cases down : 2 * state.err < line.dx <;>
    simp only [LineState.advance, LineState.stepDown, LineState.stepSide, side, down, if_true, if_false, and_self]

section Comparisons

variable (left : SmallCoordinate x1) (top : SmallCoordinate y1) (right : SmallCoordinate x2)
    (bottom : SmallCoordinate y2) (walked : WalkedTo x1 y1 x2 y2 i j state)

include left top right bottom walked

/-- The error has room below the least and above the greatest number. -/
theorem WalkedTo.error_bounded : -2 ^ 30 ≤ lineError |x2.toInt - x1.toInt| |y2.toInt - y1.toInt| i j ∧
    lineError |x2.toInt - x1.toInt| |y2.toInt - y1.toInt| i j < 2 ^ 30 := by
  obtain ⟨close, close'⟩ := abs_le.mp walked.on.near
  have long := max_lt (toInt_distance left right).2 (toInt_distance top bottom).2
  have flat := abs_nonneg (x2.toInt - x1.toInt)
  have deep := abs_nonneg (y2.toInt - y1.toInt)
  have width := (toInt_distance left right).2
  have height := (toInt_distance top bottom).2
  unfold lineError
  exact ⟨by omega, by omega⟩

theorem WalkedTo.twice_err :
    (2 * state.err).toInt = 2 * lineError |x2.toInt - x1.toInt| |y2.toInt - y1.toInt| i j := by
  have two : (2 : Int32).toInt = 2 := rfl
  have bounded := walked.error_bounded left top right bottom
  rw [FitsInt.toInt_mul, two, walked.err]
  rw [two, walked.err]
  exact ⟨by omega, by omega⟩

/-- The comparison for a step to the side. -/
theorem WalkedTo.toSide_iff : -(lineSetup x1 y1 x2 y2 color).dy < 2 * state.err ↔
    -|y2.toInt - y1.toInt| < 2 * lineError |x2.toInt - x1.toInt| |y2.toInt - y1.toInt| i j := by
  obtain ⟨dy, height⟩ := toInt_distance top bottom
  have deep := abs_nonneg (y2.toInt - y1.toInt)
  have dy : (lineSetup x1 y1 x2 y2 color).dy.toInt = |y2.toInt - y1.toInt| := dy
  have negative : (-(lineSetup x1 y1 x2 y2 color).dy).toInt = -|y2.toInt - y1.toInt| := by
    rw [FitsInt.toInt_neg, dy]
    rw [dy]
    exact ⟨by omega, by omega⟩
  rw [Int32.lt_iff_toInt_lt, walked.twice_err left top right bottom, negative]

/-- The comparison for a step up or down. -/
theorem WalkedTo.toRow_iff : 2 * state.err < (lineSetup x1 y1 x2 y2 color).dx ↔
    2 * lineError |x2.toInt - x1.toInt| |y2.toInt - y1.toInt| i j < |x2.toInt - x1.toInt| := by
  rw [Int32.lt_iff_toInt_lt, walked.twice_err left top right bottom]
  exact iff_of_eq (congrArg (_ < ·) (toInt_distance left right).1)

/-- The error behind a round. -/
theorem WalkedTo.err_advance : (state.advance (lineSetup x1 y1 x2 y2 color)).err.toInt =
    lineError |x2.toInt - x1.toInt| |y2.toInt - y1.toInt|
      (nextColumn |x2.toInt - x1.toInt| |y2.toInt - y1.toInt| i j)
      (nextRow |x2.toInt - x1.toInt| |y2.toInt - y1.toInt| i j) := by
  have toSide := @toSide_iff x1 y1 x2 y2 i j state color left top right bottom walked
  have toRow := @toRow_iff x1 y1 x2 y2 i j state color left top right bottom walked
  have bounded := walked.error_bounded left top right bottom
  obtain ⟨dx, width⟩ := toInt_distance left right
  obtain ⟨dy, height⟩ := toInt_distance top bottom
  have flat := abs_nonneg (x2.toInt - x1.toInt)
  have deep := abs_nonneg (y2.toInt - y1.toInt)
  have err := walked.err
  set w := |x2.toInt - x1.toInt|
  set h := |y2.toInt - y1.toInt|
  have side : (if -(lineSetup x1 y1 x2 y2 color).dy < 2 * state.err then state.err - (lineSetup x1 y1 x2 y2 color).dy
      else state.err).toInt = lineError w h i j - if -h < 2 * lineError w h i j then h else 0 := by
    change (if _ then state.err - Stdlib.abs (y2 - y1) else state.err).toInt = _
    by_cases side : -h < 2 * lineError w h i j
    · rw [if_pos side, if_pos (toSide.mpr side), FitsInt.toInt_sub, err, dy]
      rw [err, dy]
      exact ⟨by omega, by omega⟩
    · rw [if_neg side, if_neg (mt toSide.mp side), err, sub_zero]
  have down : (if 2 * state.err < (lineSetup x1 y1 x2 y2 color).dx then (lineSetup x1 y1 x2 y2 color).dx else 0).toInt =
      if 2 * lineError w h i j < w then w else 0 := by
    by_cases down : 2 * lineError w h i j < w
    · rw [if_pos down, if_pos (toRow.mpr down)]
      exact dx
    · rw [if_neg down, if_neg (mt toRow.mp down)]
      rfl
  have fits : FitsInt (lineError w h i j - (if -h < 2 * lineError w h i j then h else 0) +
      if 2 * lineError w h i j < w then w else 0) := by
    split_ifs <;> exact ⟨by omega, by omega⟩
  rw [← side, ← down] at fits
  rw [advance_err, lineError_next, ← side, ← down]
  exact fits.toInt_add

/-- A round takes one step of the line. -/
theorem lineRound_walks (more : i ≠ |x2.toInt - x1.toInt| ∨ j ≠ |y2.toInt - y1.toInt|) :
    ∃ next, lineRound screen (lineSetup x1 y1 x2 y2 color) state = .goes next ∧
      WalkedTo x1 y1 x2 y2 (nextColumn |x2.toInt - x1.toInt| |y2.toInt - y1.toInt| i j)
        (nextRow |x2.toInt - x1.toInt| |y2.toInt - y1.toInt| i j) next ∧
      next.pixels = setPixel screen state.pixels state.x1 state.y1 color ∧
      next.plotted = state.plotted ++ [(state.x1, state.y1)] := by
  have toSide := @WalkedTo.toSide_iff x1 y1 x2 y2 i j state color left top right bottom walked
  have toRow := @WalkedTo.toRow_iff x1 y1 x2 y2 i j state color left top right bottom walked
  have err' := @WalkedTo.err_advance x1 y1 x2 y2 i j (state.plot screen (lineSetup x1 y1 x2 y2 color)) color left top
    right bottom ⟨walked.on, walked.column, walked.row, walked.err⟩
  obtain ⟨on, column, row, err⟩ := walked
  obtain ⟨on', -, -⟩ := on.next more
  have going : ¬ (state.x1 = x2 ∧ state.y1 = y2) := by
    rw [reaches_end on.column column, reaches_end on.row row]
    omega
  have xStep := @toInt_step x1 x2 state.x1 i left right
  have yStep := @toInt_step y1 y2 state.y1 j top bottom
  set w := |x2.toInt - x1.toInt|
  set h := |y2.toInt - y1.toInt|
  refine ⟨_, if_neg going, ⟨on', ?_, ?_, err'⟩, (advance_plotted _ _).1, (advance_plotted _ _).2⟩
  · rw [advance_x1]
    change (if -(lineSetup x1 y1 x2 y2 color).dy < 2 * state.err then state.x1 + (if x1 < x2 then 1 else -1) else state.x1).toInt = _
    by_cases side : -h < 2 * lineError w h i j
    · rw [nextColumn, if_pos side] at on' ⊢
      rw [if_pos (toSide.mpr side)]
      exact xStep ⟨on.column.1, on'.column.2⟩ column
    · rw [nextColumn, if_neg side]
      rw [if_neg (mt toSide.mp side)]
      exact column
  · rw [advance_y1]
    change (if 2 * state.err < (lineSetup x1 y1 x2 y2 color).dx then state.y1 + (if y1 < y2 then 1 else -1) else state.y1).toInt = _
    by_cases down : 2 * lineError w h i j < w
    · rw [nextRow, if_pos down] at on' ⊢
      rw [if_pos (toRow.mpr down)]
      exact yStep ⟨on.row.1, on'.row.2⟩ row
    · rw [nextRow, if_neg down]
      rw [if_neg (mt toRow.mp down)]
      exact row

end Comparisons

/-! ## The whole line -/

/-- The point a walk has come to. -/
def LineState.point (state : LineState) : Int × Int := (state.x1.toInt, state.y1.toInt)

/-- The steps taken along a side are the distance from its start. -/
theorem abs_sign_mul {a b steps : Int} (inside : 0 ≤ steps ∧ steps ≤ |b - a|) : |Int.sign (b - a) * steps| = steps := by
  rcases Int.lt_trichotomy (b - a) 0 with negative | zero | positive
  · rw [Int.sign_eq_neg_one_of_neg negative, neg_one_mul, abs_neg, abs_of_nonneg inside.1]
  · rw [zero, abs_zero] at inside
    rw [zero, Int.sign_zero, zero_mul, abs_zero]
    omega
  · rw [Int.sign_eq_one_of_pos positive, one_mul, abs_of_nonneg inside.1]

theorem abs_sign {value : Int} (side : 0 < |value|) : |Int.sign value| = 1 := by
  rcases Int.lt_trichotomy value 0 with negative | rfl | positive
  · rw [Int.sign_eq_neg_one_of_neg negative, abs_neg, abs_one]
  · rw [abs_zero] at side
    omega
  · rw [Int.sign_eq_one_of_pos positive, abs_one]

theorem WalkedTo.near (walked : WalkedTo x1 y1 x2 y2 i j state) :
    NearLine x1.toInt y1.toInt x2.toInt y2.toInt state.point := by
  have close := walked.on.near
  rw [abs_mul, abs_two] at close
  rw [NearLine, LineState.point, walked.column, walked.row, add_sub_cancel_left, add_sub_cancel_left,
    abs_sign_mul walked.on.row, abs_sign_mul walked.on.column]
  exact close

theorem WalkedTo.next_on_line {next : LineState} (walked : WalkedTo x1 y1 x2 y2 i j state)
    (walked' : WalkedTo x1 y1 x2 y2 (nextColumn |x2.toInt - x1.toInt| |y2.toInt - y1.toInt| i j)
      (nextRow |x2.toInt - x1.toInt| |y2.toInt - y1.toInt| i j) next)
    (more : i ≠ |x2.toInt - x1.toInt| ∨ j ≠ |y2.toInt - y1.toInt|) :
    NextOnLine x1.toInt y1.toInt x2.toInt y2.toInt state.point next.point := by
  obtain ⟨-, flat, steep⟩ := walked.on.next more
  obtain ⟨first, -⟩ := walked.on.column
  obtain ⟨first', -⟩ := walked.on.row
  have inside := walked'.on.column
  have inside' := walked'.on.row
  rw [LineState.point, LineState.point, walked.column, walked.row, walked'.column, walked'.row]
  refine ⟨?_, ?_, fun longer => ?_, fun longer => ?_⟩
  · dsimp only
    rw [nextColumn]
    split_ifs
    · exact .inr (by ring)
    · exact .inl rfl
  · dsimp only
    rw [nextRow]
    split_ifs
    · exact .inr (by ring)
    · exact .inl rfl
  · rw [flat longer] at inside ⊢
    rw [mul_add_one, ← add_assoc, add_sub_cancel_left]
    exact abs_sign (by omega)
  · rw [steep longer] at inside' ⊢
    rw [mul_add_one, ← add_assoc, add_sub_cancel_left]
    exact abs_sign (by omega)

/-- The walk from where it stands on, which ends after as many steps as the longer side has left. -/
theorem walk_from (left : SmallCoordinate x1) (top : SmallCoordinate y1) (right : SmallCoordinate x2)
    (bottom : SmallCoordinate y2) (screen : Screen) (color : UInt32) {steps : Nat}
    (walked : WalkedTo x1 y1 x2 y2 i j state)
    (remaining : (steps : Int) = if |y2.toInt - y1.toInt| ≤ |x2.toInt - x1.toInt| then |x2.toInt - x1.toInt| - i
      else |y2.toInt - y1.toInt| - j) :
    ∃ points result, EndsWith (lineRound screen (lineSetup x1 y1 x2 y2 color)) state result ∧
      result.plotted = state.plotted ++ points ∧ points.length = steps + 1 ∧
      result.pixels = points.foldl (fun pixels point => setPixel screen pixels point.1 point.2 color) state.pixels ∧
      LineFrom x1.toInt y1.toInt x2.toInt y2.toInt state.point (points.map position) := by
  have corner := walked.on
  induction steps generalizing i j state with
  | zero =>
      have arrived : i = |x2.toInt - x1.toInt| ∧ j = |y2.toInt - y1.toInt| := by
        split_ifs at remaining with flat
        · obtain rfl : i = |x2.toInt - x1.toInt| := by omega
          exact ⟨rfl, corner.row_of_last_column flat⟩
        · obtain rfl : j = |y2.toInt - y1.toInt| := by omega
          exact ⟨corner.swap.row_of_last_column (by omega), rfl⟩
      have ends : state.x1 = x2 ∧ state.y1 = y2 :=
        ⟨(reaches_end corner.column walked.column).mpr arrived.1, (reaches_end corner.row walked.row).mpr arrived.2⟩
      refine ⟨[(state.x1, state.y1)], _, endsWith_of_ends (if_pos ends), rfl, rfl, rfl, ⟨rfl, ?_, .singleton _, ?_⟩⟩
      · rw [ends.1, ends.2]
        rfl
      · intro point member
        obtain rfl := List.mem_singleton.mp member
        exact walked.near
  | succ steps ih =>
      have more : i ≠ |x2.toInt - x1.toInt| ∨ j ≠ |y2.toInt - y1.toInt| := by
        split_ifs at remaining <;> omega
      obtain ⟨next, goes, walked', pixels, plotted⟩ := lineRound_walks left top right bottom walked more
      obtain ⟨-, flat, steep⟩ := corner.next more
      have rest : (steps : Int) = if |y2.toInt - y1.toInt| ≤ |x2.toInt - x1.toInt|
          then |x2.toInt - x1.toInt| - nextColumn |x2.toInt - x1.toInt| |y2.toInt - y1.toInt| i j
          else |y2.toInt - y1.toInt| - nextRow |x2.toInt - x1.toInt| |y2.toInt - y1.toInt| i j := by
        split_ifs at remaining ⊢ with longer
        · rw [flat longer]
          omega
        · rw [steep (by omega)]
          omega
      obtain ⟨points, result, ended, stored, length, drawn, line⟩ := ih walked' rest walked'.on
      refine ⟨(state.x1, state.y1) :: points, result, (endsWith_iff_of_goes goes).mpr ended, ?_, ?_, ?_, ⟨rfl, ?_, ?_, ?_⟩⟩
      · rw [stored, plotted, List.append_assoc, List.singleton_append]
      · rw [List.length_cons, length]
      · rw [List.foldl_cons, drawn, pixels]
      · rw [List.map_cons, List.getLast?_cons, line.last]
        rfl
      · refine line.steps.cons fun point there => ?_
        rw [line.first] at there
        obtain rfl := Option.some.inj there
        exact walked.next_on_line walked' more
      · rw [List.map_cons, List.forall_mem_cons]
        exact ⟨walked.near, line.near⟩

theorem walkedTo_start (left : SmallCoordinate x1) (top : SmallCoordinate y1) (right : SmallCoordinate x2)
    (bottom : SmallCoordinate y2) (pixels : Pixels) : WalkedTo x1 y1 x2 y2 0 0
      ⟨x1, y1, Stdlib.abs (x2 - x1) - Stdlib.abs (y2 - y1), pixels, []⟩ := by
  obtain ⟨dx, width⟩ := toInt_distance left right
  obtain ⟨dy, height⟩ := toInt_distance top bottom
  have flat := abs_nonneg (x2.toInt - x1.toInt)
  have deep := abs_nonneg (y2.toInt - y1.toInt)
  refine ⟨.origin flat deep, by rw [mul_zero, add_zero], by rw [mul_zero, add_zero], ?_⟩
  dsimp only
  rw [FitsInt.toInt_sub, dx, dy, lineError, mul_zero, mul_zero, sub_zero, add_zero]
  rw [dx, dy]
  exact ⟨by omega, by omega⟩

/-- `draw_line` returns, having plotted one point more than the longer side has steps, from the one end to the
other along the line between them. -/
theorem drawLine_points (left : SmallCoordinate x1) (top : SmallCoordinate y1) (right : SmallCoordinate x2)
    (bottom : SmallCoordinate y2) (screen : Screen) (pixels : Pixels) (color : UInt32) :
    ∃ result, DrawsLine screen pixels x1 y1 x2 y2 color result ∧
      (result.plotted.length : Int) = longerSide x1.toInt y1.toInt x2.toInt y2.toInt + 1 ∧
      LineFrom x1.toInt y1.toInt x2.toInt y2.toInt (x1.toInt, y1.toInt) (result.plotted.map position) ∧
      result.pixels = result.plotted.foldl (fun pixels point => setPixel screen pixels point.1 point.2 color) pixels := by
  have flat := abs_nonneg (x2.toInt - x1.toInt)
  have deep := abs_nonneg (y2.toInt - y1.toInt)
  obtain ⟨steps, longer⟩ := Int.eq_ofNat_of_zero_le (le_max_of_le_left flat : 0 ≤ longerSide x1.toInt y1.toInt x2.toInt y2.toInt)
  have start := walkedTo_start left top right bottom pixels
  have remaining : (steps : Int) = if |y2.toInt - y1.toInt| ≤ |x2.toInt - x1.toInt| then |x2.toInt - x1.toInt| - 0
      else |y2.toInt - y1.toInt| - 0 := by
    rw [← longer, sub_zero, sub_zero]
    split_ifs with side
    · exact max_eq_left side
    · exact max_eq_right (by omega)
  obtain ⟨points, result, ended, plotted, length, drawn, line⟩ :=
    walk_from left top right bottom screen color start remaining
  rw [List.nil_append] at plotted
  refine ⟨result, ended, ?_, plotted ▸ line, plotted ▸ drawn⟩
  rw [plotted, length, longerSide, longer]
  rfl

end Walk

/-- Six points from the origin to the right and up. -/
theorem drawLine_points_six :
    ∃ result, DrawsLine ⟨640, 480⟩ (fun _ _ => 0) 0 0 5 (-3) 0xFF0000 result ∧ (result.plotted.length : Int) = 5 + 1 := by
  have small : SmallCoordinate 0 := by
    rw [SmallCoordinate, show (0 : Int32).toInt = 0 from rfl, abs_zero]
    norm_num
  have right : SmallCoordinate 5 := by
    rw [SmallCoordinate, show (5 : Int32).toInt = 5 from rfl]
    norm_num
  have bottom : SmallCoordinate (-3) := by
    rw [SmallCoordinate, show (-3 : Int32).toInt = -3 from rfl]
    norm_num
  obtain ⟨result, draws, length, -⟩ :=
    drawLine_points small small right bottom ⟨640, 480⟩ (fun _ _ => 0) 0xFF0000
  have side : longerSide (0 : Int32).toInt (0 : Int32).toInt (5 : Int32).toInt (-3 : Int32).toInt = 5 := by
    rw [longerSide, show (0 : Int32).toInt = 0 from rfl, show (5 : Int32).toInt = 5 from rfl,
      show (-3 : Int32).toInt = -3 from rfl]
    norm_num
  exact ⟨result, draws, side ▸ length⟩

end KeblaOS.Video
