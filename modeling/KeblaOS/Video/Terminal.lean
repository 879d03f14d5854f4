import Mathlib.Data.List.Induction
import Mathlib.Data.List.ProdSigma
import KeblaOS.Lib.SignedInt
import KeblaOS.Video.Framebuffer

/-!
# The terminal

`putchar` of `vga_term.c` draws characters of 8 by 16 pixels at a cursor that every kind of byte moves in
its own way. The functions that draw a character advance the cursor by half a character, and `putchar`
advances it once more.
-/

namespace KeblaOS.Video

/-- `text_color`. -/
def textColor : UInt32 := 0xFFFFFFFF

/-- `back_color`. -/
def backColor : UInt32 := 0xFF000000

/-- The framebuffer with `fb0_pitch`, and `g_8x16_font`. -/
structure Terminal where
  screen : Screen
  pitch : UInt64
  font : Nat → UInt8

/-- `cur_x` and `cur_y`, the framebuffer, and how many lines have been scrolled out of it. -/
structure TerminalState where
  curX : Int32 := 0
  curY : Int32 := 0
  pixels : Pixels
  scrolled : Nat := 0

namespace Terminal

/-- A round of the loop of `scroll_up` moves one row of pixels up by a line. -/
def moveRow (terminal : Terminal) (pixels : Pixels) (row : Nat) : Pixels := fun column destRow =>
  if column < (terminal.pitch / 4).toNat ∧ destRow + 16 = row then pixels column row else pixels column destRow

/-- `scroll_up`, on a screen of at least one line. -/
def scrollUp (terminal : Terminal) (pixels : Pixels) : Pixels :=
  let moved := (List.range' 16 (terminal.screen.height.toNat - 16)).foldl terminal.moveRow pixels
  fun column row =>
    if column < (terminal.pitch / 4).toNat ∧ terminal.screen.height.toNat - 16 ≤ row ∧ row < terminal.screen.height.toNat
    then backColor else moved column row

/-- The screen is scrolled and the cursor moves up with what it shows. -/
def scroll (terminal : Terminal) (state : TerminalState) : TerminalState :=
  { state with
      pixels := terminal.scrollUp state.pixels
      curY := state.curY - 16
      scrolled := state.scrolled + 1 }

/-- The last lines of `update_cur_pos`. -/
def scrollAtBottom (terminal : Terminal) (state : TerminalState) : TerminalState :=
  if rows terminal.screen ≤ state.curY then terminal.scroll state else state

/-- `update_cur_pos`. -/
def updateCurPos (terminal : Terminal) (state : TerminalState) : TerminalState :=
  let state := { state with curX := state.curX + 4 }
  terminal.scrollAtBottom
    (if columns terminal.screen ≤ state.curX then { state with curX := 0, curY := state.curY + 16 } else state)

/-- The rows and columns of a character. -/
def glyphCells : List (Nat × Nat) := List.range 16 ×ˢ List.range 8

/-- The loops of `draw_char_8x16`. -/
def drawGlyph (terminal : Terminal) (pixels : Pixels) (x y : Int32) (c : UInt8) (color : UInt32) : Pixels :=
  glyphCells.foldl (fun pixels cell =>
    if (terminal.font (c.toNat * 16 + cell.1)).toNat.testBit (7 - cell.2)
    then setPixel terminal.screen pixels (x + Int32.ofNat cell.2) (y + Int32.ofNat cell.1) color else pixels) pixels

/-- `draw_char_8x16`. -/
def drawChar8x16 (terminal : Terminal) (state : TerminalState) (x y : Int32) (c : UInt8) (color : UInt32) : TerminalState :=
  terminal.updateCurPos { state with pixels := terminal.drawGlyph state.pixels x y c color }

/-- `create_newline`; its comparison is one of 64 bits. -/
def createNewline (terminal : Terminal) (state : TerminalState) : TerminalState :=
  let state := { state with curX := 0, curY := state.curY + 16 }
  if terminal.screen.height - 16 ≤ state.curY.toInt64.toUInt64 then terminal.scroll state else state

/-- The rows and columns that `backspace_manage` clears, one column more than a character has. -/
def blankCells : List (Nat × Nat) := List.range 16 ×ˢ List.range 9

/-- The last loops of `backspace_manage`. -/
def blank (terminal : Terminal) (state : TerminalState) : TerminalState :=
  { state with
      pixels := blankCells.foldl (fun pixels cell =>
        setPixel terminal.screen pixels (state.curX + Int32.ofNat cell.2) (state.curY + Int32.ofNat cell.1) backColor)
        state.pixels }

/-- `backspace_manage`. -/
def backspaceManage (terminal : Terminal) (state : TerminalState) : TerminalState :=
  if state.curX = 0 ∧ state.curY = 0 then state
  else if state.curX = 0 then
    terminal.blank { state with
      curX := (terminal.screen.width - 8).toUInt32.toInt32
      curY := state.curY - 16 }
  else terminal.blank { state with curX := state.curX - 8 }

/-- `putchar`. -/
def putchar (terminal : Terminal) (state : TerminalState) (c : UInt8) : TerminalState :=
  if c = 0x09 then terminal.updateCurPos { state with curX := (state.curX + 4) &&& ~~~(4 - 1) }
  else if c = 0x0D then terminal.updateCurPos { state with curX := 0 }
  else if c = 0x0A then terminal.updateCurPos (terminal.createNewline state)
  else if c = 0x08 then terminal.backspaceManage state
  else if c = 0x00 then state
  else
    let c := if 128 ≤ c then 0x3F else c
    let drawn := terminal.drawChar8x16 state state.curX state.curY c textColor
    terminal.updateCurPos { drawn with curX := drawn.curX + 1 }

/-- The state after bytes have been written to a terminal whose cursor is at (0, 0). -/
def written (terminal : Terminal) (pixels : Pixels) (bytes : List UInt8) : TerminalState :=
  bytes.foldl terminal.putchar { pixels }

end Terminal

/-- The characters of the code that have a glyph, without the control characters. -/
def Printable (c : UInt8) : Prop := 0x20 ≤ c ∧ c ≤ 0x7E

instance (c : UInt8) : Decidable (Printable c) := inferInstanceAs (Decidable (_ ∧ _))

namespace TerminalState

/-- The cursor is on the screen. -/
def InRange (screen : Screen) (state : TerminalState) : Prop :=
  (0 ≤ state.curX.toInt ∧ state.curX.toInt < screen.width.toNat) ∧
    0 ≤ state.curY.toInt ∧ state.curY.toInt < screen.height.toNat

/-- The row of the cursor, counted from the first line that was ever shown. -/
def line (state : TerminalState) : Int := state.curY.toInt + 16 * state.scrolled

/-- The cell of the cursor shows the background. -/
def CellBlank (screen : Screen) (state : TerminalState) : Prop :=
  ∀ column row : Nat, state.curX.toInt ≤ column → (column : Int) < state.curX.toInt + 8 → column < screen.width.toNat →
    state.curY.toInt ≤ row → (row : Int) < state.curY.toInt + 16 → row < screen.height.toNat →
    state.pixels column row = backColor

/-- After a character and a backspace, the cursor is back at the cell of the character, wherever the screen shows it
by then, and the cell is blank. -/
def Erases (screen : Screen) (before after : TerminalState) : Prop :=
  after.curX = before.curX ∧ after.line = before.line ∧ after.CellBlank screen

end TerminalState

/-! ## Scrolling -/

/-- The rows that have been moved up by the first rounds of `scroll_up`. -/
theorem foldl_moveRow (terminal : Terminal) (pixels : Pixels) (count column row : Nat) :
    (List.range' 16 count).foldl terminal.moveRow pixels column row =
      if column < (terminal.pitch / 4).toNat ∧ row < count then pixels column (row + 16) else pixels column row := by
  induction count generalizing row with
  | zero => rw [List.range'_zero, List.foldl_nil, if_neg fun both => absurd both.2 (Nat.not_lt_zero row)]
  | succ count ih =>
      rw [List.range'_1_concat, List.foldl_append, List.foldl_cons, List.foldl_nil, Terminal.moveRow, ih, ih]
      by_cases inside : column < (terminal.pitch / 4).toNat
      · by_cases last : row = count
        · subst last
          rw [if_pos ⟨inside, Nat.add_comm row 16⟩, if_neg fun both => by omega, if_pos ⟨inside, by omega⟩,
            Nat.add_comm 16 row]
        · rw [if_neg fun both => last (by omega)]
          exact if_congr (by omega) rfl rfl
      · rw [if_neg fun both => inside both.1, if_neg fun both => inside both.1, if_neg fun both => inside both.1]

/-- Scrolling shows every row a line higher, and a blank line at the bottom. -/
theorem scrollUp_apply (terminal : Terminal) (pixels : Pixels) (high : 16 ≤ terminal.screen.height.toNat)
    {column row : Nat} (inside : column < (terminal.pitch / 4).toNat) (shown : row < terminal.screen.height.toNat) :
    terminal.scrollUp pixels column row =
      if row + 16 < terminal.screen.height.toNat then pixels column (row + 16) else backColor := by
  rw [Terminal.scrollUp]
  dsimp only
  rw [foldl_moveRow]
  by_cases bottom : row + 16 < terminal.screen.height.toNat
  · rw [if_neg fun all => by omega, if_pos ⟨inside, by omega⟩, if_pos bottom]
  · rw [if_pos ⟨inside, by omega, shown⟩, if_neg bottom]

/-! ## The moves of the cursor -/

/-- A screen with room for a few lines, on which no `int` of the terminal overflows. -/
structure Sized (screen : Screen) : Prop where
  wide : 64 ≤ screen.width.toNat
  high : 48 ≤ screen.height.toNat
  narrow : screen.width.toNat < 2 ^ 31 - 16
  low : screen.height.toNat < 2 ^ 31 - 16

/-- The cursor is at the top of a line of the screen. -/
def TerminalState.AtLine (screen : Screen) (state : TerminalState) : Prop :=
  (0 ≤ state.curY.toInt ∧ state.curY.toInt < screen.height.toNat) ∧ 16 ∣ state.curY.toInt

section Moves

variable {terminal : Terminal} {state : TerminalState}

theorem toInt_columns (sized : Sized terminal.screen) :
    (columns terminal.screen).toInt = terminal.screen.width.toNat := by
  have narrow := sized.narrow
  exact toInt_truncated (by omega)

theorem toInt_rows (sized : Sized terminal.screen) : (rows terminal.screen).toInt = terminal.screen.height.toNat := by
  have low := sized.low
  exact toInt_truncated (by omega)

/-- Scrolling moves the cursor up with what it shows. -/
theorem scroll_spec (terminal : Terminal) (nonnegative : 0 ≤ state.curY.toInt) :
    (terminal.scroll state).curX = state.curX ∧ (terminal.scroll state).curY.toInt = state.curY.toInt - 16 ∧
      (terminal.scroll state).line = state.line := by
  have sixteen : (16 : Int32).toInt = 16 := rfl
  have below := state.curY.toInt_lt
  have up : (state.curY - 16).toInt = state.curY.toInt - 16 := by
    rw [FitsInt.toInt_sub, sixteen]
    rw [sixteen]
    exact ⟨by omega, by omega⟩
  refine ⟨rfl, up, ?_⟩
  unfold TerminalState.line Terminal.scroll
  dsimp only
  rw [up]
  push_cast
  omega

/-- A cursor at the top of a line is on the screen after the last lines of `update_cur_pos`. -/
theorem scrollAtBottom_spec (sized : Sized terminal.screen) (top : 0 ≤ state.curY.toInt)
    (bottom : state.curY.toInt < terminal.screen.height.toNat + 16) (aligned : 16 ∣ state.curY.toInt) :
    let next := terminal.scrollAtBottom state
    next.curX = state.curX ∧ next.line = state.line ∧ next.AtLine terminal.screen ∧
      next.curY.toInt = if terminal.screen.height.toNat ≤ state.curY.toInt then state.curY.toInt - 16
        else state.curY.toInt := by
  have high := sized.high
  dsimp only
  unfold Terminal.scrollAtBottom TerminalState.AtLine
  by_cases beyond : rows terminal.screen ≤ state.curY
  · obtain ⟨same, up, kept⟩ := scroll_spec terminal top
    rw [if_pos beyond, up]
    rw [Int32.le_iff_toInt_le, toInt_rows sized] at beyond
    rw [if_pos beyond]
    exact ⟨same, kept, ⟨⟨by omega, by omega⟩, by omega⟩, rfl⟩
  · rw [if_neg beyond]
    rw [Int32.le_iff_toInt_le, toInt_rows sized] at beyond
    rw [if_neg beyond]
    exact ⟨rfl, rfl, ⟨⟨top, by omega⟩, aligned⟩, rfl⟩

/-- `update_cur_pos` advances by half a character or to the start of the next line, which is never the first one. -/
theorem updateCurPos_spec (sized : Sized terminal.screen) (left : 0 ≤ state.curX.toInt)
    (right : state.curX.toInt < terminal.screen.width.toNat + 4) (placed : state.AtLine terminal.screen) :
    let next := terminal.updateCurPos state
    next.curX.toInt = (if terminal.screen.width.toNat ≤ state.curX.toInt + 4 then 0 else state.curX.toInt + 4) ∧
      next.line = state.line + (if terminal.screen.width.toNat ≤ state.curX.toInt + 4 then 16 else 0) ∧
      next.AtLine terminal.screen ∧
      (if terminal.screen.width.toNat ≤ state.curX.toInt + 4 then 16 else state.curY.toInt) ≤ next.curY.toInt := by
  obtain ⟨⟨top, bottom⟩, aligned⟩ := placed
  have wide := sized.wide
  have high := sized.high
  have narrow := sized.narrow
  have low := sized.low
  have four : (4 : Int32).toInt = 4 := rfl
  have sixteen : (16 : Int32).toInt = 16 := rfl
  have across : (state.curX + 4).toInt = state.curX.toInt + 4 := by
    rw [FitsInt.toInt_add, four]
    rw [four]
    exact ⟨by omega, by omega⟩
  have down : (state.curY + 16).toInt = state.curY.toInt + 16 := by
    rw [FitsInt.toInt_add, sixteen]
    rw [sixteen]
    exact ⟨by omega, by omega⟩
  have wraps : columns terminal.screen ≤ state.curX + 4 ↔ (terminal.screen.width.toNat : Int) ≤ state.curX.toInt + 4 := by
    rw [Int32.le_iff_toInt_le, toInt_columns sized, across]
  dsimp only
  unfold Terminal.updateCurPos
  dsimp only
  by_cases wrap : (terminal.screen.width.toNat : Int) ≤ state.curX.toInt + 4
  · rw [if_pos wrap, if_pos wrap, if_pos (wraps.mpr wrap)]
    obtain ⟨same, kept, placed, row⟩ := @scrollAtBottom_spec terminal
      { state with curX := 0, curY := state.curY + 16 } sized (by dsimp only; omega) (by dsimp only; omega)
      (by dsimp only; omega)
    refine ⟨by rw [same]; rfl, ?_, placed, ?_⟩
    · rw [kept, TerminalState.line, TerminalState.line]
      dsimp only
      omega
    · rw [row, if_pos wrap]
      dsimp only
      rw [down]
      split_ifs <;> omega
  · rw [if_neg wrap, if_neg wrap, if_neg (mt wraps.mp wrap)]
    obtain ⟨same, kept, placed, row⟩ := @scrollAtBottom_spec terminal { state with curX := state.curX + 4 } sized top
      (by dsimp only; omega) aligned
    refine ⟨by rw [same, ← across], ?_, placed, ?_⟩
    · exact kept.trans (Int.add_zero state.line).symm
    · rw [if_neg wrap]
      exact Int.le_of_eq (row.trans (if_neg (by dsimp only; omega))).symm

/-- `create_newline` goes to the start of the next line. -/
theorem createNewline_spec (sized : Sized terminal.screen) (placed : state.AtLine terminal.screen) :
    let next := terminal.createNewline state
    next.curX = 0 ∧ next.line = state.line + 16 ∧ next.AtLine terminal.screen := by
  obtain ⟨⟨top, bottom⟩, aligned⟩ := placed
  have high := sized.high
  have low := sized.low
  have sixteen : (16 : Int32).toInt = 16 := rfl
  have down : (state.curY + 16).toInt = state.curY.toInt + 16 := by
    rw [FitsInt.toInt_add, sixteen]
    rw [sixteen]
    exact ⟨by omega, by omega⟩
  have extended : ((state.curY + 16).toInt64.toUInt64.toNat : Int) = state.curY.toInt + 16 := by
    rw [Int64.toNat_toUInt64_of_le, Int64.toNatClampNeg, Int32.toInt_toInt64, down]
    · omega
    · rw [Int64.le_iff_toInt_le, Int32.toInt_toInt64, down]
      exact (by omega : (0 : Int) ≤ state.curY.toInt + 16)
  have last : (terminal.screen.height - 16).toNat = terminal.screen.height.toNat - 16 :=
    UInt64.toNat_sub_of_le _ _ (UInt64.le_iff_toNat_le.mpr (by show 16 ≤ _; omega))
  dsimp only
  unfold Terminal.createNewline
  dsimp only
  by_cases beyond : terminal.screen.height - 16 ≤ (state.curY + 16).toInt64.toUInt64
  · obtain ⟨same, up, kept⟩ := @scroll_spec { state with curX := 0, curY := state.curY + 16 } terminal (by dsimp only; omega)
    rw [if_pos beyond]
    rw [UInt64.le_iff_toNat_le, last] at beyond
    refine ⟨same, ?_, ⟨?_, ?_⟩, ?_⟩
    · rw [kept, TerminalState.line, TerminalState.line]
      dsimp only
      omega
    all_goals
      rw [up]
      dsimp only
      omega
  · rw [if_neg beyond]
    rw [UInt64.le_iff_toNat_le, last] at beyond
    refine ⟨rfl, ?_, ⟨?_, ?_⟩, ?_⟩
    · rw [TerminalState.line, TerminalState.line]
      dsimp only
      omega
    all_goals
      dsimp only
      omega

/-- Characters with a glyph, among them those that are drawn as a question mark. -/
def Drawn (c : UInt8) : Prop := c ≠ 0x09 ∧ c ≠ 0x0D ∧ c ≠ 0x0A ∧ c ≠ 0x08 ∧ c ≠ 0x00

theorem drawn_of_printable {c : UInt8} (printable : Printable c) : Drawn c := by
  refine ⟨?_, ?_, ?_, ?_, ?_⟩
  all_goals
    rintro rfl
    revert printable
    decide

/-- A character advances the cursor by nine pixels. Where its first half already ends the line, the second half is
spent on the next one. -/
theorem advance_spec (sized : Sized terminal.screen)
    (inside : 0 ≤ state.curX.toInt ∧ state.curX.toInt < terminal.screen.width.toNat)
    (placed : state.AtLine terminal.screen) {half next : TerminalState} (first : terminal.updateCurPos state = half)
    (second : terminal.updateCurPos { half with curX := half.curX + 1 } = next) :
    next.curX.toInt = (if terminal.screen.width.toNat ≤ state.curX.toInt + 4 then 5
      else if terminal.screen.width.toNat ≤ state.curX.toInt + 9 then 0 else state.curX.toInt + 9) ∧
      next.line = state.line + (if terminal.screen.width.toNat ≤ state.curX.toInt + 9 then 16 else 0) ∧
      next.AtLine terminal.screen ∧
      (if terminal.screen.width.toNat ≤ state.curX.toInt + 9 then 16 else state.curY.toInt) ≤ next.curY.toInt := by
  have wide := sized.wide
  have narrow := sized.narrow
  have one : (1 : Int32).toInt = 1 := rfl
  obtain ⟨across, down, placed, row⟩ := updateCurPos_spec sized inside.1 (by omega) placed
  rw [first] at across down placed row
  have bounds : 0 ≤ half.curX.toInt ∧ half.curX.toInt < terminal.screen.width.toNat := by
    rw [across]
    split_ifs <;> omega
  have step : (half.curX + 1).toInt = half.curX.toInt + 1 := by
    rw [FitsInt.toInt_add, one]
    rw [one]
    exact ⟨by omega, by omega⟩
  obtain ⟨across', down', placed', row'⟩ := @updateCurPos_spec terminal { half with curX := half.curX + 1 } sized
    (by dsimp only; omega) (by dsimp only; omega) placed
  rw [second] at across' down' placed' row'
  have kept : TerminalState.line { half with curX := half.curX + 1 } = half.line := rfl
  dsimp only at across' down' row'
  refine ⟨?_, ?_, placed', ?_⟩
  · rw [across', step, across]
    split_ifs <;> omega
  · rw [down', kept, down, step, across]
    split_ifs <;> omega
  · rw [step, across] at row'
    split_ifs at row row' ⊢ <;> omega

/-- The bytes that draw something. -/
theorem putchar_drawn (sized : Sized terminal.screen) {c : UInt8} (drawn : Drawn c)
    (inside : 0 ≤ state.curX.toInt ∧ state.curX.toInt < terminal.screen.width.toNat)
    (placed : state.AtLine terminal.screen) :
    let next := terminal.putchar state c
    next.curX.toInt = (if terminal.screen.width.toNat ≤ state.curX.toInt + 4 then 5
      else if terminal.screen.width.toNat ≤ state.curX.toInt + 9 then 0 else state.curX.toInt + 9) ∧
      next.line = state.line + (if terminal.screen.width.toNat ≤ state.curX.toInt + 9 then 16 else 0) ∧
      next.AtLine terminal.screen ∧
      (if terminal.screen.width.toNat ≤ state.curX.toInt + 9 then 16 else state.curY.toInt) ≤ next.curY.toInt := by
  obtain ⟨tab, cr, newline, backspace, null⟩ := drawn
  dsimp only
  unfold Terminal.putchar Terminal.drawChar8x16
  rw [if_neg tab, if_neg cr, if_neg newline, if_neg backspace, if_neg null]
  dsimp only
  generalize terminal.drawGlyph _ _ _ _ _ = pixels
  exact @advance_spec terminal { state with pixels := pixels } sized inside placed _ _ rfl rfl

/-- The cursor is on the screen, at the top of a line. -/
def TerminalState.Placed (screen : Screen) (state : TerminalState) : Prop :=
  (0 ≤ state.curX.toInt ∧ state.curX.toInt < screen.width.toNat) ∧ state.AtLine screen

/-- Every byte but a backspace leaves the cursor on the screen. -/
theorem putchar_placed (sized : Sized terminal.screen) {c : UInt8} (other : c ≠ 0x08)
    (placed : state.Placed terminal.screen) : (terminal.putchar state c).Placed terminal.screen := by
  obtain ⟨inside, placed⟩ := placed
  have wide := sized.wide
  have narrow := sized.narrow
  have four : (4 : Int32).toInt = 4 := rfl
  have zero : (0 : Int32).toInt = 0 := rfl
  -- What `update_cur_pos` makes of a column at most four beyond the last one.
  have update : ∀ before : TerminalState, before.AtLine terminal.screen → 0 ≤ before.curX.toInt →
      before.curX.toInt < terminal.screen.width.toNat + 4 → (terminal.updateCurPos before).Placed terminal.screen := by
    intro before placed left right
    obtain ⟨across, -, placed', -⟩ := updateCurPos_spec sized left right placed
    refine ⟨?_, placed'⟩
    rw [across]
    split_ifs <;> omega
  by_cases tab : c = 0x09
  · have sum : (state.curX + 4).toInt = state.curX.toInt + 4 := by
      rw [FitsInt.toInt_add, four]
      rw [four]
      exact ⟨by omega, by omega⟩
    obtain ⟨left, right⟩ := @toInt_and_le (state.curX + 4) (~~~(4 - 1)) (by omega)
    rw [Terminal.putchar, if_pos tab]
    exact update { state with curX := (state.curX + 4) &&& ~~~(4 - 1) } placed left (by dsimp only; omega)
  by_cases cr : c = 0x0D
  · rw [Terminal.putchar, if_neg tab, if_pos cr]
    exact update { state with curX := 0 } placed (by dsimp only; omega) (by dsimp only; omega)
  by_cases newline : c = 0x0A
  · obtain ⟨same, -, placed'⟩ := createNewline_spec sized placed
    rw [Terminal.putchar, if_neg tab, if_neg cr, if_pos newline]
    exact update (terminal.createNewline state) placed' (by rw [same]; omega) (by rw [same]; omega)
  by_cases null : c = 0x00
  · rw [Terminal.putchar, if_neg tab, if_neg cr, if_neg newline, if_neg other, if_pos null]
    exact ⟨inside, placed⟩
  · obtain ⟨across, -, placed', -⟩ := putchar_drawn sized ⟨tab, cr, newline, other, null⟩ inside placed
    refine ⟨?_, placed'⟩
    rw [across]
    split_ifs <;> omega

/-! ## Backspaces -/

/-- The cell of the cursor after the last loops of `backspace_manage`. -/
theorem cellBlank_blank (sized : Sized terminal.screen) (state : TerminalState) :
    (terminal.blank state).CellBlank terminal.screen := by
  have narrow := sized.narrow
  have low := sized.low
  have zero : (0 : Int32).toInt = 0 := rfl
  intro column row left right within top bottom within'
  have paints := paints_setPixel terminal.screen (fun cell : Nat × Nat => state.curX + Int32.ofNat cell.2)
    (fun cell => state.curY + Int32.ofNat cell.1) (fun _ => backColor)
  change state.curX.toInt ≤ column at left
  change (column : Int) < state.curX.toInt + 8 at right
  change state.curY.toInt ≤ row at top
  change (row : Int) < state.curY.toInt + 16 at bottom
  have across : (state.curX + Int32.ofNat (column - state.curX.toInt).toNat).toInt = column :=
    toInt_add_distance left (by omega)
  have down : (state.curY + Int32.ofNat (row - state.curY.toInt).toNat).toInt = row := toInt_add_distance top (by omega)
  have inside : ¬ Outside terminal.screen (state.curX + Int32.ofNat (column - state.curX.toInt).toNat)
      (state.curY + Int32.ofNat (row - state.curY.toInt).toNat) := by
    unfold Outside
    rw [Int32.lt_iff_toInt_lt, Int32.lt_iff_toInt_lt, across, down, zero]
    omega
  have member : ((row - state.curY.toInt).toNat, (column - state.curX.toInt).toNat) ∈ Terminal.blankCells := by
    rw [Terminal.blankCells, List.mem_product, List.mem_range, List.mem_range]
    exact ⟨by omega, by omega⟩
  have placed : ∃ cell ∈ Terminal.blankCells, pixelAt terminal.screen (state.curX + Int32.ofNat cell.2)
      (state.curY + Int32.ofNat cell.1) = some (column, row) := by
    refine ⟨_, member, ?_⟩
    rw [pixelAt, if_neg inside, across, down]
    rfl
  dsimp only [Terminal.blank]
  exact paints.foldl_of_exists placed fun _ _ _ => rfl

theorem eq_zero_iff (value : Int32) : value = 0 ↔ value.toInt = 0 :=
  Int32.toInt_inj.symm

/-- A backspace within a line goes back eight pixels, past the edge of the screen if there are fewer. -/
theorem backspaceManage_within (sized : Sized terminal.screen) (inside : 0 < state.curX.toInt) :
    let next := terminal.backspaceManage state
    next.curX.toInt = state.curX.toInt - 8 ∧ next.curY = state.curY ∧ next.line = state.line ∧
      next.CellBlank terminal.screen := by
  have eight : (8 : Int32).toInt = 8 := rfl
  have below := state.curX.toInt_lt
  have positive : state.curX ≠ 0 := by
    rw [ne_eq, eq_zero_iff]
    omega
  have back : (state.curX - 8).toInt = state.curX.toInt - 8 := by
    rw [FitsInt.toInt_sub, eight]
    rw [eight]
    exact ⟨by omega, by omega⟩
  dsimp only
  rw [Terminal.backspaceManage, if_neg fun both => positive both.1, if_neg positive]
  exact ⟨back, rfl, rfl, cellBlank_blank sized _⟩

/-- A backspace at the start of a line goes back to the last cell of the line before. -/
theorem backspaceManage_wraps (sized : Sized terminal.screen) (start : state.curX.toInt = 0)
    (later : 16 ≤ state.curY.toInt) :
    let next := terminal.backspaceManage state
    next.curX.toInt = terminal.screen.width.toNat - 8 ∧ next.curY.toInt = state.curY.toInt - 16 ∧
      next.line = state.line - 16 ∧ next.CellBlank terminal.screen := by
  have wide := sized.wide
  have narrow := sized.narrow
  have sixteen : (16 : Int32).toInt = 16 := rfl
  have below := state.curY.toInt_lt
  have zero := (eq_zero_iff state.curX).mpr start
  have positive : state.curY ≠ 0 := by
    rw [ne_eq, eq_zero_iff]
    omega
  have up : (state.curY - 16).toInt = state.curY.toInt - 16 := by
    rw [FitsInt.toInt_sub, sixteen]
    rw [sixteen]
    exact ⟨by omega, by omega⟩
  have last : (terminal.screen.width - 8).toNat = terminal.screen.width.toNat - 8 :=
    UInt64.toNat_sub_of_le _ _ (UInt64.le_iff_toNat_le.mpr (by show 8 ≤ _; omega))
  have column : (terminal.screen.width - 8).toUInt32.toInt32.toInt = terminal.screen.width.toNat - 8 := by
    rw [toInt_truncated (by omega), last]
    omega
  dsimp only
  rw [Terminal.backspaceManage, if_neg fun both => positive both.2, if_pos zero]
  refine ⟨column, up, ?_, cellBlank_blank sized _⟩
  show (state.curY - 16).toInt + 16 * (state.scrolled : Int) = state.curY.toInt + 16 * state.scrolled - 16
  omega

/-- In the first cell of the screen a backspace does nothing. -/
theorem backspaceManage_origin (start : state.curX.toInt = 0) (top : state.curY.toInt = 0) :
    terminal.backspaceManage state = state := by
  rw [Terminal.backspaceManage, if_pos ⟨(eq_zero_iff _).mpr start, (eq_zero_iff _).mpr top⟩]

/-- A backspace that is not too close to the start of its line leaves the cursor on the screen. -/
theorem backspaceManage_placed (sized : Sized terminal.screen) (placed : state.Placed terminal.screen)
    (far : ¬ (0 < state.curX.toInt ∧ state.curX.toInt < 8)) :
    (terminal.backspaceManage state).Placed terminal.screen := by
  obtain ⟨⟨left, right⟩, ⟨top, bottom⟩, aligned⟩ := placed
  have wide := sized.wide
  by_cases inside : 0 < state.curX.toInt
  · obtain ⟨across, same, -, -⟩ := @backspaceManage_within terminal state sized inside
    refine ⟨?_, ?_⟩
    · rw [across]
      omega
    · rw [TerminalState.AtLine, same]
      exact ⟨⟨top, bottom⟩, aligned⟩
  by_cases first : state.curY.toInt = 0
  · rw [backspaceManage_origin (by omega) first]
    exact ⟨⟨left, right⟩, ⟨top, bottom⟩, aligned⟩
  · obtain ⟨across, up, -, -⟩ := @backspaceManage_wraps terminal state sized (by omega) (by omega)
    refine ⟨?_, ?_⟩
    · rw [across]
      omega
    · rw [TerminalState.AtLine, up]
      omega

theorem putchar_backspace (terminal : Terminal) (state : TerminalState) :
    terminal.putchar state 0x08 = terminal.backspaceManage state := rfl

/-- A character and a backspace, where neither takes the cursor off the screen, cancel out exactly in the last cell of
a line. -/
theorem erases_iff (sized : Sized terminal.screen) {c : UInt8} (drawn : Drawn c) (placed : state.Placed terminal.screen)
    (far : ¬ (0 < (terminal.putchar state c).curX.toInt ∧ (terminal.putchar state c).curX.toInt < 8)) :
    state.Erases terminal.screen (terminal.putchar (terminal.putchar state c) 0x08) ↔
      state.curX.toInt = terminal.screen.width.toNat - 8 := by
  obtain ⟨inside, aligned⟩ := placed
  have wide := sized.wide
  obtain ⟨across, down, placed', row⟩ := putchar_drawn sized drawn inside aligned
  rw [putchar_backspace]
  set next := terminal.putchar state c with next_eq
  unfold TerminalState.Erases
  rw [← Int32.toInt_inj]
  by_cases wrapped : (terminal.screen.width.toNat : Int) ≤ state.curX.toInt + 9
  · rw [if_pos wrapped] at across down row
    have start : next.curX.toInt = 0 := by
      split_ifs at across <;> omega
    obtain ⟨back, -, kept, blank⟩ := @backspaceManage_wraps terminal next sized start row
    rw [back, kept, down]
    exact ⟨fun erases => erases.1.symm, fun last => ⟨last.symm, by omega, blank⟩⟩
  · have ahead : next.curX.toInt = state.curX.toInt + 9 := by
      rw [across, if_neg (by omega), if_neg wrapped]
    obtain ⟨back, -, -, -⟩ := @backspaceManage_within terminal next sized (by omega)
    rw [back]
    constructor
    · rintro ⟨same, -, -⟩
      omega
    · intro last
      omega

end Moves

/-! ## Whole texts -/

section Texts

variable {terminal : Terminal} {pixels : Pixels} {bytes : List UInt8}

open Terminal

/-- No backspace is written less than a character behind the start of a line, but after it. -/
def FarBackspaces (terminal : Terminal) (pixels : Pixels) (bytes : List UInt8) : Prop :=
  ∀ seen, seen ++ [0x08] <+: bytes →
    ¬ (0 < (terminal.written pixels seen).curX.toInt ∧ (terminal.written pixels seen).curX.toInt < 8)

theorem written_snoc (terminal : Terminal) (pixels : Pixels) (seen : List UInt8) (c : UInt8) :
    terminal.written pixels (seen ++ [c]) = terminal.putchar (terminal.written pixels seen) c :=
  List.foldl_concat _ _ _ _

/-- The cursor stays on the screen as long as no backspace takes it off. -/
theorem written_placed (sized : Sized terminal.screen) (far : FarBackspaces terminal pixels bytes) {seen : List UInt8}
    (earlier : seen <+: bytes) : (terminal.written pixels seen).Placed terminal.screen := by
  have wide := sized.wide
  have high := sized.high
  induction seen using List.reverseRecOn with
  | nil =>
      have start : (terminal.written pixels []).curX.toInt = 0 ∧ (terminal.written pixels []).curY.toInt = 0 := ⟨rfl, rfl⟩
      rw [TerminalState.Placed, TerminalState.AtLine, start.1, start.2]
      omega
  | append_singleton seen c ih =>
      have placed := ih ((List.prefix_append seen [c]).trans earlier)
      rw [written_snoc]
      by_cases backspace : c = 0x08
      · subst backspace
        exact backspaceManage_placed sized placed (far seen earlier)
      · exact putchar_placed sized backspace placed

/-- A text is shown as it should be: the cursor is on the screen after every byte, and a backspace directly behind a
printable character erases it. -/
structure Shown (terminal : Terminal) (pixels : Pixels) (bytes : List UInt8) : Prop where
  inRange : ∀ seen, seen <+: bytes → (terminal.written pixels seen).InRange terminal.screen
  erases : ∀ seen c, Printable c → seen ++ [c, 0x08] <+: bytes →
    (terminal.written pixels seen).Erases terminal.screen (terminal.written pixels (seen ++ [c, 0x08]))

/-- A backspace close behind the start of a line takes the cursor off the screen. -/
theorem farBackspaces_of_inRange (sized : Sized terminal.screen)
    (inRange : ∀ seen, seen <+: bytes → (terminal.written pixels seen).InRange terminal.screen) :
    FarBackspaces terminal pixels bytes := by
  rintro seen earlier ⟨inside, close⟩
  have back := (@backspaceManage_within terminal _ sized inside).1
  have left := (inRange _ earlier).1.1
  rw [written_snoc, putchar_backspace, back] at left
  omega

/-- A text is shown as it should be exactly when every backspace is written in the first column or at least eight
pixels behind it, and one that follows a printable character follows the last one of a line. -/
theorem shown_iff (wide : 64 ≤ terminal.screen.width.toNat) (high : 48 ≤ terminal.screen.height.toNat)
    (narrow : terminal.screen.width.toNat < 2 ^ 31 - 16) (low : terminal.screen.height.toNat < 2 ^ 31 - 16)
    (pixels : Pixels) (bytes : List UInt8) : Shown terminal pixels bytes ↔ FarBackspaces terminal pixels bytes ∧
      ∀ seen c, Printable c → seen ++ [c, 0x08] <+: bytes →
        (terminal.written pixels seen).curX.toInt = terminal.screen.width.toNat - 8 := by
  have sized : Sized terminal.screen := ⟨wide, high, narrow, low⟩
  -- A character and the backspace behind it, as two bytes of a text without a backspace close to the start of a line.
  have pair : FarBackspaces terminal pixels bytes → ∀ seen c, Printable c → seen ++ [c, 0x08] <+: bytes →
      ((terminal.written pixels seen).Erases terminal.screen (terminal.written pixels (seen ++ [c, 0x08])) ↔
        (terminal.written pixels seen).curX.toInt = terminal.screen.width.toNat - 8) := by
    intro far seen c printable earlier
    have split : seen ++ [c, 0x08] = (seen ++ [c]) ++ [0x08] := (List.append_assoc seen [c] [0x08]).symm
    rw [split] at earlier ⊢
    have distance := far (seen ++ [c]) earlier
    have placed := written_placed sized far
      ((List.prefix_append seen [c]).trans ((List.prefix_append (seen ++ [c]) [0x08]).trans earlier))
    rw [written_snoc] at distance
    rw [written_snoc, written_snoc]
    exact erases_iff sized (drawn_of_printable printable) placed distance
  constructor
  · rintro ⟨inRange, erases⟩
    have far := farBackspaces_of_inRange sized inRange
    exact ⟨far, fun seen c printable earlier => (pair far seen c printable earlier).mp (erases seen c printable earlier)⟩
  · rintro ⟨far, last⟩
    refine ⟨fun seen earlier => ?_, fun seen c printable earlier =>
      (pair far seen c printable earlier).mpr (last seen c printable earlier)⟩
    obtain ⟨inside, inside', -⟩ := written_placed sized far earlier
    exact ⟨inside, inside'⟩

/-- A character and a newline are shown; a backspace behind a newline leaves the screen. -/
theorem shown_iff_newline : Shown ⟨⟨640, 480⟩, 2560, fun _ => 0xFF⟩ (fun _ _ => 0) [0x41, 0x0A] ∧
    ¬ Shown ⟨⟨640, 480⟩, 2560, fun _ => 0xFF⟩ (fun _ _ => 0) [0x0A, 0x08] := by
  have sized := @shown_iff ⟨⟨640, 480⟩, 2560, fun _ => 0xFF⟩ (by decide) (by decide) (by decide) (by decide)
    (fun _ _ => 0)
  have none : ∀ text : List UInt8, 0x08 ∈ text → ¬ text <+: [0x41, 0x0A] := fun text member earlier =>
    absurd (earlier.subset member) (by decide)
  constructor
  · refine (sized _).mpr ⟨fun seen earlier => ?_, fun seen c _ earlier => ?_⟩
    · exact absurd earlier (none _ (by simp))
    · exact absurd earlier (none _ (by simp))
  · intro shown
    exact ((sized _).mp shown).1 [0x0A] (List.prefix_refl _) (by decide)

/-- A backspace behind the first character leaves the cursor one pixel to the right of it. -/
theorem not_shown_backspace :
    ¬ Shown ⟨⟨640, 480⟩, 2560, fun _ => 0xFF⟩ (fun _ _ => 0) [0x41, 0x08] := by
  rintro ⟨-, erases⟩
  have erased := erases [] 0x41 (by decide) (List.prefix_refl _)
  exact absurd erased.1 (by decide)

end Texts

end KeblaOS.Video
