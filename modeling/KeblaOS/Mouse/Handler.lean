import Mathlib.Data.List.ProdSigma
import Mathlib.Data.Nat.Bitwise
import KeblaOS.Lib.SignedInt
import KeblaOS.Video.Framebuffer

/-!
# The mouse handler

`mouse_handler` of `mouse.c` is called with one byte of the mouse at a time. Three bytes make a packet,
whose first byte has bit 3 set; a packet moves the cursor, a rectangle of 12 by 12 pixels that is drawn
over what it hides and is erased by drawing what it hid.
-/

namespace KeblaOS.Mouse

open KeblaOS.Video

/-- `CURSOR_COLOR`. -/
def cursorColor : UInt32 := 0xFFFF0000

/-- `CURSOR_BG_COLOR`. -/
def cursorBgColor : UInt32 := 0xFF000000

/-- The rows `i` and columns `j` of the loops over the cursor. -/
def cursorCells : List (Nat × Nat) := List.range 12 ×ˢ List.range 12

/-- The test of the loops over the cursor. -/
def OnScreen (screen : Screen) (px py : Int32) : Prop := 0 ≤ px ∧ px < columns screen ∧ 0 ≤ py ∧ py < rows screen

instance (screen : Screen) (px py : Int32) : Decidable (OnScreen screen px py) := inferInstanceAs (Decidable (_ ∧ _))

/-- A round of `save_cursor_background`. -/
def saveCell (screen : Screen) (pixels : Pixels) (x y : Int32) (background : Nat → UInt32) (cell : Nat × Nat) : Nat → UInt32 :=
  let px := x + Int32.ofNat cell.2
  let py := y + Int32.ofNat cell.1
  Function.update background (cell.1 * 12 + cell.2)
    (if OnScreen screen px py then getPixel screen pixels px py else cursorBgColor)

/-- `save_cursor_background`. -/
def saveCursorBackground (screen : Screen) (pixels : Pixels) (background : Nat → UInt32) (x y : Int32) : Nat → UInt32 :=
  cursorCells.foldl (saveCell screen pixels x y) background

/-- A round of the loops that draw the cursor or what it hid. -/
def paintCell (screen : Screen) (color : Nat × Nat → UInt32) (x y : Int32) (pixels : Pixels) (cell : Nat × Nat) : Pixels :=
  let px := x + Int32.ofNat cell.2
  let py := y + Int32.ofNat cell.1
  if OnScreen screen px py then setPixel screen pixels px py (color cell) else pixels

/-- `restore_cursor_background`. -/
def restoreCursorBackground (screen : Screen) (pixels : Pixels) (background : Nat → UInt32) (x y : Int32) : Pixels :=
  cursorCells.foldl (paintCell screen (fun cell => background (cell.1 * 12 + cell.2)) x y) pixels

/-- What `mouse_handler` keeps from one interrupt to the next. -/
structure MouseState where
  mouseX : Int32 := 40
  mouseY : Int32 := 12
  mouseLeftPressed : Bool := false
  mouseRightPressed : Bool := false
  mouseMiddlePressed : Bool := false
  mouseCycle : UInt8 := 0
  mouseByte0 : UInt8 := 0
  mouseByte1 : UInt8 := 0
  mouseByte2 : UInt8 := 0
  cursorBackground : Nat → UInt32 := fun _ => 0
  pixels : Pixels

namespace MouseState

/-- `draw_mouse_cursor` at the current position. -/
def drawMouseCursor (screen : Screen) (state : MouseState) (color : UInt32) : MouseState :=
  { state with
      cursorBackground := saveCursorBackground screen state.pixels state.cursorBackground state.mouseX state.mouseY
      pixels := cursorCells.foldl (paintCell screen (fun _ => color) state.mouseX state.mouseY) state.pixels }

/-- `erase_mouse_cursor`. -/
def eraseMouseCursor (screen : Screen) (state : MouseState) (oldX oldY : Int32) : MouseState :=
  { state with pixels := restoreCursorBackground screen state.pixels state.cursorBackground oldX oldY }

/-- The last lines of `mouse_handler`. -/
def updateButtons (state : MouseState) : MouseState :=
  { state with
      mouseLeftPressed := decide (state.mouseByte0 &&& 0x01 ≠ 0)
      mouseRightPressed := decide (state.mouseByte0 &&& 0x02 ≠ 0)
      mouseMiddlePressed := decide (state.mouseByte0 &&& 0x04 ≠ 0) }

end MouseState

/-- `dx` and `dy` of `mouse_handler`: a byte of the packet with its sign from the first one. -/
def displacement (status signBit data : UInt8) : Int32 :=
  if status &&& signBit ≠ 0 then (data.toUInt32 ||| 0xFFFFFF00).toInt32 else data.toUInt32.toInt32

/-- A coordinate of the cursor is kept on the screen. -/
def clampTo (size coordinate : Int32) : Int32 :=
  let coordinate := if coordinate < 0 then 0 else coordinate
  if size - 12 ≤ coordinate then size - 12 else coordinate

/-- A complete packet without overflow. -/
def moveCursor (screen : Screen) (state : MouseState) : MouseState :=
  let dx := displacement state.mouseByte0 0x10 state.mouseByte1
  let dy := displacement state.mouseByte0 0x20 state.mouseByte2
  let erased := state.eraseMouseCursor screen state.mouseX state.mouseY
  let moved := { erased with
    mouseX := clampTo (columns screen) (state.mouseX + dx)
    mouseY := clampTo (rows screen) (state.mouseY - dy) }
  let drawn := moved.drawMouseCursor screen cursorColor
  { drawn with mouseLeftPressed := decide (state.mouseByte0 &&& 0x01 ≠ 0) }

/-- `mouse_handler` for the byte that `mouse_read` returns. -/
def mouseHandler (screen : Screen) (state : MouseState) (data : UInt8) : MouseState :=
  if state.mouseCycle = 0 then
    if data &&& 0x08 = 0 then state
    else { state with mouseByte0 := data, mouseCycle := state.mouseCycle + 1 }.updateButtons
  else if state.mouseCycle = 1 then
    { state with mouseByte1 := data, mouseCycle := state.mouseCycle + 1 }.updateButtons
  else if state.mouseCycle = 2 then
    let state := { state with mouseByte2 := data, mouseCycle := 0 }
    if state.mouseByte0 &&& 0x40 ≠ 0 ∨ state.mouseByte0 &&& 0x80 ≠ 0 then state
    else (moveCursor screen state).updateButtons
  else state.updateButtons

/-- The state after the bytes of a stream. -/
def handled (screen : Screen) (pixels : Pixels) (bytes : List UInt8) : MouseState :=
  bytes.foldl (mouseHandler screen) { pixels }

/-! ## The packets of a stream -/

/-- The three bytes of a packet. -/
structure Packet where
  status : UInt8
  horizontal : UInt8
  vertical : UInt8

/-- The packets of a stream: a byte without bit 3 starts none. -/
def packets : List UInt8 → List Packet
  | status :: horizontal :: vertical :: rest =>
    if status.toNat.testBit 3 then ⟨status, horizontal, vertical⟩ :: packets rest
    else packets (horizontal :: vertical :: rest)
  | _ => []

namespace Packet

/-- One of the movements does not fit into nine bits. -/
def overflow (packet : Packet) : Bool := packet.status.toNat.testBit 6 || packet.status.toNat.testBit 7

/-- A movement of nine bits. -/
def movement (sign : Bool) (low : UInt8) : Int := low.toNat - if sign then 256 else 0

def dx (packet : Packet) : Int := movement (packet.status.toNat.testBit 4) packet.horizontal

def dy (packet : Packet) : Int := movement (packet.status.toNat.testBit 5) packet.vertical

end Packet

/-- The packets of a stream that move the cursor. -/
def accepted (bytes : List UInt8) : List Packet := (packets bytes).filter fun packet => !packet.overflow

/-- The movement of one packet, within the screen. -/
def moved (screen : Screen) (position : Int × Int) (packet : Packet) : Int × Int :=
  (max 0 (min (screen.width.toNat - 12) (position.1 + packet.dx)),
    max 0 (min (screen.height.toNat - 12) (position.2 - packet.dy)))

/-- The position in a state. -/
def MouseState.position (state : MouseState) : Int × Int := (state.mouseX.toInt, state.mouseY.toInt)

/-! ## The arithmetic of the handler -/

/-- A mask of one bit. -/
theorem and_eq_zero_iff (byte : UInt8) {mask : UInt8} {i : Nat} (bit : mask.toNat = 2 ^ i) :
    byte &&& mask = 0 ↔ byte.toNat.testBit i = false := by
  have positive := Nat.two_pow_pos i
  rw [← UInt8.toNat_inj, UInt8.toNat_and, bit, Nat.and_two_pow]
  cases byte.toNat.testBit i <;> simp

theorem and_ne_zero_iff (byte : UInt8) {mask : UInt8} {i : Nat} (bit : mask.toNat = 2 ^ i) :
    byte &&& mask ≠ 0 ↔ byte.toNat.testBit i = true := by
  rw [ne_eq, and_eq_zero_iff byte bit, Bool.not_eq_false]

theorem toInt_displacement (status : UInt8) {signBit : UInt8} {i : Nat} (bit : signBit.toNat = 2 ^ i) (data : UInt8) :
    (displacement status signBit data).toInt = Packet.movement (status.toNat.testBit i) data := by
  have byte := data.toNat_lt
  unfold displacement Packet.movement
  by_cases sign : status.toNat.testBit i = true
  · have extended : (data.toUInt32 ||| 0xFFFFFF00).toNat = 0xFFFFFF00 + data.toNat := by
      rw [UInt32.toNat_or, Nat.or_comm, UInt8.toNat_toUInt32]
      exact (Nat.shiftLeft_add_eq_or_of_lt (i := 8) byte 0xFFFFFF).symm
    rw [if_pos ((and_ne_zero_iff status bit).mpr sign), if_pos sign, toInt_toInt32, extended]
    have wrapped : ((0xFFFFFF00 + data.toNat : Nat) : Int) = (data.toNat - 256 : Int) + (2 ^ 32 : Nat) := by omega
    rw [wrapped, Int.add_bmod_right]
    exact FitsInt.bmod_eq ⟨by omega, by omega⟩
  · rw [if_neg (mt (and_ne_zero_iff status bit).mp sign), if_neg sign, toInt_toInt32, UInt8.toNat_toUInt32, sub_zero]
    exact FitsInt.bmod_eq ⟨by omega, by omega⟩

theorem toInt_clampTo {size : Int32} (large : 12 ≤ size.toInt) (coordinate : Int32) :
    (clampTo size coordinate).toInt = max 0 (min (size.toInt - 12) coordinate.toInt) := by
  have zero : (0 : Int32).toInt = 0 := rfl
  have twelve : (12 : Int32).toInt = 12 := rfl
  have below := size.toInt_lt
  have last : (size - 12).toInt = size.toInt - 12 := by
    rw [FitsInt.toInt_sub, twelve]
    rw [twelve]
    exact ⟨by omega, by omega⟩
  have raised : (if coordinate < 0 then 0 else coordinate).toInt = max 0 coordinate.toInt := by
    split_ifs with negative
    · rw [Int32.lt_iff_toInt_lt, zero] at negative
      omega
    · rw [Int32.lt_iff_toInt_lt, zero] at negative
      omega
  unfold clampTo
  by_cases beyond : size - 12 ≤ if coordinate < 0 then 0 else coordinate
  · rw [if_pos beyond, last]
    rw [Int32.le_iff_toInt_le, last, raised] at beyond
    omega
  · rw [if_neg beyond, raised]
    rw [Int32.le_iff_toInt_le, last, raised] at beyond
    omega

theorem movement_bounds (sign : Bool) (low : UInt8) : -256 ≤ Packet.movement sign low ∧ Packet.movement sign low < 256 := by
  have byte := low.toNat_lt
  unfold Packet.movement
  cases sign
  · exact ⟨by omega, by omega⟩
  · exact ⟨by omega, by omega⟩

/-! ## The handler as a decoder of packets -/

/-- Where the cursor is, what it hides and what is seen. -/
structure Cursor where
  x : Int32
  y : Int32
  background : Nat → UInt32
  pixels : Pixels

def MouseState.cursor (state : MouseState) : Cursor :=
  ⟨state.mouseX, state.mouseY, state.cursorBackground, state.pixels⟩

/-- The pixels without the cursor. -/
def Cursor.erased (screen : Screen) (cursor : Cursor) : Pixels :=
  restoreCursorBackground screen cursor.pixels cursor.background cursor.x cursor.y

/-- The cursor at a place where it was not drawn before. -/
def Cursor.drawnAt (screen : Screen) (pixels : Pixels) (background : Nat → UInt32) (x y : Int32) : Cursor where
  x := x
  y := y
  background := saveCursorBackground screen pixels background x y
  pixels := cursorCells.foldl (paintCell screen (fun _ => cursorColor) x y) pixels

/-- What a packet without overflow does to the cursor. -/
def Cursor.move (screen : Screen) (cursor : Cursor) (packet : Packet) : Cursor :=
  .drawnAt screen (cursor.erased screen) cursor.background
    (clampTo (columns screen) (cursor.x + displacement packet.status 0x10 packet.horizontal))
    (clampTo (rows screen) (cursor.y - displacement packet.status 0x20 packet.vertical))

@[simp] theorem Cursor.move_x (screen : Screen) (cursor : Cursor) (packet : Packet) : (cursor.move screen packet).x =
    clampTo (columns screen) (cursor.x + displacement packet.status 0x10 packet.horizontal) := by
  rw [Cursor.move, Cursor.drawnAt]

@[simp] theorem Cursor.move_y (screen : Screen) (cursor : Cursor) (packet : Packet) : (cursor.move screen packet).y =
    clampTo (rows screen) (cursor.y - displacement packet.status 0x20 packet.vertical) := by
  rw [Cursor.move, Cursor.drawnAt]

section Decoding

variable {screen : Screen} {state : MouseState}

/-- Only the third byte of a packet can move the cursor. -/
theorem cursor_mouseHandler (early : state.mouseCycle ≠ 2) (data : UInt8) :
    (mouseHandler screen state data).cursor = state.cursor := by
  unfold mouseHandler
  split_ifs <;> rfl

/-- A byte that starts no packet. -/
theorem mouseHandler_skips (start : state.mouseCycle = 0) {data : UInt8} (unset : data.toNat.testBit 3 = false) :
    mouseHandler screen state data = state := by
  unfold mouseHandler
  rw [if_pos start, if_pos ((and_eq_zero_iff data rfl).mpr unset)]

theorem mouseHandler_first (start : state.mouseCycle = 0) {data : UInt8} (set : data.toNat.testBit 3 = true) :
    mouseHandler screen state data = { state with mouseByte0 := data, mouseCycle := 1 }.updateButtons := by
  unfold mouseHandler
  rw [if_pos start, if_neg ((and_ne_zero_iff data rfl).mpr set), start]
  rfl

theorem mouseHandler_second (start : state.mouseCycle = 1) (data : UInt8) :
    mouseHandler screen state data = { state with mouseByte1 := data, mouseCycle := 2 }.updateButtons := by
  unfold mouseHandler
  rw [start, if_neg (by decide), if_pos rfl]
  rfl

theorem cycle_moveCursor (state : MouseState) :
    (moveCursor screen state).updateButtons.mouseCycle = state.mouseCycle := by
  simp only [moveCursor, MouseState.updateButtons, MouseState.drawMouseCursor, MouseState.eraseMouseCursor]

theorem cursor_moveCursor (state : MouseState) : (moveCursor screen state).updateButtons.cursor =
    state.cursor.move screen ⟨state.mouseByte0, state.mouseByte1, state.mouseByte2⟩ := by
  simp only [moveCursor, MouseState.updateButtons, MouseState.drawMouseCursor, MouseState.eraseMouseCursor,
    MouseState.cursor, Cursor.move, Cursor.drawnAt, Cursor.erased]

/-- The third byte completes a packet. -/
theorem mouseHandler_third (start : state.mouseCycle = 2) (data : UInt8) :
    (mouseHandler screen state data).mouseCycle = 0 ∧ (mouseHandler screen state data).cursor =
      if (Packet.mk state.mouseByte0 state.mouseByte1 data).overflow then state.cursor
      else state.cursor.move screen ⟨state.mouseByte0, state.mouseByte1, data⟩ := by
  have flags : (state.mouseByte0 &&& 0x40 ≠ 0 ∨ state.mouseByte0 &&& 0x80 ≠ 0) ↔
      (Packet.mk state.mouseByte0 state.mouseByte1 data).overflow = true := by
    rw [and_ne_zero_iff _ (i := 6) rfl, and_ne_zero_iff _ (i := 7) rfl, Packet.overflow, Bool.or_eq_true]
  unfold mouseHandler
  rw [start, if_neg (by decide), if_neg (by decide), if_pos rfl]
  dsimp only
  by_cases overflow : (Packet.mk state.mouseByte0 state.mouseByte1 data).overflow = true
  · rw [if_pos (flags.mpr overflow), if_pos overflow]
    exact ⟨rfl, rfl⟩
  · rw [if_neg (mt flags.mp overflow), if_neg overflow]
    exact ⟨cycle_moveCursor _, cursor_moveCursor _⟩

/-- Three bytes that make a packet. -/
theorem mouseHandler_packet (start : state.mouseCycle = 0) (packet : Packet) (set : packet.status.toNat.testBit 3 = true) :
    let state' := mouseHandler screen (mouseHandler screen (mouseHandler screen state packet.status) packet.horizontal)
      packet.vertical
    state'.mouseCycle = 0 ∧
      state'.cursor = if packet.overflow then state.cursor else state.cursor.move screen packet := by
  dsimp only
  rw [mouseHandler_first start set]
  have second := @mouseHandler_second screen { state with mouseByte0 := packet.status, mouseCycle := 1 }.updateButtons rfl
    packet.horizontal
  rw [second]
  exact mouseHandler_third rfl packet.vertical

/-- The cursor follows the packets of the stream. -/
theorem cursor_foldl (start : state.mouseCycle = 0) (bytes : List UInt8) :
    (bytes.foldl (mouseHandler screen) state).cursor = (accepted bytes).foldl (Cursor.move screen) state.cursor := by
  unfold accepted
  induction bytes using packets.induct generalizing state with
  | case1 status horizontal vertical rest set ih =>
      obtain ⟨start', moved⟩ := @mouseHandler_packet screen state start ⟨status, horizontal, vertical⟩ set
      rw [packets, if_pos set, List.foldl_cons, List.foldl_cons, List.foldl_cons, ih start', moved]
      by_cases overflow : (Packet.mk status horizontal vertical).overflow = true
      · rw [if_pos overflow, List.filter_cons_of_neg (by rw [overflow]; decide)]
      · rw [if_neg overflow, List.filter_cons_of_pos (by simpa using overflow), List.foldl_cons]
  | case2 status horizontal vertical rest unset ih =>
      rw [packets, if_neg unset, List.foldl_cons, mouseHandler_skips start (Bool.not_eq_true _ ▸ unset)]
      exact ih start
  | case3 bytes short =>
      match bytes, short with
      | [], _ => rfl
      | [status], _ => exact cursor_mouseHandler (by rw [start]; decide) status
      | [status, horizontal], _ =>
          have early : (mouseHandler screen state status).mouseCycle ≠ 2 := by
            cases set : status.toNat.testBit 3
            · rw [mouseHandler_skips start set, start]
              decide
            · rw [mouseHandler_first start set]
              exact (by decide : (1 : UInt8) ≠ 2)
          rw [List.foldl_cons, List.foldl_cons, List.foldl_nil, cursor_mouseHandler early,
            cursor_mouseHandler (by rw [start]; decide)]
          rfl
      | status :: horizontal :: vertical :: rest, short => exact absurd rfl (short status horizontal vertical rest)

/-- The cursor after a stream is that of its packets. -/
theorem cursor_handled (screen : Screen) (pixels : Pixels) (bytes : List UInt8) :
    (handled screen pixels bytes).cursor =
      (accepted bytes).foldl (Cursor.move screen) ⟨40, 12, fun _ => 0, pixels⟩ :=
  cursor_foldl rfl bytes

end Decoding

/-! ## The position -/

/-- A position whose cursor is on the screen. -/
def Within (screen : Screen) (position : Int × Int) : Prop :=
  (0 ≤ position.1 ∧ position.1 ≤ screen.width.toNat - 12) ∧ 0 ≤ position.2 ∧ position.2 ≤ screen.height.toNat - 12

def Cursor.position (cursor : Cursor) : Int × Int := (cursor.x.toInt, cursor.y.toInt)

section Position

variable {screen : Screen} {cursor : Cursor}

theorem within_moved (wide : 12 ≤ screen.width.toNat) (high : 12 ≤ screen.height.toNat) (position : Int × Int)
    (packet : Packet) : Within screen (moved screen position packet) := by
  unfold Within moved
  exact ⟨⟨by omega, by omega⟩, by omega, by omega⟩

/-- Moving within a screen of less than `2 ^ 30` pixels in each direction does not overflow. -/
theorem position_move (wide : 12 ≤ screen.width.toNat) (high : 12 ≤ screen.height.toNat)
    (narrow : screen.width.toNat < 2 ^ 30) (low : screen.height.toNat < 2 ^ 30) (within : Within screen cursor.position)
    (packet : Packet) : (cursor.move screen packet).position = moved screen cursor.position packet := by
  obtain ⟨⟨left, right⟩, top, bottom⟩ : Within screen (cursor.x.toInt, cursor.y.toInt) := within
  dsimp only at left right top bottom
  have dx := @toInt_displacement packet.status 0x10 4 rfl packet.horizontal
  have dy := @toInt_displacement packet.status 0x20 5 rfl packet.vertical
  have few := movement_bounds (packet.status.toNat.testBit 4) packet.horizontal
  have few' := movement_bounds (packet.status.toNat.testBit 5) packet.vertical
  have width : (columns screen).toInt = screen.width.toNat := toInt_truncated (by omega)
  have height : (rows screen).toInt = screen.height.toNat := toInt_truncated (by omega)
  have across : (cursor.x + displacement packet.status 0x10 packet.horizontal).toInt = cursor.x.toInt + packet.dx := by
    rw [FitsInt.toInt_add, dx]
    · rfl
    · rw [dx]
      exact ⟨by omega, by omega⟩
  have down : (cursor.y - displacement packet.status 0x20 packet.vertical).toInt = cursor.y.toInt - packet.dy := by
    rw [FitsInt.toInt_sub, dy]
    · rfl
    · rw [dy]
      exact ⟨by omega, by omega⟩
  rw [Cursor.position, Cursor.move_x, Cursor.move_y, toInt_clampTo (by omega), toInt_clampTo (by omega), width, height,
    across, down]
  rfl

/-- The cursor stays on the screen and follows its packets. -/
theorem position_foldl (wide : 12 ≤ screen.width.toNat) (high : 12 ≤ screen.height.toNat)
    (narrow : screen.width.toNat < 2 ^ 30) (low : screen.height.toNat < 2 ^ 30) (within : Within screen cursor.position)
    (packets : List Packet) :
    Within screen (packets.foldl (Cursor.move screen) cursor).position ∧
      (packets.foldl (Cursor.move screen) cursor).position = packets.foldl (moved screen) cursor.position := by
  induction packets generalizing cursor with
  | nil => exact ⟨within, rfl⟩
  | cons packet rest ih =>
      have step := position_move wide high narrow low within packet
      rw [List.foldl_cons, List.foldl_cons, ← step]
      apply ih
      rw [step]
      exact within_moved wide high cursor.position packet

/-- At all times the cursor is on the screen, at the position its packets have moved it to. -/
theorem position_decoded (wide : 52 ≤ screen.width.toNat) (high : 24 ≤ screen.height.toNat)
    (narrow : screen.width.toNat < 2 ^ 30) (low : screen.height.toNat < 2 ^ 30) (pixels : Pixels) (bytes : List UInt8) :
    Within screen (handled screen pixels bytes).position ∧
      (handled screen pixels bytes).position = (accepted bytes).foldl (moved screen) (40, 12) := by
  have same : (handled screen pixels bytes).position = (handled screen pixels bytes).cursor.position := rfl
  rw [same, cursor_handled]
  apply position_foldl (by omega) (by omega) narrow low
  show Within screen (40, 12)
  exact ⟨⟨by decide, by omega⟩, by decide, by omega⟩

/-- A byte is skipped, then a packet moves the cursor to the right and down. -/
theorem position_decoded_packet :
    (handled ⟨640, 480⟩ (fun _ _ => 0) [0x00, 0x28, 10, 253]).position = (50, 15) :=
  (@position_decoded ⟨640, 480⟩ (by decide) (by decide) (by decide) (by decide) (fun _ _ => 0)
    [0x00, 0x28, 10, 253]).2.trans (by decide)

end Position

end KeblaOS.Mouse
