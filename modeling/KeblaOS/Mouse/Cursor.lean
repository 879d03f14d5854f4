import Mathlib.Data.List.Induction
import KeblaOS.Mouse.Handler

/-!
# What the cursor hides

Erasing a cursor that was drawn gives back what it hides. The first packet of a stream erases a cursor
that was not drawn yet, with a background that was not saved yet: it leaves a black rectangle wherever
the cursor starts.
-/

namespace KeblaOS.Mouse

open KeblaOS.Video

/-- The pixel of a cell of a cursor, if it is on the screen. -/
def place (screen : Screen) (x y : Int32) (cell : Nat × Nat) : Option (Nat × Nat) :=
  let px := x + Int32.ofNat cell.2
  let py := y + Int32.ofNat cell.1
  if OnScreen screen px py then some (px.toInt.toNat, py.toInt.toNat) else none

/-- A pixel is in the rectangle of a cursor. -/
def InRectangle (x y : Int32) (column row : Nat) : Prop :=
  (x.toInt ≤ column ∧ (column : Int) < x.toInt + 12) ∧ y.toInt ≤ row ∧ (row : Int) < y.toInt + 12

/-- A pixel is one of those the cursor is drawn on. -/
def Drawable (screen : Screen) (column row : Nat) : Prop :=
  (column : Int) < (columns screen).toInt ∧ (row : Int) < (rows screen).toInt

section Cells

variable {screen : Screen} {x y : Int32} {column row : Nat}

theorem mem_cursorCells {cell : Nat × Nat} : cell ∈ cursorCells ↔ cell.1 < 12 ∧ cell.2 < 12 := by
  rw [cursorCells, List.mem_product, List.mem_range, List.mem_range]

/-- A conversion to `int` keeps the lower half of a size. -/
theorem toInt_size_le (size : UInt64) : size.toUInt32.toInt32.toInt ≤ size.toNat := by
  rw [toInt_toInt32, UInt64.toNat_toUInt32]
  have small : ((size.toNat % 2 ^ 32 : Nat) : Int) < (2 ^ 32 : Nat) := by omega
  by_cases half : size.toNat % 2 ^ 32 < 2 ^ 31
  · rw [FitsInt.bmod_eq ⟨by omega, by omega⟩]
    omega
  · have wrapped : ((size.toNat % 2 ^ 32 : Nat) : Int) = (size.toNat % 2 ^ 32 : Nat) - 2 ^ 32 + (2 ^ 32 : Nat) := by omega
    rw [wrapped, Int.add_bmod_right, FitsInt.bmod_eq ⟨by omega, by omega⟩]
    omega

/-- The test of the loops implies that of `set_pixel` and `get_pixel`. -/
theorem not_outside (on : OnScreen screen x y) : ¬ Outside screen x y := by
  obtain ⟨left, right, top, bottom⟩ := on
  have zero : (0 : Int32).toInt = 0 := rfl
  have width := toInt_size_le screen.width
  have height := toInt_size_le screen.height
  unfold columns at right
  unfold rows at bottom
  rw [Int32.le_iff_toInt_le, zero] at left top
  rw [Int32.lt_iff_toInt_lt] at right bottom
  unfold Outside
  rw [Int32.lt_iff_toInt_lt, Int32.lt_iff_toInt_lt, zero]
  omega

/-- A coordinate of a cell that is not negative did not overflow. -/
theorem toInt_cell {j : Nat} (inside : j < 12) (nonnegative : 0 ≤ (x + Int32.ofNat j).toInt) :
    (x + Int32.ofNat j).toInt = x.toInt + j := by
  have small : (Int32.ofNat j).toInt = j := Int32.toInt_ofNat_of_lt (by omega)
  have least := x.le_toInt
  have below := x.toInt_lt
  by_cases fits : x.toInt + j < 2 ^ 31
  · rw [FitsInt.toInt_add, small]
    rw [small]
    exact ⟨by omega, by omega⟩
  · exfalso
    have wrapped : x.toInt + (j : Int) = x.toInt + j - 2 ^ 32 + (2 ^ 32 : Nat) := by omega
    rw [Int32.toInt_add, small, wrapped, Int.add_bmod_right, FitsInt.bmod_eq ⟨by omega, by omega⟩] at nonnegative
    omega

/-- The pixels the cells of a cursor are placed at. -/
theorem exists_place_iff : (∃ cell ∈ cursorCells, place screen x y cell = some (column, row)) ↔
    InRectangle x y column row ∧ Drawable screen column row := by
  have zero : (0 : Int32).toInt = 0 := rfl
  constructor
  · rintro ⟨cell, member, placed⟩
    obtain ⟨up, left⟩ := mem_cursorCells.mp member
    unfold place at placed
    dsimp only at placed
    split_ifs at placed with on
    obtain ⟨rfl, rfl⟩ := Prod.mk.inj (Option.some.inj placed)
    obtain ⟨from_left, to_right, from_top, to_bottom⟩ := on
    rw [Int32.le_iff_toInt_le, zero] at from_left from_top
    rw [Int32.lt_iff_toInt_lt] at to_right to_bottom
    have across := toInt_cell left from_left
    have down := toInt_cell up from_top
    exact ⟨⟨⟨by omega, by omega⟩, by omega, by omega⟩, by omega, by omega⟩
  · rintro ⟨⟨⟨left, right⟩, top, bottom⟩, within, within'⟩
    have width := (columns screen).toInt_lt
    have height := (rows screen).toInt_lt
    have across : (x + Int32.ofNat (column - x.toInt).toNat).toInt = column := toInt_add_distance left (by omega)
    have down : (y + Int32.ofNat (row - y.toInt).toNat).toInt = row := toInt_add_distance top (by omega)
    have on : OnScreen screen (x + Int32.ofNat (column - x.toInt).toNat) (y + Int32.ofNat (row - y.toInt).toNat) := by
      unfold OnScreen
      rw [Int32.le_iff_toInt_le, Int32.le_iff_toInt_le, Int32.lt_iff_toInt_lt, Int32.lt_iff_toInt_lt, zero, across, down]
      exact ⟨by omega, within, by omega, within'⟩
    refine ⟨((row - y.toInt).toNat, (column - x.toInt).toNat), mem_cursorCells.mpr ⟨by omega, by omega⟩, ?_⟩
    rw [place, if_pos on, across, down]
    rfl

end Cells

/-! ## The loops over the cells -/

section Loops

variable {screen : Screen} {x y : Int32}

/-- A round paints its cell. -/
theorem paints_paintCell (screen : Screen) (color : Nat × Nat → UInt32) (x y : Int32) :
    Paints colourAt (place screen x y) color (paintCell screen color x y) := by
  intro pixels cell
  unfold paintCell place
  dsimp only
  by_cases on : OnScreen screen (x + Int32.ofNat cell.2) (y + Int32.ofNat cell.1)
  · have set := paints_setPixel screen (fun cell : Nat × Nat => x + Int32.ofNat cell.2)
      (fun cell => y + Int32.ofNat cell.1) color pixels cell
    dsimp only at set
    rw [pixelAt, if_neg (not_outside on)] at set
    rw [if_pos on, if_pos on]
    exact set
  · rw [if_neg on, if_neg on]
    exact ⟨fun _ placed => absurd placed (Option.some_ne_none _).symm, fun _ _ => rfl⟩

/-- A round saves what its cell hides. -/
theorem saved_cell (pixels : Pixels) (background : Nat → UInt32) {cell key : Nat × Nat} (member : cell ∈ cursorCells)
    (placed : place screen x y cell = some key) :
    saveCursorBackground screen pixels background x y (cell.1 * 12 + cell.2) = colourAt pixels key := by
  have saves : Paints (fun (background : Nat → UInt32) index => background index)
      (fun cell : Nat × Nat => some (cell.1 * 12 + cell.2))
      (fun cell => if OnScreen screen (x + Int32.ofNat cell.2) (y + Int32.ofNat cell.1)
        then getPixel screen pixels (x + Int32.ofNat cell.2) (y + Int32.ofNat cell.1) else cursorBgColor)
      (saveCell screen pixels x y) := by
    intro background cell
    constructor
    · rintro index here
      obtain rfl := Option.some.inj here
      exact Function.update_self _ _ _
    · intro index other
      exact Function.update_of_ne (fun same => other (congrArg some same.symm)) _ _
  have unique : ∀ other ∈ cursorCells, some (other.1 * 12 + other.2) = some (cell.1 * 12 + cell.2) → other = cell := by
    intro other member' same
    obtain ⟨-, right⟩ := mem_cursorCells.mp member
    obtain ⟨-, right'⟩ := mem_cursorCells.mp member'
    have index := Option.some.inj same
    exact Prod.ext (by omega) (by omega)
  rw [saveCursorBackground]
  refine (saves.foldl_of_unique member rfl unique).trans ?_
  unfold place at placed
  dsimp only at placed
  split_ifs at placed with on
  obtain rfl := Option.some.inj placed
  rw [if_pos on, getPixel, if_neg (not_outside on)]
  rfl

/-- What a cursor does not cover stays. -/
theorem pixels_drawnAt (pixels : Pixels) (background : Nat → UInt32) {key : Nat × Nat}
    (apart : ∀ cell ∈ cursorCells, place screen x y cell ≠ some key) :
    colourAt (Cursor.drawnAt screen pixels background x y).pixels key = colourAt pixels key := by
  dsimp only [Cursor.drawnAt]
  exact (paints_paintCell screen (fun _ => cursorColor) x y).foldl_of_forall_ne apart

/-- Erasing a cursor that was drawn gives back what it hides. -/
theorem erased_drawnAt (screen : Screen) (pixels : Pixels) (background : Nat → UInt32) (x y : Int32) :
    (Cursor.drawnAt screen pixels background x y).erased screen = pixels := by
  funext column row
  apply (paints_paintCell screen _ x y).restores (fun key apart => pixels_drawnAt pixels background apart)
    (fun cell member key placed => saved_cell pixels background member placed) (column, row)

/-- The cursor was drawn over these pixels. -/
structure Covers (screen : Screen) (base : Pixels) (cursor : Cursor) : Prop where
  erased : cursor.erased screen = base
  apart : ∀ column row, ¬ InRectangle cursor.x cursor.y column row → cursor.pixels column row = base column row

theorem covers_drawnAt (screen : Screen) (pixels : Pixels) (background : Nat → UInt32) (x y : Int32) :
    Covers screen pixels (.drawnAt screen pixels background x y) := by
  refine ⟨erased_drawnAt screen pixels background x y, fun column row outside => ?_⟩
  apply @pixels_drawnAt screen x y pixels background (column, row)
  intro cell member placed
  exact outside (exists_place_iff.mp ⟨cell, member, placed⟩).1

theorem covers_move {base : Pixels} {cursor : Cursor} (erased : cursor.erased screen = base) (packet : Packet) :
    Covers screen base (cursor.move screen packet) := by
  rw [Cursor.move, erased]
  apply covers_drawnAt

/-- From the first packet on, what lies under the cursor is what its first erasure left. -/
theorem covers_foldl {base : Pixels} {cursor : Cursor} (erased : cursor.erased screen = base) {packets : List Packet}
    (moves : packets ≠ []) : Covers screen base (packets.foldl (Cursor.move screen) cursor) := by
  induction packets using List.reverseRecOn with
  | nil => exact absurd rfl moves
  | append_singleton earlier packet ih =>
      rw [List.foldl_append]
      apply covers_move
      cases earlier with
      | nil => exact erased
      | cons first others => exact (ih (List.cons_ne_nil first others)).erased

end Loops

/-! ## The first erasure -/

/-- Before the first packet there is no cursor; its background is what the array was initialised with. -/
def unsaved (pixels : Pixels) : Cursor := ⟨40, 12, fun _ => 0, pixels⟩

/-- The first erasure leaves a rectangle of zeros. -/
theorem erased_unsaved_iff (screen : Screen) (pixels : Pixels) : (unsaved pixels).erased screen = pixels ↔
    ∀ column row, InRectangle 40 12 column row → Drawable screen column row → pixels column row = 0 := by
  have paints := paints_paintCell screen (fun _ => 0) 40 12
  constructor
  · intro same column row inside drawable
    rw [← same]
    have placed : ∃ cell ∈ cursorCells, place screen 40 12 cell = some (column, row) :=
      exists_place_iff.mpr ⟨inside, drawable⟩
    exact paints.foldl_of_exists placed fun _ _ _ => rfl
  · intro zeros
    funext column row
    apply paints.restores (fun _ _ => rfl) _ (column, row)
    rintro cell member ⟨column, row⟩ placed
    obtain ⟨inside, drawable⟩ := exists_place_iff.mp ⟨cell, member, placed⟩
    exact (zeros column row inside drawable).symm

/-- The framebuffer after the bytes of a stream: nothing but a cursor was drawn, and erasing it restores what was
there before the first byte. -/
def CursorKept (screen : Screen) (pixels : Pixels) (bytes : List UInt8) : Prop :=
  let state := handled screen pixels bytes
  if accepted bytes = [] then state.pixels = pixels
  else (∀ column row, ¬ InRectangle state.mouseX state.mouseY column row → state.pixels column row = pixels column row) ∧
    (state.eraseMouseCursor screen state.mouseX state.mouseY).pixels = pixels

theorem pixels_eraseMouseCursor (screen : Screen) (state : MouseState) :
    (state.eraseMouseCursor screen state.mouseX state.mouseY).pixels = state.cursor.erased screen := by
  rw [MouseState.eraseMouseCursor, Cursor.erased, MouseState.cursor]

section Streams

variable {screen : Screen} {pixels : Pixels} {seen : List UInt8}

/-- More bytes only add packets. -/
theorem packets_append (seen rest : List UInt8) : packets seen <+: packets (seen ++ rest) := by
  induction seen using packets.induct with
  | case1 status horizontal vertical others set ih =>
      rw [List.cons_append, List.cons_append, List.cons_append, packets, packets, if_pos set, if_pos set]
      exact (List.prefix_cons_inj _).mpr ih
  | case2 status horizontal vertical others unset ih =>
      rw [List.cons_append, List.cons_append, List.cons_append, packets, packets, if_neg unset, if_neg unset]
      exact ih
  | case3 seen short =>
      have none : packets seen = [] := by
        unfold packets
        split
        · exact absurd rfl (short _ _ _ _)
        · rfl
      rw [none]
      exact List.nil_prefix

theorem accepted_eq_nil_of_earlier {bytes : List UInt8} (none : accepted bytes = []) (earlier : seen <+: bytes) :
    accepted seen = [] := by
  obtain ⟨rest, rfl⟩ := earlier
  have fewer := (packets_append seen rest).filter fun packet => !packet.overflow
  rw [← accepted, ← accepted, none] at fewer
  exact List.prefix_nil.mp fewer

/-- Without a packet the cursor was never drawn. -/
theorem cursorKept_of_none (none : accepted seen = []) : CursorKept screen pixels seen := by
  have cursor := cursor_handled screen pixels seen
  rw [none, List.foldl_nil] at cursor
  rw [CursorKept, if_pos none]
  exact congrArg Cursor.pixels cursor

/-- With a packet the cursor was drawn over what its first erasure left. -/
theorem cursorKept_iff_of_some (moves : accepted seen ≠ []) :
    CursorKept screen pixels seen ↔ (unsaved pixels).erased screen = pixels := by
  have covers := covers_foldl (rfl : (unsaved pixels).erased screen = (unsaved pixels).erased screen) moves
  have cursor : (handled screen pixels seen).cursor = (accepted seen).foldl (Cursor.move screen) (unsaved pixels) :=
    cursor_handled screen pixels seen
  rw [← cursor] at covers
  rw [CursorKept, if_neg moves, pixels_eraseMouseCursor]
  constructor
  · rintro ⟨-, erased⟩
    rw [← covers.erased]
    exact erased
  · intro same
    rw [same] at covers
    exact ⟨covers.apart, covers.erased⟩

/-- The framebuffer is kept under the cursor throughout a stream exactly when the stream has no packet that moves the
cursor or nothing was to be seen where the cursor starts. -/
theorem cursorKept_iff (screen : Screen) (pixels : Pixels) (bytes : List UInt8) :
    (∀ seen, seen <+: bytes → CursorKept screen pixels seen) ↔ accepted bytes = [] ∨
      ∀ column row, InRectangle 40 12 column row → Drawable screen column row → pixels column row = 0 := by
  rw [← erased_unsaved_iff]
  constructor
  · intro kept
    by_cases none : accepted bytes = []
    · exact .inl none
    · exact .inr ((cursorKept_iff_of_some none).mp (kept bytes (List.prefix_refl bytes)))
  · rintro (none | same) seen earlier
    · exact cursorKept_of_none (accepted_eq_nil_of_earlier none earlier)
    · by_cases none : accepted seen = []
      · exact cursorKept_of_none none
      · exact (cursorKept_iff_of_some none).mpr same

/-- A white screen on which the first packet moves the cursor one pixel to the right. -/
theorem cursorKept_white : ¬ ∀ seen, seen <+: [0x08, 1, 0] → CursorKept ⟨640, 480⟩ (fun _ _ => 0xFFFFFFFF) seen := by
  intro kept
  have moved : accepted [0x08, 1, 0] ≠ [] := by decide
  have same := (cursorKept_iff_of_some moved).mp (kept _ (List.prefix_refl _))
  have black := (erased_unsaved_iff ⟨640, 480⟩ fun _ _ => 0xFFFFFFFF).mp same 40 12
    ⟨⟨by decide, by decide⟩, by decide, by decide⟩ ⟨by decide, by decide⟩
  exact absurd black (by decide)

end Streams

end KeblaOS.Mouse
