import Mathlib.Data.Int.Basic
import KeblaOS.Lib.Painting

/-!
# The framebuffer

The accessors of `vga.c` for single pixels. Coordinates are of type `int` and are compared with sizes
of 64 bits. Rows of the framebuffer do not overlap, so that its contents are one colour for each pixel.
-/

namespace KeblaOS.Video

/-- `fb0_width` and `fb0_height`. -/
structure Screen where
  width : UInt64
  height : UInt64
deriving DecidableEq

/-- `(int) fb0_width`. -/
def columns (screen : Screen) : Int32 := screen.width.toUInt32.toInt32

/-- `(int) fb0_height`. -/
def rows (screen : Screen) : Int32 := screen.height.toUInt32.toInt32

/-- The colours of the pixels by column and row. -/
abbrev Pixels : Type := Nat → Nat → UInt32

/-- The test of `set_pixel` and `get_pixel`. -/
def Outside (screen : Screen) (x y : Int32) : Prop :=
  x < 0 ∨ screen.width.toNat ≤ x.toInt.toNat ∨ y < 0 ∨ screen.height.toNat ≤ y.toInt.toNat

instance (screen : Screen) (x y : Int32) : Decidable (Outside screen x y) := inferInstanceAs (Decidable (_ ∨ _))

/-- `set_pixel`. -/
def setPixel (screen : Screen) (pixels : Pixels) (x y : Int32) (color : UInt32) : Pixels :=
  if Outside screen x y then pixels
  else fun column row => if column = x.toInt.toNat ∧ row = y.toInt.toNat then color else pixels column row

/-- `get_pixel`. -/
def getPixel (screen : Screen) (pixels : Pixels) (x y : Int32) : UInt32 :=
  if Outside screen x y then 0 else pixels x.toInt.toNat y.toInt.toNat

/-- The colour of a pixel. -/
def colourAt (pixels : Pixels) (key : Nat × Nat) : UInt32 := pixels key.1 key.2

/-- The pixel at a position, if there is one. -/
def pixelAt (screen : Screen) (x y : Int32) : Option (Nat × Nat) :=
  if Outside screen x y then none else some (x.toInt.toNat, y.toInt.toNat)

/-- Pixels that are set cell by cell. -/
theorem paints_setPixel {Cell : Type*} (screen : Screen) (x y : Cell → Int32) (color : Cell → UInt32) :
    Paints colourAt (fun cell => pixelAt screen (x cell) (y cell)) color
      (fun pixels cell => setPixel screen pixels (x cell) (y cell) (color cell)) := by
  intro pixels cell
  unfold setPixel pixelAt
  dsimp only
  by_cases outside : Outside screen (x cell) (y cell)
  · rw [if_pos outside, if_pos outside]
    exact ⟨fun _ placed => absurd placed (Option.some_ne_none _).symm, fun _ _ => rfl⟩
  · rw [if_neg outside, if_neg outside]
    constructor
    · rintro key placed
      obtain rfl := Option.some.inj placed
      exact if_pos ⟨rfl, rfl⟩
    · rintro ⟨column, row⟩ other
      apply if_neg
      rintro ⟨rfl, rfl⟩
      exact other rfl

end KeblaOS.Video
