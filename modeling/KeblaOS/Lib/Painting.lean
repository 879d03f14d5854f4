import Mathlib.Data.List.Basic

/-!
# Painting cell by cell

A loop visits cells and writes one value for each of them, at the key the cell is placed at, if it is
placed at one. A key that no cell is placed at keeps its value. Two such loops over the same cells, the
second with the values that stood there before the first, leave everything as it was.
-/

namespace KeblaOS

variable {Cell Key Value Canvas : Type*}

/-- A step writes the value of its cell and nothing else. -/
def Paints (read : Canvas → Key → Value) (place : Cell → Option Key) (value : Cell → Value)
    (step : Canvas → Cell → Canvas) : Prop :=
  ∀ canvas cell, (∀ key, place cell = some key → read (step canvas cell) key = value cell) ∧
    ∀ key, place cell ≠ some key → read (step canvas cell) key = read canvas key

namespace Paints

variable {read : Canvas → Key → Value} {place : Cell → Option Key} {value : Cell → Value}
  {step : Canvas → Cell → Canvas} {cells : List Cell} {canvas : Canvas} {key : Key}

/-- A key that no cell is placed at. -/
theorem foldl_of_forall_ne (paints : Paints read place value step) (none : ∀ cell ∈ cells, place cell ≠ some key) :
    read (cells.foldl step canvas) key = read canvas key := by
  induction cells generalizing canvas with
  | nil => rfl
  | cons cell rest ih =>
      obtain ⟨here, there⟩ := List.forall_mem_cons.mp none
      rw [List.foldl_cons, ih there, (paints canvas cell).2 key here]

/-- A key that cells are placed at, all of them with one value. -/
theorem foldl_of_exists (paints : Paints read place value step) (placed : ∃ cell ∈ cells, place cell = some key)
    {painted : Value} (same : ∀ cell ∈ cells, place cell = some key → value cell = painted) :
    read (cells.foldl step canvas) key = painted := by
  induction cells generalizing canvas with
  | nil =>
      obtain ⟨cell, member, -⟩ := placed
      exact absurd member List.not_mem_nil
  | cons first rest ih =>
      obtain ⟨here, there⟩ := List.forall_mem_cons.mp same
      rw [List.foldl_cons]
      by_cases later : ∃ cell ∈ rest, place cell = some key
      · exact ih later there
      · have none : ∀ cell ∈ rest, place cell ≠ some key := fun cell member placed => later ⟨cell, member, placed⟩
        obtain ⟨cell, member, placed⟩ := placed
        rcases List.mem_cons.mp member with rfl | behind
        · rw [paints.foldl_of_forall_ne none, (paints canvas cell).1 key placed]
          exact here placed
        · exact absurd placed (none cell behind)

/-- A key that one cell is placed at. -/
theorem foldl_of_unique (paints : Paints read place value step) {cell : Cell} (member : cell ∈ cells)
    (placed : place cell = some key) (unique : ∀ other ∈ cells, place other = some key → other = cell) :
    read (cells.foldl step canvas) key = value cell := by
  apply paints.foldl_of_exists ⟨cell, member, placed⟩
  intro other member' placed'
  rw [unique other member' placed']

/-- What was painted over comes back when it is painted over with what stood there before. -/
theorem restores {restore : Canvas → Cell → Canvas} {painted : Canvas} (paints : Paints read place value restore)
    (kept : ∀ key, (∀ cell ∈ cells, place cell ≠ some key) → read painted key = read canvas key)
    (saved : ∀ cell ∈ cells, ∀ key, place cell = some key → value cell = read canvas key) (key : Key) :
    read (cells.foldl restore painted) key = read canvas key := by
  by_cases placed : ∃ cell ∈ cells, place cell = some key
  · apply paints.foldl_of_exists placed
    intro cell member here
    exact saved cell member key here
  · have none : ∀ cell ∈ cells, place cell ≠ some key := fun cell member here => placed ⟨cell, member, here⟩
    rw [paints.foldl_of_forall_ne none, kept key none]

end Paints

end KeblaOS
