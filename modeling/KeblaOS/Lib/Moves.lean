import Mathlib.Data.List.Range
import KeblaOS.Lib.Stores

/-!
# Copies between overlapping regions

A region is copied in chunks of one size, each read before it is stored. Upwards, the chunks are
copied from the first to the last, downwards from the last to the first. A copy upwards to a lower
place or behind the region and one downwards to a higher place never read what they stored, so that
they move the region.
-/

namespace KeblaOS

variable {α : Type*}

/-- The values of a region. -/
def region (memory : Nat → α) (pos size : Nat) : List α := (List.range size).map fun i => memory (pos + i)

/-- Chunks copied from the first to the last. -/
def copyUp (size dest src : Nat) : Nat → (Nat → α) → (Nat → α)
  | 0, memory => memory
  | count + 1, memory =>
      let copied := copyUp size dest src count memory
      store copied (dest + size * count) (region copied (src + size * count) size)

/-- Chunks copied from the last to the first. -/
def copyDown (size dest src : Nat) : Nat → (Nat → α) → (Nat → α)
  | 0, memory => memory
  | count + 1, memory =>
      copyDown size dest src count (store memory (dest + size * count) (region memory (src + size * count) size))

/-- The values of the source region stand in the destination region, and nothing else changed. -/
structure Moved (memory memory' : Nat → α) (dest src size : Nat) : Prop where
  inside : ∀ i < size, memory' (dest + i) = memory (src + i)
  outside : ∀ i, ¬ (dest ≤ i ∧ i < dest + size) → memory' i = memory i

variable {memory memory' : Nat → α} {dest src size count : Nat}

@[simp] theorem length_region (memory : Nat → α) (pos size : Nat) : (region memory pos size).length = size := by
  rw [region, List.length_map, List.length_range]

theorem moved_empty (memory : Nat → α) (dest src : Nat) : Moved memory memory dest src 0 where
  inside _ impossible := absurd impossible (Nat.not_lt_zero _)
  outside _ _ := rfl

/-- A region onto itself. -/
theorem moved_self (memory : Nat → α) (pos size : Nat) : Moved memory memory pos pos size where
  inside _ _ := rfl
  outside _ _ := rfl

/-- One chunk moves. -/
theorem moved_store (memory : Nat → α) (dest src size : Nat) :
    Moved memory (store memory dest (region memory src size)) dest src size where
  inside i below := by
    have covers : Covers (dest, region memory src size) (dest + i) := by
      refine ⟨Nat.le_add_right _ _, ?_⟩
      dsimp only
      rw [length_region]
      omega
    apply Option.some.inj
    rw [store_of_covers covers, Nat.add_sub_cancel_left, region, List.getElem?_map, List.getElem?_range below]
    rfl
  outside i other := by
    apply store_of_not_covers
    rintro ⟨above, below⟩
    dsimp only at above below
    rw [length_region] at below
    exact other ⟨above, below⟩

/-- A move determines the memory. -/
theorem Moved.unique {other : Nat → α} (moved : Moved memory memory' dest src size)
    (moved' : Moved memory other dest src size) : memory' = other := by
  ext i
  by_cases inside : dest ≤ i ∧ i < dest + size
  · obtain ⟨k, rfl⟩ := Nat.exists_eq_add_of_le inside.1
    rw [moved.inside k (by omega), moved'.inside k (by omega)]
  · rw [moved.outside i inside, moved'.outside i inside]

/-- Two moves one after the other, the second of the region behind the first, which the first did
not touch. -/
theorem Moved.append {middle : Nat → α} {more : Nat} (first : Moved memory middle dest src size)
    (second : Moved middle memory' (dest + size) (src + size) more)
    (untouched : ∀ i < more, middle (src + size + i) = memory (src + size + i)) :
    Moved memory memory' dest src (size + more) where
  inside i below := by
    by_cases front : i < size
    · rw [second.outside (dest + i) (by omega), first.inside i front]
    · obtain ⟨rest, rfl⟩ := Nat.exists_eq_add_of_le (Nat.le_of_not_lt front)
      rw [← Nat.add_assoc, ← Nat.add_assoc, second.inside rest (by omega), untouched rest (by omega)]
  outside i other := by
    rw [second.outside i (by omega), first.outside i (by omega)]

/-- Two moves one after the other, the second of the region in front of the first. -/
theorem Moved.prepend {middle : Nat → α} {more : Nat}
    (first : Moved memory middle (dest + size) (src + size) more) (second : Moved middle memory' dest src size)
    (untouched : ∀ i < size, middle (src + i) = memory (src + i)) : Moved memory memory' dest src (size + more) where
  inside i below := by
    by_cases front : i < size
    · rw [second.inside i front, untouched i front]
    · obtain ⟨rest, rfl⟩ := Nat.exists_eq_add_of_le (Nat.le_of_not_lt front)
      rw [second.outside _ (by omega), ← Nat.add_assoc, ← Nat.add_assoc, first.inside rest (by omega)]
  outside i other := by
    rw [second.outside i (by omega), first.outside i (by omega)]

/-- A copy upwards to a lower place, or behind the region, moves the region. -/
theorem copyUp_moved (count : Nat) (clear : dest ≤ src ∨ src + size * count ≤ dest) (memory : Nat → α) :
    Moved memory (copyUp size dest src count memory) dest src (size * count) := by
  induction count with
  | zero => exact moved_empty memory dest src
  | succ count ih =>
      rw [Nat.mul_succ] at clear ⊢
      have first := ih (clear.imp_right fun behind => by omega)
      apply first.append (moved_store _ _ _ _)
      -- what is read next has not been stored to
      intro i _
      apply first.outside
      omega

/-- A copy downwards to a higher place moves the region. -/
theorem copyDown_moved (higher : src ≤ dest) (count : Nat) (memory : Nat → α) :
    Moved memory (copyDown size dest src count memory) dest src (size * count) := by
  induction count generalizing memory with
  | zero => exact moved_empty memory dest src
  | succ count ih =>
      rw [Nat.mul_succ]
      have last := moved_store memory (dest + size * count) (src + size * count) size
      apply last.prepend (ih _)
      intro i _
      apply last.outside
      omega

/-- A move of a longer region is one of a shorter region just when the rest of the longer one was
the same in both places. -/
theorem Moved.shorter_iff {less : Nat} (moved : Moved memory memory' dest src size) (short : less ≤ size) :
    Moved memory memory' dest src less ↔ ∀ i, less ≤ i → i < size → memory (src + i) = memory (dest + i) := by
  constructor
  · intro shorter i behind inside
    rw [← moved.inside i inside, shorter.outside (dest + i) (by omega)]
  · intro same
    refine ⟨fun i below => moved.inside i (by omega), fun i other => ?_⟩
    by_cases rest : dest ≤ i ∧ i < dest + size
    · obtain ⟨k, rfl⟩ := Nat.exists_eq_add_of_le rest.1
      rw [moved.inside k (by omega), same k (by omega) (by omega)]
    · exact moved.outside i rest

end KeblaOS
