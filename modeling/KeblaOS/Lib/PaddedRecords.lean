import Mathlib.Data.List.Basic

/-!
# Records in padded blocks

Variable-length records stored one after the other in blocks of a fixed size. No record
crosses the end of its block, and a length of zero says that the rest of the block is
unused. `Remaining` is what a cursor at an offset has still to deliver; a loop over the
records is described by induction on it. `Remaining.of_blocks` says that a well-formed
sequence of blocks delivers its records in order.
-/

namespace KeblaOS

variable {Item : Type*}

/-- `Remaining length item block size offset items`: from `offset` on, a cursor that steps by
`length` and over the unused rests of blocks delivers `items` and stops at `size`. -/
inductive Remaining (length : Nat → Nat) (item : Nat → Item) (block size : Nat) : Nat → List Item → Prop where
  | done : Remaining length item block size size []
  | skip {offset items} (inside : offset < size) (unused : length offset = 0)
      (rest : Remaining length item block size (offset + (block - offset % block)) items) :
      Remaining length item block size offset items
  | record {offset items} (inside : offset < size) (used : length offset ≠ 0)
      (rest : Remaining length item block size (offset + length offset) items) :
      Remaining length item block size offset (item offset :: items)

namespace Remaining

variable {length : Nat → Nat} {item : Nat → Item} {block size offset : Nat} {items : List Item}

/-- A cursor never passes the end. -/
theorem le (remaining : Remaining length item block size offset items) : offset ≤ size := by
  cases remaining with
  | done => exact Nat.le_refl _
  | skip inside => exact Nat.le_of_lt inside
  | record inside => exact Nat.le_of_lt inside

end Remaining

/-- A block: records, and a rest that is empty or starts with a length of zero. -/
structure Block (α : Type*) where
  records : List (List α)
  rest : List α

/-- The elements of a block. -/
def Block.flat {α : Type*} (block : Block α) : List α := block.records.flatten ++ block.rest

section Blocks

variable {α : Type*} {length : Nat → Nat} {item : Nat → Item} {decode : List α → Item} {block size : Nat}
  {buffer : List α}

/-- What a cursor needs to know of a buffer: a record at an offset is measured and decoded
by its own bytes, and the unused rest of a block measures zero. -/
structure Decodes (length : Nat → Nat) (item : Nat → Item) (decode : List α → Item) (buffer : List α)
    (blocks : List (Block α)) : Prop where
  record : ∀ stored ∈ blocks, ∀ record ∈ stored.records, ∀ offset more,
    buffer.drop offset = record ++ more → length offset = record.length ∧ item offset = decode record
  nonempty : ∀ stored ∈ blocks, ∀ record ∈ stored.records, record ≠ []
  unused : ∀ stored ∈ blocks, stored.rest ≠ [] → ∀ offset more,
    buffer.drop offset = stored.rest ++ more → length offset = 0

theorem Decodes.tail {first : Block α} {blocks : List (Block α)}
    (decodes : Decodes length item decode buffer (first :: blocks)) :
    Decodes length item decode buffer blocks where
  record stored member := decodes.record stored (List.mem_cons_of_mem _ member)
  nonempty stored member := decodes.nonempty stored (List.mem_cons_of_mem _ member)
  unused stored member := decodes.unused stored (List.mem_cons_of_mem _ member)

/-- Inside a block the cursor delivers the records that are left and then goes to the next
block. -/
theorem Remaining.of_records {first : Block α} {blocks : List (Block α)} {records : List (List α)}
    {offset start : Nat} {items : List Item}
    (decodes : Decodes length item decode buffer (first :: blocks)) (left : ∀ record ∈ records, record ∈ first.records)
    (stored : buffer.drop offset = records.flatten ++ first.rest ++ (blocks.map Block.flat).flatten)
    (aligned : block ∣ start) (begun : start ≤ offset)
    (ends : offset + (records.flatten ++ first.rest).length = start + block) (inside : start + block ≤ size)
    (rest : Remaining length item block size (start + block) items) :
    Remaining length item block size offset (records.map decode ++ items) := by
  induction records generalizing offset with
  | nil =>
      simp only [List.flatten_nil, List.nil_append, List.map_nil] at stored ends ⊢
      by_cases none : first.rest = []
      · rw [none, List.length_nil, Nat.add_zero] at ends
        rwa [ends]
      · have some : 0 < first.rest.length := List.length_pos_iff.mpr none
        have zero := decodes.unused first List.mem_cons_self none offset _ stored
        have next : offset + (block - offset % block) = start + block := by
          obtain ⟨count, rfl⟩ := aligned
          have remainder : offset % block = offset - block * count := by
            obtain ⟨more, rfl⟩ := Nat.exists_eq_add_of_le begun
            rw [Nat.mul_add_mod, Nat.add_sub_cancel_left]
            exact Nat.mod_eq_of_lt (by omega)
          omega
        refine .skip (by omega) zero ?_
        rwa [next]
  | cons record records ih =>
      rw [List.flatten_cons, List.append_assoc, List.append_assoc, ← List.append_assoc records.flatten] at stored
      have member := left record List.mem_cons_self
      obtain ⟨measured, decoded⟩ := decodes.record first List.mem_cons_self record member offset _ stored
      have some : 0 < record.length :=
        List.length_pos_iff.mpr (decodes.nonempty first List.mem_cons_self record member)
      rw [List.flatten_cons, List.append_assoc, List.length_append] at ends
      rw [List.map_cons, List.cons_append, ← decoded]
      refine .record (by omega) (by omega) ?_
      rw [measured]
      refine ih (fun other later => left other (List.mem_cons_of_mem _ later)) ?_ (by omega) (by omega)
      rw [← List.drop_drop, stored, List.drop_left]

/-- A sequence of blocks delivers its records in order. -/
theorem Remaining.of_blocks {blocks : List (Block α)} {start : Nat}
    (decodes : Decodes length item decode buffer blocks)
    (sized : ∀ stored ∈ blocks, stored.flat.length = block) (aligned : block ∣ start)
    (stored : buffer.drop start = (blocks.map Block.flat).flatten)
    (ends : start + block * blocks.length = size) :
    Remaining length item block size start ((blocks.flatMap Block.records).map decode) := by
  induction blocks generalizing start with
  | nil =>
      rw [List.length_nil, Nat.mul_zero, Nat.add_zero] at ends
      subst ends
      exact .done
  | cons first blocks ih =>
      rw [List.length_cons, Nat.mul_succ] at ends
      have whole := sized first List.mem_cons_self
      rw [List.map_cons, List.flatten_cons] at stored
      have behind : buffer.drop (start + block) = (blocks.map Block.flat).flatten := by
        rw [← List.drop_drop, stored, ← whole, List.drop_left]
      have rest := ih decodes.tail (fun other later => sized other (List.mem_cons_of_mem _ later))
        (Nat.dvd_add aligned (Nat.dvd_refl block)) behind (by omega)
      rw [List.flatMap_cons, List.map_append]
      refine .of_records decodes (fun _ => id) stored aligned (Nat.le_refl _) ?_ (by omega) rest
      rw [← Block.flat, whole]

end Blocks

end KeblaOS
