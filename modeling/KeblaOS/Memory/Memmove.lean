import KeblaOS.Lib.Moves

/-!
# `memmove`

Both versions of `memmove` turn their pointers into pointers to four-byte words and copy `n` words,
where `n` is a number of bytes. So they move four times as much as they should, in the right
direction.
-/

namespace KeblaOS.Memory

/-- The size of a `uint32_t`. -/
def wordSize : Nat := 4

/-- The body of both versions: up to a lower place, down to a higher one. -/
def moveWords (memory : Nat → UInt8) (dest src n : Nat) : Nat → UInt8 :=
  if dest < src then copyUp wordSize dest src n memory
  else if src < dest then copyDown wordSize dest src n memory
  else memory

/-- `memmove` of the kernel. -/
def kernelMemmove (memory : Nat → UInt8) (dest src n : Nat) : Nat → UInt8 := moveWords memory dest src n

/-- `memmove` of the library for modules. -/
def moduleMemmove (memory : Nat → UInt8) (dest src n : Nat) : Nat → UInt8 := moveWords memory dest src n

/-- The words move, whether the regions overlap or not. -/
theorem moveWords_moved (memory : Nat → UInt8) (dest src n : Nat) :
    Moved memory (moveWords memory dest src n) dest src (wordSize * n) := by
  unfold moveWords
  split_ifs with lower higher
  · exact copyUp_moved n (.inl (Nat.le_of_lt lower)) memory
  · exact copyDown_moved (Nat.le_of_lt higher) n memory
  · obtain rfl : dest = src := Nat.le_antisymm (Nat.le_of_not_lt higher) (Nat.le_of_not_lt lower)
    exact moved_self memory dest _

/-- Both versions move `n` bytes and change no other byte just when the bytes that follow, up to four
times as many in all, were the same behind both regions. -/
theorem memmove_moved_iff (memory : Nat → UInt8) (dest src n : Nat) :
    (Moved memory (kernelMemmove memory dest src n) dest src n ↔
      ∀ i, n ≤ i → i < 4 * n → memory (src + i) = memory (dest + i)) ∧
    (Moved memory (moduleMemmove memory dest src n) dest src n ↔
      ∀ i, n ≤ i → i < 4 * n → memory (src + i) = memory (dest + i)) :=
  have exactly := (moveWords_moved memory dest src n).shorter_iff (Nat.le_mul_of_pos_left n (by decide))
  ⟨exactly, exactly⟩

/-- One byte is to move from 200 to 100, and the byte at 101 changes too. -/
theorem memmove_changes_next_byte :
    ¬ Moved (fun i => UInt8.ofNat i) (kernelMemmove (fun i => UInt8.ofNat i) 100 200 1) 100 200 1 ∧
      ¬ Moved (fun i => UInt8.ofNat i) (moduleMemmove (fun i => UInt8.ofNat i) 100 200 1) 100 200 1 :=
  ⟨fun moved => absurd (moved.outside 101 (by decide)) (by decide),
    fun moved => absurd (moved.outside 101 (by decide)) (by decide)⟩

end KeblaOS.Memory
