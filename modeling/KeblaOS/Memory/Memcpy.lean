import KeblaOS.Lib.Moves

/-!
# `memcpy`

The kernel copies byte by byte. The library for modules copies words of eight bytes first and goes on
with bytes behind the last whole word, at the index the first loop ended with. Regions that do not
overlap are copied alike by both.
-/

namespace KeblaOS.Memory

/-- `for (i = 0; i < count; i++) dest[i] = src[i]` for elements of `size` bytes, from some `i` on: the
index and the memory behind the loop. -/
def copyLoop (size dest src count : Nat) : Nat → Nat → (Nat → UInt8) → Nat × (Nat → UInt8)
  | 0, i, memory => (i, memory)
  | fuel + 1, i, memory =>
      if i < count then
        copyLoop size dest src count fuel (i + 1)
          (store memory (dest + size * i) (region memory (src + size * i) size))
      else (i, memory)

/-- `memcpy` of the kernel: what it returns, and the memory afterwards. -/
def kernelMemcpy (memory : Nat → UInt8) (dest src n : Nat) : Nat × (Nat → UInt8) :=
  let (_, memory) := copyLoop 1 dest src n n 0 memory
  (dest, memory)

/-- `memcpy` of the library for modules: what it returns, and the memory afterwards. -/
def moduleMemcpy (memory : Nat → UInt8) (dest src n : Nat) : Nat × (Nat → UInt8) :=
  let (i, memory) := copyLoop 8 dest src (n / 8) (n / 8) 0 memory
  let pdest8 := dest + 8 * i
  let psrc8 := src + 8 * i
  let (_, memory) := copyLoop 1 pdest8 psrc8 (n % 8) (n % 8) 0 memory
  (dest, memory)

section Loop

variable {size dest src count fuel i : Nat}

/-- A loop that has copied `i` elements goes on to all of them. -/
theorem copyLoop_from (memory : Nat → UInt8) (enough : count - i ≤ fuel) (inside : i ≤ count) :
    copyLoop size dest src count fuel i (copyUp size dest src i memory) = (count, copyUp size dest src count memory) := by
  induction fuel generalizing i with
  | zero =>
      obtain rfl : i = count := by omega
      rfl
  | succ fuel ih =>
      rw [copyLoop]
      split_ifs with more
      · exact ih (by omega) more
      · obtain rfl : i = count := by omega
        rfl

theorem copyLoop_eq (size dest src count : Nat) (memory : Nat → UInt8) :
    copyLoop size dest src count count 0 memory = (count, copyUp size dest src count memory) :=
  copyLoop_from memory (Nat.sub_le count 0) (Nat.zero_le count)

end Loop

theorem kernelMemcpy_eq (memory : Nat → UInt8) (dest src n : Nat) :
    kernelMemcpy memory dest src n = (dest, copyUp 1 dest src n memory) := by
  simp only [kernelMemcpy, copyLoop_eq]

/-- The bytes that are left start at the index the words ended with. -/
theorem moduleMemcpy_eq (memory : Nat → UInt8) (dest src n : Nat) :
    moduleMemcpy memory dest src n =
      (dest, copyUp 1 (dest + 8 * (n / 8)) (src + 8 * (n / 8)) (n % 8) (copyUp 8 dest src (n / 8) memory)) := by
  simp only [moduleMemcpy, copyLoop_eq]

variable {dest src n : Nat}

/-- The kernel moves the bytes. -/
theorem kernelMemcpy_moved (memory : Nat → UInt8) (apart : dest + n ≤ src ∨ src + n ≤ dest) :
    Moved memory (kernelMemcpy memory dest src n).2 dest src n := by
  have moved := @copyUp_moved _ dest src 1 n (by omega) memory
  rw [Nat.one_mul] at moved
  rwa [kernelMemcpy_eq]

/-- The library moves the whole words, then the bytes behind them. -/
theorem moduleMemcpy_moved (memory : Nat → UInt8) (apart : dest + n ≤ src ∨ src + n ≤ dest) :
    Moved memory (moduleMemcpy memory dest src n).2 dest src n := by
  have parts : 8 * (n / 8) + 1 * (n % 8) = n := by omega
  have words := @copyUp_moved _ dest src 8 (n / 8) (by omega) memory
  have bytes := @copyUp_moved _ (dest + 8 * (n / 8)) (src + 8 * (n / 8)) 1 (n % 8) (by omega)
    (copyUp 8 dest src (n / 8) memory)
  have both := words.append bytes fun i below => words.outside _ (by omega)
  rw [parts] at both
  rwa [moduleMemcpy_eq]

/-- Both versions return `dest` and leave the same memory, in which the bytes of the source stand in the destination
and no other byte has changed. -/
theorem memcpy_same (memory : Nat → UInt8) (dest src n : Nat) (apart : dest + n ≤ src ∨ src + n ≤ dest) :
    moduleMemcpy memory dest src n = kernelMemcpy memory dest src n ∧
      Moved memory (kernelMemcpy memory dest src n).2 dest src n := by
  have moved := kernelMemcpy_moved memory apart
  refine ⟨Prod.ext ?_ ((moduleMemcpy_moved memory apart).unique moved), moved⟩
  rw [moduleMemcpy_eq, kernelMemcpy_eq]

/-- A word and three bytes. -/
theorem memcpy_same_eleven :
    moduleMemcpy (fun i => UInt8.ofNat i) 100 200 11 = kernelMemcpy (fun i => UInt8.ofNat i) 100 200 11 ∧
      Moved (fun i => UInt8.ofNat i) (kernelMemcpy (fun i => UInt8.ofNat i) 100 200 11).2 100 200 11 :=
  memcpy_same _ 100 200 11 (by decide)

end KeblaOS.Memory
