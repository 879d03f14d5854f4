import Mathlib.Logic.Function.Basic
import Mathlib.Data.List.Basic

/-!
# Physical memory: the bump head and the frame bitmap

`kmalloc.c` hands out memory from `phys_mem_head` upwards, `pmm.c` keeps a bitmap of
4 KiB frames over the same memory. All quantities are 64-bit words and wrap around as in
C. `set_frame` shifts the `int` 1: on x86-64 the shift count is taken modulo 32 and the
result is sign-extended to 64 bits before it is or-ed into the word.
-/

namespace KeblaOS.Memory

/-- The globals of the physical memory manager. -/
structure Pmm where
  /-- `USABLE_START_PHYS_MEM` -/
  usableStart : UInt64
  /-- `USABLE_END_PHYS_MEM` -/
  usableEnd : UInt64
  /-- `USABLE_LENGTH_PHYS_MEM` -/
  usableLength : UInt64
  /-- `phys_mem_head` -/
  physMemHead : UInt64
  /-- `frames`, the address of the bitmap -/
  frames : UInt64
  nframes : UInt64
  /-- The words of the bitmap, and of the memory behind it. -/
  bitmap : Nat → UInt64

/-- `FRAME_SIZE`. -/
def frameSize : UInt64 := 4096

/-! ## The bump allocator -/

/-- `kmalloc`: the address returned and the state afterwards; address 0 is failure. -/
def kmalloc (pmm : Pmm) (sz : UInt64) : UInt64 × Pmm :=
  if pmm.usableEnd ≤ pmm.physMemHead then (0, pmm)
  else (pmm.physMemHead, { pmm with physMemHead := pmm.physMemHead + sz })

/-- The head after the alignment step of `kmalloc_a` and `kmalloc_ap`. -/
def pageAlignedHead (head : UInt64) (align : Int) : UInt64 :=
  if align = 1 ∧ head &&& 0xFFF ≠ 0 then (head &&& 0xFFFFFFFFFFFFF000) + frameSize else head

/-- `kmalloc_a`. -/
def kmallocA (pmm : Pmm) (sz : UInt64) (align : Int) : UInt64 × Pmm :=
  if pmm.usableEnd ≤ pmm.physMemHead then (0, pmm)
  else
    let head := pageAlignedHead pmm.physMemHead align
    (head, { pmm with physMemHead := head + sz })

/-- `kmalloc_p`; the head stays where it is. The second result is `*phys`. -/
def kmallocP (pmm : Pmm) (sz : UInt64) : UInt64 × UInt64 :=
  (pmm.physMemHead + sz, pmm.physMemHead)

/-- `kmalloc_ap`; the head is aligned before it is compared with the end. -/
def kmallocAp (pmm : Pmm) (sz : UInt64) (align : Int) : UInt64 × Pmm :=
  let head := pageAlignedHead pmm.physMemHead align
  if pmm.usableEnd ≤ head then (0, { pmm with physMemHead := head })
  else (head, { pmm with physMemHead := head + sz })

/-- The head after the alignment step of `kmalloc_aligned`. -/
def alignedHead (head alignment : UInt64) : UInt64 :=
  if head &&& (alignment - 1) ≠ 0 then (head + alignment - 1) &&& ~~~(alignment - 1) else head

/-- `kmalloc_aligned`. -/
def kmallocAligned (pmm : Pmm) (sz alignment : UInt64) : UInt64 × Pmm :=
  if pmm.usableEnd ≤ pmm.physMemHead then (0, pmm)
  else
    let head := alignedHead pmm.physMemHead alignment
    (head, { pmm with physMemHead := head + sz })

/-! ## The frame bitmap -/

/-- `BITMAP_SIZE`. -/
def bitmapSize : UInt64 := 64

/-- The value of the `int` expression `0x1 << off` as a 64-bit word. -/
def intOneShifted (off : UInt64) : UInt64 :=
  let low := (1 : UInt64) <<< (off % 32)
  if off % 32 = 31 then low ||| 0xFFFFFFFF00000000 else low

/-- `set_frame`; a failed assertion halts the kernel. -/
def setFrame (pmm : Pmm) (bitNo : UInt64) : Option Pmm :=
  if bitNo < pmm.nframes then
    let idx := (bitNo / bitmapSize).toNat
    let off := bitNo % bitmapSize
    some { pmm with
      bitmap := Function.update pmm.bitmap idx (pmm.bitmap idx ||| intOneShifted off)
      physMemHead := pmm.physMemHead + frameSize }
  else none

/-- `clear_frame`, with the bitmap allocated. -/
def clearFrame (pmm : Pmm) (bitNo : UInt64) : Option Pmm :=
  if bitNo < pmm.nframes then
    let idx := (bitNo / bitmapSize).toNat
    let off := bitNo % bitmapSize
    some { pmm with
      bitmap := Function.update pmm.bitmap idx (pmm.bitmap idx &&& ~~~((1 : UInt64) <<< off)) }
  else none

/-- `test_frame`. -/
def testFrame (pmm : Pmm) (bitNo : UInt64) : Option UInt64 :=
  if bitNo < pmm.nframes then
    let idx := (bitNo / bitmapSize).toNat
    let off := bitNo % bitmapSize
    some (pmm.bitmap idx &&& ((1 : UInt64) <<< off))
  else none

/-- The bit of a frame in the bitmap. -/
def frameBit (pmm : Pmm) (bitNo : Nat) : Bool := (pmm.bitmap (bitNo / 64)).toNat.testBit (bitNo % 64)

/-- The inner loop of `free_frame_bit_no`: the offset of the first clear bit of a word. -/
def freeOffset (word : UInt64) : Option Nat :=
  (List.range 64).find? fun off => word &&& ((1 : UInt64) <<< UInt64.ofNat off) = 0

/-- The outer loop from word `idx` on, and `free_bit` behind it: -1 if no bit is clear. -/
def freeBitSearch (bitmap : Nat → UInt64) : Nat → Nat → UInt64
  | 0, _ => 0xFFFFFFFFFFFFFFFF
  | remaining + 1, idx =>
      if bitmap idx = 0xFFFFFFFFFFFFFFFF then freeBitSearch bitmap remaining (idx + 1)
      else
        match freeOffset (bitmap idx) with
        | some off => UInt64.ofNat (idx * 64 + off)
        | none => freeBitSearch bitmap remaining (idx + 1)

/-- `free_frame_bit_no`. The macro in the condition of its outer loop expands to
`nframes - 1 / BITMAP_SIZE`, so the loop passes `nframes + 1` words. The assertion compares
`free_bit` as an unsigned number; if it fails, the kernel halts. -/
def freeFrameBitNo (pmm : Pmm) : Option UInt64 :=
  let freeBit := freeBitSearch pmm.bitmap (pmm.nframes.toNat + 1) 0
  if freeBit < pmm.nframes then some freeBit else none

end KeblaOS.Memory
