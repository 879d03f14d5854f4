import KeblaOS.Lib.ShiftRegister
import KeblaOS.Partition.Gpt

/-!
# What the checksums notice

`crc32` is a shift register of 32 bits, so that two byte strings which differ within four bytes never share a
checksum. A header holds its own checksum, computed while that field is zero: a change that reaches from the field
into the bytes behind it may change both alike, and `missed` lists the five such changes of four bytes.
-/

namespace KeblaOS.Partition

open KeblaOS.Buffer

/-- The feedback constant of `crc32`. -/
def crcFeedback : Nat := 0xEDB88320

/-- A header image with its checksum field zeroed. -/
def blanked (image : List UInt8) : List UInt8 := image.take 16 ++ (List.replicate 4 0 ++ image.drop 20)

/-- The checksum a header image holds is the one `create_gpt_header` computes for it. -/
def Intact (image : List UInt8) : Prop := (loadHeader image).headerCrc32 = crc32 (blanked image)

/-- The bytes of an image from a position on, XORed with a mask. -/
def disturb (image : List UInt8) (pos : Nat) (mask : List UInt8) : List UInt8 :=
  image.take pos ++ (List.zipWith (· ^^^ ·) (slice image pos mask.length) mask ++ image.drop (pos + mask.length))

/-- The changes of a header within four bytes that its checksum does not notice. -/
def missed : List (Nat × List UInt8) :=
  [(17, [0xC3, 0xC4, 0x5D, 0x68]), (17, [0x45, 0x4D, 0xE6, 0xB8]), (17, [0x86, 0x89, 0xBB, 0xD0]),
    (18, [0x72, 0xA6, 0x01, 0x0A]), (19, [0xBF, 0x36, 0x9C, 0xC9])]

/-! ## The checksum as a shift register -/

theorem crcFeedback_feedback : Feedback crcFeedback 31 := ⟨by decide, by decide⟩

theorem toNat_crcShift (crc : UInt32) : (crcShift crc).toNat = registerShift crcFeedback crc.toNat := by
  have lowest : (crc &&& 1).toNat = crc.toNat % 2 := by
    rw [UInt32.toNat_and]
    exact Nat.and_one_is_mod _
  have fed : (0xEDB88320 &&& (0 - (crc &&& 1)) : UInt32).toNat = crc.toNat % 2 * crcFeedback := by
    rcases Nat.mod_two_eq_zero_or_one crc.toNat with even | odd
    · have bit : crc &&& 1 = 0 := UInt32.toNat_inj.mp (lowest.trans even)
      rw [bit, even, Nat.zero_mul]
      rfl
    · have bit : crc &&& 1 = 1 := UInt32.toNat_inj.mp (lowest.trans odd)
      rw [bit, odd, Nat.one_mul]
      rfl
  rw [crcShift, UInt32.toNat_xor, fed, UInt32.toNat_shiftRight, registerShift]
  congr 1

theorem toNat_crcShift_iterate (count : Nat) (crc : UInt32) :
    (crcShift^[count] crc).toNat = (registerShift crcFeedback)^[count] crc.toNat := by
  induction count generalizing crc with
  | zero => rfl
  | succ count ih => rw [Function.iterate_succ_apply, Function.iterate_succ_apply, ih, toNat_crcShift]

theorem toNat_crc_fold (data : List UInt8) (crc : UInt32) :
    (data.foldl (fun crc byte => crcShift^[8] (crc ^^^ byte.toUInt32)) crc).toNat =
      absorb crcFeedback 8 crc.toNat (data.map UInt8.toNat) := by
  induction data generalizing crc with
  | nil => rfl
  | cons byte rest ih =>
      rw [List.foldl_cons, ih, toNat_crcShift_iterate, UInt32.toNat_xor, UInt8.toNat_toUInt32]
      rfl

theorem byte_lt (data : List UInt8) : ∀ symbol ∈ data.map UInt8.toNat, symbol < 2 ^ 8 := by
  intro symbol member
  obtain ⟨byte, -, rfl⟩ := List.mem_map.mp member
  exact byte.toNat_lt

theorem leNat_eq_packed (data : List UInt8) : leNat data = packed 8 (data.map UInt8.toNat) := by
  induction data with
  | nil => rfl
  | cons byte rest ih =>
      rw [leNat, List.map_cons, packed, ← ih, xor_two_pow_mul byte.toNat_lt]
      rfl

theorem leNat_append (front rest : List UInt8) :
    leNat (front ++ rest) = leNat front ^^^ 2 ^ (8 * front.length) * leNat rest := by
  simp only [leNat_eq_packed, List.map_append, packed_append, List.length_map]

theorem leNat_injective {data data' : List UInt8} (same : data.length = data'.length) (equal : leNat data = leNat data') :
    data = data' := by
  rw [leNat_eq_packed, leNat_eq_packed] at equal
  have symbols := packed_injective (by rw [List.length_map, List.length_map, same]) (byte_lt data) (byte_lt data') equal
  exact List.map_injective_iff.mpr (fun _ _ => UInt8.toNat_inj.mp) symbols

/-- The checksums of two byte strings of one length differ by what is left of the difference of the strings. -/
theorem crc32_xor {data data' : List UInt8} (same : data.length = data'.length) :
    (crc32 data).toNat ^^^ (crc32 data').toNat =
      (registerShift crcFeedback)^[8 * data.length] (leNat data ^^^ leNat data') := by
  have complements (a b : UInt32) : (~~~a).toNat ^^^ (~~~b).toNat = a.toNat ^^^ b.toNat := by
    rw [← UInt32.toNat_xor, ← UInt32.toNat_xor, UInt32.xor_not, UInt32.not_xor, UInt32.not_not]
  have symbols : (data.map UInt8.toNat).length = (data'.map UInt8.toNat).length := by
    rw [List.length_map, List.length_map, same]
  rw [crc32, crc32, complements, toNat_crc_fold, toNat_crc_fold, absorb_xor symbols, List.length_map, leNat_eq_packed,
    leNat_eq_packed]

theorem crc32_ne {data data' : List UInt8} {start : Nat} (burst : Burst data data' start 4) : crc32 data ≠ crc32 data' := by
  intro equal
  have symbols : Burst (data.map UInt8.toNat) (data'.map UInt8.toNat) start 4 := burst.map fun _ _ => UInt8.toNat_inj.mp
  rw [crc32, crc32, UInt32.not_inj] at equal
  have registers := congrArg UInt32.toNat equal
  rw [toNat_crc_fold, toNat_crc_fold] at registers
  exact symbols.absorb_ne crcFeedback_feedback (Nat.le_refl 32) (byte_lt data) (byte_lt data') registers

/-! ## Headers as numbers -/

/-- The checksum field in a header read as one number. -/
def storedPart (x : Nat) : Nat := x / 2 ^ 128 % 2 ^ 32

/-- What a change of a header makes of its stored checksum and of its computed one. -/
def syndrome (x : Nat) : Nat :=
  storedPart x ^^^ (registerShift crcFeedback)^[8 * 92] (x ^^^ 2 ^ 128 * storedPart x)

theorem storedPart_linear : XorLinear storedPart := (XorLinear.mod_two_pow 32).comp (XorLinear.div_two_pow 128)

theorem syndrome_linear : XorLinear syndrome := by
  have shifts := (registerShift_linear crcFeedback).iterate (8 * 92)
  have cleared := XorLinear.id.xor ((XorLinear.two_pow_mul 128).comp storedPart_linear)
  exact storedPart_linear.xor (shifts.comp cleared)

/-- A list is cut around a slice. -/
theorem take_slice_drop {α : Type*} (list : List α) (pos len : Nat) :
    list.take pos ++ (slice list pos len ++ list.drop (pos + len)) = list := by
  have behind : list.drop (pos + len) = (list.drop pos).drop len := by rw [List.drop_drop]
  rw [slice, behind, List.take_append_drop, List.take_append_drop]

section Image

variable {image image' : List UInt8}

/-- The parts of a header as one number. -/
theorem leNat_image (full : image.length = 92) : ∃ front behind, front < 2 ^ 128 ∧
    leNat image = front ^^^ 2 ^ 128 * (leNat (slice image 16 4) ^^^ 2 ^ 32 * behind) ∧
    leNat (blanked image) = front ^^^ 2 ^ 128 * (2 ^ 32 * behind) := by
  have front : (image.take 16).length = 16 := by rw [List.length_take]; omega
  have field : (slice image 16 4).length = 4 := length_slice_of_le (by omega)
  have zeros : leNat (List.replicate 4 0) = 0 := by decide
  refine ⟨leNat (image.take 16), leNat (image.drop 20), ?_, ?_, ?_⟩
  · have bound := leNat_lt (image.take 16)
    rw [front] at bound
    exact bound
  · conv_lhs => rw [← take_slice_drop image 16 4]
    rw [leNat_append, leNat_append, front, field]
  · rw [blanked, leNat_append, leNat_append, front, List.length_replicate, zeros, Nat.zero_xor]

theorem field_lt (full : image.length = 92) : leNat (slice image 16 4) < 2 ^ 32 := by
  have bound := leNat_lt (slice image 16 4)
  rwa [length_slice_of_le (by omega)] at bound

theorem toNat_headerCrc32 (full : image.length = 92) :
    (loadHeader image).headerCrc32.toNat = leNat (slice image 16 4) := UInt32.toNat_ofNat_of_lt' (field_lt full)

theorem storedPart_image (full : image.length = 92) :
    storedPart (leNat image) = (loadHeader image).headerCrc32.toNat := by
  obtain ⟨front, behind, below, whole, -⟩ := leNat_image full
  rw [toNat_headerCrc32 full, storedPart, whole, Nat.xor_div_two_pow, Nat.div_eq_of_lt below, Nat.zero_xor,
    Nat.mul_div_cancel_left _ (Nat.two_pow_pos 128), Nat.xor_mod_two_pow, Nat.mul_mod_right, Nat.xor_zero,
    Nat.mod_eq_of_lt (field_lt full)]

theorem leNat_blanked (full : image.length = 92) :
    leNat (blanked image) = leNat image ^^^ 2 ^ 128 * storedPart (leNat image) := by
  obtain ⟨front, behind, -, whole, rest⟩ := leNat_image full
  have stored := (storedPart_image full).trans (toNat_headerCrc32 full)
  rw [stored, rest, whole, Nat.xor_assoc, ← two_pow_mul_xor, Nat.xor_comm (leNat _), Nat.xor_xor_cancel_right]

theorem length_blanked (full : image.length = 92) : (blanked image).length = 92 := by
  rw [blanked, List.length_append, List.length_append, List.length_take, List.length_replicate, List.length_drop]
  omega

/-- A change keeps the stored checksum right if it changes both checksums alike. -/
theorem intact_iff (full : image.length = 92) (full' : image'.length = 92) (intact : Intact image) :
    Intact image' ↔ syndrome (leNat image ^^^ leNat image') = 0 := by
  have same : (blanked image).length = (blanked image').length := by rw [length_blanked full, length_blanked full']
  have computed := crc32_xor same
  have stored : (loadHeader image).headerCrc32.toNat = (crc32 (blanked image)).toNat := congrArg UInt32.toNat intact
  rw [length_blanked full, leNat_blanked full, leNat_blanked full', xor_xor_xor_comm, ← two_pow_mul_xor,
    ← storedPart_linear, ← stored] at computed
  rw [syndrome, ← computed, storedPart_linear, storedPart_image full, storedPart_image full', xor_xor_xor_comm,
    Nat.xor_self, Nat.zero_xor, xor_eq_zero_iff, UInt32.toNat_inj]
  rfl

end Image

/-! ## Changes around the checksum field -/

/-- The columns of 584 shifts. -/
def crcColumns : List Nat :=
  [4157365262, 887733853, 1775467706, 3550935412, 2084369577, 4168739154, 729994469, 1459988938, 2919977876,
    2271715689, 3586016403, 1879936871, 3759873742, 457653213, 915306426, 1830612852, 3661225704, 1862450065,
    3724900130, 1736173573, 3472347146, 1184802389, 2369604778, 3238764309, 1499871339, 2999742678, 3203000301,
    2795686299, 2520028535, 4145556655, 893476639, 1786953278]

theorem columns_crcShifts : bitColumns 32 (registerShift crcFeedback)^[584] = crcColumns := by decide +kernel

/-- `syndrome` of a change of four bytes, by way of the columns. -/
def windowSyndrome (start change : Nat) : Nat :=
  storedPart (2 ^ (8 * start) * change) ^^^
    ((registerShift crcFeedback)^[152 - 8 * start] (combine crcColumns change) ^^^
      (registerShift crcFeedback)^[24] (combine crcColumns (storedPart (2 ^ (8 * start) * change))))

/-- Four bytes that reach into the checksum field or out of it: the changes there the checksum does not notice, told
apart by some bits above the lowest one. -/
structure Window where
  start : Nat
  bits : Nat
  changes : List Nat

def windows : List Window :=
  [⟨13, 0, [0]⟩, ⟨14, 0, [0]⟩, ⟨15, 0, [0]⟩, ⟨16, 0, [0]⟩, ⟨17, 2, [0, 0x685DC4C3, 0xB8E64D45, 0xD0BB8986]⟩,
    ⟨18, 1, [0, 0x0A01A672]⟩, ⟨19, 1, [0, 0xC99C36BF]⟩]

/-- The listed changes go unnoticed, there is one for every value of the bits, and there is no other one. -/
structure Window.Checked (window : Window) : Prop where
  start_le : window.start ≤ 19
  unnoticed : ∀ change ∈ window.changes, change < 2 ^ 32 ∧ windowSyndrome window.start change = 0
  covered : ∀ mark < 2 ^ window.bits, ∃ change ∈ window.changes, change / 2 % 2 ^ window.bits = mark
  independent : independent (fun x => x) (bitColumns 32 fun change =>
    windowSyndrome window.start change ^^^ 2 ^ 32 * (change / 2 % 2 ^ window.bits))

instance (window : Window) : Decidable window.Checked :=
  decidable_of_iff (_ ∧ _ ∧ _ ∧ _) ⟨fun ⟨a, b, c, d⟩ => ⟨a, b, c, d⟩, fun ⟨a, b, c, d⟩ => ⟨a, b, c, d⟩⟩

theorem windows_checked : ∀ window ∈ windows, window.Checked := by decide +kernel

theorem shift_placed {places change : Nat} (fits : places ≤ 152) (narrow : change < 2 ^ 32) :
    (registerShift crcFeedback)^[8 * 92] (2 ^ places * change) =
      (registerShift crcFeedback)^[152 - places] (combine crcColumns change) := by
  have shifts : 8 * 92 = 152 - places + 584 + places := by omega
  have linear := (registerShift_linear crcFeedback).iterate 584
  rw [← columns_crcShifts, combine_bitColumns linear narrow, shifts, Function.iterate_add_apply,
    iterate_registerShift_two_pow_mul, Function.iterate_add_apply]

theorem storedPart_lt (x : Nat) : storedPart x < 2 ^ 32 := Nat.mod_lt _ (Nat.two_pow_pos 32)

theorem syndrome_window {start change : Nat} (near : start ≤ 19) (narrow : change < 2 ^ 32) :
    syndrome (2 ^ (8 * start) * change) = windowSyndrome start change := by
  have linear := (registerShift_linear crcFeedback).iterate (8 * 92)
  rw [syndrome, linear, shift_placed (by omega) narrow, shift_placed (by omega) (storedPart_lt _), windowSyndrome]

namespace Window

variable {window : Window} {change : Nat}

theorem Checked.mem (checked : window.Checked) (narrow : change < 2 ^ 32)
    (zero : syndrome (2 ^ (8 * window.start) * change) = 0) : change ∈ window.changes := by
  obtain ⟨near, unnoticed, covered, passed⟩ := checked
  obtain ⟨known, listed, same⟩ := covered (change / 2 % 2 ^ window.bits) (Nat.mod_lt _ (Nat.two_pow_pos _))
  obtain ⟨narrow', unnoticed⟩ := unnoticed known listed
  have linear : XorLinear fun change => syndrome (2 ^ (8 * window.start) * change) :=
    syndrome_linear.comp (XorLinear.two_pow_mul _)
  have marks : XorLinear fun change => change / 2 % 2 ^ window.bits :=
    (XorLinear.mod_two_pow window.bits).comp (XorLinear.div_two_pow 1)
  have equal : known = change := by
    apply linear.eq_of_marked marks _ narrow' narrow _ zero same
    · exact 32
    · rwa [bitColumns_congr fun change narrow => by rw [syndrome_window near narrow]]
    · rwa [syndrome_window near narrow']
  rwa [← equal]

end Window

theorem mem_windows {start : Nat} (first : 13 ≤ start) (last : start ≤ 19) : ∃ window ∈ windows, window.start = start := by
  interval_cases start <;> decide

/-- The changes a list of masks makes, as numbers. -/
def changesOf (masks : List (Nat × List UInt8)) : List Nat := masks.map fun mask => 2 ^ (8 * mask.1) * leNat mask.2

theorem windows_missed : ∀ window ∈ windows, ∀ change ∈ window.changes,
    change = 0 ∨ 2 ^ (8 * window.start) * change ∈ changesOf missed := by
  decide +kernel

/-- Away from the checksum field a change of four bytes is always noticed. -/
theorem syndrome_ne_zero {start change : Nat} (away : start ≤ 12 ∨ 20 ≤ start) (inside : start < 92)
    (narrow : change < 2 ^ 32) (nonzero : change ≠ 0) : syndrome (2 ^ (8 * start) * change) ≠ 0 := by
  have untouched : storedPart (2 ^ (8 * start) * change) = 0 := by
    rcases away with before | behind
    · have low : 2 ^ (8 * start) * change < 2 ^ 128 :=
        calc 2 ^ (8 * start) * change < 2 ^ (8 * start) * 2 ^ 32 := Nat.mul_lt_mul_of_pos_left narrow (Nat.two_pow_pos _)
          _ = 2 ^ (8 * start + 32) := (Nat.pow_add 2 _ _).symm
          _ ≤ 2 ^ 128 := Nat.pow_le_pow_right Nat.two_pos (by omega)
      rw [storedPart, Nat.div_eq_of_lt low, Nat.zero_mod]
    · have places : 8 * start = 128 + (32 + (8 * start - 160)) := by omega
      rw [storedPart, places, Nat.pow_add, Nat.mul_assoc, Nat.mul_div_cancel_left _ (Nat.two_pow_pos 128), Nat.pow_add,
        Nat.mul_assoc, Nat.mul_mod_right]
  have shifts : 8 * 92 = 8 * 92 - 8 * start + 8 * start := by omega
  rw [syndrome, untouched, Nat.mul_zero, Nat.xor_zero, Nat.zero_xor, shifts, Function.iterate_add_apply,
    iterate_registerShift_two_pow_mul]
  exact crcFeedback_feedback.iterate_ne_zero _ narrow nonzero

/-- The changes of four bytes that go unnoticed are those listed. -/
theorem mem_missed {start change : Nat} (inside : start < 92) (narrow : change < 2 ^ 32) (nonzero : change ≠ 0)
    (zero : syndrome (2 ^ (8 * start) * change) = 0) : 2 ^ (8 * start) * change ∈ changesOf missed := by
  by_cases near : 13 ≤ start ∧ start ≤ 19
  · obtain ⟨window, listed, rfl⟩ := mem_windows near.1 near.2
    have member := (windows_checked window listed).mem narrow zero
    exact (windows_missed window listed change member).resolve_left nonzero
  · exact absurd zero (syndrome_ne_zero (by omega) inside narrow nonzero)

theorem syndrome_missed : ∀ change ∈ changesOf missed, syndrome change = 0 := by decide +kernel

/-! ## Bursts in headers -/

section Disturb

variable {image mask : List UInt8} {pos : Nat}

theorem length_disturbed (fits : pos + mask.length ≤ image.length) : (image.take pos).length = pos ∧
    (slice image pos mask.length).length = mask.length ∧
    (List.zipWith (· ^^^ ·) (slice image pos mask.length) mask).length = mask.length := by
  have middle : (slice image pos mask.length).length = mask.length := length_slice_of_le fits
  refine ⟨List.length_take_of_le (by omega), middle, ?_⟩
  rw [List.length_zipWith, middle, Nat.min_self]

theorem length_disturb (fits : pos + mask.length ≤ image.length) : (disturb image pos mask).length = image.length := by
  obtain ⟨front, -, changed⟩ := length_disturbed fits
  rw [disturb, List.length_append, List.length_append, front, changed, List.length_drop]
  omega

theorem leNat_zipWith {front back : List UInt8} (same : front.length = back.length) :
    leNat (List.zipWith (· ^^^ ·) front back) = leNat front ^^^ leNat back := by
  have symbols : (List.zipWith (· ^^^ ·) front back).map UInt8.toNat =
      List.zipWith (· ^^^ ·) (front.map UInt8.toNat) (back.map UInt8.toNat) := by
    simp only [List.map_zipWith, List.zipWith_map, UInt8.toNat_xor]
  have length : (front.map UInt8.toNat).length = (back.map UInt8.toNat).length := by
    rw [List.length_map, List.length_map, same]
  rw [leNat_eq_packed, leNat_eq_packed, leNat_eq_packed, symbols, packed_xor length]

/-- The disturbed image read as one number. -/
theorem leNat_disturb (fits : pos + mask.length ≤ image.length) :
    leNat (disturb image pos mask) = leNat image ^^^ 2 ^ (8 * pos) * leNat mask := by
  obtain ⟨front, middle, changed⟩ := length_disturbed fits
  conv_rhs => rw [← take_slice_drop image pos mask.length]
  rw [disturb, leNat_append, leNat_append, leNat_append, leNat_append, front, changed, middle, leNat_zipWith middle,
    two_pow_mul_xor, two_pow_mul_xor, two_pow_mul_xor]
  simp only [Nat.xor_assoc]
  congr 2
  rw [Nat.xor_comm]

/-- Only the bytes under the mask change, and one of them does. -/
theorem disturb_burst (fits : pos + mask.length ≤ image.length) (nonzero : leNat mask ≠ 0) :
    Burst image (disturb image pos mask) pos mask.length where
  same := (length_disturb fits).symm
  differ := by
    intro equal
    have numbers := leNat_disturb fits
    rw [← equal, eq_comm, ← xor_eq_zero_iff, Nat.xor_comm, Nat.xor_xor_cancel_left] at numbers
    exact (Nat.mul_ne_zero (Nat.two_pow_pos _).ne' nonzero) numbers
  within := by
    intro i differs
    obtain ⟨front, -, changed⟩ := length_disturbed fits
    by_contra outside
    apply differs
    rw [disturb]
    by_cases before : i < pos
    · rw [List.getElem?_append_left (by omega), List.getElem?_take_of_lt before]
    · rw [List.getElem?_append_right (by omega), List.getElem?_append_right (by omega), List.getElem?_drop, front, changed]
      congr 1
      omega

end Disturb

theorem checksummed_intact {header : GptHeader} (sized : header.Sized) (blank : header.headerCrc32 = 0) :
    Intact header.checksummed.bytes := by
  let front := header.signature ++ (leBytes 4 header.revision.toNat ++ leBytes 4 header.headerSize.toNat)
  obtain ⟨behind, parts⟩ : ∃ behind, ∀ crc : UInt32, { header with headerCrc32 := crc }.bytes =
      front ++ (leBytes 4 crc.toNat ++ behind) := by
    apply Exists.intro
    intro crc
    simp only [GptHeader.bytes, front, List.append_assoc]
    rfl
  have length : front.length = 16 := by simp [front, sized.signature]
  have zeroed : blanked header.checksummed.bytes = header.bytes := by
    have original : header.bytes = front ++ (leBytes 4 0 ++ behind) := by
      calc header.bytes = front ++ (leBytes 4 header.headerCrc32.toNat ++ behind) := parts header.headerCrc32
        _ = front ++ (leBytes 4 0 ++ behind) := by rw [blank]; rfl
    rw [GptHeader.checksummed, parts, original, blanked, List.take_left' length, List.drop_append, List.drop_of_length_le (by omega),
      length, List.drop_left' (length_leBytes 4 _)]
    rfl
  have loaded : loadHeader header.checksummed.bytes = header.checksummed :=
    loadHeader_bytes ⟨sized.signature, sized.diskGuid⟩
  rw [Intact, loaded, zeroed]
  rfl

/-- Both headers are intact on a disk `create_gpt_header` has written. -/
theorem createGptHeader_intact {totSectors : UInt64} (large : ¬ totSectors < 128) (disk : Fat32.Disk)
    (entries : List GptPartitionEntry) (stack : List UInt8) :
    ∃ after, createGptHeader disk totSectors entries stack = (true, after) ∧ Intact ((after.sector 1).take 92) ∧
      Intact ((after.sector (totSectors - 1).toNat).take 92) := by
  have bound : 128 ≤ totSectors.toNat := by simpa [UInt64.lt_iff_toNat_lt] using large
  have last : (totSectors - 1).toNat = totSectors.toNat - 1 := toNat_sub_one large
  refine ⟨_, if_neg large, ?_, ?_⟩
  · rw [Fat32.sector_write, if_neg (by omega), Fat32.sector_write, if_pos (by omega), Nat.sub_self,
      primaryHeader, GptHeader.take_sector (checksummed_sized _ _ _ _ _)]
    exact checksummed_intact ⟨rfl, rfl⟩ rfl
  · rw [Fat32.sector_write, if_pos (by omega), Nat.sub_self, backupHeader,
      GptHeader.take_sector (checksummed_sized _ _ _ _ _)]
    exact checksummed_intact ⟨rfl, rfl⟩ rfl

theorem missed_fits : ∀ mask ∈ missed, mask.1 + mask.2.length ≤ 92 := by decide

/-- A change of an intact header within four bytes goes unnoticed exactly if it is one of those listed. -/
theorem intact_burst_iff {image image' : List UInt8} {start : Nat} (burst : Burst image image' start 4)
    (full : image.length = 92) (intact : Intact image) :
    Intact image' ↔ ∃ mask ∈ missed, image' = disturb image mask.1 mask.2 := by
  have full' : image'.length = 92 := burst.same.symm.trans full
  have symbols : Burst (image.map UInt8.toNat) (image'.map UInt8.toNat) start 4 := burst.map fun _ _ => UInt8.toNat_inj.mp
  obtain ⟨change, nonzero, narrow, equal⟩ := symbols.packed_xor (byte_lt image) (byte_lt image')
  rw [← leNat_eq_packed, ← leNat_eq_packed] at equal
  have inside := burst.start_lt
  rw [intact_iff full full' intact]
  constructor
  · intro zero
    have member := mem_missed (by omega) narrow nonzero (equal ▸ zero)
    obtain ⟨mask, listed, same⟩ := List.mem_map.mp member
    have fits := missed_fits mask listed
    have length : (disturb image mask.1 mask.2).length = image.length := length_disturb (by omega)
    refine ⟨mask, listed, leNat_injective (by omega) ?_⟩
    rw [leNat_disturb (by omega), same, ← equal, Nat.xor_xor_cancel_left]
  · rintro ⟨mask, listed, rfl⟩
    have fits := missed_fits mask listed
    rw [leNat_disturb (by omega), Nat.xor_xor_cancel_left]
    exact syndrome_missed _ (List.mem_map_of_mem listed)

/-- Two byte strings of one length that differ, within four bytes, have different checksums. So a change of the entry
array within four bytes makes the stored checksum wrong, and a change of a header within four bytes does so unless it
is one of five, which take the end of the checksum field and the bytes behind it along. -/
theorem bursts_noticed :
    (∀ (data data' : List UInt8) (start : Nat), Burst data data' start 4 → crc32 data ≠ crc32 data') ∧
    (∀ (totSectors currentLba backupLba entriesLba : UInt64) (entries : List GptPartitionEntry) (array : List UInt8)
      (start : Nat), Burst (entriesBytes entries) array start 4 →
      (blankHeader totSectors currentLba backupLba entriesLba entries).checksummed.entriesCrc32 ≠ crc32 array) ∧
    (∀ (header : GptHeader), header.Sized → header.headerCrc32 = 0 → ∀ (image : List UInt8) (start : Nat),
      Burst header.checksummed.bytes image start 4 →
      (Intact image ↔ ∃ mask ∈ missed, image = disturb header.checksummed.bytes mask.1 mask.2)) := by
  refine ⟨fun data data' start burst => crc32_ne burst, ?_, ?_⟩
  · intro totSectors currentLba backupLba entriesLba entries array start burst
    exact crc32_ne burst
  · intro header sized blank image start burst
    have sized' : header.checksummed.Sized := ⟨sized.signature, sized.diskGuid⟩
    exact intact_burst_iff burst (GptHeader.length_bytes sized') (checksummed_intact sized blank)

/-- Strings of four bytes, an array of one cleared entry and the primary header of a disk of 1000 sectors. -/
theorem bursts_noticed_cleared :
    let entries := [loadEntry (List.replicate 128 0)]
    let header := (blankHeader 1000 1 999 2 entries).checksummed
    crc32 [1, 2, 3, 4] ≠ crc32 [1, 2, 3, 5] ∧ header.entriesCrc32 ≠ crc32 (disturb (entriesBytes entries) 8 [0, 1, 0, 0]) ∧
      (Intact (disturb header.bytes 4 [1, 2, 3, 4]) ↔
        ∃ mask ∈ missed, disturb header.bytes 4 [1, 2, 3, 4] = disturb header.bytes mask.1 mask.2) := by
  intro entries header
  obtain ⟨strings, arrays, headers⟩ := bursts_noticed
  have sized : (loadEntry (List.replicate 128 0)).Sized := loadEntry_sized (List.length_replicate ..)
  have length : (entriesBytes entries).length = 128 := by
    rw [entriesBytes, List.flatMap_cons, List.flatMap_nil, List.append_nil, GptPartitionEntry.length_bytes sized]
  refine ⟨strings _ _ 0 (@disturb_burst [1, 2, 3, 4] [0, 0, 0, 1] 0 (by decide) (by decide)), ?_, ?_⟩
  · apply arrays 1000 1 999 2 entries _ 8
    apply disturb_burst
    · rw [length]
      decide
    · decide
  · apply headers (blankHeader 1000 1 999 2 entries) ⟨rfl, rfl⟩ rfl _ 4
    apply disturb_burst
    · rw [GptHeader.length_bytes (checksummed_sized _ _ _ _ _)]
      decide
    · decide

/-- The last three bytes of the checksum field and the first reserved byte, changed alike. -/
theorem burst_unnoticed :
    let header := (primaryHeader 1000 (List.replicate 128 (loadEntry (List.replicate 128 0)))).bytes
    let image := disturb header 17 [0xC3, 0xC4, 0x5D, 0x68]
    Intact header ∧ Burst header image 17 4 ∧ Intact image := by
  intro header image
  have full : header.length = 92 := GptHeader.length_bytes (checksummed_sized _ _ _ _ _)
  have intact : Intact header := checksummed_intact ⟨rfl, rfl⟩ rfl
  have burst : Burst header image 17 4 := by
    apply disturb_burst
    · rw [full]
      decide
    · decide
  refine ⟨intact, burst, (intact_burst_iff burst full intact).mpr ⟨_, List.mem_cons_self, rfl⟩⟩

end KeblaOS.Partition
