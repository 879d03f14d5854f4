import Mathlib.Data.List.GetD
import KeblaOS.Stdio.Formatting
import KeblaOS.Fat32.File

/-!
# Formatted output to a file

`f_printf` formats into a buffer of 1024 bytes on its stack and writes as many bytes from there
as `vsnprintf` counted, which may be more than it stored.
-/

namespace KeblaOS.Fat32

open Stdio

/-- The size of `buffer`. -/
def printfBufferSize : Nat := 1024

/-- The stack from `buffer` on, behind a call of `vsnprintf`: its characters, the final zero, and
what was there before. -/
def stackAfter (stack : Nat → UInt8) (stored : List UInt8) (i : Nat) : UInt8 := (stored ++ [0]).getD i (stack i)

/-- The bytes that `f_printf` passes to `f_write`, unless it returns before that. -/
def printfBytes (stack : Nat → UInt8) (format : List UInt8) (args : List Arg) : Option (Option (List UInt8)) :=
  (vsnprintf printfBufferSize format args).map fun (stored, len) =>
    if len < 0 then none else some ((List.range len.toInt.toNat).map (stackAfter stack stored))

/-- `f_printf`: its result, and the handle and volume afterwards. -/
def fPrintf (vol : Volume) (fp : Fat32File) (stack : Nat → UInt8) (format : List UInt8) (args : List Arg) :
    Option (Int × Fat32File × Volume) :=
  match printfBytes stack format args with
  | none => none
  | some none => some (-1, fp, vol)
  | some (some buff) =>
      (fWrite vol fp buff).map fun result =>
        (if result.ok ∧ result.bw = buff.length then (buff.length : Int) else -1, result.fp, result.vol)

/-- The call passes to `f_write` only characters that `vsnprintf` stored. -/
def PassesStored (format : List UInt8) (args : List Arg) : Prop :=
  ∀ stack stored len buff, vsnprintf printfBufferSize format args = some (stored, len) →
    printfBytes stack format args = some (some buff) → buff.length ≤ stored.length ∧ buff <+: stored

/-- The length of the text fits the buffer with its final zero, or it is a negative `int`. -/
def LengthFits (length : Nat) : Prop := length % 4294967296 < printfBufferSize ∨ 2147483648 ≤ length % 4294967296

/-- Bytes of the buffer up to the number of characters stored are those characters. -/
theorem map_stackAfter_of_le {stack : Nat → UInt8} {stored : List UInt8} {count : Nat} (within : count ≤ stored.length) :
    (List.range count).map (stackAfter stack stored) = stored.take count := by
  apply List.ext_getElem
  · rw [List.length_map, List.length_range, List.length_take, Nat.min_eq_left within]
  · intro i inside inside'
    rw [List.length_map, List.length_range] at inside
    rw [List.getElem_map, List.getElem_range, List.getElem_take, stackAfter,
      List.getD_append _ _ _ _ (Nat.lt_of_lt_of_le inside within), List.getD_eq_getElem]

/-- An `int` that counts a length. -/
theorem toInt_ofNat_cases (length : Nat) :
    (Int32.ofNat length < 0 ∧ 2147483648 ≤ length % 4294967296) ∨
      (¬ Int32.ofNat length < 0 ∧ (Int32.ofNat length).toInt.toNat = length % 4294967296 ∧
        length % 4294967296 < 2147483648) := by
  have value : (Int32.ofNat length).toInt = (length : Int).bmod 4294967296 := Int32.toInt_ofNat'
  rw [Int32.lt_iff_toInt_lt, value, Int.bmod_def]
  have zero : (0 : Int32).toInt = 0 := rfl
  rw [zero]
  split_ifs <;> omega

/-- A call passes stored characters only exactly when the length of its text fits. -/
theorem fPrintf_passes_stored_iff (format : List UInt8) (args : List Arg) :
    PassesStored format args ↔ ∀ text, formatted format args = some text → LengthFits text.length := by
  unfold PassesStored LengthFits
  simp only [printfBytes, vsnprintf_eq]
  cases formatted format args with
  | none => simp
  | some text =>
      have stored : (text.take (printfBufferSize - 1)).length = min 1023 text.length := List.length_take
      constructor
      · intro passes text' same
        obtain rfl := Option.some.inj same
        rcases toInt_ofNat_cases text.length with ⟨_, negative⟩ | ⟨positive, value, _⟩
        · exact .inr negative
        · left
          obtain ⟨short, _⟩ := passes (fun _ => 0) _ _ _ rfl (by rw [Option.map_some, Option.map_some, if_neg positive])
          rw [List.length_map, List.length_range, value, stored] at short
          show _ < 1024
          omega
      · rintro fits stack taken len buff returned passed
        obtain ⟨rfl, rfl⟩ := Prod.mk.inj (Option.some.inj returned)
        rw [Option.map_some, Option.map_some] at passed
        rcases toInt_ofNat_cases text.length with ⟨negative, _⟩ | ⟨positive, value, small⟩
        · rw [if_pos negative] at passed
          simp at passed
        · rw [if_neg positive, value] at passed
          obtain rfl := Option.some.inj (Option.some.inj passed)
          have within : text.length % 4294967296 ≤ (text.take (printfBufferSize - 1)).length := by
            have short : text.length % 4294967296 < 1024 := (fits text rfl).resolve_right (by omega)
            have less := Nat.mod_le text.length 4294967296
            omega
          rw [map_stackAfter_of_le within]
          exact ⟨(List.length_take_le _ _).trans within, List.take_prefix _ _⟩

theorem formatted_string (chars : List UInt8) : formatted [percent, 0x73] [.string (some chars)] = some chars := by
  rw [formatted_percent _ (rfl : conversionOf [0x73] = some (.string, []))]
  simp [conversionText]

/-- `f_printf(fp, "%s", s)` with a string of 1024 characters: 1023 of them are stored, and 1024
bytes are written. -/
theorem fPrintf_writes_unstored :
    let args := [Arg.string (some (List.replicate 1024 0x41))]
    (∃ stored len, vsnprintf printfBufferSize [percent, 0x73] args = some (stored, len) ∧ stored.length = 1023) ∧
      (∀ stack, ∃ buff, printfBytes stack [percent, 0x73] args = some (some buff) ∧ buff.length = 1024) ∧
      ¬ PassesStored [percent, 0x73] args := by
  intro args
  have text : formatted [percent, 0x73] args = some (List.replicate 1024 0x41) := formatted_string _
  have returned : vsnprintf printfBufferSize [percent, 0x73] args =
      some (List.replicate 1023 0x41, Int32.ofNat 1024) := by
    rw [vsnprintf_eq, text, Option.map_some, List.take_replicate, List.length_replicate]
    rfl
  have passed : ∀ stack, ∃ buff, printfBytes stack [percent, 0x73] args = some (some buff) ∧ buff.length = 1024 := by
    intro stack
    rw [printfBytes, returned, Option.map_some]
    dsimp only
    rw [if_neg (by decide)]
    refine ⟨_, rfl, ?_⟩
    rw [List.length_map, List.length_range]
    decide
  refine ⟨⟨_, _, returned, List.length_replicate⟩, passed, fun passes => ?_⟩
  obtain ⟨buff, handed, length⟩ := passed fun _ => 0
  have short := (passes _ _ _ _ returned handed).1
  rw [length, List.length_replicate] at short
  exact absurd short (by decide)

end KeblaOS.Fat32
