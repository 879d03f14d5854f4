import Mathlib.Data.List.Basic
import KeblaOS.Lib.FormatItems

/-!
# Formatted output into a buffer

`vsnprintf` of `stdio.c` knows the conversions `d`, `u`, `c`, `s` and the longer forms `ld`,
`lu`, `lld` and `llu`. Characters for which the buffer has no room are dropped, but the result
counts them all, in an `int` that wraps. The text of a call is what an unbounded buffer would
get.
-/

namespace KeblaOS.Stdio

/-- `'%'`. -/
def percent : UInt8 := 0x25

/-- `'-'`. -/
def minus : UInt8 := 0x2D

/-- An argument in the `va_list`: an eight-byte slot with a number, or a string that may be
`NULL`. -/
inductive Arg where
  | number (bits : BitVec 64)
  | string (chars : Option (List UInt8))
deriving DecidableEq

/-- The variables of a call: the characters in front of `out`, `remaining` and `total`. -/
structure Output where
  stored : List UInt8
  remaining : Nat
  total : Int32
deriving DecidableEq

/-- `sprint_char_limit`: one place is left for the final zero. -/
def sprintCharLimit (out : Output) (c : UInt8) : Output :=
  if 1 < out.remaining then { out with stored := out.stored ++ [c], remaining := out.remaining - 1 } else out

/-- `sprint_str_limit`. -/
def sprintStrLimit : Output → List UInt8 → Output
  | out, [] => out
  | out, c :: chars =>
      if 1 < out.remaining then
        sprintStrLimit { out with stored := out.stored ++ [c], remaining := out.remaining - 1 } chars
      else out

/-- The loop that fills `tmp`, which has room for 32 digits. -/
def tmpDigits : Nat → Int → List UInt8
  | 0, _ => []
  | room + 1, val =>
      UInt8.ofNat (0x30 + val.tmod 10).toNat :: if 0 < val.tdiv 10 then tmpDigits room (val.tdiv 10) else []

/-- The digits of a number are counted and then printed from the last one stored on. -/
def printDigits (out : Output) (val : Int) : Output :=
  let tmp := tmpDigits 32 val
  tmp.reverse.foldl sprintCharLimit { out with total := out.total + Int32.ofNat tmp.length }

/-- The conversions to a signed number. The negative of the least number is that number. -/
def printSigned {width : Nat} (out : Output) (val : BitVec width) : Output :=
  if val.toInt < 0 then
    printDigits (sprintCharLimit { out with total := out.total + 1 } minus) (-val).toInt
  else printDigits out val.toInt

/-- The conversions to an unsigned number. -/
def printUnsigned {width : Nat} (out : Output) (val : BitVec width) : Output := printDigits out val.toNat

/-- An ordinary character. -/
def printChar (out : Output) (c : UInt8) : Output := sprintCharLimit { out with total := out.total + 1 } c

/-- `%s`. -/
def printString (out : Output) (chars : Option (List UInt8)) : Output :=
  let s := chars.getD [0x28, 0x6E, 0x75, 0x6C, 0x6C, 0x29]
  sprintStrLimit { out with total := out.total + Int32.ofNat s.length } s

/-- A conversion: the number of bits of a number and whether it is signed, a character, a string,
or a character that is no conversion. -/
inductive Conversion where
  | signed (width : Nat)
  | unsigned (width : Nat)
  | char
  | string
  | unknown (c : UInt8)
  | nothing

/-- The conversion behind a percent sign and the format behind it. At the end of the format the
loop would go on behind it. -/
def conversionOf : List UInt8 → Option (Conversion × List UInt8)
  | [] => none
  | 0x6C :: [] => none
  | 0x6C :: 0x6C :: [] => none
  | 0x6C :: 0x6C :: 0x64 :: rest => some (.signed 64, rest)
  | 0x6C :: 0x6C :: 0x75 :: rest => some (.unsigned 64, rest)
  | 0x6C :: 0x6C :: _ :: rest => some (.nothing, rest)
  | 0x6C :: 0x64 :: rest => some (.signed 64, rest)
  | 0x6C :: 0x75 :: rest => some (.unsigned 64, rest)
  | 0x6C :: _ :: rest => some (.nothing, rest)
  | 0x64 :: rest => some (.signed 32, rest)
  | 0x75 :: rest => some (.unsigned 32, rest)
  | 0x63 :: rest => some (.char, rest)
  | 0x73 :: rest => some (.string, rest)
  | c :: rest => some (.unknown c, rest)

/-- What a conversion prints, with the arguments that are left. -/
def printConversion (out : Output) : Conversion → List Arg → Option (Output × List Arg)
  | .signed width, .number bits :: args => some (printSigned out (bits.setWidth width), args)
  | .unsigned width, .number bits :: args => some (printUnsigned out (bits.setWidth width), args)
  | .char, .number bits :: args => some (printChar out (UInt8.ofBitVec (bits.setWidth 8)), args)
  | .string, .string chars :: args => some (printString out chars, args)
  | .unknown c, args => some (sprintCharLimit (sprintCharLimit { out with total := out.total + 2 } percent) c, args)
  | .nothing, args => some (out, args)
  | _, _ => none

theorem length_conversionOf {format rest : List UInt8} {conversion : Conversion}
    (read : conversionOf format = some (conversion, rest)) : rest.length < format.length := by
  unfold conversionOf at read
  split at read <;> simp_all <;> omega

/-- The loop of `vsnprintf` over the format, which has no zero byte. An argument that is missing
or of another kind, and a conversion that is cut off, have no result. -/
def formatLoop (format : List UInt8) (args : List Arg) (out : Output) : Option Output :=
  match format with
  | [] => some out
  | c :: rest =>
      if c = percent then
        match _read : conversionOf rest with
        | none => none
        | some (conversion, behind) =>
            match printConversion out conversion args with
            | none => none
            | some (out, args) => formatLoop behind args out
      else formatLoop rest args (printChar out c)
termination_by format.length
decreasing_by
  · have shorter := length_conversionOf _read
    simp only [List.length_cons]
    omega
  · simp

/-- `vsnprintf`: the characters in the buffer in front of the final zero, and the result. -/
def vsnprintf (size : Nat) (format : List UInt8) (args : List Arg) : Option (List UInt8 × Int32) :=
  (formatLoop format args ⟨[], size, 0⟩).map fun out => (out.stored, out.total)

/-! ## The text of a call -/

/-- The digits of a number in reading order. -/
def digitsText (val : Int) : List UInt8 := (tmpDigits 32 val).reverse

/-- The text of a conversion, with the arguments that are left. -/
def conversionText : Conversion → List Arg → Option (List UInt8 × List Arg)
  | .signed width, .number bits :: args =>
      let val := bits.setWidth width
      some (if val.toInt < 0 then minus :: digitsText (-val).toInt else digitsText val.toInt, args)
  | .unsigned width, .number bits :: args => some (digitsText (bits.setWidth width).toNat, args)
  | .char, .number bits :: args => some ([UInt8.ofBitVec (bits.setWidth 8)], args)
  | .string, .string chars :: args => some (chars.getD [0x28, 0x6E, 0x75, 0x6C, 0x6C, 0x29], args)
  | .unknown c, args => some ([percent, c], args)
  | .nothing, args => some ([], args)
  | _, _ => none

/-- The text of a format with its arguments. -/
def formatted (format : List UInt8) (args : List Arg) : Option (List UInt8) :=
  match format with
  | [] => some []
  | c :: rest =>
      if c = percent then
        match _read : conversionOf rest with
        | none => none
        | some (conversion, behind) =>
            match conversionText conversion args with
            | none => none
            | some (text, args) => (formatted behind args).map (text ++ ·)
      else (formatted rest args).map (c :: ·)
termination_by format.length
decreasing_by
  · have shorter := length_conversionOf _read
    simp only [List.length_cons]
    omega
  · simp

@[simp] theorem formatted_nil (args : List Arg) : formatted [] args = some [] := by rw [formatted]

/-- The text of a conversion in front of the text behind it. -/
theorem formatted_percent {rest behind : List UInt8} {conversion : Conversion} (args : List Arg)
    (read : conversionOf rest = some (conversion, behind)) :
    formatted (percent :: rest) args =
      (conversionText conversion args).bind fun (text, args) => (formatted behind args).map (text ++ ·) := by
  rw [formatted, if_pos rfl]
  split
  · rename_i missing
    rw [read] at missing
    simp at missing
  · rename_i conversion' behind' read'
    obtain ⟨rfl, rfl⟩ : conversion' = conversion ∧ behind' = behind := by simpa using read'.symm.trans read
    cases conversionText conversion' args <;> rfl

/-- The reader of the conversions. -/
def conversionReader : DirectiveReader UInt8 Conversion where
  read := conversionOf
  shorter := length_conversionOf

/-- The text of a format is that of a printer of conversions. -/
theorem formatted_eq (format : List UInt8) (args : List Arg) :
    formatted format args = conversionReader.printFormat percent conversionText format args := by
  induction format using conversionReader.format_induction percent generalizing args with
  | nil => rw [formatted_nil, DirectiveReader.printFormat_nil]
  | literal c rest literal ih =>
      rw [formatted, if_neg literal, conversionReader.printFormat_literal percent _ literal, ih]
  | unreadable rest read =>
      rw [conversionReader.printFormat_marker, read, formatted, if_pos rfl]
      split
      · rfl
      · rename_i conversion behind found
        exact absurd (found.symm.trans read) (by simp)
  | directive rest conversion behind read ih =>
      rw [conversionReader.printFormat_marker, read, formatted_percent args read]
      simp only [ih]
      rfl

/-- All characters of a text are counted, and those stored for which there is room. -/
def Output.emit (out : Output) (text : List UInt8) : Output where
  stored := out.stored ++ text.take (out.remaining - 1)
  remaining := out.remaining - min text.length (out.remaining - 1)
  total := out.total + Int32.ofNat text.length

namespace Output

variable {out : Output} {first second chars : List UInt8}

@[simp] theorem emit_nil (out : Output) : out.emit [] = out := by
  cases out
  simp [emit]

/-- Texts one behind the other. -/
theorem emit_append (out : Output) (first second : List UInt8) :
    out.emit (first ++ second) = (out.emit first).emit second := by
  simp only [emit, mk.injEq]
  refine ⟨?_, ?_, ?_⟩
  · rw [List.take_append, List.append_assoc]
    congr 3
    omega
  · rw [List.length_append]
    omega
  · rw [List.length_append, Int32.ofNat_add, Int32.add_assoc]

/-- A character that was counted before. -/
theorem sprintCharLimit_eq (out : Output) (c : UInt8) :
    sprintCharLimit out c = { out.emit [c] with total := out.total } := by
  unfold sprintCharLimit emit
  split_ifs with room
  · rw [List.take_of_length_le (by simp; omega), Nat.min_eq_left (by simp; omega)]
    rfl
  · rw [show out.remaining - 1 = 0 by omega, List.take_zero, List.append_nil, Nat.min_zero, Nat.sub_zero]

/-- Characters that were counted before. -/
theorem foldl_sprintCharLimit (out : Output) (chars : List UInt8) :
    chars.foldl sprintCharLimit out = { out.emit chars with total := out.total } := by
  induction chars generalizing out with
  | nil => rw [List.foldl_nil, emit_nil]
  | cons c chars ih =>
      have split : out.emit (c :: chars) = (out.emit [c]).emit chars := emit_append out [c] chars
      rw [List.foldl_cons, ih, sprintCharLimit_eq, split]
      rfl

/-- Both helpers stop at the same place. -/
theorem sprintStrLimit_eq (out : Output) (chars : List UInt8) :
    sprintStrLimit out chars = chars.foldl sprintCharLimit out := by
  induction chars generalizing out with
  | nil => rfl
  | cons c chars ih =>
      rw [sprintStrLimit, List.foldl_cons, sprintCharLimit]
      split_ifs with room
      · exact ih _
      · have full : ∀ chars : List UInt8, chars.foldl sprintCharLimit out = out := by
          intro chars
          induction chars with
          | nil => rfl
          | cons c chars ih => rw [List.foldl_cons, sprintCharLimit, if_neg room, ih]
        rw [full]

/-- Printing what was just counted. -/
theorem foldl_counted (out : Output) (chars : List UInt8) :
    chars.foldl sprintCharLimit { out with total := out.total + Int32.ofNat chars.length } = out.emit chars := by
  rw [foldl_sprintCharLimit]
  rfl

end Output

open Output

theorem printChar_eq (out : Output) (c : UInt8) : printChar out c = out.emit [c] := foldl_counted out [c]

theorem printDigits_eq (out : Output) (val : Int) : printDigits out val = out.emit (digitsText val) := by
  rw [← foldl_counted, digitsText, List.length_reverse]
  rfl

theorem printString_eq (out : Output) (chars : Option (List UInt8)) :
    printString out chars = out.emit (chars.getD [0x28, 0x6E, 0x75, 0x6C, 0x6C, 0x29]) := by
  rw [← foldl_counted, printString, sprintStrLimit_eq]

/-- A conversion prints its text. -/
theorem printConversion_eq (out : Output) (conversion : Conversion) (args : List Arg) :
    printConversion out conversion args =
      (conversionText conversion args).map fun (text, args) => (out.emit text, args) := by
  cases conversion with
  | signed width =>
      rcases args with _ | ⟨bits | chars, args⟩
      · rfl
      · dsimp only [printConversion, conversionText]
        rw [Option.map_some, printSigned]
        split_ifs with negative
        · have sign : sprintCharLimit { out with total := out.total + 1 } minus = out.emit [minus] :=
            foldl_counted out [minus]
          rw [sign, printDigits_eq, ← emit_append, List.singleton_append]
        · rw [printDigits_eq]
      · rfl
  | unsigned width =>
      rcases args with _ | ⟨bits | chars, args⟩
      · rfl
      · dsimp only [printConversion, conversionText]
        rw [Option.map_some, printUnsigned, printDigits_eq]
      · rfl
  | char =>
      rcases args with _ | ⟨bits | chars, args⟩
      · rfl
      · dsimp only [printConversion, conversionText]
        rw [Option.map_some, printChar_eq]
      · rfl
  | string =>
      rcases args with _ | ⟨bits | chars, args⟩
      · rfl
      · rfl
      · dsimp only [printConversion, conversionText]
        rw [Option.map_some, printString_eq]
  | unknown c =>
      have both : sprintCharLimit (sprintCharLimit { out with total := out.total + 2 } percent) c =
          out.emit [percent, c] := foldl_counted out [percent, c]
      dsimp only [printConversion, conversionText]
      rw [Option.map_some, both]
  | nothing =>
      dsimp only [printConversion, conversionText]
      rw [Option.map_some, emit_nil]

/-- The loop prints the text of the format. -/
theorem formatLoop_eq (format : List UInt8) (args : List Arg) (out : Output) :
    formatLoop format args out = (formatted format args).map out.emit := by
  induction length : format.length using Nat.strongRecOn generalizing format args out with
  | _ count ih =>
      cases format with
      | nil => rw [formatLoop, formatted, Option.map_some, emit_nil]
      | cons c rest =>
          rw [formatLoop, formatted]
          by_cases isPercent : c = percent
          · rw [if_pos isPercent, if_pos isPercent]
            split
            · rfl
            · rename_i conversion behind read
              have shorter := length_conversionOf read
              rw [printConversion_eq]
              cases conversionText conversion args with
              | none => rfl
              | some printed =>
                  rw [List.length_cons] at length
                  dsimp only [Option.map_some]
                  rw [ih _ (by omega) behind printed.2 _ rfl, Option.map_map]
                  congr 1
                  funext text
                  exact (emit_append out printed.1 text).symm
          · rw [if_neg isPercent, if_neg isPercent, ih _ (by simp [← length]) rest args _ rfl, printChar_eq,
              Option.map_map]
            congr 1
            funext text
            exact (emit_append out [c] text).symm

/-- `vsnprintf` stores the beginning of the text and returns its length. -/
theorem vsnprintf_eq (size : Nat) (format : List UInt8) (args : List Arg) :
    vsnprintf size format args =
      (formatted format args).map fun text => (text.take (size - 1), Int32.ofNat text.length) := by
  rw [vsnprintf, formatLoop_eq, Option.map_map]
  congr 1
  funext text
  simp [emit]

end KeblaOS.Stdio
