import Mathlib.Algebra.Ring.Int.Defs
import Mathlib.Algebra.BigOperators.Group.List.Basic
import KeblaOS.Lib.FormatItems
import KeblaOS.Stdio.Formatting

/-!
# Three printers of one format

`vprintf` prints on the screen, `vsprintf` into a buffer, and `vsnprintf` into a buffer of a given
size. Each goes through the format by itself. `vprintf` alone reads a zero flag and a width, and
`vsnprintf` alone has no hexadecimal, binary, floating-point and pointer numbers. They print the
same text of a format without flags and widths just when it has only the specifiers that they
share, with arguments on which their digit loops agree.
-/

namespace KeblaOS.Stdio

/-- `'l'`. -/
def letterL : UInt8 := 0x6C

/-- What the printers make of a `double`: its sign, its integer part, and six digits of its
fraction. -/
structure RealArg where
  negative : Bool
  intPart : BitVec 64
  fraction : Fin 6 → Fin 10

/-- A `va_list`: the general arguments, and the floating-point arguments behind each other. -/
structure VaList where
  general : List Arg
  reals : List RealArg

namespace VaList

/-- `va_arg` for a number or a pointer that is not followed. -/
def number : VaList → Option (BitVec 64 × VaList)
  | ⟨.number bits :: general, reals⟩ => some (bits, ⟨general, reals⟩)
  | _ => none

/-- A number argument is printed. -/
def printNumber (args : VaList) (text : BitVec 64 → List UInt8) : Option (List UInt8 × VaList) :=
  args.number.map fun (bits, args) => (text bits, args)

/-- `va_arg` for a string that is read at once: `NULL` cannot be read. -/
def string : VaList → Option (List UInt8 × VaList)
  | ⟨.string (some chars) :: general, reals⟩ => some (chars, ⟨general, reals⟩)
  | _ => none

/-- `va_arg` for a `double`. -/
def real : VaList → Option (RealArg × VaList)
  | ⟨general, num :: reals⟩ => some (num, ⟨general, reals⟩)
  | _ => none

end VaList

/-! ## Specifiers -/

/-- An `int`, or a `long` or `long long`. -/
inductive NumberSize where
  | int
  | long
deriving DecidableEq

/-- The width of a number. -/
def NumberSize.bits : NumberSize → Nat
  | .int => 32
  | .long => 64

/-- A specifier: a signed or unsigned number, a character, a string, a number in another form, or
a character that is none, alone or behind one or two letters `l`. -/
inductive Specifier where
  | signed (size : NumberSize)
  | unsigned (size : NumberSize)
  | char
  | string
  | hex (uppercase : Bool)
  | binary
  | float
  | pointer
  | unknown (c : UInt8)
  | unknownLong (c : UInt8)
  | unknownLongLong (c : UInt8)
deriving DecidableEq

/-- The specifier behind a percent sign and the format behind it. At the end of the format the
loop would go on behind it. -/
def specifierOf : List UInt8 → Option (Specifier × List UInt8)
  | [] => none
  | 0x6C :: [] => none
  | 0x6C :: 0x6C :: [] => none
  | 0x6C :: 0x6C :: 0x64 :: rest => some (.signed .long, rest)
  | 0x6C :: 0x6C :: 0x75 :: rest => some (.unsigned .long, rest)
  | 0x6C :: 0x6C :: c :: rest => some (.unknownLongLong c, rest)
  | 0x6C :: 0x64 :: rest => some (.signed .long, rest)
  | 0x6C :: 0x75 :: rest => some (.unsigned .long, rest)
  | 0x6C :: c :: rest => some (.unknownLong c, rest)
  | 0x64 :: rest => some (.signed .int, rest)
  | 0x75 :: rest => some (.unsigned .int, rest)
  | 0x63 :: rest => some (.char, rest)
  | 0x73 :: rest => some (.string, rest)
  | 0x78 :: rest => some (.hex false, rest)
  | 0x58 :: rest => some (.hex true, rest)
  | 0x62 :: rest => some (.binary, rest)
  | 0x66 :: rest => some (.float, rest)
  | 0x70 :: rest => some (.pointer, rest)
  | c :: rest => some (.unknown c, rest)

theorem length_specifierOf {format rest : List UInt8} {specifier : Specifier}
    (read : specifierOf format = some (specifier, rest)) : rest.length < format.length := by
  unfold specifierOf at read
  split at read <;> simp_all <;> omega

/-- A digit `'0'` to `'9'`. -/
def IsDigit (c : UInt8) : Prop := 0x30 ≤ c ∧ c ≤ 0x39

instance (c : UInt8) : Decidable (IsDigit c) := inferInstanceAs (Decidable (_ ∧ _))

/-- The flag and the width in front of a specifier. -/
structure Padding where
  zeroPad : Bool
  width : Int32

/-- Without flag and width. -/
def Padding.none : Padding := ⟨false, 0⟩

/-- The loop over the digits of a width, which is an `int` that wraps. -/
def widthOf (width : Int32) : List UInt8 → Int32 × List UInt8
  | [] => (width, [])
  | c :: rest =>
      if IsDigit c then widthOf (width * 10 + Int32.ofNat (c.toNat - 0x30)) rest else (width, c :: rest)

theorem length_widthOf_le (width : Int32) (format : List UInt8) : (widthOf width format).2.length ≤ format.length := by
  induction format generalizing width with
  | nil => exact Nat.le_refl 0
  | cons c rest ih =>
      rw [widthOf]
      split_ifs
      · exact Nat.le_succ_of_le (ih _)
      · exact Nat.le_refl _

/-- The zero flag. -/
def zeroFlagOf : List UInt8 → Bool × List UInt8
  | 0x30 :: rest => (true, rest)
  | format => (false, format)

theorem length_zeroFlagOf_le (format : List UInt8) : (zeroFlagOf format).2.length ≤ format.length := by
  unfold zeroFlagOf
  split
  · exact Nat.le_succ _
  · exact Nat.le_refl _

/-- What `vprintf` reads behind a percent sign: flag, width and specifier. -/
def paddedSpecifierOf (format : List UInt8) : Option ((Padding × Specifier) × List UInt8) :=
  let flag := zeroFlagOf format
  let width := widthOf 0 flag.2
  (specifierOf width.2).map fun (specifier, rest) => ((⟨flag.1, width.1⟩, specifier), rest)

theorem length_paddedSpecifierOf {format rest : List UInt8} {padded : Padding × Specifier}
    (read : paddedSpecifierOf format = some (padded, rest)) : rest.length < format.length := by
  obtain ⟨⟨specifier, behind⟩, found, equal⟩ := Option.map_eq_some_iff.mp read
  obtain ⟨rfl, rfl⟩ := Prod.mk.inj equal
  have behindWidth := length_specifierOf found
  have width := length_widthOf_le 0 (zeroFlagOf format).2
  have flag := length_zeroFlagOf_le format
  omega

/-- A digit is no specifier. -/
theorem specifierOf_of_isDigit {c : UInt8} (digit : IsDigit c) (rest : List UInt8) :
    specifierOf (c :: rest) = some (.unknown c, rest) := by
  unfold specifierOf
  split <;> rename_i equal <;> simp only [List.cons.injEq, reduceCtorEq] at equal
  case h_19 => rw [equal.1, equal.2]
  all_goals
    rw [equal.1] at digit
    exact absurd digit (by decide)

/-- Without a digit in front of the specifier there is no flag and no width. -/
theorem paddedSpecifierOf_eq {format rest : List UInt8} {specifier : Specifier}
    (read : specifierOf format = some (specifier, rest)) (plain : ∀ c, specifier = .unknown c → ¬ IsDigit c) :
    paddedSpecifierOf format = some ((.none, specifier), rest) := by
  cases format with
  | nil => cases read
  | cons c behind =>
      have noDigit : ¬ IsDigit c := by
        intro digit
        rw [specifierOf_of_isDigit digit] at read
        exact plain c (Prod.mk.inj (Option.some.inj read)).1.symm digit
      have flag : zeroFlagOf (c :: behind) = (false, c :: behind) := by
        unfold zeroFlagOf
        split <;> rename_i equal
        · rw [(List.cons.inj equal).1] at noDigit
          exact absurd (by decide) noDigit
        · rfl
      have width : widthOf 0 (c :: behind) = (0, c :: behind) := if_neg noDigit
      rw [paddedSpecifierOf, flag, width, read]
      rfl

/-- The reader of `vsprintf` and `vsnprintf`. -/
def specifierReader : DirectiveReader UInt8 Specifier where
  read := specifierOf
  shorter := length_specifierOf

/-- The reader of `vprintf`. -/
def paddedReader : DirectiveReader UInt8 (Padding × Specifier) where
  read := paddedSpecifierOf
  shorter := length_paddedSpecifierOf

/-! ## `vprintf` -/

/-- The loop of `print_udec` that fills `buf`, which has room for 32 digits. -/
def udecDigits : Nat → Nat → List UInt8
  | 0, _ => []
  | room + 1, value => if 0 < value then UInt8.ofNat (0x30 + value % 10) :: udecDigits room (value / 10) else []

/-- `print_udec`. -/
def printUdec (value : BitVec 64) : List UInt8 :=
  if value = 0 then [0x30] else (udecDigits 32 value.toNat).reverse

/-- `print_dec`. The negative of the least number is printed without its sign. -/
def printDec (value : BitVec 64) : List UInt8 :=
  if value.toInt < 0 then minus :: printUdec (-value) else printUdec value

/-- The digits of a fraction. -/
def fractionText (num : RealArg) : List UInt8 := List.ofFn fun i => UInt8.ofNat (0x30 + num.fraction i)

/-- `print_float` with six digits behind the point. -/
def printFloat (num : RealArg) : List UInt8 :=
  (if num.negative then [minus] else []) ++ printDec num.intPart ++ [0x2E] ++ fractionText num

/-- The loop of `print_bin` over the bits below `i`. -/
def printBinFrom (value : BitVec 64) : Nat → Bool → List UInt8
  | 0, _ => []
  | i + 1, started =>
      let bit := value.getLsbD i
      if started || bit then (if bit then 0x31 else 0x30) :: printBinFrom value i true
      else printBinFrom value i false

/-- `print_bin`. -/
def printBin (value : BitVec 64) : List UInt8 := if value = 0 then [0x30] else printBinFrom value 64 false

/-- A character of `hex_chars`. -/
def hexChar (uppercase : Bool) (nibble : Nat) : UInt8 :=
  UInt8.ofNat (if nibble < 10 then 0x30 + nibble else (if uppercase then 0x41 else 0x61) + (nibble - 10))

/-- The loop of `print_hex` over the nibbles below `i`. -/
def printHexFrom (n : Nat) : Nat → Bool → List UInt8
  | 0, _ => []
  | i + 1, leadingZero =>
      let digit := hexChar true (n / 16 ^ i % 16)
      if digit ≠ 0x30 ∨ leadingZero = false ∨ i = 0 then digit :: printHexFrom n i false
      else printHexFrom n i leadingZero

/-- `print_hex`. -/
def printHex (n : BitVec 64) : List UInt8 := 0x30 :: 0x78 :: printHexFrom n.toNat 16 true

/-- The loop that fills a buffer with hexadecimal digits, as far as there is room. -/
def hexDigits (uppercase : Bool) : Nat → Nat → List UInt8
  | 0, _ => []
  | room + 1, value =>
      hexChar uppercase (value % 16) :: if 0 < value / 16 then hexDigits uppercase room (value / 16) else []

/-- `print_hex_padded`. The zeros of a width above 32 would be written behind `buf`. -/
def printHexPadded (value : BitVec 64) (width : Int32) (uppercase : Bool) : Option (List UInt8) :=
  let digits := hexDigits uppercase 32 value.toNat
  if 32 < width then none
  else some (digits ++ List.replicate (width.toInt.toNat - digits.length) 0x30).reverse

/-- A number argument as `va_arg` converts it: an `int` is extended with its sign. -/
def signedArg (size : NumberSize) (bits : BitVec 64) : BitVec 64 := (bits.setWidth size.bits).signExtend 64

/-- An `unsigned int` is extended with zeros. -/
def unsignedArg (size : NumberSize) (bits : BitVec 64) : BitVec 64 := (bits.setWidth size.bits).setWidth 64

/-- A character argument. -/
def charArg (bits : BitVec 64) : UInt8 := UInt8.ofBitVec (bits.setWidth 8)

/-- What `vprintf` prints for a specifier, with the arguments that are left. A percent sign is
found before the other specifiers. -/
def vprintfSpecifier : Padding × Specifier → VaList → Option (List UInt8 × VaList)
  | (_, .signed size), args => args.printNumber fun bits => printDec (signedArg size bits)
  | (_, .unsigned size), args => args.printNumber fun bits => printUdec (unsignedArg size bits)
  | (_, .char), args => args.printNumber fun bits => [charArg bits]
  | (_, .string), args => args.string
  | (padding, .hex uppercase), args =>
      args.number.bind fun (bits, args) =>
        if 0 < padding.width ∧ padding.zeroPad then
          (printHexPadded (unsignedArg .int bits) padding.width uppercase).map (·, args)
        else some (printHex (unsignedArg .int bits), args)
  | (_, .binary), args => args.printNumber fun bits => printBin (unsignedArg .int bits)
  | (_, .float), args => args.real.map fun (num, args) => (printFloat num, args)
  | (_, .pointer), args => args.printNumber fun bits => printHex bits
  | (_, .unknown c), args => some (if c = percent then [percent] else [percent, c], args)
  | (_, .unknownLong c), args => some ([percent, letterL, c], args)
  | (_, .unknownLongLong c), args => some ([percent, letterL, letterL, c], args)

/-- `vprintf`: the characters that it gives to `putchar`. -/
def vprintf (format : List UInt8) (args : VaList) : Option (List UInt8) :=
  paddedReader.printFormat percent vprintfSpecifier format args

/-! ## `vsprintf` -/

/-- The loop of `vsprintf` that fills `bin_buf`. -/
def binDigits : Nat → Nat → List UInt8
  | 0, _ => []
  | room + 1, value =>
      if 0 < value then (if value % 2 = 1 then 0x31 else 0x30) :: binDigits room (value / 2) else []

/-- The signed numbers of `vsprintf`. The negative of the least number is that number. -/
def storeSigned {width : Nat} (value : BitVec width) : List UInt8 :=
  if value.toInt < 0 then minus :: digitsText (-value).toInt else digitsText value.toInt

/-- `%b` of `vsprintf`. -/
def storeBinary (value : Nat) : List UInt8 := if value = 0 then [0x30] else (binDigits 65 value).reverse

/-- `%f` of `vsprintf`. -/
def storeFloat (num : RealArg) : List UInt8 :=
  (if num.negative then [minus] else []) ++
    (if num.intPart = 0 then [0x30] else (udecDigits 32 num.intPart.toNat).reverse) ++ [0x2E] ++ fractionText num

/-- What `vsprintf` stores for a specifier, with the arguments that are left. -/
def vsprintfSpecifier : Specifier → VaList → Option (List UInt8 × VaList)
  | .signed size, args => args.printNumber fun bits => storeSigned (bits.setWidth size.bits)
  | .unsigned size, args => args.printNumber fun bits => digitsText (bits.setWidth size.bits).toNat
  | .char, args => args.printNumber fun bits => [charArg bits]
  | .string, args => args.string
  | .hex uppercase, args =>
      args.printNumber fun bits => (hexDigits uppercase 32 (unsignedArg .int bits).toNat).reverse
  | .binary, args => args.printNumber fun bits => storeBinary (unsignedArg .int bits).toNat
  | .float, args => args.real.map fun (num, args) => (storeFloat num, args)
  | .pointer, args => args.printNumber fun bits => (hexDigits false 32 bits.toNat).reverse
  | .unknown c, args => some ([percent, c], args)
  | .unknownLong _, args => some ([], args)
  | .unknownLongLong _, args => some ([], args)

/-- `vsprintf`: the characters in front of the final zero. -/
def vsprintf (format : List UInt8) (args : VaList) : Option (List UInt8) :=
  specifierReader.printFormat percent vsprintfSpecifier format args

/-! ## Numbers -/

@[simp] theorem udecDigits_zero (room : Nat) : udecDigits room 0 = [] := by cases room <;> rfl

/-- Both digit loops store the same digits of a number above zero. -/
theorem tmpDigits_eq (room : Nat) {value : Nat} (positive : 0 < value) :
    tmpDigits room value = udecDigits room value := by
  induction room generalizing value with
  | zero => rfl
  | succ room ih =>
      have digit : (value : Int).tmod 10 = ((value % 10 : Nat) : Int) := (Int.ofNat_tmod value 10).symm
      have quotient : (value : Int).tdiv 10 = ((value / 10 : Nat) : Int) := (Int.ofNat_tdiv value 10).symm
      rw [tmpDigits, udecDigits, if_pos positive, digit, quotient]
      congr 1
      by_cases more : 0 < value / 10
      · rw [if_pos (by exact_mod_cast more), ih more]
      · rw [if_neg (by exact_mod_cast more), show value / 10 = 0 by omega, udecDigits_zero]

/-- Both printers of unsigned numbers agree. -/
theorem printUdec_eq (value : BitVec 64) : printUdec value = digitsText value.toNat := by
  unfold printUdec
  split_ifs with zero
  · rw [zero]
    rfl
  · have positive : 0 < value.toNat := Nat.pos_of_ne_zero fun none => zero (BitVec.eq_of_toNat_eq none)
    rw [digitsText, tmpDigits_eq 32 positive]

theorem unsigned_text (size : NumberSize) (bits : BitVec 64) :
    printUdec (unsignedArg size bits) = digitsText (bits.setWidth size.bits).toNat := by
  have fits : (unsignedArg size bits).toNat = (bits.setWidth size.bits).toNat := by
    cases size with
    | int =>
        simp [unsignedArg, NumberSize.bits]
        omega
    | long => simp [unsignedArg, NumberSize.bits]
  rw [printUdec_eq, fits]

/-- Both printers of signed numbers agree but on the least number. -/
theorem signed_text (size : NumberSize) {bits : BitVec 64}
    (notLeast : bits.setWidth size.bits ≠ BitVec.intMin size.bits) :
    printDec (signedArg size bits) = storeSigned (bits.setWidth size.bits) := by
  have fits : size.bits ≤ 64 := by cases size <;> decide
  have value : (signedArg size bits).toInt = (bits.setWidth size.bits).toInt := BitVec.toInt_signExtend_of_le fits
  have opposite := BitVec.toInt_neg_of_ne_intMin notLeast
  have bounds := BitVec.toInt_eq_toNat_cond (signedArg size bits)
  have below := (signedArg size bits).isLt
  unfold printDec storeSigned
  rw [printUdec_eq, printUdec_eq, value, opposite]
  split_ifs with negative
  · have same : ((-signedArg size bits).toNat : Int) = -(bits.setWidth size.bits).toInt := by
      rw [BitVec.toNat_neg]
      split_ifs at bounds <;> omega
    rw [same]
  · have same : ((signedArg size bits).toNat : Int) = (bits.setWidth size.bits).toInt := by
      split_ifs at bounds <;> omega
    rw [same]

/-! ## The specifiers that all three share -/

/-- What `vsnprintf` makes of a specifier. -/
def Specifier.limited : Specifier → Conversion
  | .signed size => .signed size.bits
  | .unsigned size => .unsigned size.bits
  | .char => .char
  | .string => .string
  | .hex uppercase => .unknown (if uppercase then 0x58 else 0x78)
  | .binary => .unknown 0x62
  | .float => .unknown 0x66
  | .pointer => .unknown 0x70
  | .unknown c => .unknown c
  | .unknownLong _ => .nothing
  | .unknownLongLong _ => .nothing

/-- The specifiers that `vsnprintf` does not have. -/
def Specifier.Wide : Specifier → Prop
  | .hex _ | .binary | .float | .pointer => True
  | _ => False

/-- The arguments that are left behind a specifier that all three printers print alike: a number
that is not the least signed one, a character, a string that is not `NULL`, or a character that is
no specifier, no percent sign and no digit. -/
def Specifier.alike : Specifier → List Arg → Option (List Arg)
  | .signed size, .number bits :: args =>
      if bits.setWidth size.bits = BitVec.intMin size.bits then none else some args
  | .unsigned _, .number _ :: args => some args
  | .char, .number _ :: args => some args
  | .string, .string (some _) :: args => some args
  | .unknown c, args => if c = percent ∨ IsDigit c then none else some args
  | _, _ => none

/-- The items of a format that all three print alike with their arguments. -/
def ItemsAlike : List (UInt8 ⊕ Specifier) → List Arg → Prop
  | [], _ => True
  | .inl _ :: items, args => ItemsAlike items args
  | .inr specifier :: items, args => ∃ rest, specifier.alike args = some rest ∧ ItemsAlike items rest

/-- A format whose specifiers all three print alike with the arguments. -/
def PrintsAlike (format : List UInt8) (args : VaList) : Prop :=
  ∃ items, specifierReader.items percent format = some items ∧ ItemsAlike items args.general

/-- A format without flags and widths. -/
def Unpadded (format : List UInt8) : Prop :=
  ∀ items, specifierReader.items percent format = some items →
    ∀ c, .inr (.unknown c) ∈ items → ¬ IsDigit c

/-- The three printers print the same text, `vsnprintf` into every buffer that has room for it and
the final zero. -/
def SameText (format : List UInt8) (args : VaList) : Prop :=
  ∃ text, vprintf format args = some text ∧ vsprintf format args = some text ∧
    ∀ size, text.length < size → (vsnprintf size format args.general).map Prod.fst = some text

/-- `vsnprintf` reads the same specifiers. -/
theorem conversionOf_eq {format rest : List UInt8} {specifier : Specifier}
    (read : specifierOf format = some (specifier, rest)) : conversionOf format = some (specifier.limited, rest) := by
  unfold specifierOf at read
  split at read <;> simp only [Option.some.injEq, Prod.mk.injEq, reduceCtorEq] at read
  all_goals
    obtain ⟨rfl, rfl⟩ := read
    first
      | rfl
      | simp [conversionOf, Specifier.limited, *]

/-- The text of a number: its argument stands in front of the general arguments that are left. -/
theorem VaList.number_text {args rest : VaList} {f : BitVec 64 → List UInt8} {text : List UInt8}
    (read : args.printNumber f = some (text, rest)) :
    ∃ bits, args.general = .number bits :: rest.general ∧ args.number = some (bits, rest) ∧ text = f bits := by
  obtain ⟨⟨bits, later⟩, number, equal⟩ := Option.map_eq_some_iff.mp read
  obtain ⟨rfl, rfl⟩ := Prod.mk.inj equal
  refine ⟨bits, ?_, number, rfl⟩
  unfold VaList.number at number
  split at number
  · obtain ⟨rfl, rfl⟩ := Prod.mk.inj (Option.some.inj number)
    rfl
  · cases number

/-- A string argument stands in front of the general arguments that are left. -/
theorem VaList.string_text {args rest : VaList} {chars : List UInt8} (read : args.string = some (chars, rest)) :
    args.general = .string (some chars) :: rest.general := by
  unfold VaList.string at read
  split at read
  · obtain ⟨rfl, rfl⟩ := Prod.mk.inj (Option.some.inj read)
    rfl
  · cases read

/-- What all three print alike. -/
theorem alike_text {specifier : Specifier} {args : VaList} {rest : List Arg}
    (alike : specifier.alike args.general = some rest) :
    ∃ text, vprintfSpecifier (.none, specifier) args = some (text, ⟨rest, args.reals⟩) ∧
      vsprintfSpecifier specifier args = some (text, ⟨rest, args.reals⟩) ∧
        conversionText specifier.limited args.general = some (text, rest) := by
  obtain ⟨general, reals⟩ := args
  cases specifier with
  | signed size =>
      rcases general with _ | ⟨bits | chars, later⟩
      · cases alike
      · change (if bits.setWidth size.bits = BitVec.intMin size.bits then none else some later) = some rest at alike
        split_ifs at alike with least
        obtain rfl := Option.some.inj alike
        refine ⟨storeSigned (bits.setWidth size.bits), ?_, rfl, rfl⟩
        rw [← signed_text size least]
        rfl
      · cases alike
  | unsigned size =>
      rcases general with _ | ⟨bits | chars, later⟩
      · cases alike
      · obtain rfl := Option.some.inj alike
        refine ⟨digitsText (bits.setWidth size.bits).toNat, ?_, rfl, rfl⟩
        rw [← unsigned_text size bits]
        rfl
      · cases alike
  | char =>
      rcases general with _ | ⟨bits | chars, later⟩
      · cases alike
      · obtain rfl := Option.some.inj alike
        exact ⟨[charArg bits], rfl, rfl, rfl⟩
      · cases alike
  | string =>
      rcases general with _ | ⟨bits | _ | chars, later⟩
      · cases alike
      · cases alike
      · cases alike
      · obtain rfl := Option.some.inj alike
        exact ⟨chars, rfl, rfl, rfl⟩
  | unknown c =>
      change (if c = percent ∨ IsDigit c then none else some general) = some rest at alike
      split_ifs at alike with special
      obtain rfl := Option.some.inj alike
      refine ⟨[percent, c], ?_, rfl, rfl⟩
      rw [vprintfSpecifier, if_neg fun isPercent => special (.inl isPercent)]
  | _ => cases alike

/-- Alike items are printed alike by all three. -/
theorem printItems_of_alike {items : List (UInt8 ⊕ Specifier)} {args : VaList}
    (alike : ItemsAlike items args.general) :
    ∃ text, printItems (fun specifier => vprintfSpecifier (.none, specifier)) items args = some text ∧
      printItems vsprintfSpecifier items args = some text ∧
        printItems (fun specifier => conversionText specifier.limited) items args.general = some text := by
  induction items generalizing args with
  | nil => exact ⟨[], rfl, rfl, rfl⟩
  | cons item items ih =>
      cases item with
      | inl c =>
          obtain ⟨text, screen, stored, limited⟩ := ih alike
          exact ⟨c :: text, printItems_literal screen c, printItems_literal stored c, printItems_literal limited c⟩
      | inr specifier =>
          obtain ⟨rest, here, later⟩ := alike
          obtain ⟨first, screenFirst, storedFirst, limitedFirst⟩ := alike_text here
          obtain ⟨text, screen, stored, limited⟩ := @ih ⟨rest, args.reals⟩ later
          exact ⟨first ++ text, printItems_directive screenFirst screen, printItems_directive storedFirst stored,
            printItems_directive limitedFirst limited⟩

/-! ## Where the printers part -/

theorem hexChar_ne_percent (uppercase : Bool) {nibble : Nat} (below : nibble < 16) :
    hexChar uppercase nibble ≠ percent := by
  have all : ∀ uppercase : Bool, ∀ nibble < 16, hexChar uppercase nibble ≠ percent := by decide
  exact all uppercase nibble below

/-- A decimal digit is no percent sign. -/
theorem digit_ne_percent {digit : Nat} (below : digit < 10) : UInt8.ofNat (0x30 + digit) ≠ percent := by
  have all : ∀ digit < 10, UInt8.ofNat (0x30 + digit) ≠ percent := by decide
  exact all digit below

theorem percent_not_mem_hexDigits (uppercase : Bool) (room value : Nat) :
    percent ∉ hexDigits uppercase room value := by
  induction room generalizing value with
  | zero => exact List.not_mem_nil
  | succ room ih =>
      rw [hexDigits, List.mem_cons, not_or]
      refine ⟨(hexChar_ne_percent uppercase (Nat.mod_lt _ (by omega))).symm, ?_⟩
      split_ifs
      · exact ih _
      · exact List.not_mem_nil

theorem percent_not_mem_udecDigits (room value : Nat) : percent ∉ udecDigits room value := by
  induction room generalizing value with
  | zero => exact List.not_mem_nil
  | succ room ih =>
      rw [udecDigits]
      split_ifs
      · rw [List.mem_cons, not_or]
        exact ⟨(digit_ne_percent (Nat.mod_lt _ (by omega))).symm, ih _⟩
      · exact List.not_mem_nil

theorem percent_not_mem_binDigits (room value : Nat) : percent ∉ binDigits room value := by
  induction room generalizing value with
  | zero => exact List.not_mem_nil
  | succ room ih =>
      rw [binDigits]
      split_ifs
      · exact List.not_mem_cons_of_ne_of_not_mem (by decide) (ih _)
      · exact List.not_mem_cons_of_ne_of_not_mem (by decide) (ih _)
      · exact List.not_mem_nil

theorem percent_not_mem_fractionText (num : RealArg) : percent ∉ fractionText num := by
  rw [fractionText, List.mem_ofFn]
  rintro ⟨i, equal⟩
  exact digit_ne_percent (num.fraction i).isLt equal

/-- `vsprintf` stores no percent sign for a number in another form, and stores something. -/
theorem wide_stored {specifier : Specifier} (wide : specifier.Wide) {args rest : VaList} {text : List UInt8}
    (stored : vsprintfSpecifier specifier args = some (text, rest)) : percent ∉ text ∧ text ≠ [] := by
  unfold vsprintfSpecifier at stored
  cases specifier with
  | hex uppercase =>
      obtain ⟨bits, _, _, rfl⟩ := VaList.number_text stored
      exact ⟨by rw [List.mem_reverse]; exact percent_not_mem_hexDigits _ _ _, by simp [hexDigits]⟩
  | binary =>
      obtain ⟨bits, _, _, rfl⟩ := VaList.number_text stored
      unfold storeBinary
      split_ifs with zero
      · exact ⟨by decide, List.cons_ne_nil _ _⟩
      · refine ⟨by rw [List.mem_reverse]; exact percent_not_mem_binDigits _ _, ?_⟩
        rw [binDigits, if_pos (Nat.pos_of_ne_zero zero)]
        simp
  | float =>
      obtain ⟨⟨num, later⟩, _, equal⟩ := Option.map_eq_some_iff.mp stored
      obtain ⟨rfl, rfl⟩ := Prod.mk.inj equal
      refine ⟨?_, by simp [storeFloat]⟩
      simp only [storeFloat, List.mem_append, not_or]
      refine ⟨⟨⟨?_, ?_⟩, by decide⟩, percent_not_mem_fractionText num⟩
      · split_ifs <;> decide
      · split_ifs
        · decide
        · rw [List.mem_reverse]
          exact percent_not_mem_udecDigits _ _
  | pointer =>
      obtain ⟨bits, _, _, rfl⟩ := VaList.number_text stored
      exact ⟨by rw [List.mem_reverse]; exact percent_not_mem_hexDigits _ _ _, by simp [hexDigits]⟩
  | _ => cases wide

/-- `vsnprintf` copies what stands behind the percent sign instead. -/
theorem wide_limited {specifier : Specifier} (wide : specifier.Wide) (args : List Arg) :
    ∃ c, conversionText specifier.limited args = some ([percent, c], args) := by
  cases specifier with
  | hex _ => exact ⟨_, rfl⟩
  | binary => exact ⟨_, rfl⟩
  | float => exact ⟨_, rfl⟩
  | pointer => exact ⟨_, rfl⟩
  | _ => cases wide

/-- For every other specifier that `vsprintf` prints, `vsnprintf` prints the same. -/
theorem limited_text {specifier : Specifier} (shared : ¬ specifier.Wide) {args rest : VaList} {text : List UInt8}
    (stored : vsprintfSpecifier specifier args = some (text, rest)) :
    conversionText specifier.limited args.general = some (text, rest.general) := by
  unfold vsprintfSpecifier at stored
  cases specifier with
  | signed size =>
      obtain ⟨bits, front, _, rfl⟩ := VaList.number_text stored
      rw [front]
      rfl
  | unsigned size =>
      obtain ⟨bits, front, _, rfl⟩ := VaList.number_text stored
      rw [front]
      rfl
  | char =>
      obtain ⟨bits, front, _, rfl⟩ := VaList.number_text stored
      rw [front]
      rfl
  | string =>
      rw [VaList.string_text stored]
      rfl
  | unknown c =>
      obtain ⟨rfl, rfl⟩ := Prod.mk.inj (Option.some.inj stored)
      rfl
  | unknownLong c =>
      obtain ⟨rfl, rfl⟩ := Prod.mk.inj (Option.some.inj stored)
      rfl
  | unknownLongLong c =>
      obtain ⟨rfl, rfl⟩ := Prod.mk.inj (Option.some.inj stored)
      rfl
  | _ => exact absurd trivial shared

/-- The texts of `vsprintf` and `vsnprintf` part at the first number in another form. -/
theorem not_wide_of_same {items : List (UInt8 ⊕ Specifier)} {args : VaList} {text : List UInt8}
    (stored : printItems vsprintfSpecifier items args = some text)
    (limited : printItems (fun specifier => conversionText specifier.limited) items args.general = some text) :
    ∀ specifier, .inr specifier ∈ items → ¬ specifier.Wide := by
  induction items generalizing args text with
  | nil => exact fun _ member => absurd member List.not_mem_nil
  | cons item items ih =>
      cases item with
      | inl c =>
          obtain ⟨later, storedLater, rfl⟩ := Option.map_eq_some_iff.mp stored
          obtain ⟨later', limitedLater, equal⟩ := Option.map_eq_some_iff.mp limited
          obtain rfl := (List.cons.inj equal).2
          intro specifier member
          exact ih storedLater limitedLater specifier (by simpa using member)
      | inr specifier =>
          obtain ⟨⟨first, rest⟩, storedFirst, storedRest⟩ := Option.bind_eq_some_iff.mp stored
          obtain ⟨later, storedLater, rfl⟩ := Option.map_eq_some_iff.mp storedRest
          obtain ⟨⟨first', rest'⟩, limitedFirst, limitedRest⟩ := Option.bind_eq_some_iff.mp limited
          obtain ⟨later', limitedLater, equal⟩ := Option.map_eq_some_iff.mp limitedRest
          have shared : ¬ specifier.Wide := by
            intro wide
            obtain ⟨noPercent, some⟩ := wide_stored wide storedFirst
            obtain ⟨c, copied⟩ := wide_limited wide args.general
            obtain ⟨rfl, rfl⟩ := Prod.mk.inj (Option.some.inj (limitedFirst.symm.trans copied))
            obtain ⟨head, tail, rfl⟩ := List.exists_cons_of_ne_nil some
            exact noPercent (by rw [← (List.cons.inj equal).1]; exact List.mem_cons_self)
          obtain ⟨rfl, rfl⟩ := Prod.mk.inj (Option.some.inj (limitedFirst.symm.trans (limited_text shared storedFirst)))
          obtain rfl := List.append_cancel_left equal
          intro other member
          rcases List.mem_cons.mp member with here | there
          · rw [Sum.inr.inj here]
            exact shared
          · exact ih storedLater limitedLater other there

/-- A weight of the characters by which no text of `vsprintf` outweighs that of `vprintf`: the letter
`l` is heavier than two percent signs, which count against a text, and digits count for it. -/
def weight (c : UInt8) : Int :=
  if c = letterL then 3 else if c = percent then -1 else if IsDigit c then 1 else 0

/-- The weight of a text. -/
def textWeight (text : List UInt8) : Int := (text.map weight).sum

@[simp] theorem textWeight_nil : textWeight [] = 0 := rfl

@[simp] theorem textWeight_cons (c : UInt8) (text : List UInt8) :
    textWeight (c :: text) = weight c + textWeight text := by
  rw [textWeight, List.map_cons, List.sum_cons]
  rfl

@[simp] theorem textWeight_append (first second : List UInt8) :
    textWeight (first ++ second) = textWeight first + textWeight second := by
  rw [textWeight, List.map_append, List.sum_append]
  rfl

theorem weight_ge (c : UInt8) : -1 ≤ weight c := by
  unfold weight
  split_ifs <;> decide

/-- Only `vprintf` prints the digits of the least number. -/
theorem least_weight (size : NumberSize) {bits : BitVec 64}
    (least : bits.setWidth size.bits = BitVec.intMin size.bits) :
    textWeight (storeSigned (bits.setWidth size.bits)) < textWeight (printDec (signedArg size bits)) := by
  rw [signedArg, least]
  cases size <;> decide +kernel

/-- What only `vprintf` prints behind the letters `l` has a weight. -/
theorem dropped_weight (c : UInt8) :
    textWeight [] < textWeight [percent, letterL, c] ∧ textWeight [] < textWeight [percent, letterL, letterL, c] := by
  have bound := weight_ge c
  have percentWeight : weight percent = -1 := rfl
  have letterWeight : weight letterL = 3 := rfl
  simp only [textWeight_cons, textWeight_nil, percentWeight, letterWeight]
  omega

/-- A specifier weighs as much in both texts only where they are alike. -/
theorem specifier_weight {specifier : Specifier} (shared : ¬ specifier.Wide)
    (plain : ∀ c, specifier = .unknown c → ¬ IsDigit c) {args rest rest' : VaList} {screen stored : List UInt8}
    (printed : vprintfSpecifier (.none, specifier) args = some (screen, rest))
    (copied : vsprintfSpecifier specifier args = some (stored, rest')) :
    rest = rest' ∧ textWeight stored ≤ textWeight screen ∧
      (textWeight stored = textWeight screen → specifier.alike args.general = some rest.general) := by
  unfold vprintfSpecifier at printed
  unfold vsprintfSpecifier at copied
  cases specifier with
  | signed size =>
      obtain ⟨bits, front, read, rfl⟩ := VaList.number_text printed
      obtain ⟨bits', _, read', rfl⟩ := VaList.number_text copied
      obtain ⟨rfl, rfl⟩ := Prod.mk.inj (Option.some.inj (read.symm.trans read'))
      rw [front]
      by_cases least : bits.setWidth size.bits = BitVec.intMin size.bits
      · have lighter := least_weight size least
        exact ⟨rfl, Int.le_of_lt lighter, fun same => absurd same (Int.ne_of_lt lighter)⟩
      · have same := signed_text size least
        exact ⟨rfl, Int.le_of_eq (congrArg textWeight same.symm), fun _ => if_neg least⟩
  | unsigned size =>
      obtain ⟨bits, front, read, rfl⟩ := VaList.number_text printed
      obtain ⟨bits', _, read', rfl⟩ := VaList.number_text copied
      obtain ⟨rfl, rfl⟩ := Prod.mk.inj (Option.some.inj (read.symm.trans read'))
      rw [front, unsigned_text]
      exact ⟨rfl, Int.le_refl _, fun _ => rfl⟩
  | char =>
      obtain ⟨bits, front, read, rfl⟩ := VaList.number_text printed
      obtain ⟨bits', _, read', rfl⟩ := VaList.number_text copied
      obtain ⟨rfl, rfl⟩ := Prod.mk.inj (Option.some.inj (read.symm.trans read'))
      rw [front]
      exact ⟨rfl, Int.le_refl _, fun _ => rfl⟩
  | string =>
      obtain ⟨rfl, rfl⟩ := Prod.mk.inj (Option.some.inj (printed.symm.trans copied))
      rw [VaList.string_text copied]
      exact ⟨rfl, Int.le_refl _, fun _ => rfl⟩
  | unknown c =>
      obtain ⟨rfl, rfl⟩ := Prod.mk.inj (Option.some.inj copied)
      obtain ⟨rfl, rfl⟩ := Prod.mk.inj (Option.some.inj printed)
      refine ⟨rfl, ?_⟩
      by_cases isPercent : c = percent
      · rw [if_pos isPercent, isPercent]
        exact ⟨by decide, fun same => absurd same (by decide)⟩
      · rw [if_neg isPercent]
        refine ⟨Int.le_refl _, fun _ => if_neg ?_⟩
        rintro (same | digit)
        · exact isPercent same
        · exact plain c rfl digit
  | unknownLong c =>
      obtain ⟨rfl, rfl⟩ := Prod.mk.inj (Option.some.inj copied)
      obtain ⟨rfl, rfl⟩ := Prod.mk.inj (Option.some.inj printed)
      have heavier := (dropped_weight c).1
      exact ⟨rfl, Int.le_of_lt heavier, fun same => absurd same (Int.ne_of_lt heavier)⟩
  | unknownLongLong c =>
      obtain ⟨rfl, rfl⟩ := Prod.mk.inj (Option.some.inj copied)
      obtain ⟨rfl, rfl⟩ := Prod.mk.inj (Option.some.inj printed)
      have heavier := (dropped_weight c).2
      exact ⟨rfl, Int.le_of_lt heavier, fun same => absurd same (Int.ne_of_lt heavier)⟩
  | _ => exact absurd trivial shared

/-- Items that weigh as much in both texts are alike. -/
theorem items_weight {items : List (UInt8 ⊕ Specifier)} {args : VaList} {screen stored : List UInt8}
    (shared : ∀ specifier, .inr specifier ∈ items → ¬ specifier.Wide)
    (plain : ∀ c, .inr (.unknown c) ∈ items → ¬ IsDigit c)
    (printed : printItems (fun specifier => vprintfSpecifier (.none, specifier)) items args = some screen)
    (copied : printItems vsprintfSpecifier items args = some stored) :
    textWeight stored ≤ textWeight screen ∧
      (textWeight stored = textWeight screen → ItemsAlike items args.general) := by
  induction items generalizing args screen stored with
  | nil =>
      obtain rfl := Option.some.inj printed
      obtain rfl := Option.some.inj copied
      exact ⟨Int.le_refl _, fun _ => trivial⟩
  | cons item items ih =>
      have sharedLater : ∀ specifier, .inr specifier ∈ items → ¬ specifier.Wide :=
        fun specifier member => shared specifier (List.mem_cons_of_mem _ member)
      have plainLater : ∀ c, .inr (.unknown c) ∈ items → ¬ IsDigit c :=
        fun c member => plain c (List.mem_cons_of_mem _ member)
      cases item with
      | inl c =>
          obtain ⟨screenLater, printedLater, rfl⟩ := Option.map_eq_some_iff.mp printed
          obtain ⟨storedLater, copiedLater, rfl⟩ := Option.map_eq_some_iff.mp copied
          obtain ⟨below, alike⟩ := ih sharedLater plainLater printedLater copiedLater
          rw [textWeight_cons, textWeight_cons]
          exact ⟨by omega, fun same => alike (by omega)⟩
      | inr specifier =>
          obtain ⟨⟨screenFirst, rest⟩, printedFirst, printedRest⟩ := Option.bind_eq_some_iff.mp printed
          obtain ⟨screenLater, printedLater, rfl⟩ := Option.map_eq_some_iff.mp printedRest
          obtain ⟨⟨storedFirst, rest'⟩, copiedFirst, copiedRest⟩ := Option.bind_eq_some_iff.mp copied
          obtain ⟨storedLater, copiedLater, rfl⟩ := Option.map_eq_some_iff.mp copiedRest
          have sharedHere := shared specifier List.mem_cons_self
          have plainHere : ∀ c, specifier = .unknown c → ¬ IsDigit c := by
            rintro c rfl
            exact plain c List.mem_cons_self
          obtain ⟨rfl, belowHere, alikeHere⟩ := specifier_weight sharedHere plainHere printedFirst copiedFirst
          obtain ⟨below, alike⟩ := ih sharedLater plainLater printedLater copiedLater
          rw [textWeight_append, textWeight_append]
          refine ⟨by omega, fun same => ⟨rest.general, alikeHere (by omega), alike (by omega)⟩⟩

/-! ## The three texts -/

/-- `vprintf` on a format without flags and widths. -/
theorem vprintf_eq {format : List UInt8} {items : List (UInt8 ⊕ Specifier)}
    (read : specifierReader.items percent format = some items)
    (plain : ∀ c, .inr (.unknown c) ∈ items → ¬ IsDigit c) (args : VaList) :
    vprintf format args = printItems (fun specifier => vprintfSpecifier (.none, specifier)) items args := by
  have agree : ∀ format specifier rest, specifierReader.read format = some (specifier, rest) →
      (∀ c, specifier = .unknown c → ¬ IsDigit c) →
        paddedReader.read format = some ((Padding.none, specifier), rest) := fun _ _ _ => paddedSpecifierOf_eq
  have padded := specifierReader.items_eq_map percent _ _ agree read (by rintro _ member c rfl; exact plain c member)
  rw [vprintf, DirectiveReader.printFormat_eq, padded, Option.bind_some, printItems_map]

theorem vsprintf_eq {format : List UInt8} {items : List (UInt8 ⊕ Specifier)}
    (read : specifierReader.items percent format = some items) (args : VaList) :
    vsprintf format args = printItems vsprintfSpecifier items args := by
  rw [vsprintf, DirectiveReader.printFormat_eq, read, Option.bind_some]

/-- The text of `vsnprintf` by the items of the other two. -/
theorem formatted_eq_items {format : List UInt8} {items : List (UInt8 ⊕ Specifier)}
    (read : specifierReader.items percent format = some items) (args : List Arg) :
    formatted format args = printItems (fun specifier => conversionText specifier.limited) items args := by
  have agree : ∀ format specifier rest, specifierReader.read format = some (specifier, rest) → True →
      conversionReader.read format = some (specifier.limited, rest) := fun _ _ _ found _ => conversionOf_eq found
  have limited := specifierReader.items_eq_map percent _ _ agree read fun _ _ => trivial
  rw [formatted_eq, DirectiveReader.printFormat_eq, limited, Option.bind_some, printItems_map]

/-- A buffer with room for the text and the final zero gets the text. -/
theorem vsnprintf_text_iff {format : List UInt8} {args : List Arg} {text : List UInt8} :
    (∀ size, text.length < size → (vsnprintf size format args).map Prod.fst = some text) ↔
      formatted format args = some text := by
  simp only [vsnprintf_eq, Option.map_map]
  constructor
  · intro every
    cases whole : formatted format args with
    | none => simpa [whole] using every (text.length + 1) (Nat.lt_succ_self _)
    | some other =>
        have stored := every (text.length + other.length + 1) (by omega)
        rw [whole, Option.map_some] at stored
        rw [← Option.some.inj stored]
        exact congrArg some (List.take_of_length_le (by omega)).symm
  · intro whole size room
    rw [whole, Option.map_some]
    exact congrArg some (List.take_of_length_le (by omega))

/-- No item that all three print alike is a digit of a width. -/
theorem ItemsAlike.plain {items : List (UInt8 ⊕ Specifier)} {args : List Arg} (alike : ItemsAlike items args) :
    ∀ c, .inr (.unknown c) ∈ items → ¬ IsDigit c := by
  induction items generalizing args with
  | nil => exact fun _ member => absurd member List.not_mem_nil
  | cons item items ih =>
      intro c member
      rcases List.mem_cons.mp member with rfl | later
      · obtain ⟨rest, here, _⟩ := alike
        intro digit
        have padded : Specifier.alike (.unknown c) args = none := if_pos (.inr digit)
        rw [padded] at here
        cases here
      · cases item with
        | inl _ => exact @ih args alike c later
        | inr _ =>
            obtain ⟨rest, _, alikeLater⟩ := alike
            exact ih alikeLater c later

theorem PrintsAlike.sameText {format : List UInt8} {args : VaList} (alike : PrintsAlike format args) :
    SameText format args := by
  obtain ⟨items, read, itemsAlike⟩ := alike
  obtain ⟨text, screen, stored, limited⟩ := printItems_of_alike itemsAlike
  refine ⟨text, ?_, ?_, ?_⟩
  · rw [vprintf_eq read itemsAlike.plain, screen]
  · rw [vsprintf_eq read, stored]
  · rw [vsnprintf_text_iff, formatted_eq_items read, limited]

/-- Without flags and widths, the texts of a format whose specifiers are not printed alike part. -/
theorem SameText.printsAlike {format : List UInt8} {args : VaList} (unpadded : Unpadded format)
    (same : SameText format args) : PrintsAlike format args := by
  obtain ⟨text, screen, stored, limited⟩ := same
  cases read : specifierReader.items percent format with
  | none =>
      rw [vsprintf, DirectiveReader.printFormat_eq, read] at stored
      cases stored
  | some items =>
      have plain := unpadded items read
      rw [vprintf_eq read plain] at screen
      rw [vsprintf_eq read] at stored
      rw [vsnprintf_text_iff, formatted_eq_items read] at limited
      exact ⟨items, read, (items_weight (not_wide_of_same stored limited) plain screen stored).2 rfl⟩

/-- The three printers agree on a format whose specifiers they print alike with the arguments, and
on no other format without flags and widths. -/
theorem printers_sameText (format : List UInt8) (args : VaList) :
    (PrintsAlike format args → SameText format args) ∧
      (Unpadded format → (SameText format args ↔ PrintsAlike format args)) :=
  ⟨PrintsAlike.sameText, fun unpadded => ⟨SameText.printsAlike unpadded, PrintsAlike.sameText⟩⟩

/-- `"%s=%d"` with a string and a number. -/
theorem printers_sameText_pair :
    SameText [percent, 0x73, 0x3D, percent, 0x64] ⟨[.string (some [0x61, 0x62]), .number 7], []⟩ :=
  (printers_sameText _ _).1
    ⟨[.inr .string, .inl 0x3D, .inr (.signed .int)], by decide +kernel, [.number 7], rfl, [], by decide, trivial⟩

/-- `"%x"` with 255 comes out as `0xFF`, as `ff` and as `%x`. -/
theorem printers_differ_on_hex :
    vprintf [percent, 0x78] ⟨[.number 255], []⟩ = some [0x30, 0x78, 0x46, 0x46] ∧
      vsprintf [percent, 0x78] ⟨[.number 255], []⟩ = some [0x66, 0x66] ∧
        vsnprintf 64 [percent, 0x78] [.number 255] = some ([percent, 0x78], 2) ∧
          ¬ SameText [percent, 0x78] ⟨[.number 255], []⟩ := by
  have screen : vprintf [percent, 0x78] ⟨[.number 255], []⟩ = some [0x30, 0x78, 0x46, 0x46] := by decide +kernel
  have stored : vsprintf [percent, 0x78] ⟨[.number 255], []⟩ = some [0x66, 0x66] := by decide +kernel
  refine ⟨screen, stored, by decide +kernel, ?_⟩
  rintro ⟨text, onScreen, inBuffer, _⟩
  rw [screen] at onScreen
  rw [stored, ← onScreen] at inBuffer
  exact absurd inBuffer (by decide)

-- With a width the texts can meet by chance: `"%5s%%"` with the string `"%5s%"`.
example :
    vprintf [percent, 0x35, 0x73, percent, percent] ⟨[.string (some [percent, 0x35, 0x73, percent])], []⟩ =
      vsprintf [percent, 0x35, 0x73, percent, percent] ⟨[.string (some [percent, 0x35, 0x73, percent])], []⟩ := by
  decide +kernel

end KeblaOS.Stdio
