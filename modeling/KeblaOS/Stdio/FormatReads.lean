import KeblaOS.Lib.Scanner
import KeblaOS.Stdio.Printf
import KeblaOS.Time.Calendar

/-!
# What the printers read of a format

`vprintf`, `vsprintf`, `vsnprintf` and `strftime` go through a format in memory one character at a
time and stop at its final zero only between two specifiers. Behind a percent sign they take the
zero for the specifier and read on behind it. So a format is read inside of its bytes just when it
does not end inside a specifier.
-/

namespace KeblaOS.Stdio

open Time

/-- The memory from a format on: its characters, none of them zero, and the zero behind them. -/
structure IsFormat (memory : Nat → UInt8) (format : List UInt8) : Prop where
  holds : Holds memory (format ++ [0])
  nonzero : ∀ c ∈ format, c ≠ 0

/-- A memory with other characters behind the format. -/
theorem isFormat_getD {format : List UInt8} (nonzero : ∀ c ∈ format, c ≠ 0) (other : UInt8) :
    IsFormat (fun i => (format ++ [0]).getD i other) format where
  holds i value there := by
    dsimp only
    rw [List.getD_eq_getElem?_getD, there]
    rfl
  nonzero := nonzero

/-! ## The printers -/

/-- Where `vsprintf` and `vsnprintf` read: at the head of the loop, behind a percent sign, and
behind one or two letters `l`. -/
inductive SpecifierPhase where
  | loop
  | specifier
  | long
  | longLong
deriving DecidableEq

/-- The character read in a phase moves the pointer by one. Zero stops only the loop. -/
def specifierNext : SpecifierPhase → UInt8 → Option SpecifierPhase
  | .loop, c => if c = 0 then none else some (if c = percent then .specifier else .loop)
  | .specifier, c => some (if c = letterL then .long else .loop)
  | .long, c => some (if c = letterL then .longLong else .loop)
  | .longLong, _ => some .loop

/-- `vsprintf`. -/
def vsprintfReads : (Nat → UInt8) → Nat → Prop := ReadsAt specifierNext .loop

/-- `vsnprintf`. -/
def vsnprintfReads : (Nat → UInt8) → Nat → Prop := ReadsAt specifierNext .loop

/-- Where `vprintf` reads: it looks for the zero flag and the digits of a width before the
specifier. -/
inductive PaddedPhase where
  | loop
  | flag
  | width
  | long
  | longLong
deriving DecidableEq

/-- The loop over the digits of a width ends at the specifier, which is read in the same place. -/
def widthNext (c : UInt8) : PaddedPhase :=
  if IsDigit c then .width else if c = letterL then .long else .loop

/-- The character read in a phase moves the pointer by one. Zero stops only the loop. -/
def paddedNext : PaddedPhase → UInt8 → Option PaddedPhase
  | .loop, c => if c = 0 then none else some (if c = percent then .flag else .loop)
  | .flag, c => some (if c = 0x30 then .width else widthNext c)
  | .width, c => some (widthNext c)
  | .long, c => some (if c = letterL then .longLong else .loop)
  | .longLong, _ => some .loop

/-- `vprintf`. -/
def vprintfReads : (Nat → UInt8) → Nat → Prop := ReadsAt paddedNext .loop

/-! ## `strftime` -/

/-- `wday_name`. -/
def wdayName : List (List UInt8) :=
  [[0x53, 0x75, 0x6E], [0x4D, 0x6F, 0x6E], [0x54, 0x75, 0x65], [0x57, 0x65, 0x64], [0x54, 0x68, 0x75],
    [0x46, 0x72, 0x69], [0x53, 0x61, 0x74]]

/-- `mon_name`. -/
def monName : List (List UInt8) :=
  [[0x4A, 0x61, 0x6E], [0x46, 0x65, 0x62], [0x4D, 0x61, 0x72], [0x41, 0x70, 0x72], [0x4D, 0x61, 0x79],
    [0x4A, 0x75, 0x6E], [0x4A, 0x75, 0x6C], [0x41, 0x75, 0x67], [0x53, 0x65, 0x70], [0x4F, 0x63, 0x74],
    [0x4E, 0x6F, 0x76], [0x44, 0x65, 0x63]]

/-- An `int` in the `va_list`. -/
def intArg (value : Int32) : Arg := .number (value.toBitVec.signExtend 64)

/-- `snprintf` into `buf`, which has 32 bytes. -/
def snprintfBuf (format : List UInt8) (args : List Int32) : Option (List UInt8) :=
  (vsnprintf 32 format (args.map intArg)).map Prod.fst

/-- A name of a table. There is none in front of it. -/
def nameAt (names : List (List UInt8)) (index : Int32) : Option (List UInt8) :=
  if index < 0 then none else names[index.toInt.toNat]?

/-- The replacement of a specifier, as `strlen` finds it. Behind the format, the zero itself is
the specifier and ends the replacement. -/
def replacement (tm : Tm) : UInt8 → Option (List UInt8)
  | 0x59 => snprintfBuf [percent, 0x64] [1900 + tm.tmYear]
  | 0x6D => snprintfBuf [percent, 0x64] [tm.tmMon + 1]
  | 0x64 => snprintfBuf [percent, 0x64] [tm.tmMday]
  | 0x48 => snprintfBuf [percent, 0x64] [tm.tmHour]
  | 0x4D => snprintfBuf [percent, 0x64] [tm.tmMin]
  | 0x53 => snprintfBuf [percent, 0x64] [tm.tmSec]
  | 0x61 => nameAt wdayName (tm.tmWday % 7)
  | 0x62 => nameAt monName (tm.tmMon % 12)
  | 0x46 =>
      snprintfBuf [percent, 0x64, 0x2D, percent, 0x64, 0x2D, percent, 0x64] [1900 + tm.tmYear, tm.tmMon + 1, tm.tmMday]
  | 0x54 =>
      snprintfBuf [percent, 0x64, 0x3A, percent, 0x64, 0x3A, percent, 0x64] [tm.tmHour, tm.tmMin, tm.tmSec]
  | 0x25 => some [percent]
  | 0x00 => some [percent]
  | c => some [percent, c]

/-- Where `strftime` reads, with the places that remain: at the head of the loop, and behind a
percent sign. -/
inductive StrftimePhase where
  | loop (remaining : Nat)
  | specifier (remaining : Nat)

/-- The loop ends at the zero, when one place remains, and when a replacement does not fit. -/
def strftimeNext (tm : Tm) : StrftimePhase → UInt8 → Option StrftimePhase
  | .loop remaining, c =>
      if c = 0 ∨ remaining ≤ 1 then none
      else some (if c = percent then .specifier remaining else .loop (remaining - 1))
  | .specifier remaining, c =>
      (replacement tm c).bind fun text =>
        if remaining ≤ text.length then none else some (.loop (remaining - text.length))

/-- `strftime` with room for `max` characters. -/
def strftimeReads (tm : Tm) (max : Nat) : (Nat → UInt8) → Nat → Prop :=
  ReadsAt (strftimeNext tm) (.loop max)

/-- The specifiers of `strftime` are single characters. -/
def timeReader : DirectiveReader UInt8 UInt8 where
  read
    | [] => none
    | c :: rest => some (c, rest)
  shorter := by
    intro format directive rest read
    cases format with
    | nil => cases read
    | cons c format =>
        obtain ⟨rfl, rfl⟩ := Prod.mk.inj (Option.some.inj read)
        exact Nat.lt_succ_self _

/-- The text of a time format in a buffer with enough room. -/
def strftimeText (tm : Tm) (format : List UInt8) : Option (List UInt8) :=
  timeReader.printFormat percent (fun c (_ : Unit) => (replacement tm c).map (·, ())) format ()

/-! ## Complete formats -/

/-- Every percent sign of the format begins a specifier that ends in front of the end. -/
def Complete (format : List UInt8) : Prop := (specifierReader.items percent format).isSome

/-- The same for the specifiers of `vprintf`, which may have a flag and a width. -/
def PaddedComplete (format : List UInt8) : Prop := (paddedReader.items percent format).isSome

instance (format : List UInt8) : Decidable (Complete format) := inferInstanceAs (Decidable (_ = true))

instance (format : List UInt8) : Decidable (PaddedComplete format) := inferInstanceAs (Decidable (_ = true))

/-- A time format that ends with a lone percent sign, for which there is room behind the text in
front of it. -/
def CutOff (tm : Tm) (max : Nat) (format : List UInt8) : Prop :=
  ∃ front text, format = front ++ [percent] ∧ strftimeText tm front = some text ∧ text.length + 1 < max

/-- What is read behind a specifier is the end of the format. -/
theorem specifierOf_suffix {format rest : List UInt8} {specifier : Specifier}
    (read : specifierOf format = some (specifier, rest)) : rest <:+ format := by
  unfold specifierOf at read
  split at read <;> simp only [Option.some.injEq, Prod.mk.injEq, reduceCtorEq] at read
  all_goals
    obtain ⟨rfl, rfl⟩ := read
    first
      | exact ⟨[_], rfl⟩
      | exact ⟨[_, _], rfl⟩
      | exact ⟨[_, _, _], rfl⟩

theorem widthOf_suffix (width : Int32) (format : List UInt8) : (widthOf width format).2 <:+ format := by
  induction format generalizing width with
  | nil => exact List.suffix_refl _
  | cons c rest ih =>
      rw [widthOf]
      split_ifs
      · exact (ih _).trans (List.suffix_cons c rest)
      · exact List.suffix_refl _

theorem paddedSpecifierOf_suffix {format rest : List UInt8} {padded : Padding × Specifier}
    (read : paddedSpecifierOf format = some (padded, rest)) : rest <:+ format := by
  obtain ⟨⟨specifier, behind⟩, found, equal⟩ := Option.map_eq_some_iff.mp read
  obtain ⟨rfl, rfl⟩ := Prod.mk.inj equal
  have flag : (zeroFlagOf format).2 <:+ format := by
    unfold zeroFlagOf
    split
    · exact List.suffix_cons _ _
    · exact List.suffix_refl _
  exact (specifierOf_suffix found).trans ((widthOf_suffix 0 _).trans flag)

/-- A character is no letter for which every format behind it is another case. -/
theorem ne_of_no_case {c letter : UInt8} {rest : List UInt8} (empty : c = letter → rest = [] → False)
    (another : ∀ head more, c = letter → rest = head :: more → False) : c ≠ letter := by
  intro equal
  cases rest with
  | nil => exact empty equal rfl
  | cons head more => exact another head more equal rfl

section Scanning

variable {φ δ : Type} {next : φ → UInt8 → Option φ} {loop opened specifier long longLong : φ}

/-- A specifier takes a scanner back to its loop. -/
theorem scan_specifier {format rest : List UInt8} {found : Specifier}
    (first : ∀ c behind, format = c :: behind → next specifier c = some (if c = letterL then long else loop))
    (second : ∀ c, next long c = some (if c = letterL then longLong else loop))
    (third : ∀ c, next longLong c = some loop) (read : specifierOf format = some (found, rest)) :
    scan next specifier format = scan next loop rest := by
  unfold specifierOf at read
  split at read <;> simp only [Option.some.injEq, Prod.mk.injEq, reduceCtorEq] at read
  case h_9 =>
    rename_i c rest empty _ _ another _ _
    obtain ⟨rfl, rfl⟩ := read
    have notL : c ≠ 0x6C := ne_of_no_case empty another
    simp [scan, first _ _ rfl, second, letterL, notL]
  case h_19 =>
    rename_i c rest empty _ _ _ _ _ _ another _ _ _ _ _ _ _ _ _
    obtain ⟨rfl, rfl⟩ := read
    have notL : c ≠ 0x6C := ne_of_no_case empty another
    simp [scan, first _ _ rfl, letterL, notL]
  all_goals
    obtain ⟨rfl, rfl⟩ := read
    simp [scan, first _ _ rfl, second, third, letterL]

/-- A specifier that is cut off leaves a scanner inside of it. -/
theorem scan_cutOff {format : List UInt8}
    (first : ∀ c behind, format = c :: behind → next specifier c = some (if c = letterL then long else loop))
    (second : ∀ c, next long c = some (if c = letterL then longLong else loop)) (read : specifierOf format = none) :
    ∃ phase ∈ [specifier, long, longLong], scan next specifier format = some phase := by
  unfold specifierOf at read
  split at read <;> simp only [reduceCtorEq] at read
  · exact ⟨specifier, by simp, rfl⟩
  · exact ⟨long, by simp, by simp [scan, first _ _ rfl, letterL]⟩
  · exact ⟨longLong, by simp, by simp [scan, first _ _ rfl, second, letterL]⟩

/-- A format without zeros leaves a scanner in its loop just when its reader finds every directive
of it. -/
theorem scan_format (reader : DirectiveReader UInt8 δ)
    (suffix : ∀ {format rest directive}, reader.read format = some (directive, rest) → rest <:+ format)
    (text : ∀ c, c ≠ 0 → c ≠ percent → next loop c = some loop) (percentNext : next loop percent = some opened)
    (found : ∀ {format rest directive}, reader.read format = some (directive, rest) →
      scan next opened format = scan next loop rest)
    (cutOff : ∀ {format}, reader.read format = none → ∃ phase, phase ≠ loop ∧ scan next opened format = some phase)
    {format : List UInt8} (nonzero : ∀ c ∈ format, c ≠ 0) :
    ∃ phase, scan next loop format = some phase ∧ (phase = loop ↔ (reader.items percent format).isSome) := by
  induction format using reader.format_induction percent with
  | nil => exact ⟨loop, rfl, by simp⟩
  | literal c rest literal ih =>
      obtain ⟨phase, scanned, complete⟩ := ih fun c member => nonzero c (List.mem_cons_of_mem _ member)
      refine ⟨phase, ?_, ?_⟩
      · rw [scan_cons (text c (nonzero c List.mem_cons_self) literal), scanned]
      · rw [complete, reader.items_literal percent literal, Option.isSome_map]
  | unreadable rest read =>
      obtain ⟨phase, inside, scanned⟩ := cutOff read
      refine ⟨phase, ?_, ?_⟩
      · rw [scan_cons percentNext, scanned]
      · rw [reader.items_marker, read]
        simp [inside]
  | directive rest directive behind read ih =>
      have later : ∀ c ∈ behind, c ≠ 0 :=
        fun c member => nonzero c (List.mem_cons_of_mem _ ((suffix read).subset member))
      obtain ⟨phase, scanned, complete⟩ := ih later
      refine ⟨phase, ?_, ?_⟩
      · rw [scan_cons percentNext, found read, scanned]
      · rw [complete, reader.items_marker, read, Option.bind_some, Option.isSome_map]

end Scanning

/-- The digits of a width keep `vprintf` at the width. -/
theorem scan_widthOf (width : Int32) (format : List UInt8) :
    scan paddedNext .width format = scan paddedNext .width (widthOf width format).2 := by
  induction format generalizing width with
  | nil => rfl
  | cons c rest ih =>
      rw [widthOf]
      split_ifs with digit
      · have step : paddedNext .width c = some .width := congrArg some (if_pos digit)
        rw [scan_cons step]
        exact ih _
      · rfl

/-- Behind the width stands no digit. -/
theorem widthOf_noDigit {width : Int32} {format : List UInt8} :
    ∀ c behind, (widthOf width format).2 = c :: behind → ¬ IsDigit c := by
  induction format generalizing width with
  | nil => exact fun _ _ equal => by cases equal
  | cons c rest ih =>
      rw [widthOf]
      split_ifs with digit
      · exact ih
      · intro head behind equal
        rw [← (List.cons.inj equal).1]
        exact digit

/-- The zero flag takes `vprintf` to the width. -/
theorem scan_zeroFlagOf {format : List UInt8} (some : format ≠ []) :
    scan paddedNext .flag format = scan paddedNext .width (zeroFlagOf format).2 := by
  unfold zeroFlagOf
  split
  · rfl
  · rename_i noFlag
    cases format with
    | nil => exact absurd rfl some
    | cons c rest =>
        have notZero : c ≠ 0x30 := fun zero => noFlag rest (by rw [zero])
        rw [scan, scan]
        exact congrArg (fun phase : Option PaddedPhase => phase.bind fun phase => scan paddedNext phase rest)
          (congrArg Option.some (if_neg notZero))

/-- Where the specifier stands, `vprintf` is at the width. -/
theorem paddedNext_width {format : List UInt8} :
    ∀ c behind, (widthOf 0 (zeroFlagOf format).2).2 = c :: behind →
      paddedNext .width c = some (if c = letterL then .long else .loop) :=
  fun c behind equal => congrArg some (if_neg (widthOf_noDigit c behind equal))

/-- A specifier with flag and width takes `vprintf` back to its loop. -/
theorem scan_padded {format rest : List UInt8} {padded : Padding × Specifier}
    (read : paddedSpecifierOf format = some (padded, rest)) :
    scan paddedNext .flag format = scan paddedNext .loop rest := by
  obtain ⟨⟨specifier, behind⟩, found, equal⟩ := Option.map_eq_some_iff.mp read
  obtain ⟨rfl, rfl⟩ := Prod.mk.inj equal
  have some : format ≠ [] := by
    rintro rfl
    cases found
  rw [scan_zeroFlagOf some, scan_widthOf 0]
  exact scan_specifier paddedNext_width (fun _ => rfl) (fun _ => rfl) found

/-- One that is cut off leaves `vprintf` inside of it. -/
theorem scan_padded_cutOff {format : List UInt8} (read : paddedSpecifierOf format = none) :
    ∃ phase, phase ≠ .loop ∧ scan paddedNext .flag format = some phase := by
  have cutOff := Option.map_eq_none_iff.mp read
  cases format with
  | nil => exact ⟨.flag, by decide, rfl⟩
  | cons c rest =>
      obtain ⟨phase, inside, scanned⟩ := scan_cutOff paddedNext_width (fun _ => rfl) cutOff
      refine ⟨phase, ?_, ?_⟩
      · rintro rfl
        exact absurd inside (by decide)
      · rw [scan_zeroFlagOf (List.cons_ne_nil c rest), scan_widthOf 0, scanned]

/-! ## The end of the format -/

/-- A scanner that zero stops in its loop only reads a format inside of its bytes just when the
format leaves it in the loop. -/
theorem readsFormat_iff {φ : Type} {next : φ → UInt8 → Option φ} {loop phase : φ} {memory : Nat → UInt8}
    {format : List UInt8} {complete : Prop} (isFormat : IsFormat memory format)
    (zero : ∀ phase, next phase 0 = none ↔ phase = loop) (scanned : scan next loop format = some phase)
    (whole : phase = loop ↔ complete) :
    (∀ pos, ReadsAt next loop memory pos → pos ≤ format.length) ↔ complete := by
  rw [readsInside_iff isFormat.holds, scan_append, scanned, Option.bind_some, ← whole, ← zero phase]
  rw [scan]
  cases next phase 0 <;> simp [scan]

/-- A specifier that is cut off leaves `vsprintf` and `vsnprintf` inside of it. -/
theorem scan_specifier_cutOff {format : List UInt8} (read : specifierOf format = none) :
    ∃ phase, phase ≠ .loop ∧ scan specifierNext .specifier format = some phase := by
  have cutOff : ∃ phase ∈ [.specifier, .long, .longLong], scan specifierNext .specifier format = some phase :=
    scan_cutOff (fun _ _ _ => rfl) (fun _ => rfl) read
  obtain ⟨phase, inside, scanned⟩ := cutOff
  refine ⟨phase, ?_, scanned⟩
  rintro rfl
  exact absurd inside (by decide)

/-- `vsprintf` and `vsnprintf`. -/
theorem specifierReads_iff {memory : Nat → UInt8} {format : List UInt8} (isFormat : IsFormat memory format) :
    (∀ pos, ReadsAt specifierNext .loop memory pos → pos ≤ format.length) ↔ Complete format := by
  have scanned : ∃ phase, scan specifierNext .loop format = some phase ∧ (phase = .loop ↔ Complete format) := by
    refine scan_format specifierReader specifierOf_suffix (fun c nonzero literal => ?_) rfl
      (scan_specifier (fun _ _ _ => rfl) (fun _ => rfl) (fun _ => rfl)) scan_specifier_cutOff isFormat.nonzero
    simp [specifierNext, nonzero, literal]
  obtain ⟨phase, scanned, whole⟩ := scanned
  refine readsFormat_iff isFormat (fun phase => ?_) scanned whole
  cases phase <;> decide

/-- `vprintf`. -/
theorem paddedReads_iff {memory : Nat → UInt8} {format : List UInt8} (isFormat : IsFormat memory format) :
    (∀ pos, ReadsAt paddedNext .loop memory pos → pos ≤ format.length) ↔ PaddedComplete format := by
  have scanned : ∃ phase, scan paddedNext .loop format = some phase ∧ (phase = .loop ↔ PaddedComplete format) := by
    refine scan_format paddedReader paddedSpecifierOf_suffix (fun c nonzero literal => ?_) rfl scan_padded
      scan_padded_cutOff isFormat.nonzero
    simp [paddedNext, nonzero, literal]
  obtain ⟨phase, scanned, whole⟩ := scanned
  refine readsFormat_iff isFormat (fun phase => ?_) scanned whole
  cases phase <;> decide

/-! ### The text in front of a lone percent sign -/

theorem strftimeText_literal (tm : Tm) {c : UInt8} (literal : c ≠ percent) (rest : List UInt8) :
    strftimeText tm (c :: rest) = (strftimeText tm rest).map (c :: ·) :=
  timeReader.printFormat_literal percent _ literal rest ()

theorem strftimeText_percent (tm : Tm) (c : UInt8) (rest : List UInt8) :
    strftimeText tm (percent :: c :: rest) =
      (replacement tm c).bind fun text => (strftimeText tm rest).map (text ++ ·) := by
  refine (timeReader.printFormat_marker percent _ (c :: rest) ()).trans ?_
  change (((replacement tm c).map (·, ())).bind _) = _
  cases replacement tm c <;> rfl

theorem strftimeText_lone (tm : Tm) : strftimeText tm [percent] = none :=
  timeReader.printFormat_marker percent _ [] ()

variable {tm : Tm} {remaining : Nat}

theorem cutOff_literal {c : UInt8} (literal : c ≠ percent) (rest : List UInt8) :
    CutOff tm remaining (c :: rest) ↔ 1 < remaining ∧ CutOff tm (remaining - 1) rest := by
  constructor
  · rintro ⟨front, text, split, printed, room⟩
    cases front with
    | nil => exact absurd (List.cons.inj split).1 literal
    | cons head front =>
        obtain ⟨rfl, rest⟩ := List.cons.inj split
        rw [strftimeText_literal tm literal] at printed
        obtain ⟨later, printedLater, rfl⟩ := Option.map_eq_some_iff.mp printed
        rw [List.length_cons] at room
        exact ⟨by omega, front, later, rest, printedLater, by omega⟩
  · rintro ⟨some, front, text, split, printed, room⟩
    refine ⟨c :: front, c :: text, by rw [split]; rfl, ?_, by rw [List.length_cons]; omega⟩
    rw [strftimeText_literal tm literal, printed]
    rfl

theorem cutOff_lone : CutOff tm remaining [percent] ↔ 1 < remaining := by
  constructor
  · rintro ⟨front, text, _, _, room⟩
    omega
  · intro room
    exact ⟨[], [], rfl, timeReader.printFormat_nil percent _ (), by simpa using room⟩

theorem cutOff_percent (c : UInt8) (rest : List UInt8) :
    CutOff tm remaining (percent :: c :: rest) ↔
      ∃ first, replacement tm c = some first ∧ first.length < remaining ∧
        CutOff tm (remaining - first.length) rest := by
  constructor
  · rintro ⟨front, text, split, printed, room⟩
    rcases front with _ | ⟨head, _ | ⟨second, front⟩⟩
    · cases (List.cons.inj split).2
    · obtain ⟨rfl, _⟩ := List.cons.inj split
      rw [strftimeText_lone] at printed
      cases printed
    · obtain ⟨rfl, tail⟩ := List.cons.inj split
      obtain ⟨rfl, rest⟩ := List.cons.inj tail
      rw [strftimeText_percent] at printed
      obtain ⟨first, here, printedRest⟩ := Option.bind_eq_some_iff.mp printed
      obtain ⟨later, printedLater, rfl⟩ := Option.map_eq_some_iff.mp printedRest
      rw [List.length_append] at room
      exact ⟨first, here, by omega, front, later, rest, printedLater, by omega⟩
  · rintro ⟨first, here, fits, front, text, split, printed, room⟩
    refine ⟨percent :: c :: front, first ++ text, by rw [split]; rfl, ?_, by rw [List.length_append]; omega⟩
    rw [strftimeText_percent, here, Option.bind_some, printed]
    rfl

/-- The loop of `strftime` goes on from a character where at least two places remain. -/
theorem strftimeNext_loop {c : UInt8} (nonzero : c ≠ 0) (room : 1 < remaining) :
    strftimeNext tm (.loop remaining) c = some (if c = percent then .specifier remaining else .loop (remaining - 1)) :=
  if_neg (by rintro (zero | full) <;> [exact nonzero zero; omega])

/-- It stops where only one place remains. -/
theorem strftimeNext_full (c : UInt8) (full : ¬ 1 < remaining) : strftimeNext tm (.loop remaining) c = none :=
  if_pos (.inr (by omega))

/-- `strftime` comes to the zero outside of its loop just where the format is cut off. -/
theorem scan_strftime {format : List UInt8} (nonzero : ∀ c ∈ format, c ≠ 0) :
    scan (strftimeNext tm) (.loop remaining) (format ++ [0]) = none ↔ ¬ CutOff tm remaining format := by
  induction format using timeReader.format_induction percent generalizing remaining with
  | nil =>
      have stops : scan (strftimeNext tm) (.loop remaining) [0] = none := rfl
      refine iff_of_true stops ?_
      rintro ⟨front, text, split, _, _⟩
      exact absurd split (by simp)
  | literal c rest literal ih =>
      rw [cutOff_literal literal, List.cons_append, scan]
      by_cases room : 1 < remaining
      · have later : scan (strftimeNext tm) (.loop (remaining - 1)) (rest ++ [0]) = none ↔ ¬ CutOff tm (remaining - 1) rest :=
          ih fun c member => nonzero c (List.mem_cons_of_mem _ member)
        rw [strftimeNext_loop (nonzero c List.mem_cons_self) room, if_neg literal, Option.bind_some, later]
        simp [room]
      · rw [strftimeNext_full c room]
        simp [room]
  | unreadable rest read =>
      cases rest with
      | cons c rest => cases read
      | nil =>
          rw [cutOff_lone, List.cons_append, scan]
          by_cases room : 1 < remaining
          · have reads : strftimeNext tm (.specifier remaining) 0 = some (.loop (remaining - 1)) :=
              if_neg (by simpa using room)
            rw [strftimeNext_loop (by decide) room, if_pos rfl, Option.bind_some, List.nil_append, scan, reads]
            simp [room, scan]
          · rw [strftimeNext_full percent room]
            simp [room]
  | directive rest c behind read ih =>
      cases rest with
      | nil => cases read
      | cons head tail =>
          obtain ⟨rfl, rfl⟩ := Prod.mk.inj (Option.some.inj read)
          have nonzeroLater : ∀ c ∈ tail, c ≠ 0 :=
            fun c member => nonzero c (List.mem_cons_of_mem _ (List.mem_cons_of_mem _ member))
          rw [cutOff_percent, List.cons_append, List.cons_append, scan]
          by_cases room : 1 < remaining
          · rw [strftimeNext_loop (by decide) room, if_pos rfl, Option.bind_some, scan, strftimeNext]
            cases replaced : replacement tm head with
            | none => simp
            | some first =>
                rw [Option.bind_some]
                by_cases fits : first.length < remaining
                · rw [if_neg (by omega), Option.bind_some, ih nonzeroLater]
                  simp [fits]
                · rw [if_pos (by omega)]
                  simp [fits]
          · rw [strftimeNext_full percent room]
            refine iff_of_true rfl ?_
            rintro ⟨first, _, _, front, text, _, _, more⟩
            omega

/-- `strftime`. -/
theorem strftimeReads_iff {memory : Nat → UInt8} {format : List UInt8} (isFormat : IsFormat memory format) (tm : Tm)
    (max : Nat) :
    (∀ pos, strftimeReads tm max memory pos → pos ≤ format.length) ↔ ¬ CutOff tm max format := by
  rw [← scan_strftime isFormat.nonzero]
  exact readsInside_iff isFormat.holds

/-- Each of the four reads a format inside of its bytes just when the format is complete: `vprintf`
with its flags and widths, `vsprintf` and `vsnprintf` without them, and `strftime` as far as its
buffer lets it come. -/
theorem formatReads_inside_iff {memory : Nat → UInt8} {format : List UInt8} (isFormat : IsFormat memory format)
    (tm : Tm) (max : Nat) :
    ((∀ pos, vprintfReads memory pos → pos ≤ format.length) ↔ PaddedComplete format) ∧
      ((∀ pos, vsprintfReads memory pos → pos ≤ format.length) ↔ Complete format) ∧
        ((∀ pos, vsnprintfReads memory pos → pos ≤ format.length) ↔ Complete format) ∧
          ((∀ pos, strftimeReads tm max memory pos → pos ≤ format.length) ↔ ¬ CutOff tm max format) :=
  ⟨paddedReads_iff isFormat, specifierReads_iff isFormat, specifierReads_iff isFormat,
    strftimeReads_iff isFormat tm max⟩

/-- `"%d"` is read inside of its bytes by the three printers. -/
theorem formatReads_inside_number :
    (∀ pos, vprintfReads (fun i => [percent, 0x64, 0].getD i 0x41) pos → pos ≤ 2) ∧
      (∀ pos, vsprintfReads (fun i => [percent, 0x64, 0].getD i 0x41) pos → pos ≤ 2) ∧
        (∀ pos, vsnprintfReads (fun i => [percent, 0x64, 0].getD i 0x41) pos → pos ≤ 2) :=
  have inside := formatReads_inside_iff (isFormat_getD (by simp [percent]) 0x41 : IsFormat _ [percent, 0x64])
    ⟨0, 0, 0, 1, 0, 126, 4, 0, 0⟩ 64
  ⟨inside.1.mpr (by decide +kernel), inside.2.1.mpr (by decide +kernel), inside.2.2.1.mpr (by decide +kernel)⟩

/-- All four read behind the zero of `"%"`. -/
theorem lone_percent_read_behind :
    IsFormat (fun i => [percent, 0].getD i 0x41) [percent] ∧
      vprintfReads (fun i => [percent, 0].getD i 0x41) 2 ∧ vsprintfReads (fun i => [percent, 0].getD i 0x41) 2 ∧
        vsnprintfReads (fun i => [percent, 0].getD i 0x41) 2 ∧
          strftimeReads ⟨0, 0, 0, 1, 0, 126, 4, 0, 0⟩ 64 (fun i => [percent, 0].getD i 0x41) 2 ∧
            ¬ 2 ≤ [percent].length :=
  ⟨(isFormat_getD (by simp [percent]) 0x41 : IsFormat _ [percent]), rfl, rfl, rfl, rfl, by decide⟩

end KeblaOS.Stdio
