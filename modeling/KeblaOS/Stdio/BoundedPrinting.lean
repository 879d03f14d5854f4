import KeblaOS.Lib.Stores
import KeblaOS.Stdio.Formatting

/-!
# Formatted output and the end of the buffer

`vsnprintf` on the memory that holds the buffer. With arguments that match the format it stores
the beginning of one text, whatever the size of the buffer, and a zero behind it, inside the
buffer, and returns the length of the whole text.
-/

namespace KeblaOS.Stdio

/-- The memory after a call: the characters from `buf` on, and the final zero at `out`, or in the
last place if none is left. -/
def Output.memory (out : Output) (memory : Nat → UInt8) (buf size : Nat) : Nat → UInt8 :=
  let stored := store memory buf out.stored
  if 0 < out.remaining then store stored (buf + out.stored.length) [0]
  else if 0 < size then store stored (buf + size - 1) [0]
  else stored

/-- `vsnprintf` on a buffer: the memory afterwards and the result. -/
def vsnprintfAt (memory : Nat → UInt8) (buf size : Nat) (format : List UInt8) (args : List Arg) :
    Option ((Nat → UInt8) × Int32) :=
  (formatLoop format args ⟨[], size, 0⟩).map fun out => (out.memory memory buf size, out.total)

/-! ## Matching arguments -/

/-- The arguments that a conversion leaves: a number for a number or a character, a string for a
string. -/
def Conversion.argsLeft : Conversion → List Arg → Option (List Arg)
  | .signed _, .number _ :: args => some args
  | .unsigned _, .number _ :: args => some args
  | .char, .number _ :: args => some args
  | .string, .string _ :: args => some args
  | .unknown _, args => some args
  | .nothing, args => some args
  | _, _ => none

/-- The arguments match the items of a format. -/
def ArgsMatch : List (UInt8 ⊕ Conversion) → List Arg → Prop
  | [], _ => True
  | .inl _ :: items, args => ArgsMatch items args
  | .inr conversion :: items, args => ∃ rest, conversion.argsLeft args = some rest ∧ ArgsMatch items rest

/-- The format does not end inside a conversion, and the arguments match it. -/
def Matching (format : List UInt8) (args : List Arg) : Prop :=
  ∃ items, conversionReader.items percent format = some items ∧ ArgsMatch items args

/-- A conversion with a matching argument has a text. -/
theorem conversionText_of_argsLeft {conversion : Conversion} {args rest : List Arg}
    (left : conversion.argsLeft args = some rest) : ∃ text, conversionText conversion args = some (text, rest) := by
  cases conversion with
  | signed width =>
      rcases args with _ | ⟨bits | chars, args⟩
      · cases left
      · obtain rfl := Option.some.inj left
        exact ⟨_, rfl⟩
      · cases left
  | unsigned width =>
      rcases args with _ | ⟨bits | chars, args⟩
      · cases left
      · obtain rfl := Option.some.inj left
        exact ⟨_, rfl⟩
      · cases left
  | char =>
      rcases args with _ | ⟨bits | chars, args⟩
      · cases left
      · obtain rfl := Option.some.inj left
        exact ⟨_, rfl⟩
      · cases left
  | string =>
      rcases args with _ | ⟨bits | chars, args⟩
      · cases left
      · cases left
      · obtain rfl := Option.some.inj left
        exact ⟨_, rfl⟩
  | unknown c =>
      obtain rfl := Option.some.inj left
      exact ⟨_, rfl⟩
  | nothing =>
      obtain rfl := Option.some.inj left
      exact ⟨_, rfl⟩

/-- A format with matching arguments has a text. -/
theorem Matching.formatted {format : List UInt8} {args : List Arg} (matching : Matching format args) :
    ∃ text, formatted format args = some text := by
  obtain ⟨items, read, itemsMatch⟩ := matching
  rw [formatted_eq, DirectiveReader.printFormat_eq, read, Option.bind_some]
  clear read
  induction items generalizing args with
  | nil => exact ⟨[], rfl⟩
  | cons item items ih =>
      cases item with
      | inl c =>
          obtain ⟨text, printed⟩ := ih itemsMatch
          exact ⟨c :: text, printItems_literal printed c⟩
      | inr conversion =>
          obtain ⟨rest, left, later⟩ := itemsMatch
          obtain ⟨first, here⟩ := conversionText_of_argsLeft left
          obtain ⟨text, printed⟩ := ih later
          exact ⟨first ++ text, printItems_directive here printed⟩

/-! ## Calls -/

/-- What a call leaves that has the text and a buffer of the size: the result counts the whole text,
nothing outside of the buffer changes, and a buffer of at least one byte holds as much of the text
as there is room for in front of a final zero. -/
structure BoundedOutput (text : List UInt8) (memory : Nat → UInt8) (buf size : Nat) (memory' : Nat → UInt8)
    (result : Int32) : Prop where
  result : result.toInt = text.length
  outside : ∀ i, i < buf ∨ buf + size ≤ i → memory' i = memory i
  contents : 1 ≤ size → Holds (fun i => memory' (buf + i)) (text.take (min text.length (size - 1)) ++ [0])

/-- The text and the result of a call for a buffer without limit: every buffer with room for the
text and a final zero gets them. -/
def UnlimitedOutput (format : List UInt8) (args : List Arg) (text : List UInt8) (result : Int32) : Prop :=
  ∀ memory buf limit, text.length < limit →
    ∃ memory', vsnprintfAt memory buf limit format args = some (memory', result) ∧
      Holds (fun i => memory' (buf + i)) (text ++ [0])

variable {memory : Nat → UInt8} {buf size : Nat} {text : List UInt8}

/-- The output behind a text. -/
theorem emit_start (size : Nat) (text : List UInt8) :
    Output.emit ⟨[], size, 0⟩ text =
      ⟨text.take (size - 1), size - min text.length (size - 1), Int32.ofNat text.length⟩ := by
  simp [Output.emit]

/-- A buffer of at least one byte holds the beginning of the text and a zero. -/
theorem holds_emit (room : 1 ≤ size) :
    Holds (fun i => (Output.emit ⟨[], size, 0⟩ text).memory memory buf size (buf + i))
      (text.take (size - 1) ++ [0]) := by
  have left : 0 < size - min text.length (size - 1) := by omega
  have start : Holds (fun i => memory (buf + i)) ([] : List UInt8) := by
    intro i value there
    cases there
  have chars : Holds (fun i => store memory buf (text.take (size - 1)) (buf + i)) (text.take (size - 1)) := by
    have stored : Holds (store (fun i => memory (buf + i)) 0 (text.take (size - 1))) ([] ++ text.take (size - 1)) :=
      start.storeNext
    intro i value there
    rw [← stored i value there]
    exact store_shift memory buf 0 _ i
  have zero : Holds (store (fun i => store memory buf (text.take (size - 1)) (buf + i)) (text.take (size - 1)).length [0])
      (text.take (size - 1) ++ [0]) := chars.storeNext
  rw [emit_start]
  intro i value there
  rw [← zero i value there]
  simp only [Output.memory, if_pos left]
  exact store_shift _ buf _ _ i

/-- Nothing outside of the buffer changes. -/
theorem emit_outside {i : Nat} (outside : i < buf ∨ buf + size ≤ i) :
    (Output.emit ⟨[], size, 0⟩ text).memory memory buf size i = memory i := by
  have short : (text.take (size - 1)).length ≤ size - 1 := List.length_take_le _ _
  have chars : store memory buf (text.take (size - 1)) i = memory i := by
    apply store_of_not_covers
    rintro ⟨above, below⟩
    dsimp only at above below
    omega
  rw [emit_start]
  unfold Output.memory
  dsimp only
  split_ifs with left more
  · rw [store_of_not_covers, chars]
    rintro ⟨above, below⟩
    simp only [List.length_singleton] at above below
    omega
  · omega
  · exact chars

theorem vsnprintfAt_eq {format : List UInt8} {args : List Arg} (printed : formatted format args = some text)
    (memory : Nat → UInt8) (buf size : Nat) :
    vsnprintfAt memory buf size format args =
      some ((Output.emit ⟨[], size, 0⟩ text).memory memory buf size, Int32.ofNat text.length) := by
  rw [vsnprintfAt, formatLoop_eq, printed, Option.map_some, Option.map_some, emit_start]

/-- For every format with matching arguments there is the text of an unlimited buffer. If it is
shorter than 2³¹ characters, every call returns its length, stays inside the buffer and leaves the
beginning of the text there with a zero behind it. -/
theorem vsnprintf_bounded {format : List UInt8} {args : List Arg} (matching : Matching format args) :
    ∃ text result, UnlimitedOutput format args text result ∧
      (text.length < 2 ^ 31 → ∀ memory buf size,
        ∃ memory', vsnprintfAt memory buf size format args = some (memory', result) ∧
          BoundedOutput text memory buf size memory' result) := by
  obtain ⟨text, printed⟩ := matching.formatted
  refine ⟨text, Int32.ofNat text.length, ?_, ?_⟩
  · intro memory buf limit room
    refine ⟨_, vsnprintfAt_eq printed memory buf limit, ?_⟩
    have holds := @holds_emit memory buf limit text (by omega)
    rw [List.take_of_length_le (by omega)] at holds
    exact holds
  · intro short memory buf size
    refine ⟨_, vsnprintfAt_eq printed memory buf size, ?_, fun i => emit_outside, fun room => ?_⟩
    · exact Int32.toInt_ofNat_of_lt short
    · rw [← List.take_take, List.take_of_length_le (List.length_take_le' _ _)]
      exact holds_emit room

/-- The text of a call for a buffer without limit is the one of the format, when that has no zero in it. -/
theorem UnlimitedOutput.eq_formatted {format : List UInt8} {args : List Arg} {text text' : List UInt8} {result : Int32}
    (unlimited : UnlimitedOutput format args text result) (printed : formatted format args = some text')
    (nonzero : 0 ∉ text') : text = text' ∧ result = Int32.ofNat text'.length := by
  -- no byte of the buffer is zero before the call
  let limit := max text.length text'.length + 1
  obtain ⟨memory', returned, holds⟩ := unlimited (fun _ => 1) 0 limit (by omega)
  obtain ⟨rfl, rfl⟩ := Prod.mk.inj (Option.some.inj ((vsnprintfAt_eq printed (fun _ => 1) 0 limit).symm.trans returned))
  refine ⟨?_, rfl⟩
  have whole : text'.take (limit - 1) = text' := List.take_of_length_le (by omega)
  have stored := @holds_emit (fun _ => 1) 0 limit text' (by omega)
  rw [whole] at stored
  have behind : ∀ i, text'.length < i →
      (Output.emit ⟨[], limit, 0⟩ text').memory (fun _ => 1) 0 limit (0 + i) = 1 := by
    intro i beyond
    rw [emit_start, whole]
    unfold Output.memory
    dsimp only
    rw [if_pos (by omega), store_of_not_covers, store_of_not_covers]
    · rintro ⟨_, below⟩
      dsimp only at below
      omega
    · rintro ⟨_, below⟩
      simp only [List.length_singleton] at below
      omega
  have ends : ∀ text : List UInt8, (text ++ [0])[text.length]? = some 0 := fun text => List.getElem?_concat_length
  have last := holds text.length 0 (ends text)
  have length : text.length = text'.length := by
    rcases Nat.lt_trichotomy text.length text'.length with shorter | same | longer
    · have there : (text' ++ [0])[text.length]? = some text'[text.length] := by
        rw [List.getElem?_append_left shorter, List.getElem?_eq_getElem shorter]
      have value := (stored text.length _ there).symm.trans last
      exact absurd (value ▸ List.getElem_mem shorter) nonzero
    · exact same
    · exact absurd ((behind text.length longer).symm.trans last) (by decide)
  refine List.ext_getElem length fun i here there => ?_
  have first : (text ++ [0])[i]? = some text[i] := by
    rw [List.getElem?_append_left here, List.getElem?_eq_getElem here]
  have second : (text' ++ [0])[i]? = some text'[i] := by
    rw [List.getElem?_append_left there, List.getElem?_eq_getElem there]
  exact (holds i _ first).symm.trans (stored i _ second)

/-- `"%d"` with 7, and into a buffer of one byte. -/
theorem vsnprintf_bounded_seven :
    UnlimitedOutput [percent, 0x64] [.number 7] [0x37] 1 ∧
      ∀ memory buf, ∃ memory', vsnprintfAt memory buf 1 [percent, 0x64] [.number 7] = some (memory', 1) ∧
        BoundedOutput [0x37] memory buf 1 memory' 1 := by
  have matching : Matching [percent, 0x64] [.number 7] := ⟨[.inr (.signed 32)], by
    rw [DirectiveReader.items_marker]
    change ((conversionReader.items percent []).map _) = _
    rw [DirectiveReader.items_nil]
    rfl, [], rfl, trivial⟩
  have printed : formatted [percent, 0x64] [.number 7] = some [0x37] := by decide +kernel
  obtain ⟨text, result, unlimited, bounded⟩ := vsnprintf_bounded matching
  obtain ⟨rfl, rfl⟩ := unlimited.eq_formatted printed (by decide)
  exact ⟨unlimited, fun memory buf => bounded (by decide) memory buf 1⟩

end KeblaOS.Stdio
