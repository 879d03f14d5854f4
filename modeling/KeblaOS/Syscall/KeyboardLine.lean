import KeblaOS.Lib.Stores

/-!
# The line that is typed

The loop of `INT_SYSCALL_KEYBOARD_READ` edits a line in memory with one byte after the other. It does so as a line is
edited, but for two characters: its filters for the shift keys compare the character with their scan codes.
-/

namespace KeblaOS.Syscall

/-! ## Bytes -/

/-- What the loop does with a byte: memory from `user_buf` on and `read_count` behind it, or nothing when the byte ends
the line. -/
def readByte (memory : Nat → UInt8) (readCount : Nat) (ch : UInt8) : Option ((Nat → UInt8) × Nat) :=
  if ch = 0x0A ∨ ch = 0x0D then none
  else if ch = 0x08 then some (memory, if 0 < readCount then readCount - 1 else readCount)
  else if ch < 32 ∨ 126 < ch then some (memory, readCount)
  else if ch = 0x1D then some (memory, readCount)
  else if ch.toUInt32 = 0xFFFFFFFF then some (memory, readCount)
  else if ch = 0x36 then some (memory, readCount)
  else if ch = 0x2A then some (memory, readCount)
  else some (store memory readCount [ch], readCount + 1)

/-- The loop with the bytes in a list: memory, `read_count` and the number of bytes taken behind it, unless there are too
few. -/
def readBytes (size : Nat) : List UInt8 → (Nat → UInt8) → Nat → Nat → Option ((Nat → UInt8) × Nat × Nat)
  | [], memory, readCount, taken => if readCount < size - 1 then none else some (memory, readCount, taken)
  | ch :: bytes, memory, readCount, taken =>
      if readCount < size - 1 then
        match readByte memory readCount ch with
        | none => some (memory, readCount, taken + 1)
        | some (memory, readCount) => readBytes size bytes memory readCount (taken + 1)
      else some (memory, readCount, taken)

/-! ## Lines -/

/-- What a byte does to a line; nothing when it ends the line. -/
def editByte (line : List UInt8) (ch : UInt8) : Option (List UInt8) :=
  if ch = 0x0A ∨ ch = 0x0D then none
  else if ch = 0x08 then some line.dropLast
  else if 32 ≤ ch ∧ ch ≤ 126 then some (line ++ [ch])
  else some line

/-- The line that is typed with these bytes, with the number of bytes that belong to it; nothing while it is not
complete. It is complete at the end of a line or with `limit` characters. -/
def typedLine (limit : Nat) : List UInt8 → Nat → List UInt8 → Option (List UInt8 × Nat)
  | line, taken, [] => if line.length < limit then none else some (line, taken)
  | line, taken, ch :: bytes =>
      if line.length < limit then
        match editByte line ch with
        | none => some (line, taken + 1)
        | some line => typedLine limit line (taken + 1) bytes
      else some (line, taken)

/-- A character that is taken for a shift key. -/
def IsShiftCode (ch : UInt8) : Prop := ch = 0x36 ∨ ch = 0x2A

instance decidableIsShiftCode (ch : UInt8) : Decidable (IsShiftCode ch) := inferInstanceAs (Decidable (_ ∨ _))

/-- Whether, when the line is complete, a `'6'` or `'*'` has been typed since it was last empty: with the length of the
line so far and whether there has been one. -/
def shiftCodeTyped (limit : Nat) : Nat → Bool → List UInt8 → Bool
  | length, typed, [] => if length < limit then false else typed
  | length, typed, ch :: bytes =>
      if length < limit then
        if ch = 0x0A ∨ ch = 0x0D then typed
        else if ch = 0x08 then shiftCodeTyped limit (length - 1) (if length - 1 = 0 then false else typed) bytes
        else if 32 ≤ ch ∧ ch ≤ 126 then shiftCodeTyped limit (length + 1) (typed || decide (IsShiftCode ch)) bytes
        else shiftCodeTyped limit length typed bytes
      else typed

/-! ## The line in memory -/

section Line

variable {size limit : Nat} {memory : Nat → UInt8} {line : List UInt8} {readCount taken : Nat}

/-- The bytes of memory are those of the line, unless a character was left out since it was last empty; then there are
fewer. -/
structure Follows (memory : Nat → UInt8) (readCount : Nat) (line : List UInt8) (typed : Bool) : Prop where
  same : typed = false → readCount = line.length ∧ Holds memory line
  fewer : typed = true → readCount < line.length

theorem Follows.le {typed : Bool} (follows : Follows memory readCount line typed) : readCount ≤ line.length := by
  cases typed with
  | false => exact (follows.same rfl).1.le
  | true => exact (follows.fewer rfl).le

theorem follows_nothing : Follows memory 0 [] false :=
  ⟨fun _ => ⟨rfl, fun _ value impossible => absurd impossible (Option.some_ne_none value).symm⟩,
    fun impossible => absurd impossible Bool.false_ne_true⟩

/-- A complete line is complete with every list of bytes. -/
theorem readBytes_complete {readCount : Nat} (complete : ¬ readCount < size - 1) (bytes : List UInt8)
    (memory : Nat → UInt8) (taken : Nat) :
    readBytes size bytes memory readCount taken = some (memory, readCount, taken) := by
  cases bytes <;> rw [readBytes, if_neg complete]

/-- A result of the loop and the line that is typed. -/
def Agrees : Option (List UInt8 × Nat) → Option ((Nat → UInt8) × Nat × Nat) → Prop
  | none, none => True
  | some (line, taken), some (memory, readCount, taken') =>
      Holds memory line ∧ readCount = line.length ∧ taken' = taken
  | _, _ => False

/-- Bytes that are read are taken. -/
theorem readBytes_taken {bytes : List UInt8} {outcome : (Nat → UInt8) × Nat × Nat}
    (returned : readBytes size bytes memory readCount taken = some outcome) : taken ≤ outcome.2.2 := by
  induction bytes generalizing memory readCount taken with
  | nil =>
      rw [readBytes] at returned
      split_ifs at returned
      obtain rfl := Option.some.inj returned
      exact Nat.le_refl _
  | cons ch bytes ih =>
      rw [readBytes] at returned
      split_ifs at returned
      · cases read : readByte memory readCount ch with
        | none =>
            rw [read] at returned
            obtain rfl := Option.some.inj returned
            exact Nat.le_succ _
        | some state =>
            rw [read] at returned
            exact Nat.le_of_succ_le (ih returned)
      · obtain rfl := Option.some.inj returned
        exact Nat.le_refl _

/-- The filters together: only the characters that are no shift codes are stored. -/
theorem readByte_eq (memory : Nat → UInt8) (readCount : Nat) (ch : UInt8) :
    readByte memory readCount ch =
      if ch = 0x0A ∨ ch = 0x0D then none
      else if ch = 0x08 then some (memory, readCount - 1)
      else if (32 ≤ ch ∧ ch ≤ 126) ∧ ¬ IsShiftCode ch then some (store memory readCount [ch], readCount + 1)
      else some (memory, readCount) := by
  unfold readByte
  by_cases ends : ch = 0x0A ∨ ch = 0x0D
  · rw [if_pos ends, if_pos ends]
  · rw [if_neg ends, if_neg ends]
    by_cases back : ch = 0x08
    · rw [if_pos back, if_pos back]
      congr 2
      split_ifs with some_char
      · rfl
      · omega
    · rw [if_neg back, if_neg back]
      by_cases other : ch < 32 ∨ 126 < ch
      · have outside : ¬ (32 ≤ ch ∧ ch ≤ 126) := by
          rintro ⟨above, below⟩
          rcases other with low | high
          · exact UInt8.not_lt.mpr above low
          · exact UInt8.not_lt.mpr below high
        rw [if_pos other, if_neg fun printable => outside printable.1]
      · have inside : 32 ≤ ch ∧ ch ≤ 126 :=
          ⟨UInt8.not_lt.mp fun low => other (.inl low), UInt8.not_lt.mp fun high => other (.inr high)⟩
        have noCtrl : ch ≠ 0x1D := by
          rintro rfl
          exact absurd inside.1 (by decide)
        have valid : ch.toUInt32 ≠ 0xFFFFFFFF := by
          intro invalid
          have bound := ch.toNat_lt
          have number := congrArg UInt32.toNat invalid
          simp only [UInt8.toNat_toUInt32, UInt32.reduceToNat] at number
          omega
        rw [if_neg other, if_neg noCtrl, if_neg valid]
        by_cases right : ch = 0x36
        · rw [if_pos right, if_neg fun printable => printable.2 (.inl right)]
        · rw [if_neg right]
          by_cases left : ch = 0x2A
          · rw [if_pos left, if_neg fun printable => printable.2 (.inr left)]
          · have noShift : ¬ IsShiftCode ch := fun shift => shift.elim right left
            rw [if_neg left, if_pos ⟨inside, noShift⟩]

/-- Whether a shift code has been typed since the line was last empty, behind one more byte that does not end it. -/
def typedBehind (length : Nat) (typed : Bool) (ch : UInt8) : Bool :=
  if ch = 0x08 then if length - 1 = 0 then false else typed
  else if 32 ≤ ch ∧ ch ≤ 126 then typed || decide (IsShiftCode ch)
  else typed

theorem Follows.backspace {typed : Bool} (follows : Follows memory readCount line typed) :
    Follows memory (readCount - 1) line.dropLast (if line.length - 1 = 0 then false else typed) := by
  have short := follows.le
  constructor
  · intro clean
    rw [List.length_dropLast]
    by_cases empty : line.length - 1 = 0
    · refine ⟨by omega, ?_⟩
      rw [List.dropLast_eq_take, empty, List.take_zero]
      exact fun i value impossible => absurd impossible (Option.some_ne_none value).symm
    · rw [if_neg empty] at clean
      obtain ⟨count, holds⟩ := follows.same clean
      refine ⟨by omega, ?_⟩
      rw [List.dropLast_eq_take]
      exact holds.take _
  · intro dirty
    rw [List.length_dropLast]
    by_cases empty : line.length - 1 = 0
    · rw [if_pos empty] at dirty
      exact absurd dirty Bool.false_ne_true
    · rw [if_neg empty] at dirty
      have fewer := follows.fewer dirty
      omega

theorem Follows.shiftCode {typed : Bool} (follows : Follows memory readCount line typed) (ch : UInt8) :
    Follows memory readCount (line ++ [ch]) true := by
  have short := follows.le
  refine ⟨fun impossible => absurd impossible.symm Bool.false_ne_true, fun _ => ?_⟩
  rw [List.length_append, List.length_singleton]
  omega

theorem Follows.character {typed : Bool} (follows : Follows memory readCount line typed) (ch : UInt8) :
    Follows (store memory readCount [ch]) (readCount + 1) (line ++ [ch]) typed := by
  constructor
  · intro clean
    obtain ⟨rfl, holds⟩ := follows.same clean
    exact ⟨by rw [List.length_append, List.length_singleton], holds.storeNext⟩
  · intro dirty
    have fewer := follows.fewer dirty
    rw [List.length_append, List.length_singleton]
    omega

/-- A byte that does not end the line. -/
theorem Follows.step {typed : Bool} (follows : Follows memory readCount line typed) {ch : UInt8}
    (goes_on : ¬ (ch = 0x0A ∨ ch = 0x0D)) : ∃ memory' readCount' line',
      readByte memory readCount ch = some (memory', readCount') ∧ editByte line ch = some line' ∧
      Follows memory' readCount' line' (typedBehind line.length typed ch) := by
  rw [readByte_eq, if_neg goes_on, editByte, if_neg goes_on, typedBehind]
  by_cases back : ch = 0x08
  · rw [if_pos back, if_pos back, if_pos back]
    exact ⟨_, _, _, rfl, rfl, follows.backspace⟩
  · rw [if_neg back, if_neg back, if_neg back]
    by_cases printable : 32 ≤ ch ∧ ch ≤ 126
    · rw [if_pos printable, if_pos printable]
      by_cases shift : IsShiftCode ch
      · rw [if_neg fun stored => stored.2 shift, decide_eq_true shift, Bool.or_true]
        exact ⟨_, _, _, rfl, rfl, follows.shiftCode ch⟩
      · rw [if_pos ⟨printable, shift⟩, decide_eq_false shift, Bool.or_false]
        exact ⟨_, _, _, rfl, rfl, follows.character ch⟩
    · rw [if_neg fun stored => printable stored.1, if_neg printable, if_neg printable]
      exact ⟨_, _, _, rfl, rfl, follows⟩

/-- The length of the line behind a byte. -/
theorem shiftCodeTyped_cons {typed : Bool} {ch : UInt8} {bytes line' : List UInt8}
    (room : line.length < limit) (goes_on : ¬ (ch = 0x0A ∨ ch = 0x0D)) (edited : editByte line ch = some line') :
    shiftCodeTyped limit line.length typed (ch :: bytes) =
      shiftCodeTyped limit line'.length (typedBehind line.length typed ch) bytes := by
  rw [editByte, if_neg goes_on] at edited
  rw [shiftCodeTyped, if_pos room, if_neg goes_on, typedBehind]
  by_cases back : ch = 0x08
  · rw [if_pos back] at edited
    obtain rfl := Option.some.inj edited
    rw [if_pos back, if_pos back, List.length_dropLast]
  · rw [if_neg back] at edited
    rw [if_neg back, if_neg back]
    by_cases printable : 32 ≤ ch ∧ ch ≤ 126
    · rw [if_pos printable] at edited
      obtain rfl := Option.some.inj edited
      rw [if_pos printable, if_pos printable, List.length_append, List.length_singleton]
    · rw [if_neg printable] at edited
      obtain rfl := Option.some.inj edited
      rw [if_neg printable, if_neg printable]

/-- A byte that does not end the line adds one character at most. -/
theorem length_editByte {line line' : List UInt8} (edited : editByte line ch = some line') :
    line'.length ≤ line.length + 1 := by
  unfold editByte at edited
  split_ifs at edited <;> obtain rfl := Option.some.inj edited
  · rw [List.length_dropLast]
    omega
  · rw [List.length_append, List.length_singleton]
  · omega

/-- With room left, the loop takes another byte, and so does not agree with a line that is complete. -/
theorem not_agrees_of_room {line : List UInt8} (room : readCount < size - 1) (ch : UInt8) (bytes : List UInt8) :
    ¬ Agrees (some (line, taken)) (readBytes size (ch :: bytes) memory readCount taken) := by
  intro agrees
  rw [readBytes, if_pos room] at agrees
  cases read : readByte memory readCount ch with
  | none =>
      rw [read] at agrees
      exact absurd agrees.2.2 (by omega)
  | some state =>
      rw [read] at agrees
      dsimp only at agrees
      cases returned : readBytes size bytes state.1 state.2 (taken + 1) with
      | none =>
          rw [returned] at agrees
          exact agrees
      | some outcome =>
          rw [returned] at agrees
          have later := readBytes_taken returned
          obtain ⟨_, _, all⟩ := agrees
          rw [all] at later
          exact absurd later (Nat.not_succ_le_self taken)

/-- The loop agrees with the line that is typed exactly when no shift code has been typed since it was last empty. -/
theorem agrees_iff {typed : Bool} (follows : Follows memory readCount line typed) (within : line.length ≤ size - 1)
    (bytes : List UInt8) :
    Agrees (typedLine (size - 1) line taken bytes) (readBytes size bytes memory readCount taken) ↔
      shiftCodeTyped (size - 1) line.length typed bytes = false := by
  induction bytes generalizing memory readCount line typed taken with
  | nil =>
      have short := follows.le
      rw [typedLine, readBytes, shiftCodeTyped]
      by_cases room : line.length < size - 1
      · rw [if_pos room, if_pos room, if_pos (by omega)]
        exact iff_of_true trivial rfl
      · rw [if_neg room, if_neg room]
        cases typed with
        | false =>
            obtain ⟨count, holds⟩ := follows.same rfl
            rw [if_neg (by omega)]
            exact iff_of_true ⟨holds, count, rfl⟩ rfl
        | true =>
            have fewer := follows.fewer rfl
            rw [if_pos (by omega)]
            exact iff_of_false id (fun impossible => Bool.false_ne_true impossible.symm)
  | cons ch bytes ih =>
      have short := follows.le
      by_cases room : line.length < size - 1
      · by_cases ends : ch = 0x0A ∨ ch = 0x0D
        · rw [typedLine, readBytes, shiftCodeTyped, if_pos room, if_pos (by omega), if_pos room, if_pos ends, editByte,
            if_pos ends, readByte, if_pos ends]
          constructor
          · rintro ⟨_, count, _⟩
            cases typed with
            | false => rfl
            | true => exact absurd (follows.fewer rfl) (by omega)
          · intro clean
            obtain ⟨count, holds⟩ := follows.same clean
            exact ⟨holds, count, rfl⟩
        · obtain ⟨memory', readCount', line', read, edited, follows'⟩ := follows.step ends
          have within' : line'.length ≤ size - 1 := by
            have grows := length_editByte edited
            omega
          rw [shiftCodeTyped_cons room ends edited, typedLine, readBytes, if_pos room, if_pos (by omega), edited, read]
          exact ih follows' within'
      · rw [typedLine, if_neg room, shiftCodeTyped, if_neg room]
        cases typed with
        | false =>
            obtain ⟨count, holds⟩ := follows.same rfl
            rw [readBytes_complete (by omega)]
            exact iff_of_true ⟨holds, count, rfl⟩ rfl
        | true =>
            have fewer := follows.fewer rfl
            exact iff_of_false (not_agrees_of_room (by omega) ch bytes)
              (fun impossible => Bool.false_ne_true impossible.symm)

/-- The loop stores characters in front of the last place only. -/
theorem readBytes_frame {bytes : List UInt8} {outcome : (Nat → UInt8) × Nat × Nat} (within : readCount ≤ size - 1)
    (returned : readBytes size bytes memory readCount taken = some outcome) :
    outcome.2.1 ≤ size - 1 ∧ ∀ i, size - 1 ≤ i → outcome.1 i = memory i := by
  induction bytes generalizing memory readCount taken with
  | nil =>
      rw [readBytes] at returned
      split_ifs at returned
      obtain rfl := Option.some.inj returned
      exact ⟨within, fun _ _ => rfl⟩
  | cons ch bytes ih =>
      rw [readBytes] at returned
      by_cases room : readCount < size - 1
      · rw [if_pos room, readByte_eq] at returned
        split_ifs at returned
        · obtain rfl := Option.some.inj returned
          exact ⟨within, fun _ _ => rfl⟩
        · exact ih (by omega) returned
        · obtain ⟨count, kept⟩ := ih (by omega) returned
          refine ⟨count, fun i behind => (kept i behind).trans (store_of_not_covers fun covers => ?_)⟩
          have under := covers.2
          dsimp only [List.length_singleton] at under
          omega
        · exact ih within returned
      · rw [if_neg room] at returned
        obtain rfl := Option.some.inj returned
        exact ⟨within, fun _ _ => rfl⟩

/-- A line is not longer than its limit. -/
theorem length_typedLine {bytes : List UInt8} {outcome : List UInt8 × Nat} (within : line.length ≤ limit)
    (complete : typedLine limit line taken bytes = some outcome) : outcome.1.length ≤ limit := by
  induction bytes generalizing line taken with
  | nil =>
      rw [typedLine] at complete
      split_ifs at complete
      obtain rfl := Option.some.inj complete
      exact within
  | cons ch bytes ih =>
      rw [typedLine] at complete
      by_cases room : line.length < limit
      · rw [if_pos room, editByte] at complete
        split_ifs at complete
        · obtain rfl := Option.some.inj complete
          exact within
        · exact ih (by rw [List.length_dropLast]; omega) complete
        · exact ih (by rw [List.length_append, List.length_singleton]; omega) complete
        · exact ih within complete
      · rw [if_neg room] at complete
        obtain rfl := Option.some.inj complete
        exact within

/-- The final zero behind a line. -/
theorem holds_zero_iff (count : readCount = line.length) :
    Holds (store memory readCount [0]) (line ++ [0]) ↔ Holds memory line := by
  subst count
  constructor
  · intro whole i value there
    have inside := (List.getElem?_eq_some_iff.mp there).1
    have kept : store memory line.length [(0 : UInt8)] i = memory i :=
      store_of_not_covers fun covers => absurd covers.1 (Nat.not_le.mpr inside)
    rw [← kept]
    apply whole
    rw [List.getElem?_append_left inside, there]
  · exact fun holds => holds.storeNext

end Line

/-! ## More bytes -/

section More

variable {size limit : Nat} {memory : Nat → UInt8} {line bytes bytes' : List UInt8} {readCount taken : Nat}

/-- Bytes behind a complete line do not belong to it. -/
theorem typedLine_extends {outcome : List UInt8 × Nat} (before : bytes <+: bytes')
    (complete : typedLine limit line taken bytes = some outcome) : typedLine limit line taken bytes' = some outcome := by
  obtain ⟨more, rfl⟩ := before
  induction bytes generalizing line taken with
  | nil =>
      rw [typedLine] at complete
      split_ifs at complete with room
      cases more with
      | nil => rw [List.nil_append, typedLine, if_neg room, complete]
      | cons ch more => rw [List.nil_append, typedLine, if_neg room, complete]
  | cons ch bytes ih =>
      rw [typedLine] at complete
      rw [List.cons_append, typedLine]
      by_cases room : line.length < limit
      · rw [if_pos room] at complete ⊢
        cases edited : editByte line ch with
        | none =>
            rw [edited] at complete
            exact complete
        | some line' =>
            rw [edited] at complete
            exact ih complete
      · rw [if_neg room] at complete ⊢
        exact complete

/-- While the line is not complete, no shift code counts; behind it none does. -/
theorem shiftCodeTyped_extends {typed : Bool} (before : bytes <+: bytes') :
    (typedLine limit line taken bytes = none → shiftCodeTyped limit line.length typed bytes = false) ∧
      (typedLine limit line taken bytes ≠ none →
        shiftCodeTyped limit line.length typed bytes' = shiftCodeTyped limit line.length typed bytes) := by
  obtain ⟨more, rfl⟩ := before
  induction bytes generalizing line taken typed with
  | nil =>
      rw [typedLine, shiftCodeTyped]
      by_cases room : line.length < limit
      · rw [if_pos room, if_pos room]
        exact ⟨fun _ => rfl, fun impossible => absurd rfl impossible⟩
      · rw [if_neg room, if_neg room]
        refine ⟨fun impossible => absurd impossible (Option.some_ne_none _), fun _ => ?_⟩
        cases more <;> rw [List.nil_append, shiftCodeTyped, if_neg room]
  | cons ch bytes ih =>
      rw [List.cons_append, typedLine]
      by_cases room : line.length < limit
      · rw [if_pos room]
        by_cases ends : ch = 0x0A ∨ ch = 0x0D
        · rw [editByte, if_pos ends, shiftCodeTyped, if_pos room, if_pos ends, shiftCodeTyped, if_pos room, if_pos ends]
          exact ⟨fun impossible => absurd impossible (Option.some_ne_none _), fun _ => rfl⟩
        · cases edited : editByte line ch with
          | none =>
              rw [editByte, if_neg ends] at edited
              split_ifs at edited
          | some line' =>
              rw [shiftCodeTyped_cons room ends edited, shiftCodeTyped_cons room ends edited]
              exact ih
      · rw [if_neg room, shiftCodeTyped, if_neg room, shiftCodeTyped, if_neg room]
        exact ⟨fun impossible => absurd impossible (Option.some_ne_none _), fun _ => rfl⟩

theorem readBytes_extends {outcome : (Nat → UInt8) × Nat × Nat} (before : bytes <+: bytes')
    (returned : readBytes size bytes memory readCount taken = some outcome) :
    readBytes size bytes' memory readCount taken = some outcome := by
  obtain ⟨more, rfl⟩ := before
  induction bytes generalizing memory readCount taken with
  | nil =>
      rw [readBytes] at returned
      split_ifs at returned with room
      rw [List.nil_append, readBytes_complete room, returned]
  | cons ch bytes ih =>
      rw [readBytes] at returned
      rw [List.cons_append, readBytes]
      by_cases room : readCount < size - 1
      · rw [if_pos room] at returned ⊢
        cases read : readByte memory readCount ch with
        | none =>
            rw [read] at returned
            exact returned
        | some state =>
            rw [read] at returned
            exact ih returned
      · rw [if_neg room] at returned ⊢
        exact returned

/-- The loop takes at least the bytes of the line. -/
theorem taken_le {typed : Bool} {line' : List UInt8} {taken' : Nat} {outcome : (Nat → UInt8) × Nat × Nat}
    (follows : Follows memory readCount line typed)
    (complete : typedLine (size - 1) line taken bytes = some (line', taken'))
    (returned : readBytes size bytes memory readCount taken = some outcome) : taken' ≤ outcome.2.2 := by
  induction bytes generalizing memory readCount line typed taken with
  | nil =>
      have at_least := readBytes_taken returned
      rw [typedLine] at complete
      split_ifs at complete
      obtain ⟨_, rfl⟩ := Prod.mk.inj (Option.some.inj complete)
      exact at_least
  | cons ch bytes ih =>
      have short := follows.le
      have at_least := readBytes_taken returned
      rw [typedLine] at complete
      by_cases room : line.length < size - 1
      · rw [readBytes, if_pos (by omega)] at returned
        rw [if_pos room] at complete
        by_cases ends : ch = 0x0A ∨ ch = 0x0D
        · rw [readByte, if_pos ends] at returned
          rw [editByte, if_pos ends] at complete
          obtain ⟨_, rfl⟩ := Prod.mk.inj (Option.some.inj complete)
          exact Nat.le_of_eq (congrArg (fun outcome => outcome.2.2) (Option.some.inj returned))
        · obtain ⟨memory', readCount', line', read, edited, follows'⟩ := follows.step ends
          rw [read] at returned
          rw [edited] at complete
          exact ih follows' complete returned
      · rw [if_neg room] at complete
        obtain ⟨_, rfl⟩ := Prod.mk.inj (Option.some.inj complete)
        exact at_least

end More

end KeblaOS.Syscall
