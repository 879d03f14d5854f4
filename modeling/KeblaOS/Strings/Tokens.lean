import Mathlib.Data.List.Range
import KeblaOS.Lib.MaximalRuns

/-!
# Tokens of a string

`strtok` of `string.c` takes a string apart at delimiters. It remembers where the next token may start,
and ends each token by a zero in place of the delimiter behind it. A string is part of an object of
bytes and pointers are offsets into the object; reading behind the object has no result.
-/

namespace KeblaOS.Strings

/-- The loop of `strchr` over the characters of a string in front of its zero. -/
def strchrLoop (c : UInt8) : List UInt8 → Nat → Option Nat
  | [], str => if c = 0 then some str else none
  | char :: rest, str => if char = c then some str else strchrLoop c rest (str + 1)

/-- `strchr`. -/
def strchr (str : List UInt8) (c : UInt8) : Option Nat := strchrLoop c str 0

/-- The loops of `strtok`: a pointer goes over characters up to the end of the string. -/
def scan (goes : UInt8 → Bool) : List UInt8 → Nat → Option Nat
  | [], _ => none
  | char :: rest, pos => if char ≠ 0 ∧ goes char then scan goes rest (pos + 1) else some pos

/-- The object with the string, and `next_token`. -/
structure Tokenizer where
  buffer : List UInt8
  nextToken : Option Nat

/-- `strtok`. -/
def strtok (state : Tokenizer) (str : Option Nat) (delim : List UInt8) : Option (Option Nat × Tokenizer) :=
  match str.orElse fun _ => state.nextToken with
  | none => some (none, state)
  | some nextToken =>
    (scan (fun c => (strchr delim c).isSome) (state.buffer.drop nextToken) nextToken).bind fun start =>
      if state.buffer.getD start 0 = 0 then some (none, { state with nextToken := none })
      else (scan (fun c => !(strchr delim c).isSome) (state.buffer.drop start) start).map fun stop =>
        if state.buffer.getD stop 0 ≠ 0 then
          (some start, { buffer := state.buffer.set stop 0, nextToken := some (stop + 1) })
        else (some start, { state with nextToken := none })

/-- `strtok(NULL, delim)` as often as `calls` says, with what it returns each time. -/
def moreTokens (delim : List UInt8) : Nat → Tokenizer → Option (List (Option Nat) × Tokenizer)
  | 0, state => some ([], state)
  | calls + 1, state =>
    (strtok state none delim).bind fun (token, state) =>
      (moreTokens delim calls state).map fun (tokens, state) => (token :: tokens, state)

/-- `strtok(str, delim)` and then `strtok(NULL, delim)` as often as `calls` says. -/
def allTokens (delim : List UInt8) (calls : Nat) (state : Tokenizer) (str : Nat) : Option (List (Option Nat) × Tokenizer) :=
  (strtok state (some str) delim).bind fun (token, state) =>
    (moreTokens delim calls state).map fun (tokens, state) => (token :: tokens, state)

/-- The position of a string is one of a delimiter. -/
def IsDelimiter (text delim : List UInt8) (i : Nat) : Prop := ∃ c ∈ delim, text[i]? = some c

instance (text delim : List UInt8) : DecidablePred (IsDelimiter text delim) := fun i =>
  inferInstanceAs (Decidable (∃ c ∈ delim, text[i]? = some c))

/-- A string with its zero stands in a buffer. -/
def StringAt (buffer : List UInt8) (pos : Nat) (text : List UInt8) : Prop := (text ++ [0] <+: buffer.drop pos) ∧ 0 ∉ text

/-! ## One call -/

theorem isSome_strchr {delim : List UInt8} {c : UInt8} (char : c ≠ 0) : (strchr delim c).isSome = true ↔ c ∈ delim := by
  have loop : ∀ pos, (strchrLoop c delim pos).isSome = true ↔ c ∈ delim := by
    induction delim with
    | nil =>
        intro pos
        rw [strchrLoop, if_neg char]
        simp
    | cons first rest ih =>
        intro pos
        rw [strchrLoop, List.mem_cons]
        split_ifs with same
        · simp [same]
        · rw [ih]
          simp [Ne.symm same]
  exact loop 0

/-- A loop of `strtok` ends at the first character that stops it. -/
theorem scan_spec {goes : UInt8 → Bool} {buffer : List UInt8} {pos limit : Nat} (before : pos ≤ limit)
    {last : UInt8} (there : buffer[limit]? = some last) (stops : ¬ (last ≠ 0 ∧ goes last)) :
    ∃ stop char, scan goes (buffer.drop pos) pos = some stop ∧ pos ≤ stop ∧ stop ≤ limit ∧ buffer[stop]? = some char ∧
      ¬ (char ≠ 0 ∧ goes char) ∧ ∀ i, pos ≤ i → i < stop → ∃ c, buffer[i]? = some c ∧ c ≠ 0 ∧ goes c := by
  obtain ⟨distance, rfl⟩ := Nat.exists_eq_add_of_le before
  induction distance generalizing pos with
  | zero =>
      have inside : pos < buffer.length := (List.getElem?_eq_some_iff.mp there).1
      have char : buffer[pos] = last := (List.getElem?_eq_some_iff.mp there).2
      refine ⟨pos, last, ?_, Nat.le_refl _, Nat.le_refl _, there, stops, fun i low high => by omega⟩
      rw [List.drop_eq_getElem_cons inside, scan, char, if_neg stops]
  | succ distance ih =>
      have inside : pos < buffer.length := by
        have bound := (List.getElem?_eq_some_iff.mp there).1
        omega
      rw [List.drop_eq_getElem_cons inside, scan]
      by_cases going : buffer[pos] ≠ 0 ∧ goes buffer[pos] = true
      · have next : pos + (distance + 1) = pos + 1 + distance := by omega
        rw [next] at there
        obtain ⟨stop, char, found, low, high, here, stops', passed⟩ := ih (by omega) there
        refine ⟨stop, char, ?_, by omega, by omega, here, stops', fun i from_pos to_stop => ?_⟩
        · rw [if_pos going, found]
        · rcases Nat.eq_or_lt_of_le from_pos with rfl | later
          · exact ⟨buffer[pos], List.getElem?_eq_getElem inside, going⟩
          · exact passed i later to_stop
      · exact ⟨pos, buffer[pos], if_neg going, Nat.le_refl _, by omega, List.getElem?_eq_getElem inside, going,
          fun i low high => by omega⟩

/-! ## All calls -/

section Calls

variable {front text behind delim : List UInt8} {state : Tokenizer} {k : Nat}

/-- The tokens of a string: its runs of characters that are no delimiters. -/
def tokenRuns (text delim : List UInt8) : List (Nat × Nat) := runsFrom (IsDelimiter text delim) text.length 0 0

/-- The state behind the first `k` tokens: their delimiters are overwritten, and the next one is looked for behind
them. -/
structure Progress (front text behind delim : List UInt8) (k : Nat) (state : Tokenizer) : Prop where
  buffer : ∀ j, state.buffer[j]? = if ∃ run ∈ (tokenRuns text delim).take k, j = front.length + run.2 then some 0
    else (front ++ text ++ 0 :: behind)[j]?
  finished : state.nextToken = none → (tokenRuns text delim).drop k = []
  next : ∀ pos, state.nextToken = some pos → ∃ p ≤ text.length, pos = front.length + p ∧
    (tokenRuns text delim).drop k = runsFrom (IsDelimiter text delim) (text.length - p) p p ∧
    ∀ run ∈ (tokenRuns text delim).take k, run.2 < p

theorem getElem?_object (front text behind : List UInt8) {i : Nat} (inside : i ≤ text.length) :
    (front ++ text ++ 0 :: behind)[front.length + i]? = (text ++ [0])[i]? := by
  rw [List.append_assoc, List.getElem?_append_right (by omega), Nat.add_sub_cancel_left]
  rcases Nat.lt_or_ge i text.length with less | same
  · rw [List.getElem?_append_left less, List.getElem?_append_left less]
  · obtain rfl := Nat.le_antisymm inside same
    rw [List.getElem?_append_right (Nat.le_refl _), List.getElem?_append_right (Nat.le_refl _), Nat.sub_self]
    rfl

/-- What has not been looked at is as it was. -/
theorem Progress.char (progress : Progress front text behind delim k state) {p i : Nat} (low : p ≤ i)
    (inside : i ≤ text.length) (done : ∀ run ∈ (tokenRuns text delim).take k, run.2 < p) :
    state.buffer[front.length + i]? = (text ++ [0])[i]? := by
  rw [progress.buffer, if_neg, getElem?_object front text behind inside]
  rintro ⟨run, member, same⟩
  have behind := done run member
  omega

/-- A character of the string with its zero. -/
theorem isDelimiter_iff {i : Nat} {c : UInt8} (there : (text ++ [0])[i]? = some c) (char : c ≠ 0) :
    i < text.length ∧ (IsDelimiter text delim i ↔ c ∈ delim) := by
  have inside : i < text.length := by
    by_contra outside
    rw [List.getElem?_append_right (by omega), List.getElem?_singleton] at there
    split_ifs at there
    exact char (Option.some.inj there).symm
  rw [List.getElem?_append_left inside] at there
  refine ⟨inside, fun ⟨d, member, same⟩ => ?_, fun member => ⟨c, member, there⟩⟩
  rw [there] at same
  rwa [Option.some.inj same]

/-- The zero is behind the string. -/
theorem eq_length_of_zero (string : 0 ∉ text) {i : Nat} (inside : i ≤ text.length)
    (there : (text ++ [0])[i]? = some 0) : i = text.length := by
  by_contra other
  rw [List.getElem?_append_left (by omega)] at there
  exact string (List.mem_of_getElem? there)

theorem strtok_none (finished : state.nextToken = none) : strtok state none delim = some (none, state) := by
  unfold strtok
  rw [finished]
  rfl

/-- The calls of `strtok` on a pointer are those on the pointer it remembered. -/
theorem strtok_some {pos : Nat} (str : Option Nat) (here : (str.orElse fun _ => state.nextToken) = some pos)
    {start : Nat} (skipped : scan (fun c => (strchr delim c).isSome) (state.buffer.drop pos) pos = some start)
    {char : UInt8} (first : state.buffer[start]? = some char) (token : char ≠ 0)
    {stop : Nat} (ended : scan (fun c => !(strchr delim c).isSome) (state.buffer.drop start) start = some stop)
    {last : UInt8} (behind : state.buffer[stop]? = some last) :
    strtok state str delim = some (some start, if last ≠ 0 then ⟨state.buffer.set stop 0, some (stop + 1)⟩
      else { state with nextToken := none }) := by
  have char_eq : state.buffer.getD start 0 = char := by rw [List.getD_eq_getElem?_getD, first, Option.getD_some]
  have last_eq : state.buffer.getD stop 0 = last := by rw [List.getD_eq_getElem?_getD, behind, Option.getD_some]
  unfold strtok
  rw [here]
  dsimp only
  rw [skipped, Option.bind_some, char_eq, if_neg token, ended, Option.map_some, last_eq]
  split_ifs <;> rfl

theorem strtok_zero {pos : Nat} (str : Option Nat) (here : (str.orElse fun _ => state.nextToken) = some pos)
    {start : Nat} (skipped : scan (fun c => (strchr delim c).isSome) (state.buffer.drop pos) pos = some start)
    (zero : state.buffer[start]? = some 0) : strtok state str delim = some (none, { state with nextToken := none }) := by
  have zero_eq : state.buffer.getD start 0 = 0 := by rw [List.getD_eq_getElem?_getD, zero, Option.getD_some]
  unfold strtok
  rw [here]
  dsimp only
  rw [skipped, Option.bind_some, if_pos zero_eq]

/-- A token is ended where its delimiter is overwritten. -/
theorem Progress.ends (progress : Progress front text behind delim k state) {run : Nat × Nat}
    (here : (tokenRuns text delim)[k]? = some run) {buffer : List UInt8}
    (stored : ∀ j, buffer[j]? = if j = front.length + run.2 then some 0 else state.buffer[j]?) :
    ∀ j, buffer[j]? = if ∃ run ∈ (tokenRuns text delim).take (k + 1), j = front.length + run.2 then some 0
      else (front ++ text ++ 0 :: behind)[j]? := by
  intro j
  rw [stored, progress.buffer, List.take_add_one, here]
  by_cases last : j = front.length + run.2
  · rw [if_pos last, if_pos ⟨run, List.mem_append_right _ (by simp), last⟩]
  · rw [if_neg last]
    apply if_congr _ rfl rfl
    constructor
    · rintro ⟨other, member, same⟩
      exact ⟨other, List.mem_append_left _ member, same⟩
    · rintro ⟨other, member, same⟩
      rcases List.mem_append.mp member with earlier | now
      · exact ⟨other, earlier, same⟩
      · obtain rfl : other = run := by simpa using now
        exact absurd same last

/-- A loop of `strtok` over what has not been looked at yet. -/
theorem Progress.scanned (progress : Progress front text behind delim k state) {p q : Nat} (low : p ≤ q)
    (inside : q ≤ text.length) (done : ∀ run ∈ (tokenRuns text delim).take k, run.2 < p) (goes : UInt8 → Bool) :
    ∃ stop char, scan goes (state.buffer.drop (front.length + q)) (front.length + q) = some (front.length + stop) ∧
      q ≤ stop ∧ stop ≤ text.length ∧ state.buffer[front.length + stop]? = some char ∧ (text ++ [0])[stop]? = some char ∧
      ¬ (char ≠ 0 ∧ goes char) ∧ ∀ i, q ≤ i → i < stop → ∃ c, (text ++ [0])[i]? = some c ∧ c ≠ 0 ∧ goes c := by
  have zero : (text ++ [0])[text.length]? = some 0 := by
    rw [List.getElem?_append_right (Nat.le_refl _), Nat.sub_self]
    rfl
  have limit := (progress.char (low.trans inside) (Nat.le_refl _) done).trans zero
  obtain ⟨stop, char, found, from_q, to_end, there, stops, passed⟩ :=
    @scan_spec goes state.buffer _ _ (Nat.add_le_add_left inside front.length) 0 limit (fun both => both.1 rfl)
  obtain ⟨r, rfl⟩ := Nat.exists_eq_add_of_le (show front.length ≤ stop by omega)
  have same := (progress.char (by omega) (by omega) done).symm.trans there
  refine ⟨r, char, found, by omega, by omega, there, same, stops, fun i low high => ?_⟩
  rw [← progress.char (by omega) (by omega) done]
  exact passed (front.length + i) (by omega) (by omega)

/-- The delimiters in front of a token are no part of any. -/
theorem runsFrom_delimiters {p q : Nat} (low : p ≤ q) (inside : q ≤ text.length)
    (delimiters : ∀ i, p ≤ i → i < q → ∃ c, (text ++ [0])[i]? = some c ∧ c ≠ 0 ∧ (strchr delim c).isSome) :
    runsFrom (IsDelimiter text delim) (text.length - p) p p = runsFrom (IsDelimiter text delim) (text.length - q) q q := by
  apply runsFrom_skip low inside
  intro i from_p to_q
  obtain ⟨c, at_i, nonzero, isDelim⟩ := delimiters i from_p to_q
  exact (isDelimiter_iff at_i nonzero).2.mpr ((isSome_strchr nonzero).mp isDelim)

/-- The characters up to the next delimiter, or the end, are a token. -/
theorem runsFrom_token (string : 0 ∉ text) {q r : Nat} {char last : UInt8} (first : (text ++ [0])[q]? = some char)
    (token : char ≠ 0) (starts : ¬ (strchr delim char).isSome) (low : q ≤ r) (inside : r ≤ text.length)
    (second : (text ++ [0])[r]? = some last) (stops : ¬ (last ≠ 0 ∧ (!(strchr delim last).isSome) = true))
    (word : ∀ i, q ≤ i → i < r → ∃ c, (text ++ [0])[i]? = some c ∧ c ≠ 0 ∧ (!(strchr delim c).isSome) = true) :
    runsFrom (IsDelimiter text delim) (text.length - q) q q =
      (q, r) :: runsFrom (IsDelimiter text delim) (text.length - (r + 1)) (r + 1) (r + 1) := by
  have longer : q < r := by
    by_contra short
    obtain rfl : r = q := by omega
    obtain rfl := Option.some.inj (first.symm.trans second)
    exact stops ⟨token, by simpa using starts⟩
  have free : ∀ i, q ≤ i → i < r → ¬ IsDelimiter text delim i := by
    intro i from_q to_r
    obtain ⟨c, at_i, nonzero, isChar⟩ := word i from_q to_r
    rw [(isDelimiter_iff at_i nonzero).2, ← isSome_strchr nonzero]
    simpa using isChar
  have right : r = text.length ∨ IsDelimiter text delim r := by
    by_cases zero : last = 0
    · subst zero
      exact .inl (eq_length_of_zero string inside second)
    · right
      rw [(isDelimiter_iff second zero).2, ← isSome_strchr zero]
      by_contra isChar
      exact stops ⟨zero, by simpa using isChar⟩
  exact runsFrom_word longer low inside free right

/-- Without a token, everything stays as it is. -/
theorem Progress.finish (progress : Progress front text behind delim k state) (empty : (tokenRuns text delim).drop k = []) :
    Progress front text behind delim (k + 1) { state with nextToken := none } := by
  have enough : (tokenRuns text delim).length ≤ k := List.drop_eq_nil_iff.mp empty
  refine ⟨?_, fun _ => ?_, fun pos found => absurd found (Option.some_ne_none pos).symm⟩
  · rw [List.take_of_length_le (by omega)]
    have same := progress.buffer
    rwa [List.take_of_length_le enough] at same
  · exact List.drop_eq_nil_iff.mpr (by omega)

/-- The state behind a token. -/
theorem Progress.after (progress : Progress front text behind delim k state) (string : 0 ∉ text) {p q r : Nat}
    {last : UInt8} (here : (tokenRuns text delim)[k]? = some (q, r))
    (later : (tokenRuns text delim).drop (k + 1) =
      runsFrom (IsDelimiter text delim) (text.length - (r + 1)) (r + 1) (r + 1))
    (done : ∀ run ∈ (tokenRuns text delim).take k, run.2 < p) (low : p ≤ r) (inside : r ≤ text.length)
    (there : state.buffer[front.length + r]? = some last) (second : (text ++ [0])[r]? = some last) :
    Progress front text behind delim (k + 1)
      (if last ≠ 0 then ⟨state.buffer.set (front.length + r) 0, some (front.length + r + 1)⟩
        else { state with nextToken := none }) := by
  have length := (List.getElem?_eq_some_iff.mp there).1
  by_cases zero : last = 0
  · subst zero
    have whole := eq_length_of_zero string inside second
    rw [if_neg fun other => other rfl]
    refine ⟨progress.ends here fun j => ?_, fun _ => ?_, fun pos found => absurd found (Option.some_ne_none pos).symm⟩
    · split_ifs with same
      · rw [same]
        exact there
      · rfl
    · have none_left : text.length - (r + 1) = 0 := by omega
      rw [later, none_left, runsFrom, closedRun, if_neg (Nat.lt_irrefl _)]
  · rw [if_pos zero]
    obtain ⟨less, -⟩ := @isDelimiter_iff text delim r last second zero
    refine ⟨progress.ends here fun j => ?_, fun finished => absurd finished (Option.some_ne_none _), ?_⟩
    · dsimp only
      rw [List.getElem?_set, if_pos length]
      exact if_congr eq_comm rfl rfl
    · rintro pos found
      obtain rfl := Option.some.inj found
      refine ⟨r + 1, less, rfl, later, fun run member => ?_⟩
      rw [List.take_add_one, here] at member
      rcases List.mem_append.mp member with earlier | now
      · have ended := done run earlier
        omega
      · obtain rfl : run = (q, r) := by simpa using now
        exact Nat.lt_succ_self r

/-- One call returns the next token, if there is one. -/
theorem Progress.call (string : 0 ∉ text) (progress : Progress front text behind delim k state) :
    ∃ state', strtok state none delim = some ((tokenRuns text delim)[k]?.map (front.length + ·.1), state') ∧
      Progress front text behind delim (k + 1) state' := by
  have head : (tokenRuns text delim)[k]? = ((tokenRuns text delim).drop k).head? := (List.head?_drop).symm
  have tail : (tokenRuns text delim).drop (k + 1) = ((tokenRuns text delim).drop k).tail := (List.tail_drop).symm
  cases next : state.nextToken with
  | none =>
      have empty := progress.finished next
      rw [strtok_none next, head, empty]
      refine ⟨state, rfl, ?_⟩
      have kept := progress.finish empty
      rwa [← next] at kept
  | some pos =>
      obtain ⟨p, inside, rfl, rest, done⟩ := progress.next pos next
      have remembered : (none.orElse fun _ => state.nextToken) = some (front.length + p) := by
        rw [next]
        rfl
      obtain ⟨q, char, skipped, low, high, there, first, starts, delimiters⟩ :=
        progress.scanned (Nat.le_refl p) inside done fun c => (strchr delim c).isSome
      rw [runsFrom_delimiters low high delimiters] at rest
      by_cases token : char = 0
      · subst token
        have empty : (tokenRuns text delim).drop k = [] := by
          rw [rest, eq_length_of_zero string high first, Nat.sub_self, runsFrom, closedRun, if_neg (Nat.lt_irrefl _)]
        rw [strtok_zero none remembered skipped there, head, empty]
        exact ⟨_, rfl, progress.finish empty⟩
      · obtain ⟨r, last, ended, low', high', there', second, stops, word⟩ :=
          progress.scanned low high done fun c => !(strchr delim c).isSome
        have starts' : ¬ (strchr delim char).isSome := fun isDelim => starts ⟨token, isDelim⟩
        rw [runsFrom_token string first token starts' low' high' second stops word] at rest
        have here : (tokenRuns text delim)[k]? = some (q, r) := by rw [head, rest, List.head?_cons]
        have later := tail.trans (by rw [rest, List.tail_cons])
        rw [strtok_some none remembered skipped there token ended there', here]
        exact ⟨_, rfl, progress.after string here later done (by omega) high' there' second⟩

/-- Calls that go on return the tokens that are left, and nothing when there are none. -/
theorem Progress.more (string : 0 ∉ text) (progress : Progress front text behind delim k state) (calls : Nat) :
    ∃ after, moreTokens delim calls state =
        some ((List.range' k calls).map fun i => (tokenRuns text delim)[i]?.map (front.length + ·.1), after) ∧
      Progress front text behind delim (k + calls) after := by
  induction calls generalizing k state with
  | zero => exact ⟨state, rfl, progress⟩
  | succ calls ih =>
      obtain ⟨next, called, progress'⟩ := progress.call string
      obtain ⟨after, rest, progress''⟩ := ih progress'
      refine ⟨after, ?_, ?_⟩
      · rw [moreTokens, called, Option.bind_some]
        dsimp only
        rw [rest]
        rfl
      · rwa [Nat.add_assoc, Nat.add_comm 1] at progress''

/-- Before the first call. -/
theorem Progress.start (front text behind delim : List UInt8) :
    Progress front text behind delim 0 ⟨front ++ text ++ 0 :: behind, some front.length⟩ := by
  refine ⟨fun j => ?_, fun finished => absurd finished (Option.some_ne_none _), fun pos found => ?_⟩
  · rw [List.take_zero, if_neg]
    rintro ⟨run, member, -⟩
    exact List.not_mem_nil member
  · obtain rfl := Option.some.inj found
    refine ⟨0, Nat.zero_le _, rfl, rfl, fun run member => ?_⟩
    rw [List.take_zero] at member
    exact absurd member List.not_mem_nil

theorem mem_tokenRuns (text delim : List UInt8) (run : Nat × Nat) :
    run ∈ tokenRuns text delim ↔ MaximalRun (IsDelimiter text delim) text.length run := by
  rw [tokenRuns, mem_runsFrom (Nat.le_refl 0) (Nat.zero_add _) (fun i _ high => absurd high (Nat.not_lt_zero i)) (.inl rfl)]
  exact ⟨fun both => both.1, fun maximal => ⟨maximal, Nat.zero_le _⟩⟩

/-- A token that was returned stays a string of its own. -/
theorem Progress.stringAt (string : 0 ∉ text) (progress : Progress front text behind delim k state) {i : Nat}
    (returned : i < k) {run : Nat × Nat} (here : (tokenRuns text delim)[i]? = some run) :
    StringAt state.buffer (front.length + run.1) (text.extract run.1 run.2) := by
  have maximal := (mem_tokenRuns text delim run).mp (List.mem_of_getElem? here)
  have nonempty := maximal.nonempty
  have inside := maximal.inside
  have length : (text.extract run.1 run.2).length = run.2 - run.1 := by
    rw [List.extract_eq_take_drop, List.length_take, List.length_drop]
    omega
  refine ⟨List.prefix_iff_getElem?.mpr fun j within => ?_, fun zero => ?_⟩
  · rw [List.length_append, length, List.length_singleton] at within
    rw [List.getElem?_drop, ← List.getElem?_eq_getElem, progress.buffer, Nat.add_assoc]
    rcases Nat.lt_or_ge j (run.2 - run.1) with char | last
    · rw [if_neg, getElem?_object front text behind (by omega), List.getElem?_append_left (by omega),
        List.getElem?_append_left (by omega), List.extract_eq_take_drop, List.getElem?_take_of_lt char, List.getElem?_drop]
      rintro ⟨other, member, same⟩
      have maximal' := (mem_tokenRuns text delim other).mp (List.mem_of_mem_take member)
      have separated := maximal'.right.resolve_left (by omega)
      exact maximal.free other.2 (by omega) (by omega) separated
    · have member : run ∈ (tokenRuns text delim).take k := by
        apply List.mem_of_getElem?
        rw [List.getElem?_take_of_lt returned, here]
      rw [if_pos ⟨run, member, by omega⟩, List.getElem?_append_right (by omega), length]
      have end_eq : j - (run.2 - run.1) = 0 := by omega
      rw [end_eq]
      rfl
  · rw [List.extract_eq_take_drop] at zero
    exact string (List.mem_of_mem_drop (List.mem_of_mem_take zero))

/-- Only delimiters are overwritten, by zeros. -/
theorem Progress.kept (progress : Progress front text behind delim k state) (j : Nat) :
    state.buffer[j]? = (front ++ text ++ 0 :: behind)[j]? ∨
      ∃ i, j = front.length + i ∧ IsDelimiter text delim i ∧ state.buffer[j]? = some 0 := by
  rw [progress.buffer]
  split_ifs with ended
  · obtain ⟨run, member, rfl⟩ := ended
    have maximal := (mem_tokenRuns text delim run).mp (List.mem_of_mem_take member)
    rcases maximal.right with whole | separated
    · left
      rw [whole, getElem?_object front text behind (Nat.le_refl _), List.getElem?_append_right (Nat.le_refl _), Nat.sub_self]
      rfl
    · exact .inr ⟨run.2, rfl, separated, rfl⟩
  · exact .inl rfl

/-- The calls of `strtok` on a string return its maximal runs without delimiters from left to right and then nothing any
more. Every token that was returned is a string of its own, and nothing but delimiters of the string is overwritten. -/
theorem strtok_tokens (string : 0 ∉ text) (front behind delim : List UInt8) (stale : Option Nat) :
    (∀ run, run ∈ tokenRuns text delim ↔ MaximalRun (IsDelimiter text delim) text.length run) ∧
      (tokenRuns text delim).Pairwise (fun run next => run.2 < next.1) ∧
      ∀ calls, ∃ after, allTokens delim calls ⟨front ++ text ++ 0 :: behind, stale⟩ front.length =
          some ((List.range (calls + 1)).map fun i => (tokenRuns text delim)[i]?.map (front.length + ·.1), after) ∧
        (∀ i run, i ≤ calls → (tokenRuns text delim)[i]? = some run →
          StringAt after.buffer (front.length + run.1) (text.extract run.1 run.2)) ∧
        ∀ j, after.buffer[j]? = (front ++ text ++ 0 :: behind)[j]? ∨
          ∃ i, j = front.length + i ∧ IsDelimiter text delim i ∧ after.buffer[j]? = some 0 := by
  refine ⟨mem_tokenRuns text delim, pairwise_runsFrom (Nat.le_refl 0), fun calls => ?_⟩
  obtain ⟨first, called, progress⟩ := (Progress.start front text behind delim).call string
  obtain ⟨after, rest, progress'⟩ := progress.more string calls
  have same : strtok ⟨front ++ text ++ 0 :: behind, stale⟩ (some front.length) delim =
      strtok ⟨front ++ text ++ 0 :: behind, some front.length⟩ none delim := rfl
  refine ⟨after, ?_, fun i run returned here => progress'.stringAt string (by omega) here, progress'.kept⟩
  rw [allTokens, same, called, Option.bind_some]
  dsimp only
  rw [rest, List.range_eq_range', List.range'_succ]
  rfl

/-- Two tokens between commas, and no third one. -/
theorem strtok_tokens_commas : ∃ after, allTokens [0x2C] 3 ⟨[0x2C, 0x61, 0x2C, 0x2C, 0x62, 0x63, 0x2C, 0], none⟩ 0 =
    some ([some 1, some 4, none, none], after) := by
  obtain ⟨after, returned, -⟩ :=
    (@strtok_tokens [0x2C, 0x61, 0x2C, 0x2C, 0x62, 0x63, 0x2C] (by decide) [] [] [0x2C] none).2.2 3
  have runs : tokenRuns [0x2C, 0x61, 0x2C, 0x2C, 0x62, 0x63, 0x2C] [0x2C] = [(1, 2), (4, 6)] := by decide
  rw [runs] at returned
  exact ⟨after, returned⟩

end Calls

end KeblaOS.Strings
