import Mathlib.Data.List.Basic
import Mathlib.Data.Sum.Basic

/-!
# Format strings

A format is text with directives behind a marker. A printer goes through the format, copies the
text and prints a directive with the arguments that are left. The items of a format are what it
goes through; printers of one format are compared item by item.
-/

namespace KeblaOS

variable {α δ ε σ τ : Type*}

/-- What reads the directive behind a marker, and the format behind the directive. It goes
forward. -/
structure DirectiveReader (α δ : Type*) where
  read : List α → Option (δ × List α)
  shorter : ∀ {format directive rest}, read format = some (directive, rest) → rest.length < format.length

/-- The items of a printer, one behind the other. -/
def printItems (print : δ → σ → Option (List α × σ)) : List (α ⊕ δ) → σ → Option (List α)
  | [], _ => some []
  | .inl c :: items, args => (printItems print items args).map (c :: ·)
  | .inr directive :: items, args =>
      (print directive args).bind fun (text, args) => (printItems print items args).map (text ++ ·)

theorem printItems_literal {print : δ → σ → Option (List α × σ)} {items : List (α ⊕ δ)} {args : σ} {text : List α}
    (printed : printItems print items args = some text) (c : α) :
    printItems print (.inl c :: items) args = some (c :: text) := by
  rw [printItems, printed]
  rfl

theorem printItems_directive {print : δ → σ → Option (List α × σ)} {items : List (α ⊕ δ)} {args rest : σ}
    {first text : List α} {directive : δ} (here : print directive args = some (first, rest))
    (printed : printItems print items rest = some text) :
    printItems print (.inr directive :: items) args = some (first ++ text) := by
  rw [printItems, here, Option.bind_some]
  dsimp only
  rw [printed]
  rfl

namespace DirectiveReader

variable [DecidableEq α] (reader : DirectiveReader α δ) (marker : α)

/-- The text of a format: the loop of a printer. There is none if a directive cannot be read or
printed. -/
def printFormat (print : δ → σ → Option (List α × σ)) (format : List α) (args : σ) : Option (List α) :=
  match format with
  | [] => some []
  | c :: rest =>
      if c = marker then
        match _read : reader.read rest with
        | none => none
        | some (directive, behind) =>
            (print directive args).bind fun (text, args) => (printFormat print behind args).map (text ++ ·)
      else (printFormat print rest args).map (c :: ·)
termination_by format.length
decreasing_by
  · have shorter := reader.shorter _read
    simp only [List.length_cons]
    omega
  · simp

/-- The items of a format. -/
def items (format : List α) : Option (List (α ⊕ δ)) :=
  match format with
  | [] => some []
  | c :: rest =>
      if c = marker then
        match _read : reader.read rest with
        | none => none
        | some (directive, behind) => (items behind).map (.inr directive :: ·)
      else (items rest).map (.inl c :: ·)
termination_by format.length
decreasing_by
  · have shorter := reader.shorter _read
    simp only [List.length_cons]
    omega
  · simp

@[simp] theorem items_nil : reader.items marker [] = some [] := by rw [items]

theorem items_literal {c : α} (literal : c ≠ marker) (rest : List α) :
    reader.items marker (c :: rest) = (reader.items marker rest).map (.inl c :: ·) := by
  rw [items, if_neg literal]

theorem items_marker (rest : List α) :
    reader.items marker (marker :: rest) =
      (reader.read rest).bind fun (directive, behind) => (reader.items marker behind).map (.inr directive :: ·) := by
  rw [items, if_pos rfl]
  split <;> rename_i read <;> rw [read] <;> rfl

@[simp] theorem printFormat_nil (print : δ → σ → Option (List α × σ)) (args : σ) :
    reader.printFormat marker print [] args = some [] := by rw [printFormat]

theorem printFormat_literal (print : δ → σ → Option (List α × σ)) {c : α} (literal : c ≠ marker) (rest : List α)
    (args : σ) :
    reader.printFormat marker print (c :: rest) args = (reader.printFormat marker print rest args).map (c :: ·) := by
  rw [printFormat, if_neg literal]

theorem printFormat_marker (print : δ → σ → Option (List α × σ)) (rest : List α) (args : σ) :
    reader.printFormat marker print (marker :: rest) args =
      (reader.read rest).bind fun (directive, behind) => (print directive args).bind fun (text, args) =>
        (reader.printFormat marker print behind args).map (text ++ ·) := by
  rw [printFormat, if_pos rfl]
  split <;> rename_i read <;> rw [read] <;> rfl

/-- Induction over a format: its text one character at a time, its directives as a whole. -/
theorem format_induction {motive : List α → Prop} (nil : motive [])
    (literal : ∀ c rest, c ≠ marker → motive rest → motive (c :: rest))
    (unreadable : ∀ rest, reader.read rest = none → motive (marker :: rest))
    (directive : ∀ rest directive behind, reader.read rest = some (directive, behind) → motive behind →
      motive (marker :: rest))
    (format : List α) : motive format := by
  induction length : format.length using Nat.strongRecOn generalizing format with
  | _ count ih =>
      cases format with
      | nil => exact nil
      | cons c rest =>
          rw [List.length_cons] at length
          by_cases isMarker : c = marker
          · subst isMarker
            cases read : reader.read rest with
            | none => exact unreadable rest read
            | some pair =>
                have shorter : pair.2.length < rest.length := reader.shorter read
                exact directive rest pair.1 pair.2 read (ih _ (by omega) pair.2 rfl)
          · exact literal c rest isMarker (ih _ (by omega) rest rfl)

/-- A printer prints the items of the format. -/
theorem printFormat_eq (print : δ → σ → Option (List α × σ)) (format : List α) (args : σ) :
    reader.printFormat marker print format args =
      (reader.items marker format).bind fun items => printItems print items args := by
  induction format using reader.format_induction marker generalizing args with
  | nil => rw [printFormat_nil, items_nil]; rfl
  | literal c rest literal ih =>
      rw [printFormat_literal reader marker print literal, items_literal reader marker literal, ih]
      cases reader.items marker rest <;> rfl
  | unreadable rest read => rw [printFormat_marker, items_marker, read]; rfl
  | directive rest directive behind read ih =>
      rw [printFormat_marker, items_marker, read, Option.bind_some, Option.bind_some]
      simp only [ih]
      cases reader.items marker behind with
      | none => cases print directive args <;> rfl
      | some items => rfl

/-- Two readers that agree on the good directives of a format find the same items in it. -/
theorem items_eq_map {other : DirectiveReader α ε} (f : δ → ε) (good : δ → Prop)
    (agree : ∀ format directive rest, reader.read format = some (directive, rest) → good directive →
      other.read format = some (f directive, rest))
    {format : List α} {found : List (α ⊕ δ)} (items : reader.items marker format = some found)
    (allGood : ∀ directive, .inr directive ∈ found → good directive) :
    other.items marker format = some (found.map (Sum.map id f)) := by
  induction format using reader.format_induction marker generalizing found with
  | nil =>
      rw [items_nil] at items
      rw [← Option.some.inj items, items_nil]
      rfl
  | literal c rest literal ih =>
      rw [items_literal reader marker literal] at items
      obtain ⟨behind, itemsBehind, rfl⟩ := Option.map_eq_some_iff.mp items
      rw [items_literal other marker literal,
        ih itemsBehind fun directive member => allGood directive (List.mem_cons_of_mem _ member)]
      rfl
  | unreadable rest read =>
      rw [items_marker, read] at items
      cases items
  | directive rest directive behind read ih =>
      rw [items_marker, read, Option.bind_some] at items
      obtain ⟨later, itemsBehind, rfl⟩ := Option.map_eq_some_iff.mp items
      have itemsOther := ih itemsBehind fun directive member => allGood directive (List.mem_cons_of_mem _ member)
      rw [items_marker, agree rest directive behind read (allGood directive List.mem_cons_self), Option.bind_some]
      dsimp only
      rw [itemsOther]
      rfl

end DirectiveReader

/-- Items under a translation of the directives are printed as the printer does the translated
ones. -/
theorem printItems_map (f : δ → ε) (print : ε → σ → Option (List α × σ)) (items : List (α ⊕ δ)) (args : σ) :
    printItems print (items.map (Sum.map id f)) args = printItems (fun directive => print (f directive)) items args := by
  induction items generalizing args with
  | nil => rfl
  | cons item items ih =>
      cases item with
      | inl c => exact congrArg (Option.map (c :: ·)) (ih args)
      | inr directive =>
          change ((print (f directive) args).bind fun (text, args) =>
            (printItems print (items.map (Sum.map id f)) args).map (text ++ ·)) = _
          simp only [ih]
          rfl

end KeblaOS
