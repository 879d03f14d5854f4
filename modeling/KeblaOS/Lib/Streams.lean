import Mathlib.Algebra.GroupWithZero.Nat
import Mathlib.Data.List.Infix

/-!
# Streams in pieces and in lines

A stream is a finite list. `Delivered` says what a receiver gets that is offered the stream
piece by piece until it does not accept a piece as a whole. `lineOf` is the next line of a
stream for a reader with limited room, and a stream falls into such lines.
-/

namespace KeblaOS

variable {α : Type*}

/-! ## Pieces -/

/-- A piece that was offered, and how much of it was accepted. -/
structure Offer (α : Type*) where
  piece : List α
  sent : Nat
deriving DecidableEq

namespace Offer

/-- The accepted elements of a piece. -/
def accepted (offer : Offer α) : List α := offer.piece.take offer.sent

end Offer

/-- Consecutive pieces of a stream are offered until it ends or a piece is not accepted as a
whole. -/
inductive Delivered : List α → List (Offer α) → Prop where
  | finished : Delivered [] []
  | stopped {piece rest sent} (short : sent < piece.length) : Delivered (piece ++ rest) [⟨piece, sent⟩]
  | passed {piece rest offers} (some : piece ≠ []) (later : Delivered rest offers) :
      Delivered (piece ++ rest) (⟨piece, piece.length⟩ :: offers)

/-- Number of elements accepted. -/
def totalSent (offers : List (Offer α)) : Nat := (offers.map Offer.sent).sum

namespace Delivered

variable {stream : List α} {offers : List (Offer α)}

/-- What was accepted is a beginning of the stream. -/
theorem accepted_eq (delivered : Delivered stream offers) :
    offers.flatMap Offer.accepted = stream.take (totalSent offers) := by
  induction delivered with
  | finished => rfl
  | @stopped piece rest sent short =>
      simp only [List.flatMap_cons, List.flatMap_nil, List.append_nil, totalSent, List.map_cons, List.map_nil,
        List.sum_cons, List.sum_nil, Nat.add_zero, Offer.accepted]
      rw [List.take_append_of_le_length (Nat.le_of_lt short)]
  | @passed piece rest offers _ _ ih =>
      simp only [List.flatMap_cons, totalSent, List.map_cons, List.sum_cons, Offer.accepted, List.take_length] at ih ⊢
      rw [ih, List.take_length_add_append]

theorem totalSent_le (delivered : Delivered stream offers) : totalSent offers ≤ stream.length := by
  induction delivered with
  | finished => exact Nat.le_refl 0
  | @stopped piece rest sent short =>
      simp only [totalSent, List.map_cons, List.map_nil, List.sum_cons, List.sum_nil, List.length_append]
      omega
  | @passed piece rest offers _ _ ih =>
      simp only [totalSent, List.map_cons, List.sum_cons, List.length_append] at ih ⊢
      omega

/-- A piece that is not accepted as a whole is the last one. -/
theorem last_of_short {front back : List (Offer α)} {offer : Offer α} (delivered : Delivered stream offers)
    (split : offers = front ++ offer :: back) (short : offer.sent < offer.piece.length) : back = [] := by
  induction delivered generalizing front with
  | finished => simp at split
  | stopped => 
      cases front with
      | nil => exact (List.cons.inj split).2.symm
      | cons first front => simp at split
  | passed _ _ ih =>
      cases front with
      | nil =>
          obtain ⟨rfl, _⟩ := List.cons.inj split
          exact absurd short (Nat.lt_irrefl _)
      | cons first front => exact ih (List.cons.inj split).2

/-- Each piece begins where the accepted elements of those before it end. -/
theorem piece_eq {front back : List (Offer α)} {offer : Offer α} (delivered : Delivered stream offers)
    (split : offers = front ++ offer :: back) :
    offer.piece = (stream.drop (totalSent front)).take offer.piece.length := by
  induction delivered generalizing front with
  | finished => simp at split
  | @stopped piece rest sent _ =>
      cases front with
      | nil =>
          obtain ⟨rfl, _⟩ := List.cons.inj split
          simp [totalSent]
      | cons first front => simp at split
  | @passed piece rest offers _ _ ih =>
      cases front with
      | nil =>
          obtain ⟨rfl, _⟩ := List.cons.inj split
          simp [totalSent]
      | cons first front =>
          obtain ⟨rfl, later⟩ := List.cons.inj split
          have place := ih later
          simp only [totalSent, List.map_cons, List.sum_cons] at place ⊢
          rw [List.drop_length_add_append]
          exact place

/-- A stream is delivered as a whole if each piece is accepted as a whole. -/
theorem totalSent_eq (delivered : Delivered stream offers)
    (whole : ∀ offer ∈ offers, offer.sent = offer.piece.length) : totalSent offers = stream.length := by
  induction delivered with
  | finished => rfl
  | stopped short => exact absurd (whole _ List.mem_cons_self) (Nat.ne_of_lt short)
  | @passed piece rest offers _ _ ih =>
      have later := ih fun offer member => whole offer (List.mem_cons_of_mem _ member)
      simp only [totalSent, List.map_cons, List.sum_cons, List.length_append] at later ⊢
      omega

end Delivered

/-! ## Lines -/

section Lines

variable [DecidableEq α] {stop : α} {room : Nat} {stream : List α}

/-- The next line: up to and with the first stop, as far as there is room. -/
def lineOf (stop : α) : Nat → List α → List α
  | 0, _ => []
  | _ + 1, [] => []
  | room + 1, head :: stream => if head = stop then [head] else head :: lineOf stop room stream

theorem lineOf_isPrefix (stop : α) (room : Nat) (stream : List α) : lineOf stop room stream <+: stream := by
  induction room generalizing stream with
  | zero => exact List.nil_prefix
  | succ room ih =>
      cases stream with
      | nil => exact List.nil_prefix
      | cons head stream =>
          rw [lineOf]
          split_ifs
          · exact ⟨stream, rfl⟩
          · exact (List.prefix_cons_inj head).mpr (ih stream)

theorem length_lineOf_le (stop : α) (room : Nat) (stream : List α) : (lineOf stop room stream).length ≤ room := by
  induction room generalizing stream with
  | zero => exact Nat.le_refl 0
  | succ room ih =>
      cases stream with
      | nil => exact Nat.zero_le _
      | cons head stream =>
          rw [lineOf]
          split_ifs
          · exact Nat.succ_le_succ (Nat.zero_le _)
          · exact Nat.succ_le_succ (ih stream)

/-- A line is not empty as long as there is room and the stream goes on. -/
theorem lineOf_ne_nil (some : stream ≠ []) : lineOf stop (room + 1) stream ≠ [] := by
  cases stream with
  | nil => exact absurd rfl some
  | cons head stream =>
      rw [lineOf]
      split_ifs <;> exact List.cons_ne_nil _ _

/-- Only the last element of a line is a stop. -/
theorem stop_notMem_dropLast_lineOf (stop : α) (room : Nat) (stream : List α) :
    stop ∉ (lineOf stop room stream).dropLast := by
  induction room generalizing stream with
  | zero => exact List.not_mem_nil
  | succ room ih =>
      cases stream with
      | nil => exact List.not_mem_nil
      | cons head stream =>
          rw [lineOf]
          split_ifs with isStop
          · exact List.not_mem_nil
          · cases rest : lineOf stop room stream with
            | nil => exact List.not_mem_nil
            | cons second more =>
                rw [List.dropLast_cons_of_ne_nil (List.cons_ne_nil _ _), List.mem_cons, not_or, ← rest]
                exact ⟨Ne.symm isStop, ih stream⟩

/-- A line that has room left and no stop at its end is the rest of the stream. -/
theorem lineOf_eq_self (short : (lineOf stop room stream).length < room)
    (open' : (lineOf stop room stream).getLast? ≠ some stop) : lineOf stop room stream = stream := by
  induction room generalizing stream with
  | zero => exact absurd short (Nat.not_lt_zero _)
  | succ room ih =>
      cases stream with
      | nil => rfl
      | cons head stream =>
          rw [lineOf] at short open' ⊢
          split_ifs at short open' ⊢ with isStop
          · rw [isStop] at open'
            exact absurd rfl open'
          · congr 1
            apply ih (Nat.lt_of_succ_lt_succ short)
            cases rest : lineOf stop room stream with
            | nil => simp
            | cons second more =>
                rw [rest, List.getLast?_cons_cons] at open'
                exact open'

end Lines

end KeblaOS
