import KeblaOS.Lib.Stores

/-!
# Scanners of strings in memory

A scanner reads a memory from its start, one value after the other, in phases. Each value takes it
to another phase or stops it. What it reads is decided by its run over the list of values that the
memory starts with.
-/

namespace KeblaOS

variable {α φ : Type*} (next : φ → α → Option φ)

/-- The phase in which the scanner comes to a position, if it did not stop before. -/
def phaseAt (start : φ) (memory : Nat → α) : Nat → Option φ
  | 0 => some start
  | pos + 1 => (phaseAt start memory pos).bind fun phase => next phase (memory pos)

/-- The scanner reads the value at a position. -/
def ReadsAt (start : φ) (memory : Nat → α) (pos : Nat) : Prop := (phaseAt next start memory pos).isSome

/-- The phase behind a list of values, if no value of it stops the scanner. -/
def scan : φ → List α → Option φ
  | phase, [] => some phase
  | phase, value :: values => (next phase value).bind fun phase => scan phase values

variable {next} {start : φ} {memory : Nat → α}

theorem scan_cons {phase phase' : φ} {value : α} (step : next phase value = some phase') (values : List α) :
    scan next phase (value :: values) = scan next phase' values := by
  rw [scan, step]
  rfl

theorem scan_append (phase : φ) (values more : List α) :
    scan next phase (values ++ more) = (scan next phase values).bind fun phase => scan next phase more := by
  induction values generalizing phase with
  | nil => rfl
  | cons value values ih =>
      rw [List.cons_append, scan, scan]
      cases next phase value with
      | none => rfl
      | some phase => exact ih phase

/-- What the scanner reads lies behind what it read before. -/
theorem ReadsAt.before {pos earlier : Nat} (reads : ReadsAt next start memory pos) (order : earlier ≤ pos) :
    ReadsAt next start memory earlier := by
  induction order with
  | refl => exact reads
  | step _ ih =>
      apply ih
      unfold ReadsAt at reads ⊢
      rw [phaseAt] at reads
      revert reads
      cases phaseAt next start memory _ with
      | none => exact id
      | some _ => exact fun _ => rfl

/-- The phase at a position by the values in front of it. -/
theorem phaseAt_eq_scan {values : List α} (holds : Holds memory values) {pos : Nat} (inside : pos ≤ values.length) :
    phaseAt next start memory pos = scan next start (values.take pos) := by
  induction pos with
  | zero => rfl
  | succ pos ih =>
      have value := holds pos _ (List.getElem?_eq_getElem (by omega))
      rw [phaseAt, ih (by omega), List.take_succ_eq_append_getElem (by omega), scan_append]
      congr 1
      funext phase
      rw [value, scan]
      cases next phase _ <;> rfl

/-- The scanner reads nothing behind the values that the memory starts with just when one of them
stops it. -/
theorem readsInside_iff {values : List α} {last : α} (holds : Holds memory (values ++ [last])) :
    (∀ pos, ReadsAt next start memory pos → pos ≤ values.length) ↔ scan next start (values ++ [last]) = none := by
  have behind : phaseAt next start memory (values.length + 1) = scan next start (values ++ [last]) := by
    rw [phaseAt_eq_scan holds (by simp), List.take_of_length_le (by simp)]
  rw [← behind]
  constructor
  · intro inside
    cases reached : phaseAt next start memory (values.length + 1) with
    | none => rfl
    | some phase =>
        have reads : ReadsAt next start memory (values.length + 1) := by
          rw [ReadsAt, reached]
          rfl
        exact absurd (inside _ reads) (by omega)
  · intro stopped pos reads
    by_contra beyond
    have further : ReadsAt next start memory (values.length + 1) := reads.before (by omega)
    rw [ReadsAt, stopped] at further
    cases further

end KeblaOS
