import Mathlib.Data.Nat.Basic
import Mathlib.Tactic.IntervalCases

/-!
# The proleptic Gregorian calendar

Years count from 1, months and days of a year from 0. A date has a number, the days since the
first day of the year 1, in closed form for the year. The number decides the date, and the day of
the week.
-/

namespace KeblaOS.Gregorian

/-- A year with a 29th of February. -/
def IsLeapYear (year : Nat) : Prop := year % 4 = 0 ∧ (year % 100 ≠ 0 ∨ year % 400 = 0)

instance (year : Nat) : Decidable (IsLeapYear year) := inferInstanceAs (Decidable (_ ∧ _))

/-- Number of days of a year. -/
def yearLength (year : Nat) : Nat := if IsLeapYear year then 366 else 365

/-- Number of days of a month. -/
def monthLength (year month : Nat) : Nat :=
  match month with
  | 0 | 2 | 4 | 6 | 7 | 9 | 11 => 31
  | 3 | 5 | 8 | 10 => 30
  | 1 => if IsLeapYear year then 29 else 28
  | _ => 0

/-- Days in front of a year, since the year 1. -/
def daysBeforeYear (year : Nat) : Nat :=
  365 * (year - 1) + (year - 1) / 4 - (year - 1) / 100 + (year - 1) / 400

/-- Days of a year in front of a month. -/
def daysBeforeMonth (year : Nat) : Nat → Nat
  | 0 => 0
  | month + 1 => daysBeforeMonth year month + monthLength year month

/-- A date of the calendar. -/
structure Date where
  year : Nat
  month : Nat
  day : Nat
  started : 1 ≤ year
  monthInYear : month < 12
  dayPositive : 1 ≤ day
  dayInMonth : day ≤ monthLength year month

namespace Date

/-- The day of the year, from 0. -/
def dayOfYear (date : Date) : Nat := daysBeforeMonth date.year date.month + (date.day - 1)

/-- The days in front of the date since the first day of the year 1. -/
def number (date : Date) : Nat := daysBeforeYear date.year + date.dayOfYear

/-- The day of the week, from Sunday. The first day of the year 1 is a Monday. -/
def weekday (date : Date) : Nat := (date.number + 1) % 7

end Date

/-! ## Years and months -/

variable {year year' month month' : Nat}

theorem yearLength_pos (year : Nat) : 0 < yearLength year := by
  unfold yearLength
  split_ifs <;> decide

theorem isLeapYear_iff (year : Nat) : IsLeapYear year ↔ 4 ∣ year ∧ (¬ 100 ∣ year ∨ 400 ∣ year) := by
  rw [Nat.dvd_iff_mod_eq_zero, Nat.dvd_iff_mod_eq_zero, Nat.dvd_iff_mod_eq_zero]
  rfl

/-- The days of a year stand between those in front of it and those in front of the next. -/
theorem daysBeforeYear_succ (started : 1 ≤ year) :
    daysBeforeYear (year + 1) = daysBeforeYear year + yearLength year := by
  obtain ⟨past, rfl⟩ := Nat.exists_eq_add_of_le' started
  have fewer : past / 100 ≤ past / 4 := Nat.div_le_div_left (by decide) (by decide)
  have byHundred : 100 ∣ past + 1 → 4 ∣ past + 1 := Nat.dvd_trans (by decide)
  have byFourHundred : 400 ∣ past + 1 → 100 ∣ past + 1 := Nat.dvd_trans (by decide)
  unfold daysBeforeYear yearLength
  rw [Nat.add_sub_cancel, Nat.add_sub_cancel, Nat.succ_div, Nat.succ_div, Nat.succ_div, Nat.mul_succ]
  simp only [isLeapYear_iff]
  generalize past / 4 = quarters at *
  generalize past / 100 = centuries at *
  by_cases four : 4 ∣ past + 1
  · by_cases hundred : 100 ∣ past + 1
    · by_cases fourHundred : 400 ∣ past + 1
      · rw [if_pos four, if_pos hundred, if_pos fourHundred, if_pos ⟨four, .inr fourHundred⟩]
        omega
      · rw [if_pos four, if_pos hundred, if_neg fourHundred, if_neg fun leap => leap.2.elim (· hundred) fourHundred]
        omega
    · rw [if_pos four, if_neg hundred, if_neg (hundred ∘ byFourHundred), if_pos ⟨four, .inl hundred⟩]
      omega
  · rw [if_neg four, if_neg (four ∘ byHundred), if_neg (four ∘ byHundred ∘ byFourHundred), if_neg (four ·.1)]
    omega

theorem daysBeforeYear_mono (started : 1 ≤ year) (order : year ≤ year') :
    daysBeforeYear year ≤ daysBeforeYear year' := by
  induction order with
  | refl => exact Nat.le_refl _
  | @step later order ih =>
      have next := daysBeforeYear_succ (Nat.le_trans started order)
      rw [Nat.succ_eq_add_one, next]
      omega

/-- The months make up the year. -/
theorem daysBeforeMonth_twelve (year : Nat) : daysBeforeMonth year 12 = yearLength year := by
  simp only [daysBeforeMonth, monthLength, yearLength]
  split_ifs <;> rfl

theorem daysBeforeMonth_mono (order : month ≤ month') : daysBeforeMonth year month ≤ daysBeforeMonth year month' := by
  induction order with
  | refl => exact Nat.le_refl _
  | step _ ih => exact Nat.le_trans ih (Nat.le_add_right _ _)

namespace Date

variable {date date' : Date}

/-- A date lies in front of the end of its month. -/
theorem dayOfYear_lt_month (date : Date) : date.dayOfYear < daysBeforeMonth date.year (date.month + 1) := by
  have positive := date.dayPositive
  have fits := date.dayInMonth
  rw [dayOfYear, daysBeforeMonth]
  omega

/-- A date lies in front of the end of its year. -/
theorem dayOfYear_lt (date : Date) : date.dayOfYear < yearLength date.year := by
  rw [← daysBeforeMonth_twelve]
  exact Nat.lt_of_lt_of_le date.dayOfYear_lt_month (daysBeforeMonth_mono date.monthInYear)

theorem number_lt (date : Date) : date.number < daysBeforeYear (date.year + 1) := by
  rw [daysBeforeYear_succ date.started, number]
  exact Nat.add_lt_add_left date.dayOfYear_lt _

/-- A later year has later numbers. -/
theorem number_lt_of_year_lt (order : date.year < date'.year) : date.number < date'.number :=
  Nat.lt_of_lt_of_le date.number_lt
    (Nat.le_trans (daysBeforeYear_mono (Nat.le_succ_of_le date.started) order) (Nat.le_add_right _ _))

/-- A later month of a year has later days. -/
theorem dayOfYear_lt_of_month_lt (same : date.year = date'.year) (order : date.month < date'.month) :
    date.dayOfYear < date'.dayOfYear := by
  refine Nat.lt_of_lt_of_le date.dayOfYear_lt_month (Nat.le_trans (daysBeforeMonth_mono order) ?_)
  rw [same]
  exact Nat.le_add_right _ _

/-- The number decides the date. -/
theorem eq_of_number (same : date.number = date'.number) :
    date.year = date'.year ∧ date.month = date'.month ∧ date.day = date'.day := by
  have years : date.year = date'.year := by
    rcases Nat.lt_trichotomy date.year date'.year with earlier | equal | later
    · exact absurd same (Nat.ne_of_lt (number_lt_of_year_lt earlier))
    · exact equal
    · exact absurd same.symm (Nat.ne_of_lt (number_lt_of_year_lt later))
  have days : date.dayOfYear = date'.dayOfYear := by
    unfold number at same
    rw [years] at same
    exact Nat.add_left_cancel same
  have months : date.month = date'.month := by
    rcases Nat.lt_trichotomy date.month date'.month with earlier | equal | later
    · exact absurd days (Nat.ne_of_lt (dayOfYear_lt_of_month_lt years earlier))
    · exact equal
    · exact absurd days.symm (Nat.ne_of_lt (dayOfYear_lt_of_month_lt years.symm later))
  refine ⟨years, months, ?_⟩
  have positive := date.dayPositive
  have positive' := date'.dayPositive
  unfold dayOfYear at days
  rw [years, months] at days
  omega

end Date

end KeblaOS.Gregorian
