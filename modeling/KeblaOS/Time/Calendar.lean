import Mathlib.Data.Int.Basic
import KeblaOS.Lib.Gregorian

/-!
# Calendar time

`time.c` counts seconds since 1970. `gmtime` takes a count apart into a date and a time of day, and
`rtc_to_time_t` puts a reading of the real-time clock together to such a count. The counts are far
from the limits of a `time_t`, so they are integers here; the division is that of C.
-/

namespace KeblaOS.Time

open Gregorian

/-- `struct tm`: a date and a time of day. The year counts from 1900 and the month from 0. -/
structure Tm where
  tmSec : Int32
  tmMin : Int32
  tmHour : Int32
  tmMday : Int32
  tmMon : Int32
  tmYear : Int32
  tmWday : Int32
  tmYday : Int32
  tmIsdst : Int32
deriving DecidableEq

/-- `rtc_time_t`: a reading of the real-time clock. The years count from 2000. -/
structure RtcTime where
  seconds : UInt8
  minutes : UInt8
  hours : UInt8
  days : UInt8
  months : UInt8
  years : UInt8

/-- `days_in_month`. -/
def daysInMonth : List Int := [31, 28, 31, 30, 31, 30, 31, 31, 30, 31, 30, 31]

/-- `is_leap`. -/
def IsLeap (y : Int) : Prop := y.tmod 4 = 0 ∧ (y.tmod 100 ≠ 0 ∨ y.tmod 400 = 0)

instance (y : Int) : Decidable (IsLeap y) := inferInstanceAs (Decidable (_ ∧ _))

/-! ## `rtc_to_time_t` -/

/-- The loop over the years since 1970. -/
def addYears (y stop t : Int) : Int :=
  if y < stop then
    addYears (y + 1) stop (if IsLeap y then t + 365 * 24 * 3600 + 24 * 3600 else t + 365 * 24 * 3600)
  else t
termination_by (stop - y).toNat

/-- The loop over the months of the year. A month behind the table cannot be read. -/
def addMonths (years : Int) (m stop : Nat) (t : Int) : Option Int :=
  if m < stop then
    daysInMonth[m - 1]?.bind fun days =>
      addMonths years (m + 1) stop
        (if m = 2 ∧ IsLeap years then t + days * 24 * 3600 + 24 * 3600 else t + days * 24 * 3600)
  else some t
termination_by stop - m

/-- `rtc_to_time_t`. -/
def rtcToTimeT : Option RtcTime → Option Int
  | none => some 0
  | some rt =>
      (addMonths rt.years.toNat 1 rt.months.toNat (addYears 1970 (rt.years.toNat + 2000) 0)).map fun t =>
        t + (rt.days.toNat - 1) * 24 * 3600 + rt.hours.toNat * 3600 + rt.minutes.toNat * 60 + rt.seconds.toNat

/-! ## `gmtime` -/

/-- `days_in_year`. -/
def daysInYear (year : Int) : Int := if IsLeap year then 366 else 365

theorem daysInYear_pos (year : Int) : 0 < daysInYear year := by
  unfold daysInYear
  split_ifs <;> decide

/-- The loop that counts the years off. -/
def yearLoop (year seconds : Int) : Int × Int :=
  if daysInYear year ≤ seconds then yearLoop (year + 1) (seconds - daysInYear year) else (year, seconds)
termination_by seconds.toNat
decreasing_by
  have positive := daysInYear_pos year
  omega

/-- The loop that counts the months off. A month behind the table cannot be read. -/
def monthLoop (year : Int) (month : Nat) (seconds : Int) : Option (Nat × Int) :=
  match _inTable : daysInMonth[month]? with
  | none => none
  | some length =>
      let days := if month = 1 ∧ IsLeap year then length + 1 else length
      if days ≤ seconds then monthLoop year (month + 1) (seconds - days) else some (month, seconds)
termination_by 12 - month
decreasing_by
  have inside : month < 12 := (List.getElem?_eq_some_iff.mp _inTable).1
  omega

/-- `gmtime`. -/
def gmtime (t : Int) : Option Tm :=
  let minutes := t.tdiv 60
  let hours := minutes.tdiv 60
  let (year, dayOfYear) := yearLoop 1970 (hours.tdiv 24)
  (monthLoop year 0 dayOfYear).map fun (month, rest) =>
    { tmSec := Int32.ofInt (t.tmod 60)
      tmMin := Int32.ofInt (minutes.tmod 60)
      tmHour := Int32.ofInt (hours.tmod 24)
      tmMday := Int32.ofInt (rest + 1)
      tmMon := Int32.ofInt month
      tmYear := Int32.ofInt (year - 1900)
      tmWday := Int32.ofInt ((4 + t.tdiv 86400).tmod 7)
      tmYday := Int32.ofInt dayOfYear
      tmIsdst := 0 }

/-! ## Dates and times of day -/

/-- A time of day. -/
structure TimeOfDay where
  hour : Nat
  minute : Nat
  second : Nat
  hourInDay : hour < 24
  minuteInHour : minute < 60
  secondInMinute : second < 60

/-- The seconds of a day in front of a time. -/
def TimeOfDay.seconds (time : TimeOfDay) : Nat := time.hour * 3600 + time.minute * 60 + time.second

/-- The seconds from the first day of 1970 to a date and a time of day. -/
def secondsSinceEpoch (date : Date) (time : TimeOfDay) : Int :=
  ((date.number : Int) - daysBeforeYear 1970) * 86400 + time.seconds

/-- The fields of a date, a time of day, the day of the year and the day of the week. -/
structure Tm.Shows (tm : Tm) (date : Date) (time : TimeOfDay) : Prop where
  year : tm.tmYear.toInt = date.year - 1900
  month : tm.tmMon.toInt = date.month
  day : tm.tmMday.toInt = date.day
  hour : tm.tmHour.toInt = time.hour
  minute : tm.tmMin.toInt = time.minute
  second : tm.tmSec.toInt = time.second
  dayOfYear : tm.tmYday.toInt = date.dayOfYear
  weekday : tm.tmWday.toInt = date.weekday
  noDst : tm.tmIsdst = 0

/-- A reading that is a date of the years from 2000 to 2099 and a time of day. -/
structure RtcTime.Valid (reading : RtcTime) : Prop where
  year : reading.years.toNat ≤ 99
  monthPositive : 1 ≤ reading.months.toNat
  monthInYear : reading.months.toNat ≤ 12
  dayPositive : 1 ≤ reading.days.toNat
  dayInMonth : reading.days.toNat ≤ monthLength (reading.years.toNat + 2000) (reading.months.toNat - 1)
  hour : reading.hours.toNat < 24
  minute : reading.minutes.toNat < 60
  second : reading.seconds.toNat < 60

/-- The date and the time of day of a reading. -/
structure Tm.GivesBack (tm : Tm) (reading : RtcTime) : Prop where
  year : tm.tmYear.toInt + 1900 = reading.years.toNat + 2000
  month : tm.tmMon.toInt + 1 = reading.months.toNat
  day : tm.tmMday.toInt = reading.days.toNat
  hour : tm.tmHour.toInt = reading.hours.toNat
  minute : tm.tmMin.toInt = reading.minutes.toNat
  second : tm.tmSec.toInt = reading.seconds.toNat

/-! ## The loops -/

/-- The test for leap years is that of the calendar. -/
theorem isLeap_natCast (year : Nat) : IsLeap (year : Int) ↔ IsLeapYear year := by
  have four : (year : Int).tmod 4 = ((year % 4 : Nat) : Int) := (Int.ofNat_tmod year 4).symm
  have hundred : (year : Int).tmod 100 = ((year % 100 : Nat) : Int) := (Int.ofNat_tmod year 100).symm
  have fourHundred : (year : Int).tmod 400 = ((year % 400 : Nat) : Int) := (Int.ofNat_tmod year 400).symm
  rw [IsLeap, IsLeapYear, four, hundred, fourHundred]
  omega

/-- Of the years from 2000 to 2099, the last two digits decide. -/
theorem isLeap_twoDigits {year : Nat} (below : year ≤ 99) : IsLeap (year : Int) ↔ IsLeapYear (year + 2000) := by
  rw [isLeap_natCast, IsLeapYear, IsLeapYear]
  omega

theorem daysInYear_eq (year : Nat) : daysInYear year = yearLength year := by
  unfold daysInYear yearLength
  simp only [isLeap_natCast]
  split_ifs <;> rfl

/-- The table of the months with the leap day. -/
theorem daysInMonth_eq {month year : Nat} {leap : Prop} [Decidable leap] (inYear : month < 12)
    (leapYear : leap ↔ IsLeapYear year) :
    ∃ length, daysInMonth[month]? = some length ∧
      (if month = 1 ∧ leap then length + 1 else length) = (monthLength year month : Int) := by
  simp only [leapYear]
  interval_cases month <;> refine ⟨_, rfl, ?_⟩
  case «1» =>
    unfold monthLength
    split_ifs <;> simp_all
  all_goals
    rw [if_neg (by omega)]
    rfl

/-- The years that are counted off, and the day that is left of the year reached. -/
theorem yearLoop_eq (days : Nat) {year : Nat} (started : 1 ≤ year) :
    ∃ year' rest : Nat, yearLoop year days = (↑year', ↑rest) ∧ 1 ≤ year' ∧ rest < yearLength year' ∧
      daysBeforeYear year' + rest = daysBeforeYear year + days := by
  induction days using Nat.strongRecOn generalizing year with
  | _ days ih =>
      have positive := yearLength_pos year
      rw [yearLoop, daysInYear_eq]
      by_cases whole : yearLength year ≤ days
      · obtain ⟨year', rest, counted, started', inYear, same⟩ :=
          ih (days - yearLength year) (by omega) (Nat.le_add_left 1 year)
        refine ⟨year', rest, ?_, started', inYear, ?_⟩
        · rw [if_pos (by exact_mod_cast whole), ← counted]
          congr 1
          omega
        · rw [same, daysBeforeYear_succ started]
          omega
      · exact ⟨year, days, if_neg (by exact_mod_cast whole), started, by omega, rfl⟩

/-- One turn of the loop over the months. -/
theorem monthLoop_turn {year month : Nat} (inYear : month < 12) (days : Int) :
    monthLoop year month days =
      if (monthLength year month : Int) ≤ days then monthLoop year (month + 1) (days - monthLength year month)
      else some (month, days) := by
  obtain ⟨length, inTable, days_eq⟩ := daysInMonth_eq inYear (isLeap_natCast year)
  rw [monthLoop]
  split
  · rename_i missing
    rw [inTable] at missing
    cases missing
  · rename_i length' inTable'
    obtain rfl := Option.some.inj (inTable.symm.trans inTable')
    simp only [days_eq]

/-- The months that are counted off, and the day that is left of the month reached. -/
theorem monthLoop_eq {year month days : Nat} (inYear : month ≤ 12)
    (short : daysBeforeMonth year month + days < yearLength year) :
    ∃ month' rest : Nat, monthLoop year month days = some (month', ↑rest) ∧ month' < 12 ∧
      rest < monthLength year month' ∧ daysBeforeMonth year month' + rest = daysBeforeMonth year month + days := by
  induction left : 12 - month generalizing month days with
  | zero =>
      obtain rfl : month = 12 := by omega
      rw [daysBeforeMonth_twelve] at short
      omega
  | succ left ih =>
      have here : month < 12 := by omega
      rw [monthLoop_turn here]
      by_cases whole : monthLength year month ≤ days
      · have next : daysBeforeMonth year (month + 1) + (days - monthLength year month) =
            daysBeforeMonth year month + days := by
          rw [daysBeforeMonth]
          omega
        obtain ⟨month', rest, counted, inYear', inMonth, same⟩ :=
          @ih (month + 1) (days - monthLength year month) here (by omega) (by omega)
        refine ⟨month', rest, ?_, inYear', inMonth, by omega⟩
        rw [if_pos (by exact_mod_cast whole), ← counted]
        congr 1
        omega
      · exact ⟨month, days, if_neg (by exact_mod_cast whole), here, by omega, rfl⟩

/-- The seconds of the years are added up. -/
theorem addYears_eq {y stop : Nat} (started : 1 ≤ y) (order : y ≤ stop) (t : Int) :
    addYears y stop t = t + ((daysBeforeYear stop : Int) - daysBeforeYear y) * 86400 := by
  induction left : stop - y generalizing y t with
  | zero =>
      obtain rfl : y = stop := by omega
      rw [addYears, if_neg (Int.lt_irrefl _)]
      omega
  | succ left ih =>
      have next := daysBeforeYear_succ started
      have length := daysInYear_eq y
      rw [addYears, if_pos (by omega)]
      have step : (if IsLeap (y : Int) then t + 365 * 24 * 3600 + 24 * 3600 else t + 365 * 24 * 3600) =
          t + daysInYear y * 86400 := by
        unfold daysInYear
        split_ifs <;> omega
      have later := ih (y := y + 1) (Nat.le_add_left 1 y) (by omega) (t + daysInYear y * 86400) (by omega)
      rw [step, show ((y : Int) + 1) = ((y + 1 : Nat) : Int) from rfl, later, next]
      push_cast
      omega

/-- The seconds of the months are added up, when the leap years of the two numbers agree. -/
theorem addMonths_eq {years : Int} {year m stop : Nat} (leapYear : IsLeap years ↔ IsLeapYear year) (first : 1 ≤ m)
    (order : m ≤ stop) (inYear : stop ≤ 12) (t : Int) :
    addMonths years m stop t =
      some (t + ((daysBeforeMonth year (stop - 1) : Int) - daysBeforeMonth year (m - 1)) * 86400) := by
  induction left : stop - m generalizing m t with
  | zero =>
      obtain rfl : m = stop := by omega
      rw [addMonths, if_neg (Nat.lt_irrefl _)]
      congr 1
      omega
  | succ left ih =>
      obtain ⟨month, rfl⟩ := Nat.exists_eq_add_of_le' first
      have inYear' : month < 12 := by omega
      obtain ⟨length, inTable, days_eq⟩ := daysInMonth_eq inYear' leapYear
      rw [addMonths, if_pos (by omega), Nat.add_sub_cancel, inTable, Option.bind_some]
      have step : (if month + 1 = 2 ∧ IsLeap years then t + length * 24 * 3600 + 24 * 3600 else t + length * 24 * 3600) =
          t + monthLength year month * 86400 := by
        rw [← days_eq]
        simp only [show month + 1 = 2 ↔ month = 1 by omega]
        split_ifs <;> omega
      rw [step, ih (m := month + 1 + 1) (by omega) (by omega) _ (by omega), Nat.add_sub_cancel, daysBeforeMonth]
      congr 1
      push_cast
      omega

/-! ## Both ways -/

theorem daysBeforeYear_1970 : daysBeforeYear 1970 = 719162 := by decide

/-- The record that `gmtime` fills for a date and a time of day. -/
def tmOf (date : Date) (time : TimeOfDay) : Tm where
  tmSec := Int32.ofInt time.second
  tmMin := Int32.ofInt time.minute
  tmHour := Int32.ofInt time.hour
  tmMday := Int32.ofInt date.day
  tmMon := Int32.ofInt date.month
  tmYear := Int32.ofInt (date.year - 1900)
  tmWday := Int32.ofInt date.weekday
  tmYday := Int32.ofInt date.dayOfYear
  tmIsdst := 0

/-- The date and the time of day that `gmtime` finds. -/
theorem gmtime_eq (n : Nat) :
    ∃ (date : Date) (time : TimeOfDay), gmtime n = some (tmOf date time) ∧ secondsSinceEpoch date time = n := by
  have minutes : (n : Int).tdiv 60 = ((n / 60 : Nat) : Int) := (Int.ofNat_tdiv n 60).symm
  have hours : ((n / 60 : Nat) : Int).tdiv 60 = ((n / 60 / 60 : Nat) : Int) := (Int.ofNat_tdiv _ 60).symm
  have days : ((n / 60 / 60 : Nat) : Int).tdiv 24 = ((n / 60 / 60 / 24 : Nat) : Int) := (Int.ofNat_tdiv _ 24).symm
  obtain ⟨year, yearDay, yearsOff, started, inYear, sameYear⟩ := yearLoop_eq (n / 60 / 60 / 24) (by decide : 1 ≤ 1970)
  obtain ⟨month, monthDay, monthsOff, monthInYear, inMonth, sameMonth⟩ :=
    @monthLoop_eq year 0 yearDay (Nat.zero_le 12) (by rw [daysBeforeMonth]; omega)
  have dayOfYear : daysBeforeMonth year month + (monthDay + 1 - 1) = yearDay := by
    rw [Nat.add_sub_cancel, sameMonth, daysBeforeMonth, Nat.zero_add]
  let date : Date := ⟨year, month, monthDay + 1, started, monthInYear, Nat.le_add_left 1 _, inMonth⟩
  let time : TimeOfDay := ⟨n / 60 / 60 % 24, n / 60 % 60, n % 60, Nat.mod_lt _ (by decide), Nat.mod_lt _ (by decide),
    Nat.mod_lt _ (by decide)⟩
  have number : date.number = 719162 + n / 60 / 60 / 24 := by
    have total : date.number = daysBeforeYear year + yearDay := congrArg (daysBeforeYear year + ·) dayOfYear
    rw [total, sameYear, daysBeforeYear_1970]
  refine ⟨date, time, ?_, ?_⟩
  · have weekday : ((4 + (n : Int).tdiv 86400).tmod 7) = (date.weekday : Int) := by
      have dayCount : (n : Int).tdiv 86400 = ((n / 86400 : Nat) : Int) := (Int.ofNat_tdiv n 86400).symm
      have wrapped : (4 + ((n / 86400 : Nat) : Int)).tmod 7 = (((4 + n / 86400) % 7 : Nat) : Int) :=
        (Int.ofNat_tmod (4 + n / 86400) 7).symm
      rw [dayCount, wrapped, Date.weekday, number]
      omega
    have seconds : (n : Int).tmod 60 = ((n % 60 : Nat) : Int) := (Int.ofNat_tmod n 60).symm
    have minute : ((n / 60 : Nat) : Int).tmod 60 = ((n / 60 % 60 : Nat) : Int) := (Int.ofNat_tmod _ 60).symm
    have hour : ((n / 60 / 60 : Nat) : Int).tmod 24 = ((n / 60 / 60 % 24 : Nat) : Int) := (Int.ofNat_tmod _ 24).symm
    have yearDay_eq : (yearDay : Int) = date.dayOfYear := by
      rw [← dayOfYear]
      rfl
    have firstMonth : monthLoop year 0 yearDay = some (month, (monthDay : Int)) := monthsOff
    unfold gmtime
    dsimp only
    rw [minutes, hours, days, weekday, seconds, minute, hour]
    have fromEpoch : yearLoop 1970 ((n / 60 / 60 / 24 : Nat) : Int) = (↑year, ↑yearDay) := yearsOff
    rw [fromEpoch]
    dsimp only
    rw [firstMonth, Option.map_some, yearDay_eq]
    rfl
  · rw [secondsSinceEpoch, number, daysBeforeYear_1970, TimeOfDay.seconds]
    dsimp only [time]
    omega

/-- The years in front of a year have at least 365 days. -/
theorem year_le_number (date : Date) : 365 * (date.year - 1) ≤ date.number := by
  have fewer : (date.year - 1) / 100 ≤ (date.year - 1) / 4 := Nat.div_le_div_left (by decide) (by decide)
  rw [Date.number, daysBeforeYear]
  omega

/-- Up to the year 2000000 the fields hold what is put into them. -/
theorem tmOf_shows (date : Date) (time : TimeOfDay) (early : date.year ≤ 2000000) : (tmOf date time).Shows date time := by
  have days := date.dayOfYear_lt
  have length : yearLength date.year ≤ 366 := by
    unfold yearLength
    split_ifs <;> decide
  have inMonth := date.dayInMonth
  have monthLength_le : monthLength date.year date.month ≤ daysBeforeMonth date.year 12 := by
    have whole : daysBeforeMonth date.year (date.month + 1) ≤ daysBeforeMonth date.year 12 :=
      daysBeforeMonth_mono date.monthInYear
    rw [daysBeforeMonth] at whole
    omega
  rw [daysBeforeMonth_twelve] at monthLength_le
  have inYear := date.monthInYear
  have hour := time.hourInDay
  have minute := time.minuteInHour
  have second := time.secondInMinute
  have weekday : date.weekday < 7 := Nat.mod_lt _ (by decide)
  constructor
  · exact Int32.toInt_ofInt_of_le (by omega) (by omega)
  · exact Int32.toInt_ofInt_of_le (by omega) (by omega)
  · exact Int32.toInt_ofInt_of_le (by omega) (by omega)
  · exact Int32.toInt_ofInt_of_le (by omega) (by omega)
  · exact Int32.toInt_ofInt_of_le (by omega) (by omega)
  · exact Int32.toInt_ofInt_of_le (by omega) (by omega)
  · exact Int32.toInt_ofInt_of_le (by omega) (by omega)
  · exact Int32.toInt_ofInt_of_le (by omega) (by omega)
  · rfl

/-- `gmtime` shows the date and the time of day to which a count of seconds belongs. -/
theorem gmtime_shows {t : Int} (nonneg : 0 ≤ t) (below : t < 2 ^ 40) :
    ∃ (tm : Tm) (date : Date) (time : TimeOfDay),
      gmtime t = some tm ∧ tm.Shows date time ∧ secondsSinceEpoch date time = t := by
  obtain ⟨n, rfl⟩ := Int.eq_ofNat_of_zero_le nonneg
  obtain ⟨date, time, found, seconds⟩ := gmtime_eq n
  refine ⟨tmOf date time, date, time, found, tmOf_shows date time ?_, seconds⟩
  have years := year_le_number date
  rw [secondsSinceEpoch, daysBeforeYear_1970] at seconds
  omega

/-! ## Readings of the clock -/

namespace RtcTime

variable {reading : RtcTime}

/-- The date of a reading. -/
def date (reading : RtcTime) (valid : reading.Valid) : Date where
  year := reading.years.toNat + 2000
  month := reading.months.toNat - 1
  day := reading.days.toNat
  started := Nat.le_add_left 1 _
  monthInYear := by
    have inYear := valid.monthInYear
    have positive := valid.monthPositive
    omega
  dayPositive := valid.dayPositive
  dayInMonth := valid.dayInMonth

/-- The time of day of a reading. -/
def timeOfDay (reading : RtcTime) (valid : reading.Valid) : TimeOfDay :=
  ⟨reading.hours.toNat, reading.minutes.toNat, reading.seconds.toNat, valid.hour, valid.minute, valid.second⟩

end RtcTime

/-- `rtc_to_time_t` counts the seconds to the date and the time of day of a reading. -/
theorem rtcToTimeT_eq {reading : RtcTime} (valid : reading.Valid) :
    rtcToTimeT (some reading) = some (secondsSinceEpoch (reading.date valid) (reading.timeOfDay valid)) := by
  have years := @addYears_eq 1970 (reading.years.toNat + 2000) (by decide) (by omega) 0
  have months := @addMonths_eq reading.years.toNat (reading.years.toNat + 2000) 1 reading.months.toNat
    (isLeap_twoDigits valid.year) (Nat.le_refl 1) valid.monthPositive valid.monthInYear
  have dayPositive := valid.dayPositive
  have number : (reading.date valid).number = daysBeforeYear (reading.years.toNat + 2000) +
      (daysBeforeMonth (reading.years.toNat + 2000) (reading.months.toNat - 1) + (reading.days.toNat - 1)) := rfl
  have seconds : (reading.timeOfDay valid).seconds =
      reading.hours.toNat * 3600 + reading.minutes.toNat * 60 + reading.seconds.toNat := rfl
  have start : daysBeforeMonth (reading.years.toNat + 2000) (1 - 1) = 0 := rfl
  have fromEpoch : addYears 1970 ((reading.years.toNat : Int) + 2000) 0 = _ := years
  rw [rtcToTimeT, fromEpoch, months, Option.map_some, secondsSinceEpoch, number, seconds, start]
  congr 1
  push_cast
  omega

/-- Two dates and times of day with the same count of seconds are the same. -/
theorem eq_of_secondsSinceEpoch {date date' : Date} {time time' : TimeOfDay}
    (same : secondsSinceEpoch date time = secondsSinceEpoch date' time') :
    date.number = date'.number ∧ time.hour = time'.hour ∧ time.minute = time'.minute ∧ time.second = time'.second := by
  have hour := time.hourInDay
  have minute := time.minuteInHour
  have second := time.secondInMinute
  have hour' := time'.hourInDay
  have minute' := time'.minuteInHour
  have second' := time'.secondInMinute
  unfold secondsSinceEpoch TimeOfDay.seconds at same
  omega

/-- `gmtime` gives a valid reading back from the count of seconds that `rtc_to_time_t` makes of
it. -/
theorem gmtime_rtcToTimeT {reading : RtcTime} (valid : reading.Valid) :
    ∃ t tm, rtcToTimeT (some reading) = some t ∧ gmtime t = some tm ∧ tm.GivesBack reading := by
  have year : (reading.date valid).year = reading.years.toNat + 2000 := rfl
  have century := valid.year
  have since : daysBeforeYear 1970 ≤ (reading.date valid).number :=
    Nat.le_trans (daysBeforeYear_mono (by decide) (by omega)) (Nat.le_add_right _ _)
  have until2100 : daysBeforeYear ((reading.date valid).year + 1) ≤ 767009 :=
    Nat.le_trans (daysBeforeYear_mono (Nat.le_add_left 1 _) (by omega : (reading.date valid).year + 1 ≤ 2101)) (by decide)
  have days := (reading.date valid).number_lt
  have hour := valid.hour
  have minute := valid.minute
  have second := valid.second
  have seconds : (reading.timeOfDay valid).seconds =
      reading.hours.toNat * 3600 + reading.minutes.toNat * 60 + reading.seconds.toNat := rfl
  have start := daysBeforeYear_1970
  have nonneg : 0 ≤ secondsSinceEpoch (reading.date valid) (reading.timeOfDay valid) := by
    rw [secondsSinceEpoch]
    omega
  have below : secondsSinceEpoch (reading.date valid) (reading.timeOfDay valid) < 2 ^ 40 := by
    rw [secondsSinceEpoch]
    omega
  obtain ⟨tm, date, time, found, shows, same⟩ := gmtime_shows nonneg below
  obtain ⟨numbers, sameHour, sameMinute, sameSecond⟩ := eq_of_secondsSinceEpoch same
  obtain ⟨sameYear, sameMonth, sameDay⟩ := Date.eq_of_number numbers
  have month : (reading.date valid).month = reading.months.toNat - 1 := rfl
  have monthPositive := valid.monthPositive
  refine ⟨_, tm, rtcToTimeT_eq valid, found, ?_, ?_, ?_, ?_, ?_, ?_⟩
  · rw [shows.year, sameYear, year]
    omega
  · rw [shows.month, sameMonth, month]
    omega
  · rw [shows.day, sameDay]
    rfl
  · rw [shows.hour, sameHour]
    rfl
  · rw [shows.minute, sameMinute]
    rfl
  · rw [shows.second, sameSecond]
    rfl

/-- For every count of seconds below 2⁴⁰ `gmtime` ends with the date and the time of day to which it
belongs, with the right day of the year and of the week; and it gives every valid reading of the
clock back. -/
theorem gmtime_calendar :
    (∀ t : Int, 0 ≤ t → t < 2 ^ 40 → ∃ (tm : Tm) (date : Date) (time : TimeOfDay),
      gmtime t = some tm ∧ tm.Shows date time ∧ secondsSinceEpoch date time = t) ∧
    (∀ reading : RtcTime, reading.Valid →
      ∃ t tm, rtcToTimeT (some reading) = some t ∧ gmtime t = some tm ∧ tm.GivesBack reading) :=
  ⟨fun _ => gmtime_shows, fun _ => gmtime_rtcToTimeT⟩

/-- The 29th of February 2000, 12:34:56, as a count of seconds and as a reading. -/
theorem gmtime_calendar_leapDay :
    (∃ (tm : Tm) (date : Date) (time : TimeOfDay),
      gmtime 951827696 = some tm ∧ tm.Shows date time ∧ secondsSinceEpoch date time = 951827696) ∧
    (∃ t tm, rtcToTimeT (some ⟨56, 34, 12, 29, 2, 0⟩) = some t ∧ gmtime t = some tm ∧
      tm.GivesBack ⟨56, 34, 12, 29, 2, 0⟩) :=
  ⟨gmtime_calendar.1 951827696 (by decide) (by decide),
    gmtime_calendar.2 ⟨56, 34, 12, 29, 2, 0⟩ ⟨by decide, by decide, by decide, by decide, by decide, by decide,
      by decide, by decide⟩⟩

-- The 28th of February 2100 is followed by the 1st of March.
example : (gmtime 4107542400).map (fun tm => (tm.tmYear, tm.tmMon, tm.tmMday, tm.tmYday)) = some (200, 2, 1, 59) := by
  decide +kernel

end KeblaOS.Time
