-- SUMMARY: The proleptic Gregorian calendar in UTC, as `std::gmtime` and `std::put_time` have it.
import ReductClient.Cxx.Numeric

namespace Cxx

/-- The fields of a `std::tm` that a date is printed from. -/
structure CivilTime where
  year : Int
  month : Nat
  day : Nat
  hour : Nat
  minute : Nat
  second : Nat
  deriving DecidableEq

/-- The year, month and day of a day counted from the epoch. The years are taken
to begin in March, so that a leap day is the last day of its year, and 400 of them
have 146097 days. -/
def civilDate (days : Int) : Int × Nat × Nat :=
  let shifted := days + 719468
  let era := shifted / 146097
  let dayOfEra := (shifted % 146097).toNat
  let yearOfEra :=
    (dayOfEra - dayOfEra / 1460 + dayOfEra / 36524 - dayOfEra / 146096) / 365
  let dayOfYear := dayOfEra - (365 * yearOfEra + yearOfEra / 4 - yearOfEra / 100)
  let shiftedMonth := (5 * dayOfYear + 2) / 153
  let day := dayOfYear - (153 * shiftedMonth + 2) / 5 + 1
  let month := if shiftedMonth < 10 then shiftedMonth + 3 else shiftedMonth - 9
  let year := yearOfEra + era * 400
  (if month ≤ 2 then year + 1 else year, month, day)

/-- `std::gmtime`. -/
def gmtime (seconds : Int) : CivilTime :=
  let (year, month, day) := civilDate (seconds / 86400)
  let secondOfDay := (seconds % 86400).toNat
  ⟨year, month, day, secondOfDay / 3600, secondOfDay / 60 % 60, secondOfDay % 60⟩

/-- The day of a date, counted from the epoch. -/
def daysFromCivil (year : Int) (month day : Nat) : Int :=
  let shiftedYear := if month ≤ 2 then year - 1 else year
  let yearOfEra := (shiftedYear % 400).toNat
  let shiftedMonth := if month ≤ 2 then month + 9 else month - 3
  let dayOfEra := 365 * yearOfEra + yearOfEra / 4 - yearOfEra / 100 + (153 * shiftedMonth + 2) / 5
  shiftedYear / 400 * 146097 + dayOfEra + day - 1 - 719468

/-- `timegm`. Days and seconds beyond the end of their month or minute are counted
into the next one. -/
def timegm (t : CivilTime) : Int :=
  daysFromCivil t.year t.month t.day * 86400 + t.hour * 3600 + t.minute * 60 + t.second

/-! ## The calendar -/

/-- The year has a leap day. -/
def isLeapYear (year : Int) : Bool := year % 4 = 0 ∧ (year % 100 ≠ 0 ∨ year % 400 = 0)

/-- The number of days of a month. -/
def daysInMonth (year : Int) (month : Nat) : Nat :=
  if month = 2 then if isLeapYear year then 29 else 28
  else if month = 4 ∨ month = 6 ∨ month = 9 ∨ month = 11 then 30
  else 31

/-- The fields are those of a second of the calendar. -/
structure CivilTime.Valid (t : CivilTime) : Prop where
  month : 1 ≤ t.month ∧ t.month ≤ 12
  day : 1 ≤ t.day ∧ t.day ≤ daysInMonth t.year t.month
  hour : t.hour < 24
  minute : t.minute < 60
  second : t.second < 60

/-- The year of a day of an era, for the year with the number `100 * c + 4 * q + s`. -/
theorem yearOfEra_eq {c q s dayOfYear dayOfEra : Nat} (hc : c < 4) (hq : q < 25) (hs : s < 4)
    (hday : dayOfYear < 365 ∨ (dayOfYear = 365 ∧ s = 3 ∧ (q ≠ 24 ∨ c = 3)))
    (hera : dayOfEra = 36524 * c + 1461 * q + 365 * s + dayOfYear) :
    (dayOfEra - dayOfEra / 1460 + dayOfEra / 36524 - dayOfEra / 146096) / 365 =
      100 * c + 4 * q + s := by
  have hquads : dayOfEra / 1460 =
      25 * c + q + (24 * c + q + 365 * s + dayOfYear) / 1460 := by omega
  have hcarry : (24 * c + q + 365 * s + dayOfYear) / 1460 =
      if 1460 ≤ 24 * c + q + 365 * s + dayOfYear then 1 else 0 := by
    split <;> omega
  -- the last day of an era is the only one that the division counts to a fifth century
  have hcentury : dayOfEra / 36524 - dayOfEra / 146096 = c ∧
      dayOfEra / 146096 ≤ dayOfEra / 36524 := by
    by_cases hlast : dayOfEra < 36524 * (c + 1)
    · have hquotient : dayOfEra / 36524 = c := by omega
      have hfirst : dayOfEra / 146096 = 0 := by omega
      omega
    · obtain rfl : c = 3 := by omega
      obtain rfl : dayOfEra = 146096 := by omega
      decide
  have hsum : dayOfEra - dayOfEra / 1460 + dayOfEra / 36524 - dayOfEra / 146096 =
      dayOfEra - dayOfEra / 1460 + c := by omega
  rw [hsum, hquads, hcarry]
  split <;> omega

/-- The month of a day of the year, from March on. -/
theorem shiftedMonth_eq {shiftedMonth day : Nat} (hday : 1 ≤ day)
    (hlast : day ≤ 30 ∨ day = 31 ∧ (shiftedMonth % 5 = 0 ∨ shiftedMonth % 5 = 2 ∨
      shiftedMonth % 5 = 4)) :
    (5 * ((153 * shiftedMonth + 2) / 5 + (day - 1)) + 2) / 153 = shiftedMonth := by
  omega

/-- A leap day is the last day of its shifted year, and the others come before day 365. -/
theorem dayOfYear_cases {year : Int} {month day : Nat} (hmonth : 1 ≤ month ∧ month ≤ 12)
    (hday : 1 ≤ day ∧ day ≤ daysInMonth year month) :
    let shiftedMonth := if month ≤ 2 then month + 9 else month - 3
    (day ≤ 30 ∨ day = 31 ∧ (shiftedMonth % 5 = 0 ∨ shiftedMonth % 5 = 2 ∨
      shiftedMonth % 5 = 4)) ∧
    ((153 * shiftedMonth + 2) / 5 + (day - 1) < 365 ∨
      (153 * shiftedMonth + 2) / 5 + (day - 1) = 365 ∧ month = 2 ∧ isLeapYear year = true) := by
  dsimp only
  unfold daysInMonth at hday
  split_ifs at hday with hfeb hleap hshort
  · subst hfeb
    simp only [le_refl, if_true, hleap, and_true]
    omega
  · subst hfeb
    simp only [le_refl, if_true]
    omega
  · split_ifs <;> omega
  · split_ifs <;> omega

theorem shiftedDays_eq {day : Nat} (h : 1 ≤ day) (start : Int) (daysBefore monthStart : Nat) :
    start + (daysBefore + monthStart : Nat) + day - 1 - 719468 + 719468 =
      start + (daysBefore + (monthStart + (day - 1)) : Nat) := by
  omega

theorem dayOfEra_lt {c q s dayOfYear : Nat} (hc : c < 4) (hq : q < 25) (hs : s < 4)
    (hday : dayOfYear < 365 ∨ (dayOfYear = 365 ∧ s = 3 ∧ (q ≠ 24 ∨ c = 3))) :
    36524 * c + 1461 * q + 365 * s + dayOfYear < 146097 := by
  omega

/-- A day of an era, taken apart. -/
theorem era_of_shifted (era : Int) {dayOfEra : Nat} (h : dayOfEra < 146097) :
    (era * 146097 + dayOfEra) / 146097 = era ∧
      ((era * 146097 + dayOfEra) % 146097).toNat = dayOfEra := by
  omega

/-- A leap year ends a group of four shifted years, and a century only in the last one
of an era. -/
theorem shiftedYear_of_leap {year : Int} {c q s : Nat} (hc : c < 4) (hs : s < 4)
    (hyear : ((year - 1) % 400).toNat = 100 * c + 4 * q + s) (hleap : isLeapYear year = true) :
    s = 3 ∧ (q ≠ 24 ∨ c = 3) := by
  simp only [isLeapYear, decide_eq_true_eq] at hleap
  obtain ⟨hfour, hcentury⟩ := hleap
  have hend : s = 3 := by omega
  refine ⟨hend, ?_⟩
  by_contra hno
  have hlast : q = 24 := by omega
  have hnot : year % 100 = 0 ∧ year % 400 ≠ 0 := by omega
  omega

/-- The day of a date has the date. -/
theorem civilDate_daysFromCivil {year : Int} {month day : Nat} (hmonth : 1 ≤ month ∧ month ≤ 12)
    (hday : 1 ≤ day ∧ day ≤ daysInMonth year month) :
    civilDate (daysFromCivil year month day) = (year, month, day) := by
  obtain ⟨hlast, hcases⟩ := dayOfYear_cases hmonth hday
  unfold daysFromCivil
  dsimp only at hlast hcases ⊢
  generalize hsm : (if month ≤ 2 then month + 9 else month - 3) = shiftedMonth at *
  generalize hsy : (if month ≤ 2 then year - 1 else year) = shiftedYear
  generalize hdoy : (153 * shiftedMonth + 2) / 5 + (day - 1) = dayOfYear at *
  have hback : (if shiftedMonth < 10 then shiftedMonth + 3 else shiftedMonth - 9) = month := by
    rw [← hsm]
    split_ifs <;> omega
  have hdayBack : dayOfYear - (153 * shiftedMonth + 2) / 5 + 1 = day := by omega
  -- the year of the era, by centuries and groups of four years
  obtain ⟨c, q, s, hc, hq, hs, hyear⟩ : ∃ c q s : Nat, c < 4 ∧ q < 25 ∧ s < 4 ∧
      (shiftedYear % 400).toNat = 100 * c + 4 * q + s := by
    refine ⟨(shiftedYear % 400).toNat / 100, (shiftedYear % 400).toNat % 100 / 4,
      (shiftedYear % 400).toNat % 4, ?_, ?_, ?_, ?_⟩ <;> omega
  have hera : (100 * c + 4 * q + s : Nat) + shiftedYear / 400 * 400 = shiftedYear := by omega
  have hleap : dayOfYear < 365 ∨ (dayOfYear = 365 ∧ s = 3 ∧ (q ≠ 24 ∨ c = 3)) := by
    refine hcases.imp_right fun ⟨hend, hfeb, hleap⟩ => ⟨hend, ?_⟩
    rw [hfeb, if_pos (le_refl 2)] at hsy
    rw [← hsy] at hyear
    exact shiftedYear_of_leap hc hs hyear hleap
  rw [hyear]
  generalize hdays : 365 * (100 * c + 4 * q + s) + (100 * c + 4 * q + s) / 4 -
    (100 * c + 4 * q + s) / 100 = daysBefore
  have hdayOfEra : daysBefore + dayOfYear = 36524 * c + 1461 * q + 365 * s + dayOfYear := by
    omega
  obtain ⟨hquotient, hremainder⟩ := era_of_shifted (shiftedYear / 400)
    (hdayOfEra.trans_lt (dayOfEra_lt hc hq hs hleap))
  have hyearOfEra := yearOfEra_eq hc hq hs hleap hdayOfEra
  have hmonthOfYear : (5 * dayOfYear + 2) / 153 = shiftedMonth := by
    rw [← hdoy]
    exact shiftedMonth_eq hday.1 hlast
  unfold civilDate
  simp only [shiftedDays_eq hday.1, hdoy, hquotient, hremainder, hyearOfEra, hdays,
    Nat.add_sub_cancel_left, hmonthOfYear]
  rw [hback, hdayBack, hera, ← hsy]
  refine Prod.ext ?_ rfl
  by_cases hfirst : month ≤ 2
  · simp only [if_pos hfirst, Int.sub_add_cancel]
  · simp only [if_neg hfirst]

/-- `timegm` is inverse to `gmtime` on the seconds of the calendar. -/
theorem gmtime_timegm {t : CivilTime} (h : t.Valid) : gmtime (timegm t) = t := by
  have hhour := h.hour
  have hminute := h.minute
  have hsecond := h.second
  have hdays : timegm t / 86400 = daysFromCivil t.year t.month t.day := by
    unfold timegm
    omega
  have hrest : (timegm t % 86400).toNat = t.hour * 3600 + t.minute * 60 + t.second := by
    unfold timegm
    omega
  rw [gmtime, hdays, hrest, civilDate_daysFromCivil h.month h.day]
  dsimp only
  have hhours : (t.hour * 3600 + t.minute * 60 + t.second) / 3600 = t.hour := by omega
  have hminutes : (t.hour * 3600 + t.minute * 60 + t.second) / 60 % 60 = t.minute := by omega
  have hseconds : (t.hour * 3600 + t.minute * 60 + t.second) % 60 = t.second := by omega
  rw [hhours, hminutes, hseconds]

/-- A number below 100 in two digits. -/
def twoDigits (n : Nat) : Bytes := [digitByte (n / 10), digitByte (n % 10)]

/-- `std::put_time` with the format `%Y-%m-%dT%H:%M:%SZ`. -/
def formatIso8601 (t : CivilTime) : Bytes :=
  decimalSigned t.year ++ dash :: twoDigits t.month ++ dash :: twoDigits t.day ++ bytes "T" ++
    twoDigits t.hour ++ bytes ":" ++ twoDigits t.minute ++ bytes ":" ++ twoDigits t.second ++
    bytes "Z"

example : formatIso8601 (gmtime 951782399) = bytes "2000-02-28T23:59:59Z" := by decide

example : formatIso8601 (gmtime (-1)) = bytes "1969-12-31T23:59:59Z" := by decide

end Cxx
