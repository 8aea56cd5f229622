-- SUMMARY: Every day and every second has its date: `timegm` is inverse to `gmtime`.
import ReductClient.Cxx.Calendar

namespace Cxx

/-! ## Days of an era -/

/-- A day of an era in its century, its group of four years and its year. A leap day is the
last day of its year. -/
theorem exists_dayOfYear {dayOfEra : Nat} (h : dayOfEra < 146097) :
    ∃ c q s dayOfYear : Nat, c < 4 ∧ q < 25 ∧ s < 4 ∧
      (dayOfYear < 365 ∨ (dayOfYear = 365 ∧ s = 3 ∧ (q ≠ 24 ∨ c = 3))) ∧
      dayOfEra = 36524 * c + 1461 * q + 365 * s + dayOfYear := by
  obtain ⟨c, hc, hcentury⟩ : ∃ c, c < 4 ∧ 36524 * c ≤ dayOfEra ∧
      (dayOfEra < 36524 * (c + 1) ∨ c = 3) := by
    by_cases hlast : dayOfEra = 146096
    · exact ⟨3, by omega⟩
    · exact ⟨dayOfEra / 36524, by omega⟩
  obtain ⟨q, hq⟩ : ∃ q, q = (dayOfEra - 36524 * c) / 1461 := ⟨_, rfl⟩
  obtain ⟨s, hs, hyear⟩ : ∃ s, s < 4 ∧ 36524 * c + 1461 * q + 365 * s ≤ dayOfEra ∧
      (dayOfEra < 36524 * c + 1461 * q + 365 * (s + 1) ∨
        s = 3 ∧ dayOfEra = 36524 * c + 1461 * q + 365 * 4) := by
    by_cases hlast : dayOfEra - 36524 * c - 1461 * q = 1460
    · exact ⟨3, by omega⟩
    · exact ⟨(dayOfEra - 36524 * c - 1461 * q) / 365, by omega⟩
  exact ⟨c, q, s, dayOfEra - (36524 * c + 1461 * q + 365 * s), hc, by omega, hs, by omega, by omega⟩

/-- A day of a year that begins in March, in its month. -/
theorem exists_dayOfMonth {dayOfYear : Nat} (h : dayOfYear ≤ 365) :
    ∃ shiftedMonth day : Nat, shiftedMonth < 12 ∧ 1 ≤ day ∧
      dayOfYear = (153 * shiftedMonth + 2) / 5 + (day - 1) ∧
      (day ≤ 30 ∨ day = 31 ∧ (shiftedMonth % 5 = 0 ∨ shiftedMonth % 5 = 2 ∨ shiftedMonth % 5 = 4)) ∧
      (shiftedMonth = 11 → day ≤ 28 ∨ day = 29 ∧ dayOfYear = 365) :=
  ⟨(5 * dayOfYear + 2) / 153, dayOfYear - (153 * ((5 * dayOfYear + 2) / 153) + 2) / 5 + 1,
    by omega⟩

/-! ## Dates -/

/-- A shifted year ends with a leap day if it is the last one of a group of four, but of a
century only in the last one of an era. -/
theorem isLeapYear_of_shifted (era : Int) {c q s : Nat} (hq : q < 25)
    (hs : s = 3 ∧ (q ≠ 24 ∨ c = 3)) :
    isLeapYear ((100 * c + 4 * q + s : Nat) + era * 400 + 1) = true := by
  simp only [isLeapYear, decide_eq_true_eq]
  omega

/-- The days before a shifted year of an era. -/
theorem daysBefore_eq {c q s : Nat} (hq : q < 25) (hs : s < 4) :
    365 * (100 * c + 4 * q + s) + (100 * c + 4 * q + s) / 4 - (100 * c + 4 * q + s) / 100 =
      36524 * c + 1461 * q + 365 * s := by
  have hquads : (100 * c + 4 * q + s) / 4 = 25 * c + q := by omega
  have hcenturies : (100 * c + 4 * q + s) / 100 = c := by omega
  rw [hquads, hcenturies]
  omega

/-- A day of a shifted month is one of the calendar. -/
theorem day_le_daysInMonth {year : Int} {shiftedMonth day : Nat} (hmonth : shiftedMonth < 12)
    (hday : day ≤ 30 ∨ day = 31 ∧ (shiftedMonth % 5 = 0 ∨ shiftedMonth % 5 = 2 ∨
      shiftedMonth % 5 = 4))
    (hfeb : shiftedMonth = 11 → day ≤ 28 ∨ day = 29 ∧ isLeapYear year = true) :
    day ≤ daysInMonth year (if shiftedMonth < 10 then shiftedMonth + 3 else shiftedMonth - 9) := by
  by_cases hlast : shiftedMonth = 11
  · subst hlast
    rcases hfeb rfl with h | ⟨rfl, hleap⟩
    · unfold daysInMonth
      split_ifs <;> omega
    · simp [daysInMonth, hleap]
  · unfold daysInMonth
    split_ifs <;> omega

/-- Every day has its date. -/
theorem exists_date (days : Int) : ∃ (year : Int) (month day : Nat),
    (1 ≤ month ∧ month ≤ 12) ∧ (1 ≤ day ∧ day ≤ daysInMonth year month) ∧
      daysFromCivil year month day = days := by
  obtain ⟨era, dayOfEra, hera, hdays⟩ : ∃ (era : Int) (dayOfEra : Nat), dayOfEra < 146097 ∧
      days = era * 146097 + dayOfEra - 719468 :=
    ⟨(days + 719468) / 146097, ((days + 719468) % 146097).toNat, by omega, by omega⟩
  obtain ⟨c, q, s, dayOfYear, hc, hq, hs, hcases, hdayOfEra⟩ := exists_dayOfYear hera
  obtain ⟨shiftedMonth, day, hmonth, hday, hdayOfYear, hlast, hfeb⟩ :=
    exists_dayOfMonth (show dayOfYear ≤ 365 by omega)
  let shiftedYear : Int := (100 * c + 4 * q + s : Nat) + era * 400
  refine ⟨if shiftedMonth < 10 then shiftedYear else shiftedYear + 1,
    if shiftedMonth < 10 then shiftedMonth + 3 else shiftedMonth - 9, day,
    by split_ifs <;> omega, ⟨hday, ?_⟩, ?_⟩
  · refine day_le_daysInMonth hmonth hlast fun heq => ?_
    refine (hfeb heq).imp_right fun ⟨h29, hend⟩ => ⟨h29, ?_⟩
    rw [if_neg (by omega)]
    exact isLeapYear_of_shifted era hq (by omega)
  · have hyear : (if (if shiftedMonth < 10 then shiftedMonth + 3 else shiftedMonth - 9) ≤ 2
        then (if shiftedMonth < 10 then shiftedYear else shiftedYear + 1) - 1
        else if shiftedMonth < 10 then shiftedYear else shiftedYear + 1) = shiftedYear := by
      split_ifs <;> omega
    have hmonth' : (if (if shiftedMonth < 10 then shiftedMonth + 3 else shiftedMonth - 9) ≤ 2
        then (if shiftedMonth < 10 then shiftedMonth + 3 else shiftedMonth - 9) + 9
        else (if shiftedMonth < 10 then shiftedMonth + 3 else shiftedMonth - 9) - 3) =
          shiftedMonth := by
      split_ifs <;> omega
    have hquotient : shiftedYear / 400 = era := by omega
    have hremainder : (shiftedYear % 400).toNat = 100 * c + 4 * q + s := by omega
    unfold daysFromCivil
    simp only [hyear, hmonth', hquotient, hremainder, daysBefore_eq hq hs]
    omega

/-! ## Seconds -/

/-- The date of a second is one of the calendar, and it is the date of that second only. -/
theorem gmtime_spec (seconds : Int) :
    (gmtime seconds).Valid ∧ timegm (gmtime seconds) = seconds := by
  obtain ⟨year, month, day, hmonth, hday, hdays⟩ := exists_date (seconds / 86400)
  have hdate : gmtime seconds = ⟨year, month, day, (seconds % 86400).toNat / 3600,
      (seconds % 86400).toNat / 60 % 60, (seconds % 86400).toNat % 60⟩ := by
    rw [gmtime, ← hdays, civilDate_daysFromCivil hmonth hday]
  rw [hdate]
  refine ⟨⟨hmonth, hday, ?_, ?_, ?_⟩, ?_⟩
  · dsimp only
    omega
  · dsimp only
    omega
  · dsimp only
    omega
  · rw [timegm]
    dsimp only
    omega

end Cxx
