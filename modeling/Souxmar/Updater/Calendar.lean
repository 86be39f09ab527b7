import Souxmar.Lib.Gregorian
import Souxmar.Updater.Rfc3339

/-!
# The calendar behind the timestamps

`timegm` numbers the days of the Gregorian calendar, with 1970-01-01 as day zero, and `gmtime` undoes it.
-/

namespace Souxmar.Updater

open Souxmar.Lib

/-! ## From dates to days -/

/-- Days from the start of the era to the first of March of the year. -/
def yearStart (y : ℤ) : ℤ := 365 * y + y / 4 - y / 100 + y / 400

theorem yearStart_succ (y : ℤ) :
    yearStart (y + 1) = yearStart y + if IsLeap (y + 1) then 366 else 365 := by
  unfold yearStart IsLeap
  split_ifs <;> omega

theorem daysFromCivil_eq (year mon mday : ℤ) :
    daysFromCivil year mon mday = yearStart (if mon ≤ 2 then year - 1 else year) +
      (153 * (if mon > 2 then mon - 3 else mon + 9) + 2) / 5 + mday - 719469 := by
  unfold daysFromCivil yearStart
  generalize (if mon ≤ 2 then year - 1 else year) = y
  dsimp only
  omega

/-- The day number of a date. -/
def dayNumber (d : Date) : ℤ := daysFromCivil d.year d.mon d.mday

theorem dayNumber_epoch : dayNumber ⟨1970, 1, 1, RealDay.new_year _⟩ = 0 := by decide

theorem month_step {year mon : ℤ} (hmon : 1 ≤ mon) (hmon' : mon < 12) :
    daysFromCivil year (mon + 1) 1 = daysFromCivil year mon (daysInMonth year mon) + 1 := by
  rw [daysFromCivil_eq, daysFromCivil_eq, daysInMonth]
  by_cases hfeb : mon = 2
  · -- the leap day ends the year that starts in March
    have hyear := yearStart_succ (year - 1)
    rw [Int.sub_add_cancel] at hyear
    rw [hfeb, if_pos rfl, if_neg (by omega), if_pos (by omega), if_pos (by omega), if_neg (by omega)]
    split_ifs at hyear ⊢ <;> omega
  · rw [if_neg hfeb]
    by_cases hjan : mon = 1
    · rw [if_pos (by omega), if_neg (by omega), if_pos (by omega), if_neg (by omega), if_neg (by omega)]
      omega
    · rw [if_neg (by omega), if_pos (by omega), if_neg (by omega), if_pos (by omega)]
      split_ifs with hshort
      · rcases hshort with rfl | rfl | rfl | rfl <;> omega
      · have hlong : mon = 3 ∨ mon = 5 ∨ mon = 7 ∨ mon = 8 ∨ mon = 10 := by omega
        rcases hlong with rfl | rfl | rfl | rfl | rfl <;> omega

theorem countsDays : CountsDays dayNumber := by
  intro d
  have hmon := d.real.mon_pos
  have hmon' := d.real.mon_le
  have hmday := d.real.mday_le
  unfold dayNumber Date.tomorrow
  split_ifs with hday hlast
  · dsimp only
    rw [daysFromCivil_eq, daysFromCivil_eq]
    omega
  · have hend : d.mday = daysInMonth d.year d.mon := by omega
    rw [hend]
    exact month_step hmon hlast
  · have hdec : d.mon = 12 := by omega
    have hlen : daysInMonth d.year 12 = 31 := rfl
    rw [hdec, hlen] at hmday hday
    have hend : d.mday = 31 := by omega
    dsimp only
    rw [hdec, hend, daysFromCivil_eq, daysFromCivil_eq, if_pos (by omega), if_neg (by omega),
      if_neg (by omega), if_pos (by omega), Int.add_sub_cancel]
    omega

/-! ## From days to dates -/

/-- A day of an era: the century, the four-year cycle in it, the year of that, and the day of that year. The
last year of a cycle has the leap day, except in the last cycle of the first three centuries. -/
structure EraDay (doe c q k doy : ℤ) : Prop where
  century : 0 ≤ c ∧ c ≤ 3
  cycle : 0 ≤ q ∧ q ≤ 24
  yearOfCycle : 0 ≤ k ∧ k ≤ 3
  dayOfYear : 0 ≤ doy ∧ doy ≤ 365
  leapDay : doy = 365 → k = 3 ∧ (q = 24 → c = 3)
  total : doe = 36524 * c + 1461 * q + 365 * k + doy

theorem exists_eraDay {doe : ℤ} (hpos : 0 ≤ doe) (hlt : doe < 146097) :
    ∃ c q k doy, EraDay doe c q k doy := by
  obtain ⟨c, r, hc, hr, hlast, hdoe⟩ : ∃ c r : ℤ, (0 ≤ c ∧ c ≤ 3) ∧ (0 ≤ r ∧ r ≤ 36524) ∧
      (r = 36524 → c = 3) ∧ doe = 36524 * c + r := by
    by_cases hend : doe = 146096
    · exact ⟨3, 36524, by omega⟩
    · exact ⟨doe / 36524, doe % 36524, by omega⟩
  obtain ⟨k, doy, hk, hdoy, hleap, hrest⟩ : ∃ k doy : ℤ, (0 ≤ k ∧ k ≤ 3) ∧ (0 ≤ doy ∧ doy ≤ 365) ∧
      (doy = 365 → k = 3) ∧ r % 1461 = 365 * k + doy := by
    by_cases hend : r % 1461 = 1460
    · exact ⟨3, 365, by omega⟩
    · exact ⟨r % 1461 / 365, r % 1461 % 365, by omega⟩
  exact ⟨c, r / 1461, k, doy, hc, by omega, hk, hdoy, by omega, by omega⟩

theorem EraDay.year_eq {doe c q k doy : ℤ} (h : EraDay doe c q k doy) :
    (doe - doe / 1460 + doe / 36524 - doe / 146096) / 365 = 100 * c + 4 * q + k := by
  obtain ⟨hc, hq, hk, hdoy, hleap, htotal⟩ := h
  have hera : doe / 146096 = if doe = 146096 then 1 else 0 := by split_ifs <;> omega
  have hcentury : doe / 36524 = if doe = 146096 then 4 else c := by split_ifs <;> omega
  have hcycle : doe / 1460 =
      25 * c + q + if 1460 ≤ 24 * c + q + 365 * k + doy then 1 else 0 := by split_ifs <;> omega
  rw [hera, hcentury, hcycle]
  split_ifs <;> omega

theorem EraDay.day_eq {doe c q k doy : ℤ} (h : EraDay doe c q k doy) {yoe : ℤ}
    (hyoe : yoe = 100 * c + 4 * q + k) : doe - (365 * yoe + yoe / 4 - yoe / 100) = doy := by
  obtain ⟨hc, hq, hk, -, -, htotal⟩ := h
  have hfour : yoe / 4 = 25 * c + q := by omega
  have hhundred : yoe / 100 = c := by omega
  omega

theorem EraDay.yearStart_eq {doe c q k doy : ℤ} (h : EraDay doe c q k doy) {yoe : ℤ}
    (hyoe : yoe = 100 * c + 4 * q + k) (era : ℤ) :
    yearStart (yoe + era * 400) = era * 146097 + (doe - doy) := by
  obtain ⟨hc, hq, hk, -, -, htotal⟩ := h
  have hfour : (yoe + era * 400) / 4 = 25 * c + q + era * 100 := by omega
  have hhundred : (yoe + era * 400) / 100 = c + era * 4 := by omega
  have hera : (yoe + era * 400) / 400 = era := by omega
  rw [yearStart, hfour, hhundred, hera]
  omega

theorem EraDay.leap {doe c q k doy : ℤ} (h : EraDay doe c q k doy) {yoe : ℤ}
    (hyoe : yoe = 100 * c + 4 * q + k) (era : ℤ) (hlast : doy = 365) :
    IsLeap (yoe + era * 400 + 1) := by
  obtain ⟨hc, hq, hk, -, hleap, -⟩ := h
  obtain ⟨hk3, hq24⟩ := hleap hlast
  unfold IsLeap
  omega

theorem month_of_day {doy : ℤ} (hpos : 0 ≤ doy) (hlt : doy ≤ 365) :
    (0 ≤ (5 * doy + 2) / 153 ∧ (5 * doy + 2) / 153 ≤ 11) ∧
      (153 * ((5 * doy + 2) / 153) + 2) / 5 ≤ doy ∧
        doy < (153 * ((5 * doy + 2) / 153 + 1) + 2) / 5 := by
  omega

/-- The day `doy` of the year from March, as the `mp`-th month after March and a day of it. -/
theorem real_of_month {y doy mp : ℤ} (hmp : 0 ≤ mp ∧ mp ≤ 11) (hstart : (153 * mp + 2) / 5 ≤ doy)
    (hend : doy < (153 * (mp + 1) + 2) / 5) (hlast : doy ≤ 365) (hleap : doy = 365 → IsLeap (y + 1)) :
    RealDay (y + if (if mp < 10 then mp + 3 else mp - 9) ≤ 2 then 1 else 0)
      (if mp < 10 then mp + 3 else mp - 9) (doy - (153 * mp + 2) / 5 + 1) := by
  by_cases hmarch : mp < 10
  · rw [if_pos hmarch, if_neg (by omega)]
    refine ⟨by omega, by omega, by omega, ?_⟩
    rw [daysInMonth, if_neg (by omega)]
    split_ifs <;> omega
  · rw [if_neg hmarch, if_pos (by omega)]
    refine ⟨by omega, by omega, by omega, ?_⟩
    rw [daysInMonth]
    by_cases hfeb : mp - 9 = 2
    · rw [if_pos hfeb]
      split_ifs with hleap'
      · omega
      · have hshort := mt hleap hleap'
        omega
    · rw [if_neg hfeb]
      split_ifs <;> omega

theorem number_of_month {y doy mp : ℤ} (hmp : 0 ≤ mp ∧ mp ≤ 11) :
    daysFromCivil (y + if (if mp < 10 then mp + 3 else mp - 9) ≤ 2 then 1 else 0)
      (if mp < 10 then mp + 3 else mp - 9) (doy - (153 * mp + 2) / 5 + 1) =
        yearStart y + doy - 719468 := by
  by_cases hmarch : mp < 10
  · rw [if_pos hmarch, if_neg (by omega), daysFromCivil_eq, if_neg (by omega), if_pos (by omega),
      Int.add_zero, Int.add_sub_cancel]
    omega
  · rw [if_neg hmarch, if_pos (by omega), daysFromCivil_eq, if_pos (by omega), if_neg (by omega),
      Int.add_sub_cancel, Int.sub_add_cancel]
    omega

theorem real_civilFromDays (days : ℤ) :
    RealDay (civilFromDays days).1 (civilFromDays days).2.1 (civilFromDays days).2.2 ∧
      daysFromCivil (civilFromDays days).1 (civilFromDays days).2.1 (civilFromDays days).2.2 = days := by
  obtain ⟨era, doe, hera, hdoe, hpos, hlt⟩ : ∃ era doe : ℤ, (days + 719468) / 146097 = era ∧
      days + 719468 - era * 146097 = doe ∧ 0 ≤ doe ∧ doe < 146097 :=
    ⟨_, _, rfl, rfl, by omega, by omega⟩
  obtain ⟨c, q, k, doy, h⟩ := exists_eraDay hpos hlt
  obtain ⟨yoe, hyoe⟩ : ∃ yoe : ℤ, yoe = 100 * c + 4 * q + k := ⟨_, rfl⟩
  obtain ⟨hmp, hstart, hend⟩ := month_of_day h.dayOfYear.1 h.dayOfYear.2
  obtain ⟨mp, hmp_eq⟩ : ∃ mp : ℤ, (5 * doy + 2) / 153 = mp := ⟨_, rfl⟩
  rw [hmp_eq] at hmp hstart hend
  have hcivil : civilFromDays days = (yoe + era * 400 + (if (if mp < 10 then mp + 3 else mp - 9) ≤ 2
      then 1 else 0), (if mp < 10 then mp + 3 else mp - 9), doy - (153 * mp + 2) / 5 + 1) := by
    unfold civilFromDays
    dsimp only
    rw [hera, hdoe, h.year_eq, ← hyoe, h.day_eq hyoe, hmp_eq]
  rw [hcivil]
  refine ⟨real_of_month hmp hstart hend h.dayOfYear.2 (h.leap hyoe era), ?_⟩
  dsimp only
  rw [number_of_month hmp, h.yearStart_eq hyoe]
  omega

/-- The date of a day. -/
def civilDate (days : ℤ) : Date := ⟨_, _, _, (real_civilFromDays days).1⟩

theorem dayNumber_civilDate (days : ℤ) : dayNumber (civilDate days) = days := (real_civilFromDays days).2

theorem civilDate_dayNumber (d : Date) : civilDate (dayNumber d) = d :=
  countsDays.injective (dayNumber_civilDate _)

end Souxmar.Updater
