import Souxmar.Updater.Calendar
import Mathlib.Data.List.Lex
import Mathlib.Data.Int.GCD
import Mathlib.Order.Defs.LinearOrder
import Mathlib.Tactic.LinearCombination

/-!
# Timestamps as text

What `parse_rfc3339_utc` accepts and what `format_rfc3339_utc` prints are texts of the same form
(`stamp`), one for each tuple of fields. The parser takes more tuples than the calendar has: it does not
look up how long a month is, nor whether a time point can hold the instant.
-/

namespace Souxmar.Updater

open Souxmar.Lib

/-! ## The text of a tuple of fields -/

/-- `YYYY-MM-DDTHH:MM:SSZ`. -/
def stamp (tm : Tm) : List Char :=
  [digitChar (tm.year / 1000), digitChar (tm.year / 100), digitChar (tm.year / 10),
    digitChar tm.year, '-'] ++ put2 tm.mon ++ ['-'] ++ put2 tm.mday ++ ['T'] ++ put2 tm.hour ++
    [':'] ++ put2 tm.min ++ [':'] ++ put2 tm.sec ++ ['Z']

theorem stamp_eq (tm : Tm) : stamp tm =
    [digitChar (tm.year / 1000), digitChar (tm.year / 100), digitChar (tm.year / 10), digitChar tm.year,
      '-', digitChar (tm.mon / 10), digitChar tm.mon, '-', digitChar (tm.mday / 10), digitChar tm.mday,
      'T', digitChar (tm.hour / 10), digitChar tm.hour, ':', digitChar (tm.min / 10), digitChar tm.min,
      ':', digitChar (tm.sec / 10), digitChar tm.sec, 'Z'] := rfl

theorem length_stamp (tm : Tm) : (stamp tm).length = 20 := by
  simp only [stamp_eq, List.length_cons, List.length_nil]

theorem formatRfc3339Utc_eq (t : TimePoint) :
    formatRfc3339Utc t = String.ofList (stamp (gmtime (toTimeT t))) := rfl

/-- The fields that the parser reads from a text. -/
def fieldsOf (s : List Char) : Tm where
  year := digitAt s 0 * 1000 + digitAt s 1 * 100 + digitAt s 2 * 10 + digitAt s 3
  mon := twoDigits s 5
  mday := twoDigits s 8
  hour := twoDigits s 11
  min := twoDigits s 14
  sec := twoDigits s 17

/-- The ranges of the parser. -/
structure InRange (tm : Tm) : Prop where
  year : 1970 ≤ tm.year ∧ tm.year ≤ 9999
  mon : 1 ≤ tm.mon ∧ tm.mon ≤ 12
  mday : 1 ≤ tm.mday ∧ tm.mday ≤ 31
  hour : 0 ≤ tm.hour ∧ tm.hour ≤ 23
  min : 0 ≤ tm.min ∧ tm.min ≤ 59
  sec : 0 ≤ tm.sec ∧ tm.sec ≤ 60

/-- Every field fits into the digits it has. -/
structure Printable (tm : Tm) : Prop where
  year : 0 ≤ tm.year ∧ tm.year ≤ 9999
  mon : 0 ≤ tm.mon ∧ tm.mon ≤ 99
  mday : 0 ≤ tm.mday ∧ tm.mday ≤ 99
  hour : 0 ≤ tm.hour ∧ tm.hour ≤ 99
  min : 0 ≤ tm.min ∧ tm.min ≤ 99
  sec : 0 ≤ tm.sec ∧ tm.sec ≤ 99

theorem InRange.printable {tm : Tm} (h : InRange tm) : Printable tm := by
  obtain ⟨hyear, hmon, hmday, hhour, hmin, hsec⟩ := h
  constructor <;> omega

theorem toNat_digitChar (v : ℤ) : (digitChar v).toNat = 48 + (v % 10).toNat := by
  have hdigits : ∀ n < 10, (Char.ofNat ('0'.toNat + n)).toNat = 48 + n := by decide
  exact hdigits _ (by omega)

theorem digitChar_ok (v : ℤ) : (decide ('0' ≤ digitChar v) && decide (digitChar v ≤ '9')) = true := by
  have hdigits : ∀ n < 10, (decide ('0' ≤ Char.ofNat ('0'.toNat + n)) &&
      decide (Char.ofNat ('0'.toNat + n) ≤ '9')) = true := by decide
  exact hdigits _ (by omega)

theorem digitChar_of_ok {c : Char} (h : (decide ('0' ≤ c) && decide (c ≤ '9')) = true) {v : ℤ}
    (hv : v % 10 = (c.toNat : ℤ) - '0'.toNat) : digitChar v = c := by
  rw [Bool.and_eq_true, decide_eq_true_eq, decide_eq_true_eq] at h
  have hlow : '0'.toNat ≤ c.toNat := h.1
  apply Char.toNat_inj.mp
  rw [toNat_digitChar, hv]
  have h48 : '0'.toNat = 48 := rfl
  omega

theorem value_of_ok {c : Char} (h : (decide ('0' ≤ c) && decide (c ≤ '9')) = true) :
    0 ≤ (c.toNat : ℤ) - '0'.toNat ∧ (c.toNat : ℤ) - '0'.toNat ≤ 9 := by
  rw [Bool.and_eq_true, decide_eq_true_eq, decide_eq_true_eq] at h
  have hlow : '0'.toNat ≤ c.toNat := h.1
  have hhigh : c.toNat ≤ '9'.toNat := h.2
  have h48 : '0'.toNat = 48 := rfl
  have h57 : '9'.toNat = 57 := rfl
  omega

theorem digit_value (v : ℤ) : ((digitChar v).toNat : ℤ) - '0'.toNat = v % 10 := by
  rw [toNat_digitChar]
  have h48 : '0'.toNat = 48 := rfl
  omega

theorem fieldsOf_stamp {tm : Tm} (h : Printable tm) : fieldsOf (stamp tm) = tm := by
  have hfields : fieldsOf (stamp tm) =
      ⟨tm.year / 1000 % 10 * 1000 + tm.year / 100 % 10 * 100 + tm.year / 10 % 10 * 10 + tm.year % 10,
        tm.mon / 10 % 10 * 10 + tm.mon % 10, tm.mday / 10 % 10 * 10 + tm.mday % 10,
        tm.hour / 10 % 10 * 10 + tm.hour % 10, tm.min / 10 % 10 * 10 + tm.min % 10,
        tm.sec / 10 % 10 * 10 + tm.sec % 10⟩ := by
    simp only [fieldsOf, twoDigits, digitAt, stamp_eq, Nat.reduceAdd, List.getD_cons_zero,
      List.getD_cons_succ, digit_value]
  rw [hfields]
  obtain ⟨year, mon, mday, hour, min, sec⟩ := tm
  obtain ⟨hyear, hmon, hmday, hhour, hmin, hsec⟩ := h
  dsimp only at *
  rw [Tm.mk.injEq]
  refine ⟨?_, ?_, ?_, ?_, ?_, ?_⟩ <;> omega

/-- The character loop of the parser. -/
def charsOk (s : List Char) : Bool := (List.range 20).all fun i => rfc3339CharOk i (s.getD i '0')

theorem rfc3339CharOk_digit {i : ℕ} (h : i ∉ [4, 7, 10, 13, 16, 19]) (c : Char) :
    rfc3339CharOk i c = (decide ('0' ≤ c) && decide (c ≤ '9')) := by
  simp only [List.mem_cons, List.not_mem_nil, or_false, not_or] at h
  rw [rfc3339CharOk, if_neg (by omega), if_neg (by omega), if_neg (by omega), if_neg (by omega)]

theorem charsOk_stamp (tm : Tm) : charsOk (stamp tm) = true := by
  unfold charsOk
  rw [List.all_eq_true]
  intro i hi
  rw [List.mem_range] at hi
  by_cases hsep : i ∈ [4, 7, 10, 13, 16, 19]
  · simp only [List.mem_cons, List.not_mem_nil, or_false] at hsep
    rcases hsep with rfl | rfl | rfl | rfl | rfl | rfl <;>
      simp only [stamp_eq, List.getD_cons_zero, List.getD_cons_succ] <;> rfl
  · rw [rfc3339CharOk_digit hsep]
    simp only [List.mem_cons, List.not_mem_nil, or_false, not_or] at hsep
    have hdigit : i ∈ [0, 1, 2, 3, 5, 6, 8, 9, 11, 12, 14, 15, 17, 18] := by
      simp only [List.mem_cons, List.not_mem_nil, or_false]
      omega
    have hprinted : ∀ i ∈ [0, 1, 2, 3, 5, 6, 8, 9, 11, 12, 14, 15, 17, 18],
        ∃ v, (stamp tm).getD i '0' = digitChar v := by
      simp only [stamp_eq, List.forall_mem_cons, List.getD_cons_zero, List.getD_cons_succ]
      exact ⟨⟨_, rfl⟩, ⟨_, rfl⟩, ⟨_, rfl⟩, ⟨_, rfl⟩, ⟨_, rfl⟩, ⟨_, rfl⟩, ⟨_, rfl⟩, ⟨_, rfl⟩, ⟨_, rfl⟩,
        ⟨_, rfl⟩, ⟨_, rfl⟩, ⟨_, rfl⟩, ⟨_, rfl⟩, ⟨_, rfl⟩, by simp⟩
    obtain ⟨v, hv⟩ := hprinted i hdigit
    rw [hv]
    exact digitChar_ok v

theorem stamp_fieldsOf {s : List Char} (hlen : s.length = 20) (hok : charsOk s = true) :
    stamp (fieldsOf s) = s := by
  have hat : ∀ i < 20, rfc3339CharOk i (s.getD i '0') = true := by
    intro i hi
    exact List.all_eq_true.mp hok i (List.mem_range.mpr hi)
  have hdigitOk : ∀ i < 20, i ∉ [4, 7, 10, 13, 16, 19] →
      (decide ('0' ≤ s.getD i '0') && decide (s.getD i '0' ≤ '9')) = true := by
    intro i hi hsep
    rw [← rfc3339CharOk_digit hsep]
    exact hat i hi
  have hval : ∀ i < 20, i ∉ [4, 7, 10, 13, 16, 19] → 0 ≤ digitAt s i ∧ digitAt s i ≤ 9 :=
    fun i hi hsep => value_of_ok (hdigitOk i hi hsep)
  have hput : ∀ i < 19, i ∉ [4, 7, 10, 13, 16, 19] → i + 1 ∉ [4, 7, 10, 13, 16, 19] →
      put2 (twoDigits s i) = [s.getD i '0', s.getD (i + 1) '0'] := by
    intro i hi hsep hsep'
    have hhigh := hval i (by omega) hsep
    have hlow := hval (i + 1) (by omega) hsep'
    have htens : twoDigits s i / 10 % 10 = digitAt s i := by
      unfold twoDigits
      omega
    have hones : twoDigits s i % 10 = digitAt s (i + 1) := by
      unfold twoDigits
      omega
    rw [put2, digitChar_of_ok (hdigitOk i (by omega) hsep) htens,
      digitChar_of_ok (hdigitOk (i + 1) (by omega) hsep') hones]
  have h0 := hval 0 (by decide) (by decide)
  have h1 := hval 1 (by decide) (by decide)
  have h2 := hval 2 (by decide) (by decide)
  have h3 := hval 3 (by decide) (by decide)
  have hall : s = [s.getD 0 '0', s.getD 1 '0', s.getD 2 '0', s.getD 3 '0', s.getD 4 '0', s.getD 5 '0',
      s.getD 6 '0', s.getD 7 '0', s.getD 8 '0', s.getD 9 '0', s.getD 10 '0', s.getD 11 '0',
      s.getD 12 '0', s.getD 13 '0', s.getD 14 '0', s.getD 15 '0', s.getD 16 '0', s.getD 17 '0',
      s.getD 18 '0', s.getD 19 '0'] := by
    rcases s with _ | ⟨c0, _ | ⟨c1, _ | ⟨c2, _ | ⟨c3, _ | ⟨c4, _ | ⟨c5, _ | ⟨c6, _ | ⟨c7, _ | ⟨c8, _ |
      ⟨c9, _ | ⟨c10, _ | ⟨c11, _ | ⟨c12, _ | ⟨c13, _ | ⟨c14, _ | ⟨c15, _ | ⟨c16, _ | ⟨c17, _ | ⟨c18, _ |
      ⟨c19, rest⟩⟩⟩⟩⟩⟩⟩⟩⟩⟩⟩⟩⟩⟩⟩⟩⟩⟩⟩⟩ <;> simp at hlen
    rw [hlen]
    rfl
  rw [show s.getD 4 '0' = '-' from of_decide_eq_true (hat 4 (by decide)),
    show s.getD 7 '0' = '-' from of_decide_eq_true (hat 7 (by decide)),
    show s.getD 10 '0' = 'T' from of_decide_eq_true (hat 10 (by decide)),
    show s.getD 13 '0' = ':' from of_decide_eq_true (hat 13 (by decide)),
    show s.getD 16 '0' = ':' from of_decide_eq_true (hat 16 (by decide)),
    show s.getD 19 '0' = 'Z' from of_decide_eq_true (hat 19 (by decide))] at hall
  conv_rhs => rw [hall]
  unfold stamp fieldsOf
  dsimp only
  rw [hput 5 (by decide) (by decide) (by decide), hput 8 (by decide) (by decide) (by decide),
    hput 11 (by decide) (by decide) (by decide), hput 14 (by decide) (by decide) (by decide),
    hput 17 (by decide) (by decide) (by decide),
    digitChar_of_ok (hdigitOk 0 (by decide) (by decide))
      (show _ = digitAt s 0 by omega),
    digitChar_of_ok (hdigitOk 1 (by decide) (by decide))
      (show _ = digitAt s 1 by omega),
    digitChar_of_ok (hdigitOk 2 (by decide) (by decide))
      (show _ = digitAt s 2 by omega),
    digitChar_of_ok (hdigitOk 3 (by decide) (by decide))
      (show _ = digitAt s 3 by omega)]
  rfl

/-! ## Fields and times -/

theorem daysFromCivil_bounds {year mon mday : ℤ} (hyear : 1970 ≤ year ∧ year ≤ 9999)
    (hmon : 1 ≤ mon ∧ mon ≤ 12) (hmday : 1 ≤ mday ∧ mday ≤ 31) :
    0 ≤ daysFromCivil year mon mday ∧ daysFromCivil year mon mday ≤ 2932896 := by
  rw [daysFromCivil_eq]
  unfold yearStart
  split_ifs <;> omega

/-- From 1970-01-01T00:00:00Z to 9999-12-31T23:59:59Z. -/
def PrintableTime (t : ℤ) : Prop := 0 ≤ t ∧ t ≤ 253402300799

theorem timegm_nonneg {tm : Tm} (h : InRange tm) : (0 : ℤ) ≤ timegm tm := by
  have hdays := daysFromCivil_bounds h.year h.mon h.mday
  obtain ⟨-, -, -, hhour, hmin, hsec⟩ := h
  unfold timegm
  omega

theorem timegm_gmtime (t : ℤ) : timegm (gmtime t) = t := by
  have hdays := (real_civilFromDays (t / 86400)).2
  have hclock : ∀ x : ℤ, x / 86400 * 86400 + x % 86400 / 3600 * 3600 + x % 86400 % 3600 / 60 * 60 +
      x % 86400 % 60 = x := by
    intro x
    omega
  unfold gmtime timegm
  dsimp only
  rw [hdays]
  exact hclock t

/-- The date in the fields exists. -/
def Tm.RealDate (tm : Tm) : Prop := RealDay tm.year tm.mon tm.mday

theorem realDate_gmtime (t : ℤ) : (gmtime t).RealDate := (real_civilFromDays (t / 86400)).1

theorem gmtime_timegm {tm : Tm} (hreal : tm.RealDate) (h : InRange tm) (hsec : tm.sec ≠ 60) :
    gmtime (timegm tm) = tm := by
  obtain ⟨year, mon, mday, hour, min, sec⟩ := tm
  have hdate := civilDate_dayNumber ⟨year, mon, mday, hreal⟩
  obtain ⟨-, -, -, hhour, hmin, hsec'⟩ := h
  dsimp only at hhour hmin hsec hsec'
  have hday : ∀ days : ℤ, (days * 86400 + hour * 3600 + min * 60 + sec) / 86400 = days := by
    intro days
    omega
  have htime : ∀ days : ℤ, (days * 86400 + hour * 3600 + min * 60 + sec) % 86400 =
      hour * 3600 + min * 60 + sec := by
    intro days
    omega
  have hcivil : civilFromDays (daysFromCivil year mon mday) = (year, mon, mday) := by
    have hyear := congrArg Date.year hdate
    have hmon := congrArg Date.mon hdate
    have hmday := congrArg Date.mday hdate
    exact Prod.ext hyear (Prod.ext hmon hmday)
  have hseconds : timegm ⟨year, mon, mday, hour, min, sec⟩ =
      daysFromCivil year mon mday * 86400 + hour * 3600 + min * 60 + sec := rfl
  unfold gmtime
  rw [hseconds, hday, htime, hcivil]
  dsimp only
  rw [Tm.mk.injEq]
  refine ⟨rfl, rfl, rfl, ?_, ?_, ?_⟩ <;> omega

theorem le_year_gmtime (t year : ℤ) (h : dayNumber ⟨year, 1, 1, RealDay.new_year _⟩ ≤ t / 86400) :
    year ≤ (gmtime t).year := by
  have hlt := (countsDays.lt_iff (civilDate (t / 86400)) ⟨year, 1, 1, RealDay.new_year _⟩).mpr
  rw [dayNumber_civilDate, Date.lt_def] at hlt
  have hyear : (civilDate (t / 86400)).year = (gmtime t).year := rfl
  dsimp only at hlt
  omega

theorem year_gmtime_lt (t year : ℤ) (h : t / 86400 < dayNumber ⟨year, 1, 1, RealDay.new_year _⟩) :
    (gmtime t).year < year := by
  have hlt := (countsDays.lt_iff (civilDate (t / 86400)) ⟨year, 1, 1, RealDay.new_year _⟩).mp
  rw [dayNumber_civilDate, Date.lt_def] at hlt
  obtain ⟨hmon, -, hmday, -⟩ := realDate_gmtime t
  have hyear : (civilDate (t / 86400)).year = (gmtime t).year := rfl
  have hmon' : (civilDate (t / 86400)).mon = (gmtime t).mon := rfl
  have hmday' : (civilDate (t / 86400)).mday = (gmtime t).mday := rfl
  dsimp only at hlt
  omega

theorem clock_gmtime (t : ℤ) : (0 ≤ (gmtime t).hour ∧ (gmtime t).hour ≤ 23) ∧
    (0 ≤ (gmtime t).min ∧ (gmtime t).min ≤ 59) ∧ 0 ≤ (gmtime t).sec ∧ (gmtime t).sec ≤ 59 := by
  have hhour : (gmtime t).hour = t % 86400 / 3600 := rfl
  have hmin : (gmtime t).min = t % 86400 % 3600 / 60 := rfl
  have hsec : (gmtime t).sec = t % 86400 % 60 := rfl
  omega

theorem inRange_gmtime {t : ℤ} (h : PrintableTime t) : InRange (gmtime t) := by
  obtain ⟨hlow, hhigh⟩ := h
  have hfirst : dayNumber ⟨1970, 1, 1, RealDay.new_year _⟩ = 0 := dayNumber_epoch
  have hnext : dayNumber ⟨10000, 1, 1, RealDay.new_year _⟩ = 2932897 := by decide
  have hafter := le_year_gmtime t 1970 (by omega)
  have hbefore := year_gmtime_lt t 10000 (by omega)
  have hmday := daysInMonth_le (gmtime t).year (gmtime t).mon
  obtain ⟨hmon1, hmon2, hmday1, hmday2⟩ := realDate_gmtime t
  obtain ⟨hhour, hmin, hsec⟩ := clock_gmtime t
  constructor <;> omega

/-! ## The parser -/

theorem twoDigits_nonneg {s : List Char} (hok : charsOk s = true) {i : ℕ}
    (hsep : i < 20 ∧ i ∉ [4, 7, 10, 13, 16, 19]) (hsep' : i + 1 < 20 ∧ i + 1 ∉ [4, 7, 10, 13, 16, 19]) :
    0 ≤ twoDigits s i := by
  have hdigit : ∀ k, k < 20 ∧ k ∉ [4, 7, 10, 13, 16, 19] → 0 ≤ digitAt s k := by
    intro k hk
    have hat := List.all_eq_true.mp hok k (List.mem_range.mpr hk.1)
    rw [rfc3339CharOk_digit hk.2] at hat
    exact (value_of_ok hat).1
  have hhigh := hdigit i hsep
  have hlow := hdigit (i + 1) hsep'
  unfold twoDigits
  omega

theorem parseRfc3339Utc_eq_some_iff (str : String) (t : TimePoint) :
    parseRfc3339Utc str = some t ↔
      ∃ tm, InRange tm ∧ str = String.ofList (stamp tm) ∧ fromTimeT (timegm tm) = t := by
  have hparse : parseRfc3339Utc str =
      if str.toList.length ≠ 20 then none
      else if !(charsOk str.toList) then none
      else if (fieldsOf str.toList).year < 1970 ∨ (fieldsOf str.toList).year > 9999 then none
      else if (fieldsOf str.toList).mon < 1 ∨ (fieldsOf str.toList).mon > 12 then none
      else if (fieldsOf str.toList).mday < 1 ∨ (fieldsOf str.toList).mday > 31 then none
      else if (fieldsOf str.toList).hour > 23 then none
      else if (fieldsOf str.toList).min > 59 then none
      else if (fieldsOf str.toList).sec > 60 then none
      else if timegm (fieldsOf str.toList) = -1 then none
      else some (fromTimeT (timegm (fieldsOf str.toList))) := rfl
  simp only [hparse, Option.ite_none_left_eq_some, not_or, Int.not_lt, gt_iff_lt, not_not,
    Bool.not_eq_true', Bool.not_eq_false]
  constructor
  · rintro ⟨hlen, hok, hyear, hmon, hmday, hhour, hmin, hsec, -, ht⟩
    have hhour0 : 0 ≤ (fieldsOf str.toList).hour := twoDigits_nonneg hok (i := 11) (by decide) (by decide)
    have hmin0 : 0 ≤ (fieldsOf str.toList).min := twoDigits_nonneg hok (i := 14) (by decide) (by decide)
    have hsec0 : 0 ≤ (fieldsOf str.toList).sec := twoDigits_nonneg hok (i := 17) (by decide) (by decide)
    refine ⟨fieldsOf str.toList, ⟨hyear, hmon, hmday, ⟨hhour0, hhour⟩, ⟨hmin0, hmin⟩, ⟨hsec0, hsec⟩⟩, ?_,
      Option.some.inj ht⟩
    rw [stamp_fieldsOf hlen hok, String.ofList_toList]
  · rintro ⟨tm, hrange, rfl, rfl⟩
    have hneg : timegm tm ≠ -1 := by
      have hnonneg := timegm_nonneg hrange
      intro heq
      rw [heq] at hnonneg
      exact absurd hnonneg (by decide)
    rw [String.toList_ofList, fieldsOf_stamp hrange.printable, charsOk_stamp]
    exact ⟨length_stamp tm, rfl, hrange.year, hrange.mon, hrange.mday, hrange.hour.2, hrange.min.2,
      hrange.sec.2, hneg, rfl⟩

theorem nanoseconds_ne {secs : ℤ} (h : 0 ≤ secs ∧ secs ≤ 253402300800) (q : ℤ) :
    18446744073709551616 * q + 9223372036854775808 ≠ secs * 1000000000 := by
  have hsmall : secs.natAbs < Int.natAbs 18014398509481984 := by omega
  intro heq
  have hodd : 18014398509481984 * (2 * q + 1) = secs * 1953125 := by
    refine Int.eq_of_mul_eq_mul_left (a := 512) (by decide) ?_
    linear_combination heq
  have hdvd : (18014398509481984 : ℤ) ∣ secs :=
    Int.dvd_of_dvd_mul_left_of_gcd_one (Dvd.intro _ hodd) (by decide +kernel)
  have hzero : secs = 0 := Int.eq_zero_of_dvd_of_natAbs_lt_natAbs hdvd hsmall
  rw [hzero] at hodd
  clear heq
  omega

theorem minValue_lt_of_parse {str : String} {t : TimePoint} (h : parseRfc3339Utc str = some t) :
    Int64.minValue < t := by
  obtain ⟨tm, hrange, -, rfl⟩ := (parseRfc3339Utc_eq_some_iff str t).mp h
  have hdays := daysFromCivil_bounds hrange.year hrange.mon hrange.mday
  obtain ⟨-, -, -, hhour, hmin, hsec⟩ := hrange
  have hsecs : 0 ≤ timegm tm ∧ timegm tm ≤ 253402300800 := by
    unfold timegm
    omega
  have hle := Int64.minValue_le (fromTimeT (timegm tm))
  rw [Int64.le_iff_toInt_le] at hle
  rw [Int64.lt_iff_toInt_lt]
  refine Int.lt_iff_le_and_ne.mpr ⟨hle, fun heq => ?_⟩
  have hfirst : Int64.minValue.toInt % (Int64.size : ℤ) = 9223372036854775808 := by decide
  rw [heq, fromTimeT, Int64.toInt_ofInt, Int.bmod_emod] at hfirst
  have hdiv := Int.mul_ediv_add_emod (timegm tm * 1000000000) (Int64.size : ℤ)
  rw [hfirst] at hdiv
  exact nanoseconds_ne hsecs _ hdiv

theorem stamp_inj {tm tm' : Tm} (h : Printable tm) (h' : Printable tm') (heq : stamp tm = stamp tm') :
    tm = tm' := by
  rw [← fieldsOf_stamp h, heq, fieldsOf_stamp h']

/-! ## The order of the texts -/

/-- The bytes of a text, which `std::string` compares one after the other. -/
def utf8Bytes (s : String) : List UInt8 := s.toUTF8.data.toList

def charByte (c : Char) : UInt8 := c.val.toUInt8

theorem utf8Bytes_ofList {l : List Char} (h : ∀ c ∈ l, c.val ≤ 0x7f) :
    utf8Bytes (String.ofList l) = l.map charByte := by
  have hbytes : utf8Bytes (String.ofList l) = l.flatMap String.utf8EncodeChar := by
    show (l.flatMap String.utf8EncodeChar).toByteArray.data.toList = _
    rw [List.data_toByteArray, List.toList_toArray]
  rw [hbytes]
  clear hbytes
  induction l with
  | nil => rfl
  | cons c l ih =>
    obtain ⟨hc, hl⟩ := List.forall_mem_cons.mp h
    have hsize : c.utf8Size = 1 := if_pos hc
    rw [List.flatMap_cons, String.utf8EncodeChar_eq_singleton hsize, ih hl]
    rfl

theorem append_lt_append_iff {α : Type*} [LT α] {a b x y : List α} (hlen : a.length = b.length) :
    a ++ x < b ++ y ↔ a < b ∨ a = b ∧ x < y := by
  induction a generalizing b with
  | nil =>
    obtain rfl := List.eq_nil_of_length_eq_zero hlen.symm
    simp
  | cons c a ih =>
    cases b with
    | nil => simp at hlen
    | cons d b =>
      rw [List.cons_append, List.cons_append, List.cons_lt_cons_iff, List.cons_lt_cons_iff,
        ih (by simpa using hlen), List.cons.injEq]
      tauto

theorem digitChar_ascii (v : ℤ) : (digitChar v).val ≤ 0x7f := by
  have hdigits : ∀ n < 10, (Char.ofNat ('0'.toNat + n)).val ≤ 0x7f := by decide
  exact hdigits _ (by omega)

theorem stamp_ascii (tm : Tm) : ∀ c ∈ stamp tm, c.val ≤ 0x7f := by
  have hsep : ∀ c ∈ ['-', 'T', ':', 'Z'], c.val ≤ 0x7f := by decide
  simp only [stamp_eq, List.forall_mem_cons, List.not_mem_nil, IsEmpty.forall_iff, implies_true,
    and_true, digitChar_ascii, true_and] at hsep ⊢
  simp only [hsep, and_self]

theorem charByte_digit (v : ℤ) : (charByte (digitChar v)).toNat = 48 + (v % 10).toNat := by
  have hdigits : ∀ n < 10, (charByte (Char.ofNat ('0'.toNat + n))).toNat = 48 + n := by decide
  exact hdigits _ (by omega)

theorem digit_lt_iff (v w : ℤ) : charByte (digitChar v) < charByte (digitChar w) ↔ v % 10 < w % 10 := by
  rw [UInt8.lt_iff_toNat_lt, charByte_digit, charByte_digit]
  omega

theorem digit_eq_iff (v w : ℤ) : charByte (digitChar v) = charByte (digitChar w) ↔ v % 10 = w % 10 := by
  rw [← UInt8.toNat_inj, charByte_digit, charByte_digit]
  omega

theorem put2_lt_iff {v w : ℤ} (hv : 0 ≤ v ∧ v ≤ 99) (hw : 0 ≤ w ∧ w ≤ 99) :
    (put2 v).map charByte < (put2 w).map charByte ↔ v < w := by
  unfold put2
  simp only [List.map_cons, List.map_nil, List.cons_lt_cons_iff, digit_lt_iff, digit_eq_iff,
    List.not_lt_nil, and_false, or_false]
  omega

theorem put2_eq_iff {v w : ℤ} (hv : 0 ≤ v ∧ v ≤ 99) (hw : 0 ≤ w ∧ w ≤ 99) :
    (put2 v).map charByte = (put2 w).map charByte ↔ v = w := by
  unfold put2
  simp only [List.map_cons, List.map_nil, List.cons.injEq, digit_eq_iff, and_true]
  omega

/-- The four digits of the year. -/
def putYear (v : ℤ) : List Char :=
  [digitChar (v / 1000), digitChar (v / 100), digitChar (v / 10), digitChar v]

theorem year_digits {v : ℤ} (hv : 0 ≤ v ∧ v ≤ 9999) :
    v / 1000 % 10 * 1000 + v / 100 % 10 * 100 + v / 10 % 10 * 10 + v % 10 = v ∧
      (0 ≤ v / 1000 % 10 ∧ v / 1000 % 10 ≤ 9) ∧ (0 ≤ v / 100 % 10 ∧ v / 100 % 10 ≤ 9) ∧
        (0 ≤ v / 10 % 10 ∧ v / 10 % 10 ≤ 9) ∧ 0 ≤ v % 10 ∧ v % 10 ≤ 9 := by
  omega

theorem putYear_lt_iff {v w : ℤ} (hv : 0 ≤ v ∧ v ≤ 9999) (hw : 0 ≤ w ∧ w ≤ 9999) :
    (putYear v).map charByte < (putYear w).map charByte ↔ v < w := by
  have hvd := year_digits hv
  have hwd := year_digits hw
  unfold putYear
  simp only [List.map_cons, List.map_nil, List.cons_lt_cons_iff, digit_lt_iff, digit_eq_iff,
    List.not_lt_nil, and_false, or_false]
  generalize v / 1000 % 10 = v3, v / 100 % 10 = v2, v / 10 % 10 = v1, v % 10 = v0 at *
  generalize w / 1000 % 10 = w3, w / 100 % 10 = w2, w / 10 % 10 = w1, w % 10 = w0 at *
  omega

theorem putYear_eq_iff {v w : ℤ} (hv : 0 ≤ v ∧ v ≤ 9999) (hw : 0 ≤ w ∧ w ≤ 9999) :
    (putYear v).map charByte = (putYear w).map charByte ↔ v = w := by
  have hvd := year_digits hv
  have hwd := year_digits hw
  unfold putYear
  simp only [List.map_cons, List.map_nil, List.cons.injEq, digit_eq_iff, and_true]
  generalize v / 1000 % 10 = v3, v / 100 % 10 = v2, v / 10 % 10 = v1, v % 10 = v0 at *
  generalize w / 1000 % 10 = w3, w / 100 % 10 = w2, w / 10 % 10 = w1, w % 10 = w0 at *
  omega

theorem put2_append_lt_iff {v w : ℤ} (hv : 0 ≤ v ∧ v ≤ 99) (hw : 0 ≤ w ∧ w ≤ 99) (x y : List UInt8) :
    (put2 v).map charByte ++ x < (put2 w).map charByte ++ y ↔ v < w ∨ v = w ∧ x < y := by
  have hlen : ((put2 v).map charByte).length = ((put2 w).map charByte).length := by
    simp only [put2, List.map_cons, List.length_cons]
  rw [append_lt_append_iff hlen, put2_lt_iff hv hw, put2_eq_iff hv hw]

theorem putYear_append_lt_iff {v w : ℤ} (hv : 0 ≤ v ∧ v ≤ 9999) (hw : 0 ≤ w ∧ w ≤ 9999)
    (x y : List UInt8) :
    (putYear v).map charByte ++ x < (putYear w).map charByte ++ y ↔ v < w ∨ v = w ∧ x < y := by
  have hlen : ((putYear v).map charByte).length = ((putYear w).map charByte).length := by
    simp only [putYear, List.map_cons, List.length_cons]
  rw [append_lt_append_iff hlen, putYear_lt_iff hv hw, putYear_eq_iff hv hw]

/-- The fields in their order, the year first. -/
def FieldsLt (a b : Tm) : Prop :=
  a.year < b.year ∨ a.year = b.year ∧ (a.mon < b.mon ∨ a.mon = b.mon ∧ (a.mday < b.mday ∨
    a.mday = b.mday ∧ (a.hour < b.hour ∨ a.hour = b.hour ∧ (a.min < b.min ∨
      a.min = b.min ∧ a.sec < b.sec))))

theorem stamp_lt_iff {a b : Tm} (ha : Printable a) (hb : Printable b) :
    (stamp a).map charByte < (stamp b).map charByte ↔ FieldsLt a b := by
  have hshape : ∀ tm : Tm, (stamp tm).map charByte = (putYear tm.year).map charByte ++
      (charByte '-' :: ((put2 tm.mon).map charByte ++ (charByte '-' :: ((put2 tm.mday).map charByte ++
        (charByte 'T' :: ((put2 tm.hour).map charByte ++ (charByte ':' :: ((put2 tm.min).map charByte ++
          (charByte ':' :: ((put2 tm.sec).map charByte ++ [charByte 'Z'])))))))))) := fun tm => rfl
  have hsep : ∀ (c : UInt8) (x y : List UInt8), c :: x < c :: y ↔ x < y := by
    intro c x y
    rw [List.cons_lt_cons_iff]
    simp
  rw [hshape, hshape, putYear_append_lt_iff ha.year hb.year, hsep, put2_append_lt_iff ha.mon hb.mon, hsep,
    put2_append_lt_iff ha.mday hb.mday, hsep, put2_append_lt_iff ha.hour hb.hour, hsep,
    put2_append_lt_iff ha.min hb.min, hsep, put2_append_lt_iff ha.sec hb.sec]
  simp [FieldsLt]

theorem fieldsLt_gmtime_iff (t u : ℤ) : FieldsLt (gmtime t) (gmtime u) ↔ t < u := by
  have hlt := countsDays.lt_iff (civilDate (t / 86400)) (civilDate (u / 86400))
  have hgt := countsDays.lt_iff (civilDate (u / 86400)) (civilDate (t / 86400))
  rw [dayNumber_civilDate, dayNumber_civilDate, Date.lt_def] at hlt hgt
  have hdate : ∀ x : ℤ, (civilDate (x / 86400)).year = (gmtime x).year ∧
      (civilDate (x / 86400)).mon = (gmtime x).mon ∧ (civilDate (x / 86400)).mday = (gmtime x).mday :=
    fun x => ⟨rfl, rfl, rfl⟩
  obtain ⟨htyear, htmon, htmday⟩ := hdate t
  obtain ⟨huyear, humon, humday⟩ := hdate u
  rw [htyear, htmon, htmday, huyear, humon, humday] at hlt hgt
  have hclock : ∀ x : ℤ, (gmtime x).hour = x % 86400 / 3600 ∧
      (gmtime x).min = x % 86400 % 3600 / 60 ∧ (gmtime x).sec = x % 86400 % 60 :=
    fun x => ⟨rfl, rfl, rfl⟩
  obtain ⟨hthour, htmin, htsec⟩ := hclock t
  obtain ⟨huhour, humin, husec⟩ := hclock u
  have htime : (gmtime t).hour < (gmtime u).hour ∨ (gmtime t).hour = (gmtime u).hour ∧
      ((gmtime t).min < (gmtime u).min ∨ (gmtime t).min = (gmtime u).min ∧
        (gmtime t).sec < (gmtime u).sec) ↔ t % 86400 < u % 86400 := by
    rw [hthour, htmin, htsec, huhour, humin, husec]
    omega
  unfold FieldsLt
  rw [htime]
  omega

/-! ## Time points -/

/-- The last second that 64-bit nanoseconds hold, 2262-04-11T23:47:16Z. -/
def lastSecond : Tm := ⟨2262, 4, 11, 23, 47, 16⟩

theorem gmtime_lastSecond : gmtime 9223372036 = lastSecond := by decide

theorem toTimeT_bounds (t : TimePoint) : -9223372036 ≤ toTimeT t ∧ toTimeT t ≤ 9223372036 := by
  have hlow := t.le_toInt
  have hhigh := t.toInt_lt
  have hsign : (1000000000 : ℤ).sign = 1 := rfl
  rw [toTimeT, Int.tdiv_eq_ediv, hsign]
  split_ifs <;> omega

theorem toInt_fromTimeT {secs : ℤ} (h : 0 ≤ secs ∧ secs ≤ 9223372036) :
    (fromTimeT secs).toInt = secs * 1000000000 := by
  refine Int64.toInt_ofInt_of_le ?_ ?_ <;> omega

theorem toTimeT_fromTimeT {secs : ℤ} (h : 0 ≤ secs ∧ secs ≤ 9223372036) :
    toTimeT (fromTimeT secs) = secs := by
  rw [toTimeT, toInt_fromTimeT h, Int.mul_tdiv_cancel _ (by decide)]

/-- A time point from the epoch on, with one-second resolution. -/
def WholeSecond (t : TimePoint) : Prop := 0 ≤ t.toInt ∧ 1000000000 ∣ t.toInt

theorem wholeSecond_iff (t : TimePoint) :
    WholeSecond t ↔ ∃ secs, (0 ≤ secs ∧ secs ≤ 9223372036) ∧ fromTimeT secs = t := by
  constructor
  · rintro ⟨hnonneg, secs, hsecs⟩
    have hhigh := t.toInt_lt
    have hrange : 0 ≤ secs ∧ secs ≤ 9223372036 := by omega
    refine ⟨secs, hrange, Int64.toInt_inj.mp ?_⟩
    rw [toInt_fromTimeT hrange, hsecs, Int.mul_comm]
  · rintro ⟨secs, hrange, rfl⟩
    rw [WholeSecond, toInt_fromTimeT hrange]
    exact ⟨by omega, secs, Int.mul_comm _ _⟩

/-- Every time point of one-second resolution, from the epoch on, is read back from its text, and the
texts have the order of the times. -/
theorem timestamps_round_trip_and_sort :
    (∀ t, WholeSecond t → parseRfc3339Utc (formatRfc3339Utc t) = some t) ∧
    ∀ t u, WholeSecond t → WholeSecond u →
      (utf8Bytes (formatRfc3339Utc t) < utf8Bytes (formatRfc3339Utc u) ↔ t < u) := by
  have hprintable : ∀ secs : ℤ, 0 ≤ secs ∧ secs ≤ 9223372036 → PrintableTime secs := by
    intro secs h
    exact ⟨h.1, by omega⟩
  constructor
  · intro t ht
    obtain ⟨secs, hrange, rfl⟩ := (wholeSecond_iff t).mp ht
    rw [parseRfc3339Utc_eq_some_iff, formatRfc3339Utc_eq, toTimeT_fromTimeT hrange]
    exact ⟨gmtime secs, inRange_gmtime (hprintable secs hrange), rfl, by rw [timegm_gmtime]⟩
  · intro t u ht hu
    obtain ⟨secs, hsecs, rfl⟩ := (wholeSecond_iff t).mp ht
    obtain ⟨secs', hsecs', rfl⟩ := (wholeSecond_iff u).mp hu
    have hbytes : ∀ x : TimePoint,
        utf8Bytes (formatRfc3339Utc x) = (stamp (gmtime (toTimeT x))).map charByte :=
      fun x => utf8Bytes_ofList (stamp_ascii (gmtime (toTimeT x)))
    rw [hbytes, hbytes, toTimeT_fromTimeT hsecs, toTimeT_fromTimeT hsecs',
      stamp_lt_iff (inRange_gmtime (hprintable secs hsecs)).printable
        (inRange_gmtime (hprintable secs' hsecs')).printable,
      fieldsLt_gmtime_iff, Int64.lt_iff_toInt_lt, toInt_fromTimeT hsecs, toInt_fromTimeT hsecs']
    omega

/-- The second after the last one is printed as 1677-09-21T00:12:44Z, which the parser refuses. -/
theorem years_end_at_2262 : ¬∀ secs, PrintableTime secs →
    parseRfc3339Utc (formatRfc3339Utc (fromTimeT secs)) = some (fromTimeT secs) := by
  intro h
  have hback := h 9223372037 ⟨by decide, by decide⟩
  exact absurd hback (by decide)

/-! ## Canonical texts -/

theorem printable_gmtime_toTimeT (t : TimePoint) : Printable (gmtime (toTimeT t)) := by
  obtain ⟨hlow, hhigh⟩ := toTimeT_bounds t
  have hfirst : dayNumber ⟨1677, 1, 1, RealDay.new_year _⟩ = -107015 := by decide
  have hnext : dayNumber ⟨2263, 1, 1, RealDay.new_year _⟩ = 107016 := by decide
  have hafter := le_year_gmtime (toTimeT t) 1677 (by omega)
  have hbefore := year_gmtime_lt (toTimeT t) 2263 (by omega)
  have hmday := daysInMonth_le (gmtime (toTimeT t)).year (gmtime (toTimeT t)).mon
  obtain ⟨hmon1, hmon2, hmday1, hmday2⟩ := realDate_gmtime (toTimeT t)
  obtain ⟨hhour, hmin, hsec⟩ := clock_gmtime (toTimeT t)
  constructor <;> omega

/-- A text that is accepted comes back when it is printed exactly when its day is one of its month and
its instant is not after the last second of the time points. -/
theorem canonical_iff {str : String} {t : TimePoint} (hparse : parseRfc3339Utc str = some t)
    (hsec : (fieldsOf str.toList).sec ≠ 60) :
    formatRfc3339Utc t = str ↔
      (fieldsOf str.toList).mday ≤
        daysInMonth (fieldsOf str.toList).year (fieldsOf str.toList).mon ∧
      ¬FieldsLt lastSecond (fieldsOf str.toList) := by
  obtain ⟨tm, hrange, rfl, rfl⟩ := (parseRfc3339Utc_eq_some_iff str t).mp hparse
  rw [String.toList_ofList, fieldsOf_stamp hrange.printable] at hsec ⊢
  rw [formatRfc3339Utc_eq]
  constructor
  · intro h
    have hstamp : stamp (gmtime (toTimeT (fromTimeT (timegm tm)))) = stamp tm := by
      rw [← String.toList_ofList (l := stamp (gmtime _)), h, String.toList_ofList]
    have hbounds := toTimeT_bounds (fromTimeT (timegm tm))
    have htm := stamp_inj (printable_gmtime_toTimeT _) hrange.printable hstamp
    rw [← htm, ← gmtime_lastSecond, fieldsLt_gmtime_iff]
    exact ⟨(realDate_gmtime _).mday_le, by omega⟩
  · rintro ⟨hmday, hlast⟩
    have hgmtime := gmtime_timegm ⟨hrange.mon.1, hrange.mon.2, hrange.mday.1, hmday⟩ hrange hsec
    rw [← hgmtime, ← gmtime_lastSecond, fieldsLt_gmtime_iff, Int.not_lt] at hlast
    rw [toTimeT_fromTimeT ⟨timegm_nonneg hrange, hlast⟩, hgmtime]

theorem canonical_iff_may : formatRfc3339Utc (fromTimeT 1778580000) = "2026-05-12T10:00:00Z" ↔
    (fieldsOf "2026-05-12T10:00:00Z".toList).mday ≤
      daysInMonth (fieldsOf "2026-05-12T10:00:00Z".toList).year
        (fieldsOf "2026-05-12T10:00:00Z".toList).mon ∧
    ¬FieldsLt lastSecond (fieldsOf "2026-05-12T10:00:00Z".toList) :=
  canonical_iff (by decide) (by decide)

/-- The 31st of February is accepted as the third of March. -/
theorem february_moves : ¬∀ str t, parseRfc3339Utc str = some t →
    (fieldsOf str.toList).sec ≠ 60 → formatRfc3339Utc t = str := by
  intro h
  have hback := h "2026-02-31T00:00:00Z" (fromTimeT 1772496000) (by decide) (by decide)
  exact absurd hback (by decide)

end Souxmar.Updater
