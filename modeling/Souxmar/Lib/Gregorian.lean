import Mathlib.Data.Int.Notation
import Mathlib.Data.Nat.Notation
import Mathlib.Tactic.ByContra
import Mathlib.Tactic.SplitIfs

/-!
# The proleptic Gregorian calendar

Dates that exist, the day after a date, and what follows for a function that numbers the days: one more
from each day to the next is enough for it to be strictly increasing.
-/

namespace Souxmar.Lib

def IsLeap (year : ℤ) : Prop := year % 4 = 0 ∧ (year % 100 ≠ 0 ∨ year % 400 = 0)

instance (year : ℤ) : Decidable (IsLeap year) := inferInstanceAs (Decidable (_ ∧ _))

def daysInMonth (year mon : ℤ) : ℤ :=
  if mon = 2 then if IsLeap year then 29 else 28
  else if mon = 4 ∨ mon = 6 ∨ mon = 9 ∨ mon = 11 then 30 else 31

theorem daysInMonth_le (year mon : ℤ) : daysInMonth year mon ≤ 31 := by
  unfold daysInMonth
  split_ifs <;> omega

theorem daysInMonth_pos (year mon : ℤ) : 0 < daysInMonth year mon := by
  unfold daysInMonth
  split_ifs <;> omega

/-- The date exists. -/
structure RealDay (year mon mday : ℤ) : Prop where
  mon_pos : 1 ≤ mon
  mon_le : mon ≤ 12
  mday_pos : 1 ≤ mday
  mday_le : mday ≤ daysInMonth year mon

namespace RealDay

variable {year mon mday : ℤ}

theorem next_day (h : RealDay year mon mday) (hlast : mday < daysInMonth year mon) :
    RealDay year mon (mday + 1) :=
  ⟨h.mon_pos, h.mon_le, by have := h.mday_pos; omega, hlast⟩

theorem next_month (h : RealDay year mon mday) (hlast : mon < 12) : RealDay year (mon + 1) 1 :=
  ⟨by have := h.mon_pos; omega, hlast, Int.le_refl 1, daysInMonth_pos _ _⟩

theorem new_year (year : ℤ) : RealDay year 1 1 :=
  ⟨Int.le_refl 1, by omega, Int.le_refl 1, daysInMonth_pos _ _⟩

end RealDay

@[ext] structure Date where
  year : ℤ
  mon : ℤ
  mday : ℤ
  real : RealDay year mon mday

namespace Date

/-- Year, month and day, the year first. -/
instance : LT Date where
  lt d e := d.year < e.year ∨ d.year = e.year ∧ (d.mon < e.mon ∨ d.mon = e.mon ∧ d.mday < e.mday)

theorem lt_def (d e : Date) : d < e ↔
    d.year < e.year ∨ d.year = e.year ∧ (d.mon < e.mon ∨ d.mon = e.mon ∧ d.mday < e.mday) := Iff.rfl

def tomorrow (d : Date) : Date :=
  if hday : d.mday < daysInMonth d.year d.mon then ⟨d.year, d.mon, d.mday + 1, d.real.next_day hday⟩
  else if hmon : d.mon < 12 then ⟨d.year, d.mon + 1, 1, d.real.next_month hmon⟩
  else ⟨d.year + 1, 1, 1, RealDay.new_year _⟩

/-- The order of dates as one of numbers, as if every month had 31 days. -/
def rank (d : Date) : ℤ := 372 * d.year + 31 * d.mon + d.mday

theorem lt_iff_rank (d e : Date) : d < e ↔ d.rank < e.rank := by
  have hd := d.real
  have he := e.real
  have hdlen := daysInMonth_le d.year d.mon
  have helen := daysInMonth_le e.year e.mon
  obtain ⟨hd1, hd2, hd3, hd4⟩ := hd
  obtain ⟨he1, he2, he3, he4⟩ := he
  rw [lt_def, rank, rank]
  omega

theorem eq_of_rank {d e : Date} (h : d.rank = e.rank) : d = e := by
  have hlt := mt (lt_iff_rank d e).mp (by omega)
  have hgt := mt (lt_iff_rank e d).mp (by omega)
  rw [lt_def] at hlt hgt
  apply Date.ext <;> omega

theorem rank_tomorrow (d : Date) : d.rank < d.tomorrow.rank := by
  have hmday := d.real.mday_le
  have hlen := daysInMonth_le d.year d.mon
  have hmon := d.real.mon_le
  unfold tomorrow rank
  split_ifs <;> dsimp only <;> omega

/-- There is no day between a date and the next. -/
theorem tomorrow_le {d e : Date} (h : d.rank < e.rank) : d.tomorrow.rank ≤ e.rank := by
  rw [← lt_iff_rank, lt_def] at h
  have hmday := e.real.mday_le
  have hpos := e.real.mday_pos
  have hmon := e.real.mon_le
  have hmon' := e.real.mon_pos
  have hdmon := d.real.mon_le
  have hdlen := daysInMonth_le d.year d.mon
  have hdmday := d.real.mday_le
  have hsame : d.year = e.year → d.mon = e.mon →
      daysInMonth d.year d.mon = daysInMonth e.year e.mon := by
    intro hyear hmon
    rw [hyear, hmon]
  unfold tomorrow rank
  split_ifs <;> dsimp only <;> omega

end Date

/-- The function gives the day after a date the next number. -/
def CountsDays (count : Date → ℤ) : Prop := ∀ d, count d.tomorrow = count d + 1

namespace CountsDays

variable {count : Date → ℤ}

theorem lt_of_lt (hcount : CountsDays count) {d e : Date} (h : d < e) : count d < count e := by
  rw [Date.lt_iff_rank] at h
  -- by induction on the ranks between the two
  obtain ⟨gap, hgap⟩ : ∃ gap : ℕ, e.rank - d.rank = gap := Int.eq_ofNat_of_zero_le (by omega)
  induction gap using Nat.strongRecOn generalizing d with
  | ind gap ih =>
    have hstep := hcount d
    have hup := d.rank_tomorrow
    rcases Int.lt_or_eq_of_le (Date.tomorrow_le h) with hbefore | hthere
    · have hrest := ih (e.rank - d.tomorrow.rank).toNat (by omega) hbefore (by omega)
      omega
    · rw [← Date.eq_of_rank hthere]
      omega

theorem lt_iff (hcount : CountsDays count) (d e : Date) : count d < count e ↔ d < e := by
  refine ⟨fun h => ?_, hcount.lt_of_lt⟩
  rw [Date.lt_iff_rank]
  by_contra hnot
  rcases Int.lt_or_eq_of_le (Int.not_lt.mp hnot) with hgt | heq
  · have hback := hcount.lt_of_lt ((Date.lt_iff_rank e d).mpr hgt)
    omega
  · rw [Date.eq_of_rank heq] at h
    omega

theorem injective (hcount : CountsDays count) {d e : Date} (h : count d = count e) : d = e := by
  have hde := mt (hcount.lt_iff d e).mpr (by omega)
  have hed := mt (hcount.lt_iff e d).mpr (by omega)
  rw [Date.lt_iff_rank] at hde hed
  exact Date.eq_of_rank (by omega)

end CountsDays

end Souxmar.Lib
