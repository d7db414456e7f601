import Mathlib.Tactic.IntervalCases
import ReactorNet.CivilCalendar
import ReactorNet.Date

/-!
# The Julian day number counts the days of the calendar

On the days from 1 March of the year -4800 to number 536838867 the two conversions are
inverse to each other, and no operation overflows.
-/
namespace ReactorNet

namespace CivilDate

/-- The Julian day number of a date. -/
def julianDay (date : CivilDate) : ℤ := date.dayNumber + 1721425

/-- The days on which the conversions are used. -/
def Convertible (date : CivilDate) : Prop :=
  -32044 ≤ date.julianDay ∧ date.julianDay ≤ 536838867

def toYearMonthDay (date : CivilDate) : YearMonthDay := ⟨date.year, date.month, date.day⟩

end CivilDate

/-- The lengths of the months from March follow the rule with 153. -/
theorem daysOfMonths_eq (year : ℤ) {month : ℤ} (hmonth : 1 ≤ month) (hmonth' : month ≤ 12) :
    daysOfMonths year (month - 1).toNat = (153 * marchMonth month + 2) / 5 -
      if month ≤ 2 then 306 else if LeapYear year then -60 else -59 := by
  by_cases h : LeapYear year <;> interval_cases month <;>
    simp [daysOfMonths, monthLength, marchMonth, h]

/-- Counted from March, the days before a month do not depend on the leap rule. -/
theorem marchDays_eq (year : ℤ) {month : ℤ} (hmonth : 1 ≤ month) (hmonth' : month ≤ 12) :
    marchDays (marchYear year month) (marchMonth month) =
      daysBeforeYear year + daysOfMonths year (month - 1).toNat + 1753470 := by
  rw [daysOfMonths_eq year hmonth hmonth', marchDays, marchYear, daysBeforeYear]
  split_ifs with hm hleap
  · omega
  · rw [LeapYear] at hleap
    omega
  · rw [LeapYear] at hleap
    omega

namespace CivilDate

/-- The first day and the last day of the conversions. -/
def firstDate : CivilDate :=
  ⟨-4800, 3, 1, by decide, by decide, by decide, by decide⟩

def lastDate : CivilDate :=
  ⟨1465102, 10, 18, by decide, by decide, by decide, by decide⟩

theorem julianDay_firstDate : firstDate.julianDay = -32044 := by decide

theorem julianDay_lastDate : lastDate.julianDay = 536838867 := by decide

theorem julianDay_lt_iff {a b : CivilDate} : a.julianDay < b.julianDay ↔ a < b := by
  rw [← dayNumber_lt_iff, julianDay, julianDay]
  omega

theorem julianDay_le_iff {a b : CivilDate} : a.julianDay ≤ b.julianDay ↔ a ≤ b := by
  rw [← not_lt, ← not_lt, julianDay_lt_iff]

theorem julianDay_inj {a b : CivilDate} (h : a.julianDay = b.julianDay) : a = b := by
  rw [julianDay, julianDay] at h
  exact dayNumber_inj (by omega)

theorem convertible_iff {date : CivilDate} :
    date.Convertible ↔ firstDate ≤ date ∧ date ≤ lastDate := by
  rw [Convertible, ← julianDay_firstDate, ← julianDay_lastDate, julianDay_le_iff, julianDay_le_iff]

theorem Convertible.marchYear_nonneg {date : CivilDate} (h : date.Convertible) :
    0 ≤ marchYear date.year date.month := by
  have hmonth := date.one_le_month
  have hmonth' := date.month_le
  have hfirst := (convertible_iff.mp h).1
  rw [le_iff_lt_or_eq, lt_iff] at hfirst
  rw [marchYear]
  rcases hfirst with hlt | heq
  · simp only [firstDate] at hlt
    omega
  · rw [← heq]
    decide

theorem Convertible.year_le {date : CivilDate} (h : date.Convertible) : date.year ≤ 1465102 := by
  have hlast := (convertible_iff.mp h).2
  rw [le_iff_lt_or_eq, lt_iff] at hlast
  rcases hlast with hlt | heq
  · simp only [lastDate] at hlt
    omega
  · rw [heq]
    decide

theorem day_le_31 (date : CivilDate) : date.day ≤ 31 := by
  have hday := date.day_le
  rw [monthLength] at hday
  split_ifs at hday <;> omega

theorem julianDay_eq_march (date : CivilDate) : date.julianDay =
    marchDays (marchYear date.year date.month) (marchMonth date.month) + date.day - 32045 := by
  rw [marchDays_eq date.year date.one_le_month date.month_le, julianDay, dayNumber, dayOfYear]
  omega

theorem Convertible.getJulianDayNumber {date : CivilDate} (h : date.Convertible) :
    getJulianDayNumber date.year date.month date.day = some date.julianDay := by
  rw [getJulianDayNumber_eq date.one_le_month date.month_le date.one_le_day date.day_le_31
    h.marchYear_nonneg h.year_le, julianDay_eq_march]

end CivilDate

/-- The length of a month counted from March. -/
theorem monthLength_march {y m : ℤ} (hm : 0 ≤ m) (hm' : m ≤ 11) :
    monthLength (y + m / 10) (m + 3 - 12 * (m / 10)) =
      if m = 11 then if LeapYear (y + 1) then 29 else 28
      else (153 * (m + 1) + 2) / 5 - (153 * m + 2) / 5 := by
  interval_cases m <;> simp [monthLength]

/-- A month counted from March, back in the calendar year. -/
theorem march_month {m : ℤ} (hm : 0 ≤ m) (hm' : m ≤ 11) (y : ℤ) :
    1 ≤ m + 3 - 12 * (m / 10) ∧ m + 3 - 12 * (m / 10) ≤ 12 ∧
      marchMonth (m + 3 - 12 * (m / 10)) = m ∧
      marchYear (y - 4800 + m / 10) (m + 3 - 12 * (m / 10)) = y := by
  refine ⟨by omega, by omega, ?_, ?_⟩
  · rw [marchMonth]
    omega
  · rw [marchYear]
    omega

/-- The date that the conversion splits a number into. -/
theorem exists_date {j : ℤ} (hj : -32044 ≤ j) (hj' : j ≤ 536838867) :
    ∃ date : CivilDate, date.julianDay = j ∧ getYearMonthDay j = some date.toYearMonthDay := by
  obtain ⟨b, hb⟩ : ∃ b, b = (4 * (j + 32044) + 3) / 146097 := ⟨_, rfl⟩
  obtain ⟨c, hc⟩ : ∃ c, c = j + 32044 - b * 146097 / 4 := ⟨_, rfl⟩
  obtain ⟨d, hd⟩ : ∃ d, d = (4 * c + 3) / 1461 := ⟨_, rfl⟩
  obtain ⟨e, he⟩ : ∃ e, e = c - 1461 * d / 4 := ⟨_, rfl⟩
  obtain ⟨m, hm⟩ : ∃ m, m = (5 * e + 2) / 153 := ⟨_, rfl⟩
  have hcenturies : b * 146097 / 4 = 36524 * b + b / 4 := by omega
  have hyears : 1461 * d / 4 = 365 * d + d / 4 := by omega
  have hc_le : 0 ≤ c ∧ c ≤ 36524 ∧ (c = 36524 → b % 4 = 3) := by omega
  have hd_le : 0 ≤ d ∧ d ≤ 99 := by omega
  have he_le : 0 ≤ e ∧ e ≤ 365 ∧ (e = 365 → d % 4 = 3) := by omega
  have hlast : d = 99 → e = 365 → b % 4 = 3 := by omega
  have hm_le : 0 ≤ m ∧ m ≤ 11 := by omega
  have hday_le : e - (153 * m + 2) / 5 + 1 ≤
      monthLength (b * 100 + d - 4800 + m / 10) (m + 3 - 12 * (m / 10)) := by
    rw [monthLength_march hm_le.1 hm_le.2]
    split_ifs with hfeb hleap
    · omega
    · rw [LeapYear] at hleap
      omega
    · omega
  obtain ⟨hone, htwelve, hmonth, hyear⟩ := march_month hm_le.1 hm_le.2 (b * 100 + d)
  let date : CivilDate :=
    { year := b * 100 + d - 4800 + m / 10
      month := m + 3 - 12 * (m / 10)
      day := e - (153 * m + 2) / 5 + 1
      one_le_month := hone
      month_le := htwelve
      one_le_day := by omega
      day_le := hday_le }
  refine ⟨date, ?_, getYearMonthDay_eq hj hj' hb hc hd he hm⟩
  have hjulian : date.julianDay =
      marchDays (b * 100 + d) m + (e - (153 * m + 2) / 5 + 1) - 32045 := by
    rw [date.julianDay_eq_march, hyear, hmonth]
  have hfour : (b * 100 + d) / 4 = 25 * b + d / 4 := by omega
  have hhundred : (b * 100 + d) / 100 = b := by omega
  have hfourhundred : (b * 100 + d) / 400 = b / 4 := by omega
  rw [hjulian, marchDays, hfour, hhundred, hfourhundred]
  omega

namespace CivilDate

theorem Convertible.getYearMonthDay {date : CivilDate} (h : date.Convertible) :
    getYearMonthDay date.julianDay = some date.toYearMonthDay := by
  obtain ⟨date', hdate, hget⟩ := exists_date h.1 h.2
  rw [hget, julianDay_inj hdate]

theorem Convertible.mono {a b : CivilDate} (hb : b.Convertible) (ha : firstDate ≤ a)
    (hle : a ≤ b) : a.Convertible :=
  convertible_iff.mpr ⟨ha, hle.trans (convertible_iff.mp hb).2⟩

end CivilDate

open CivilDate

/-- The conversions are inverse to each other, keep the order, and take consecutive dates to
consecutive numbers. -/
theorem conversions_inverse :
    (∀ date : CivilDate, firstDate ≤ date → date ≤ lastDate →
      ∃ j, getJulianDayNumber date.year date.month date.day = some j ∧ -32044 ≤ j ∧
        j ≤ 536838867 ∧ getYearMonthDay j = some date.toYearMonthDay) ∧
    (∀ j, -32044 ≤ j → j ≤ 536838867 → ∃ date : CivilDate, firstDate ≤ date ∧ date ≤ lastDate ∧
      getYearMonthDay j = some date.toYearMonthDay ∧
      getJulianDayNumber date.year date.month date.day = some j) ∧
    (∀ a b : CivilDate, firstDate ≤ a → b ≤ lastDate → a < b →
      ∃ i j, getJulianDayNumber a.year a.month a.day = some i ∧
        getJulianDayNumber b.year b.month b.day = some j ∧ i < j) ∧
    (∀ a b : CivilDate, firstDate ≤ a → b ≤ lastDate → a ⋖ b →
      ∃ i, getJulianDayNumber a.year a.month a.day = some i ∧
        getJulianDayNumber b.year b.month b.day = some (i + 1)) ∧
    getJulianDayNumber lastDate.year lastDate.month lastDate.day = some 536838867 := by
  refine ⟨?_, ?_, ?_, ?_, ?_⟩
  · intro date hfirst hlast
    have h : date.Convertible := convertible_iff.mpr ⟨hfirst, hlast⟩
    exact ⟨_, h.getJulianDayNumber, h.1, h.2, h.getYearMonthDay⟩
  · intro j hj hj'
    obtain ⟨date, rfl, hget⟩ := exists_date hj hj'
    have h : date.Convertible := ⟨hj, hj'⟩
    obtain ⟨hfirst, hlast⟩ := convertible_iff.mp h
    exact ⟨date, hfirst, hlast, hget, h.getJulianDayNumber⟩
  · intro a b ha hb hlt
    have hb' : b.Convertible := convertible_iff.mpr ⟨ha.trans hlt.le, hb⟩
    have ha' : a.Convertible := hb'.mono ha hlt.le
    exact ⟨_, _, ha'.getJulianDayNumber, hb'.getJulianDayNumber, julianDay_lt_iff.mpr hlt⟩
  · intro a b ha hb hcov
    have hb' : b.Convertible := convertible_iff.mpr ⟨ha.trans hcov.le, hb⟩
    have ha' : a.Convertible := hb'.mono ha hcov.le
    refine ⟨_, ha'.getJulianDayNumber, ?_⟩
    rw [hb'.getJulianDayNumber, julianDay, julianDay, dayNumber_of_covBy hcov]
    congr 1
    omega
  · have h : lastDate.Convertible := by
      constructor <;> simp [julianDay_lastDate]
    rw [h.getJulianDayNumber, julianDay_lastDate]

end ReactorNet
