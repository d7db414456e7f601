import ReactorNet.CheckedIntegers

/-!
# Dates by Julian day numbers

`getJulianDayNumber`, `getYearMonthDay` and the class that wraps the number. Every
operation is one of `int`.
-/
namespace ReactorNet

structure YearMonthDay where
  year : ℤ
  month : ℤ
  day : ℤ
deriving DecidableEq

def getJulianDayNumber (year month day : ℤ) : Option ℤ := do
  let a ← int32 ((← int32 (14 - month)).tdiv 12)
  let y ← int32 ((← int32 (year + 4800)) - a)
  let m ← int32 ((← int32 (month + (← int32 (12 * a)))) - 3)
  let sum ← int32 (day + (← int32 ((← int32 ((← int32 (153 * m)) + 2)).tdiv 5)))
  let sum ← int32 (sum + (← int32 (y * 365)))
  let sum ← int32 (sum + (← int32 (y.tdiv 4)))
  let sum ← int32 (sum - (← int32 (y.tdiv 100)))
  let sum ← int32 (sum + (← int32 (y.tdiv 400)))
  int32 (sum - 32045)

def getYearMonthDay (julianDayNumber : ℤ) : Option YearMonthDay := do
  let a ← int32 (julianDayNumber + 32044)
  let b ← int32 ((← int32 ((← int32 (4 * a)) + 3)).tdiv 146097)
  let c ← int32 (a - (← int32 ((← int32 (b * 146097)).tdiv 4)))
  let d ← int32 ((← int32 ((← int32 (4 * c)) + 3)).tdiv 1461)
  let e ← int32 (c - (← int32 ((← int32 (1461 * d)).tdiv 4)))
  let m ← int32 ((← int32 ((← int32 (5 * e)) + 2)).tdiv 153)
  let day ← int32 ((← int32 (e - (← int32 ((← int32 ((← int32 (153 * m)) + 2)).tdiv 5)))) + 1)
  let month ← int32 ((← int32 (m + 3)) - (← int32 (12 * (← int32 (m.tdiv 10)))))
  let year ← int32 ((← int32 ((← int32 ((← int32 (b * 100)) + d)) - 4800)) + (← int32 (m.tdiv 10)))
  return ⟨year, month, day⟩

/-- The class wraps the number. -/
structure Date where
  julianDayNumber_ : ℤ
deriving DecidableEq

namespace Date

def kDaysPerWeek : ℤ := 7

def kJulianDayOf1970_01_01 : ℤ := (getJulianDayNumber 1970 1 1).getD 0

def ofYearMonthDay (year month day : ℤ) : Option Date :=
  (getJulianDayNumber year month day).map Date.mk

def julianDayNumber (date : Date) : ℤ := date.julianDayNumber_

def yearMonthDay (date : Date) : Option YearMonthDay := getYearMonthDay date.julianDayNumber_

def weekDay (date : Date) : Option ℤ := do
  int32 ((← int32 (date.julianDayNumber_ + 1)).tmod kDaysPerWeek)

end Date

/-- The year and the month with January and February at the end of the year before. -/
def marchYear (year month : ℤ) : ℤ := year + 4800 - (14 - month) / 12

def marchMonth (month : ℤ) : ℤ := month + 12 * ((14 - month) / 12) - 3

/-- The days before a month, from 1 March of the year -4800. -/
def marchDays (y m : ℤ) : ℤ := 365 * y + y / 4 - y / 100 + y / 400 + (153 * m + 2) / 5

theorem getJulianDayNumber_eq {year month day : ℤ} (hmonth : 1 ≤ month) (hmonth' : month ≤ 12)
    (hday : 1 ≤ day) (hday' : day ≤ 31) (hyear : 0 ≤ marchYear year month)
    (hyear' : year ≤ 1465102) :
    getJulianDayNumber year month day =
      some (marchDays (marchYear year month) (marchMonth month) + day - 32045) := by
  rw [marchYear] at hyear
  rw [getJulianDayNumber]
  simp (disch := omega) only [↓int32_bind, ↓int32_tdiv_bind, int32_eq]
  simp only [marchDays, marchYear, marchMonth]
  congr 1
  omega

/-- The day splits into centuries, years, months and days. -/
theorem getYearMonthDay_eq {j b c d e m : ℤ} (hj : -32044 ≤ j) (hj' : j ≤ 536838867)
    (hb : b = (4 * (j + 32044) + 3) / 146097) (hc : c = j + 32044 - b * 146097 / 4)
    (hd : d = (4 * c + 3) / 1461) (he : e = c - 1461 * d / 4) (hm : m = (5 * e + 2) / 153) :
    getYearMonthDay j =
      some ⟨b * 100 + d - 4800 + m / 10, m + 3 - 12 * (m / 10), e - (153 * m + 2) / 5 + 1⟩ := by
  rw [getYearMonthDay]
  simp (disch := omega) only [↓int32_bind, ↓int32_tdiv_bind]
  subst hb hc hd he hm
  rfl

end ReactorNet
