import ReactorNet.DateCalendar

/-!
# Conversions between seconds and UTC

`toUtcTime` and `fromUtcTime`. The values pass through `time_t`, `int` and `unsigned`.
-/
namespace ReactorNet

/-- `struct tm`; a null `tm_zone` is the empty string. -/
structure Tm where
  tm_sec : ℤ
  tm_min : ℤ
  tm_hour : ℤ
  tm_mday : ℤ
  tm_mon : ℤ
  tm_year : ℤ
  tm_wday : ℤ
  tm_yday : ℤ
  tm_isdst : ℤ
  tm_gmtoff : ℤ
  tm_zone : String
deriving DecidableEq

/-- `memZero`. -/
def Tm.zero : Tm := ⟨0, 0, 0, 0, 0, 0, 0, 0, 0, 0, ""⟩

def kSecondsPerDay : ℤ := 24 * 60 * 60

/-- `seconds` is unsigned. -/
def fillHMS (seconds : ℤ) (utc : Tm) : Tm :=
  let minutes := seconds / 60
  { utc with tm_sec := seconds % 60, tm_min := minutes % 60, tm_hour := minutes / 60 }

namespace TimeZone

/-- The seconds in the day and the days, after the borrow for times before 1970. -/
def splitDays (secondsSinceEpoch : ℤ) : Option (ℤ × ℤ) := do
  let seconds := wrapped 32 (← int64 (secondsSinceEpoch.tmod kSecondsPerDay))
  let days := wrapped 32 (← int64 (secondsSinceEpoch.tdiv kSecondsPerDay))
  if seconds < 0 then return (← int32 (seconds + kSecondsPerDay), ← int32 (days - 1))
  else return (seconds, days)

/-- The fields of the date, and the day of the year if it is wanted. -/
def fillDate (date : Date) (yday : Bool) (utc : Tm) : Option Tm := do
  let ymd ← date.yearMonthDay
  let tm_year ← int32 (ymd.year - 1900)
  let tm_mon ← int32 (ymd.month - 1)
  let tm_wday ← date.weekDay
  let utc := { utc with
    tm_year := tm_year, tm_mon := tm_mon, tm_mday := ymd.day, tm_wday := tm_wday }
  if yday then
    let startOfYear ← Date.ofYearMonthDay ymd.year 1 1
    let tm_yday ← int32 (date.julianDayNumber - startOfYear.julianDayNumber)
    return { utc with tm_yday := tm_yday }
  else return utc

def toUtcTime (secondsSinceEpoch : ℤ) (yday : Bool) : Option Tm := do
  let (seconds, days) ← splitDays secondsSinceEpoch
  let utc := fillHMS (toUInt32 seconds) { Tm.zero with tm_zone := "GMT" }
  let date := Date.mk (← int32 (days + Date.kJulianDayOf1970_01_01))
  fillDate date yday utc

def fromUtcFields (year month day hour minute seconds : ℤ) : Option ℤ := do
  let date ← Date.ofYearMonthDay year month day
  let secondsInDay ← int32 ((← int32 ((← int32 (hour * 3600)) + (← int32 (minute * 60)))) + seconds)
  let days ← int32 (date.julianDayNumber - Date.kJulianDayOf1970_01_01)
  int64 ((← int64 (days * kSecondsPerDay)) + secondsInDay)

def fromUtcTime (utc : Tm) : Option ℤ := do
  fromUtcFields (← int32 (utc.tm_year + 1900)) (← int32 (utc.tm_mon + 1)) utc.tm_mday utc.tm_hour
    utc.tm_min utc.tm_sec

/-- The borrow makes the split the one with floors. -/
theorem splitDays_eq {t : ℤ} (h : -1000000000 ≤ t / 86400) (h' : t / 86400 ≤ 1000000000) :
    splitDays t = some (t % 86400, t / 86400) := by
  have hday : kSecondsPerDay = 86400 := rfl
  rw [splitDays, hday, Int.tmod_eq_emod, Int.tdiv_eq_ediv]
  by_cases hfloor : 0 ≤ t ∨ (86400 : ℤ) ∣ t
  · simp only [if_pos hfloor, Nat.cast_zero, sub_zero, add_zero]
    simp (disch := omega) only [↓int64_bind, wrapped_int32]
    rw [if_neg (by omega)]
    rfl
  · have hsign : (86400 : ℤ).sign = 1 := rfl
    have habs : ((86400 : ℤ).natAbs : ℤ) = 86400 := rfl
    simp only [if_neg hfloor, hsign, habs]
    simp (disch := omega) only [↓int64_bind, wrapped_int32]
    rw [if_pos (by omega)]
    simp (disch := omega) only [↓int32_bind]
    simp

end TimeZone

namespace Tm

/-- The fields are in range, and the date is a date of the calendar. -/
structure WellFormed (tm : Tm) : Prop where
  sec : 0 ≤ tm.tm_sec ∧ tm.tm_sec < 60
  min : 0 ≤ tm.tm_min ∧ tm.tm_min < 60
  hour : 0 ≤ tm.tm_hour ∧ tm.tm_hour < 24
  mon : 0 ≤ tm.tm_mon ∧ tm.tm_mon < 12
  mday : 1 ≤ tm.tm_mday ∧ tm.tm_mday ≤ monthLength (tm.tm_year + 1900) (tm.tm_mon + 1)

def WellFormed.date {tm : Tm} (h : tm.WellFormed) : CivilDate where
  year := tm.tm_year + 1900
  month := tm.tm_mon + 1
  day := tm.tm_mday
  one_le_month := by have := h.mon; omega
  month_le := by have := h.mon; omega
  one_le_day := h.mday.1
  day_le := h.mday.2

def secondsInDay (tm : Tm) : ℤ := tm.tm_hour * 3600 + tm.tm_min * 60 + tm.tm_sec

/-- The seconds in the day determine the fields of the time. -/
theorem WellFormed.secondsInDay_eq {tm : Tm} (h : tm.WellFormed) :
    0 ≤ tm.secondsInDay ∧ tm.secondsInDay < 86400 ∧ tm.secondsInDay / 60 / 60 = tm.tm_hour ∧
      tm.secondsInDay / 60 % 60 = tm.tm_min ∧ tm.secondsInDay % 60 = tm.tm_sec := by
  have hsec := h.sec
  have hmin := h.min
  have hhour := h.hour
  rw [Tm.secondsInDay]
  omega

end Tm

theorem kJulianDayOf1970_01_01_eq : Date.kJulianDayOf1970_01_01 = 2440588 := by decide

open TimeZone CivilDate

/-- The seconds count the days of the calendar and the seconds in the day. -/
theorem fromUtcTime_eq {tm : Tm} (h : tm.WellFormed) (hdate : h.date.Convertible) :
    fromUtcTime tm = some ((h.date.julianDay - 2440588) * 86400 + tm.secondsInDay) := by
  have hfirst : 0 ≤ marchYear (tm.tm_year + 1900) (tm.tm_mon + 1) := hdate.marchYear_nonneg
  have hyear : tm.tm_year + 1900 ≤ 1465102 := hdate.year_le
  have hnumber : getJulianDayNumber (tm.tm_year + 1900) (tm.tm_mon + 1) tm.tm_mday =
      some h.date.julianDay := hdate.getJulianDayNumber
  obtain ⟨hlow, hhigh⟩ := hdate
  obtain ⟨hsec, hsec'⟩ := h.sec
  obtain ⟨hmin, hmin'⟩ := h.min
  obtain ⟨hhour, hhour'⟩ := h.hour
  obtain ⟨hmon, hmon'⟩ := h.mon
  rw [marchYear] at hfirst
  have hday : kSecondsPerDay = 86400 := rfl
  rw [fromUtcTime]
  simp (disch := omega) only [↓int32_bind]
  rw [fromUtcFields, Date.ofYearMonthDay, hnumber, Option.map_some, hday,
    kJulianDayOf1970_01_01_eq, some_bind]
  simp (disch := omega) only [Date.julianDayNumber, ↓int32_bind, ↓int64_bind, int64_eq]
  rfl

theorem weekDay_eq {j : ℤ} (hj : -32044 ≤ j) (hj' : j ≤ 536838867) :
    ∃ w, (Date.mk j).weekDay = some w := by
  have hlt := Int.tmod_lt_of_pos (j + 1) (show (0 : ℤ) < 7 by decide)
  have hgt := Int.lt_tmod_of_pos (j + 1) (show (0 : ℤ) < 7 by decide)
  refine ⟨(j + 1).tmod 7, ?_⟩
  simp only [Date.weekDay, Date.kDaysPerWeek]
  rw [int32_bind (by omega) (by omega), int32_eq (by omega) (by omega)]

theorem CivilDate.julianDay_january (date : CivilDate) :
    date.julianDay - (january date.year).julianDay = date.dayOfYear - 1 := by
  have hjanuary : (january date.year).dayOfYear = 1 := rfl
  rw [julianDay, julianDay, dayNumber, dayNumber, hjanuary]
  simp only [january]
  omega

/-- Only the year -4800 begins before the range. -/
theorem january_cases {date : CivilDate} (h : date.Convertible) :
    (january date.year).Convertible ∨ date.year = -4800 := by
  have hfirst := h.marchYear_nonneg
  have hmonth := date.month_le
  have hmonth' := date.one_le_month
  have hle : january date.year ≤ date := by
    have hday := date.one_le_day
    rw [le_iff_lt_or_eq, lt_iff]
    by_cases heq : date.month = 1 ∧ date.day = 1
    · exact Or.inr (CivilDate.ext rfl heq.1.symm heq.2.symm)
    · refine Or.inl (Or.inr ⟨rfl, ?_⟩)
      simp only [january]
      omega
  rw [marchYear] at hfirst
  by_cases hyear : date.year = -4800
  · exact Or.inr hyear
  · refine Or.inl (h.mono (le_of_lt (lt_iff.mpr (Or.inl ?_))) hle)
    simp only [january, firstDate]
    omega

/-- The start of the year has some number, also where the year begins before the range. -/
theorem startOfYear_eq {date : CivilDate} (h : date.Convertible) :
    ∃ j, getJulianDayNumber date.year 1 1 = some j ∧ -40000 ≤ j ∧ j ≤ 536838867 ∧
      ((january date.year).Convertible → j = (january date.year).julianDay) := by
  rcases january_cases h with hjanuary | hyear
  · obtain ⟨hlow, hhigh⟩ := id hjanuary
    exact ⟨_, hjanuary.getJulianDayNumber, by omega, hhigh, fun _ => rfl⟩
  · have hnumber : getJulianDayNumber (-4800) 1 1 = some (-32103) := by decide
    rw [hyear]
    refine ⟨_, hnumber, by decide, by decide, ?_⟩
    intro hjanuary
    have hlow := hjanuary.1
    have hnot : ¬-32044 ≤ (january (-4800)).julianDay := by decide
    exact absurd hlow hnot

theorem fillDate_eq {date : CivilDate} (hdate : date.Convertible) (yday : Bool) (utc : Tm) :
    ∃ tm, fillDate ⟨date.julianDay⟩ yday utc = some tm ∧
      tm.tm_year = date.year - 1900 ∧ tm.tm_mon = date.month - 1 ∧ tm.tm_mday = date.day ∧
      tm.tm_hour = utc.tm_hour ∧ tm.tm_min = utc.tm_min ∧ tm.tm_sec = utc.tm_sec ∧
      (yday = true → (january date.year).Convertible → tm.tm_yday = date.dayOfYear - 1) := by
  obtain ⟨w, hw⟩ := weekDay_eq hdate.1 hdate.2
  obtain ⟨j, hj, hlow, hhigh, hjanuary⟩ := startOfYear_eq hdate
  have hfirst := hdate.marchYear_nonneg
  have hyear := hdate.year_le
  have hone := date.one_le_month
  have htwelve := date.month_le
  obtain ⟨hlow', hhigh'⟩ := id hdate
  rw [marchYear] at hfirst
  rw [fillDate, Date.yearMonthDay, hdate.getYearMonthDay, some_bind, toYearMonthDay]
  simp (disch := omega) only [↓int32_bind]
  rw [hw, some_bind]
  cases yday with
  | false =>
    refine ⟨_, rfl, rfl, rfl, rfl, rfl, rfl, rfl, ?_⟩
    intro h
    cases h
  | true =>
    rw [if_pos rfl, Date.ofYearMonthDay, hj, Option.map_some, some_bind]
    simp (disch := omega) only [Date.julianDayNumber, ↓int32_bind]
    refine ⟨_, rfl, rfl, rfl, rfl, rfl, rfl, rfl, ?_⟩
    intro _ hfits
    rw [hjanuary hfits]
    exact date.julianDay_january

/-- The fields of a day and the seconds in it. -/
theorem toUtcTime_eq {date : CivilDate} (hdate : date.Convertible) {seconds : ℤ}
    (hs : 0 ≤ seconds) (hs' : seconds < 86400) (yday : Bool) :
    ∃ tm, toUtcTime ((date.julianDay - 2440588) * 86400 + seconds) yday = some tm ∧
      tm.tm_year = date.year - 1900 ∧ tm.tm_mon = date.month - 1 ∧ tm.tm_mday = date.day ∧
      tm.tm_hour = seconds / 60 / 60 ∧ tm.tm_min = seconds / 60 % 60 ∧ tm.tm_sec = seconds % 60 ∧
      (yday = true → (january date.year).Convertible → tm.tm_yday = date.dayOfYear - 1) := by
  obtain ⟨hlow, hhigh⟩ := id hdate
  have hdays : ((date.julianDay - 2440588) * 86400 + seconds) / 86400 =
      date.julianDay - 2440588 := by omega
  have hseconds : ((date.julianDay - 2440588) * 86400 + seconds) % 86400 = seconds := by omega
  have hnumber : date.julianDay - 2440588 + 2440588 = date.julianDay := by omega
  rw [toUtcTime, splitDays_eq (by omega) (by omega), hdays, hseconds, some_bind,
    kJulianDayOf1970_01_01_eq]
  simp only [hnumber, toUInt32_eq hs (show seconds ≤ 4294967295 by omega)]
  rw [int32_bind (by omega) (by omega)]
  exact fillDate_eq hdate yday _

/-- Every time comes back from its fields, and the fields are those of its day. -/
theorem fromUtcTime_toUtcTime {t : ℤ} (h : -32044 ≤ t / 86400 + Date.kJulianDayOf1970_01_01)
    (h' : t / 86400 + Date.kJulianDayOf1970_01_01 ≤ 536838867) (yday : Bool) :
    ∃ tm, toUtcTime t yday = some tm ∧ fromUtcTime tm = some t ∧ ∃ hw : tm.WellFormed,
      (yday = true → (january hw.date.year).Convertible →
        tm.tm_yday = hw.date.dayOfYear - 1) := by
  rw [kJulianDayOf1970_01_01_eq] at h h'
  obtain ⟨date, hnumber, -⟩ := exists_date h h'
  have hdate : date.Convertible := ⟨hnumber ▸ h, hnumber ▸ h'⟩
  have hlow : 0 ≤ t % 86400 := by omega
  have hhigh : t % 86400 < 86400 := by omega
  have ht : (date.julianDay - 2440588) * 86400 + t % 86400 = t := by omega
  obtain ⟨tm, htm, hyear, hmon, hmday, hhour, hmin, hsec, hyday⟩ :=
    toUtcTime_eq hdate hlow hhigh yday
  rw [ht] at htm
  have hyear' : tm.tm_year + 1900 = date.year := by omega
  have hmon' : tm.tm_mon + 1 = date.month := by omega
  have hwf : tm.WellFormed := by
    have hone := date.one_le_month
    have htwelve := date.month_le
    refine ⟨?_, ?_, ?_, ?_, ?_⟩
    · omega
    · omega
    · omega
    · omega
    · rw [hyear', hmon', hmday]
      exact ⟨date.one_le_day, date.day_le⟩
  have hsame : hwf.date = date := CivilDate.ext hyear' hmon' hmday
  refine ⟨tm, htm, ?_, hwf, ?_⟩
  · have hseconds : tm.secondsInDay = t % 86400 := by
      rw [Tm.secondsInDay, hhour, hmin, hsec]
      omega
    rw [fromUtcTime_eq hwf (hsame ▸ hdate), hsame, hseconds, ht]
  · rw [hsame]
    exact hyday

/-- The conversions restore a time from its fields, and the fields of a date from the time. -/
theorem utc_round_trip :
    (∀ (t : ℤ) (yday : Bool), -32044 ≤ t / 86400 + Date.kJulianDayOf1970_01_01 →
      t / 86400 + Date.kJulianDayOf1970_01_01 ≤ 536838867 →
      ∃ tm, toUtcTime t yday = some tm ∧ fromUtcTime tm = some t ∧ ∃ hw : tm.WellFormed,
        (yday = true → (january hw.date.year).Convertible →
          tm.tm_yday = hw.date.dayOfYear - 1)) ∧
    ∀ (tm : Tm) (hw : tm.WellFormed) (yday : Bool), hw.date.Convertible →
      ∃ t tm', fromUtcTime tm = some t ∧ toUtcTime t yday = some tm' ∧
        tm'.tm_year = tm.tm_year ∧ tm'.tm_mon = tm.tm_mon ∧ tm'.tm_mday = tm.tm_mday ∧
        tm'.tm_hour = tm.tm_hour ∧ tm'.tm_min = tm.tm_min ∧ tm'.tm_sec = tm.tm_sec := by
  constructor
  · intro t yday h h'
    exact fromUtcTime_toUtcTime h h' yday
  · intro tm hw yday hdate
    obtain ⟨hlow, hhigh, hh, hm, hs⟩ := hw.secondsInDay_eq
    obtain ⟨tm', htm', hyear, hmon, hmday, hhour, hmin, hsec, -⟩ :=
      toUtcTime_eq hdate hlow hhigh yday
    refine ⟨_, tm', fromUtcTime_eq hw hdate, htm', ?_, ?_, hmday, ?_, ?_, ?_⟩
    · rw [hyear]
      simp [Tm.WellFormed.date]
    · rw [hmon]
      simp [Tm.WellFormed.date]
    · rw [hhour, hh]
    · rw [hmin, hm]
    · rw [hsec, hs]

end ReactorNet
