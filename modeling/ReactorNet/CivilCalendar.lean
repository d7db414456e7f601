import Mathlib.Algebra.Order.Group.Int
import Mathlib.Data.Prod.Lex
import Mathlib.Order.Cover
import Mathlib.Tactic.NormNum.Basic

/-!
# The Gregorian calendar

Dates under the 4/100/400 leap rule, for all years, in their order. The days are numbered
by the lengths of the years and the months; the numbering keeps the order and has no
gaps.
-/
namespace ReactorNet

/-- The leap rule. -/
def LeapYear (year : ℤ) : Prop := year % 4 = 0 ∧ (year % 100 = 0 → year % 400 = 0)

instance : DecidablePred LeapYear := fun _ => inferInstanceAs (Decidable (_ ∧ _))

def yearLength (year : ℤ) : ℤ := if LeapYear year then 366 else 365

def monthLength (year month : ℤ) : ℤ :=
  if month = 2 then if LeapYear year then 29 else 28
  else if month = 4 ∨ month = 6 ∨ month = 9 ∨ month = 11 then 30 else 31

/-- The days before the first of January, counted from the year 1. -/
def daysBeforeYear (year : ℤ) : ℤ :=
  365 * (year - 1) + (year - 1) / 4 - (year - 1) / 100 + (year - 1) / 400

/-- The days of the first `k` months. -/
def daysOfMonths (year : ℤ) : ℕ → ℤ
  | 0 => 0
  | k + 1 => daysOfMonths year k + monthLength year (k + 1)

theorem monthLength_pos (year month : ℤ) : 0 < monthLength year month := by
  rw [monthLength]
  split_ifs <;> omega

theorem daysBeforeYear_succ (year : ℤ) :
    daysBeforeYear (year + 1) = daysBeforeYear year + yearLength year := by
  rw [daysBeforeYear, daysBeforeYear, yearLength]
  split_ifs with h <;> rw [LeapYear] at h <;> omega

theorem daysBeforeYear_le {a b : ℤ} (h : a ≤ b) : daysBeforeYear a ≤ daysBeforeYear b := by
  rw [daysBeforeYear, daysBeforeYear]
  omega

theorem daysOfMonths_le (year : ℤ) {j k : ℕ} (h : j ≤ k) :
    daysOfMonths year j ≤ daysOfMonths year k := by
  induction h with
  | refl => exact le_rfl
  | @step k _ ih =>
    have hpos := monthLength_pos year (k + 1)
    rw [daysOfMonths]
    omega

theorem daysOfMonths_year (year : ℤ) : daysOfMonths year 12 = yearLength year := by
  by_cases h : LeapYear year <;> simp [daysOfMonths, monthLength, yearLength, h]

/-- A day of the calendar. -/
@[ext] structure CivilDate where
  year : ℤ
  month : ℤ
  day : ℤ
  one_le_month : 1 ≤ month
  month_le : month ≤ 12
  one_le_day : 1 ≤ day
  day_le : day ≤ monthLength year month
deriving DecidableEq

namespace CivilDate

def toLexTriple (date : CivilDate) : ℤ ×ₗ ℤ ×ₗ ℤ := toLex (date.year, toLex (date.month, date.day))

theorem toLexTriple_injective : Function.Injective toLexTriple := by
  intro a b h
  simp only [toLexTriple, toLex_inj, Prod.mk.injEq] at h
  exact CivilDate.ext h.1 h.2.1 h.2.2

/-- Dates are ordered by year, then month, then day. -/
instance : LinearOrder CivilDate := LinearOrder.lift' toLexTriple toLexTriple_injective

theorem lt_iff {a b : CivilDate} : a < b ↔ a.year < b.year ∨
    a.year = b.year ∧ (a.month < b.month ∨ a.month = b.month ∧ a.day < b.day) := by
  have h : a < b ↔ a.toLexTriple < b.toLexTriple := Iff.rfl
  rw [h, toLexTriple, toLexTriple, Prod.Lex.toLex_lt_toLex]
  simp only [Prod.Lex.toLex_lt_toLex]

/-- The number of the day in its year, from 1. -/
def dayOfYear (date : CivilDate) : ℤ :=
  daysOfMonths date.year (date.month - 1).toNat + date.day

/-- The number of the day; the first of January of the year 1 has number 1. -/
def dayNumber (date : CivilDate) : ℤ := daysBeforeYear date.year + date.dayOfYear

theorem dayOfYear_le_months (date : CivilDate) :
    date.dayOfYear ≤ daysOfMonths date.year date.month.toNat := by
  have hmonth := date.one_le_month
  have hday := date.day_le
  have hsucc : date.month.toNat = (date.month - 1).toNat + 1 := by omega
  have hcast : (((date.month - 1).toNat : ℤ) + 1) = date.month := by omega
  rw [dayOfYear, hsucc, daysOfMonths, hcast]
  omega

theorem months_lt_dayOfYear (date : CivilDate) :
    daysOfMonths date.year (date.month - 1).toNat < date.dayOfYear := by
  have hday := date.one_le_day
  rw [dayOfYear]
  omega

theorem one_le_dayOfYear (date : CivilDate) : 1 ≤ date.dayOfYear := by
  have hmonths := daysOfMonths_le date.year (Nat.zero_le (date.month - 1).toNat)
  have hlt := date.months_lt_dayOfYear
  rw [daysOfMonths] at hmonths
  omega

theorem dayOfYear_le (date : CivilDate) : date.dayOfYear ≤ yearLength date.year := by
  have hmonth := date.month_le
  have hmonths := daysOfMonths_le date.year (show date.month.toNat ≤ 12 by omega)
  rw [daysOfMonths_year] at hmonths
  exact date.dayOfYear_le_months.trans hmonths

/-- Later dates have larger numbers. -/
theorem dayNumber_lt {a b : CivilDate} (hlt : a < b) : a.dayNumber < b.dayNumber := by
  rw [dayNumber, dayNumber]
  rcases lt_iff.mp hlt with hyear | ⟨hyear, hmonth | ⟨hmonth, hday⟩⟩
  · have hmono := daysBeforeYear_le (show a.year + 1 ≤ b.year by omega)
    have ha := a.dayOfYear_le
    have hb := b.one_le_dayOfYear
    rw [daysBeforeYear_succ] at hmono
    omega
  · have hmono := daysOfMonths_le a.year
      (show a.month.toNat ≤ (b.month - 1).toNat by omega)
    have ha := a.dayOfYear_le_months
    have hb := b.months_lt_dayOfYear
    rw [← hyear] at hb ⊢
    omega
  · rw [dayOfYear, dayOfYear, ← hyear, ← hmonth]
    omega

theorem dayNumber_lt_iff {a b : CivilDate} : a.dayNumber < b.dayNumber ↔ a < b := by
  constructor
  · intro h
    rcases lt_trichotomy a b with hlt | rfl | hgt
    · exact hlt
    · omega
    · have hlt := dayNumber_lt hgt
      omega
  · exact dayNumber_lt

theorem dayNumber_inj {a b : CivilDate} (h : a.dayNumber = b.dayNumber) : a = b := by
  rcases lt_trichotomy a b with hlt | rfl | hgt
  · have hlt' := dayNumber_lt hlt
    omega
  · rfl
  · have hlt' := dayNumber_lt hgt
    omega

/-- The day after. -/
def next (date : CivilDate) : CivilDate :=
  if hday : date.day < monthLength date.year date.month then
    { date with
      day := date.day + 1
      one_le_day := by have := date.one_le_day; omega
      day_le := hday }
  else if hmonth : date.month < 12 then
    { year := date.year
      month := date.month + 1
      day := 1
      one_le_month := by have := date.one_le_month; omega
      month_le := hmonth
      one_le_day := le_rfl
      day_le := monthLength_pos _ _ }
  else
    { year := date.year + 1
      month := 1
      day := 1
      one_le_month := le_rfl
      month_le := by decide
      one_le_day := le_rfl
      day_le := monthLength_pos _ _ }

/-- The first of January. -/
def january (year : ℤ) : CivilDate where
  year := year
  month := 1
  day := 1
  one_le_month := le_rfl
  month_le := by decide
  one_le_day := le_rfl
  day_le := monthLength_pos _ _

theorem dayNumber_next (date : CivilDate) : date.next.dayNumber = date.dayNumber + 1 := by
  have hone := date.one_le_month
  have hle := date.month_le
  have hlast := date.day_le
  rw [next]
  split_ifs with hday hmonth
  · simp only [dayNumber, dayOfYear]
    omega
  · have hsucc : (date.month + 1 - 1).toNat = (date.month - 1).toNat + 1 := by omega
    have hcast : (((date.month - 1).toNat : ℤ) + 1) = date.month := by omega
    simp only [dayNumber, dayOfYear, hsucc, daysOfMonths, hcast]
    omega
  · have hdec : date.month = 12 := by omega
    have heleven : (date.month - 1).toNat = 11 := by omega
    have hyear : daysOfMonths date.year 11 + monthLength date.year 12 = yearLength date.year := by
      rw [← daysOfMonths_year, daysOfMonths]
      rfl
    have hzero : daysOfMonths (date.year + 1) 0 = 0 := rfl
    rw [hdec] at hlast hday
    simp only [dayNumber, dayOfYear, daysBeforeYear_succ, heleven, sub_self, Int.toNat_zero, hzero]
    omega

theorem lt_next (date : CivilDate) : date < date.next := by
  rw [← dayNumber_lt_iff, dayNumber_next]
  omega

/-- Consecutive dates have consecutive numbers. -/
theorem dayNumber_of_covBy {a b : CivilDate} (h : a ⋖ b) : b.dayNumber = a.dayNumber + 1 := by
  have hnot : ¬a.next.dayNumber < b.dayNumber := by
    rw [dayNumber_lt_iff]
    exact h.2 a.lt_next
  have hlt := dayNumber_lt h.lt
  rw [dayNumber_next] at hnot
  omega

end CivilDate

end ReactorNet
