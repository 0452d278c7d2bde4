import Mathlib.Algebra.BigOperators.Intervals
import Mathlib.Tactic.IntervalCases
import Mathlib.Tactic.Linarith

/-!
# The Gregorian calendar

Days are counted from the first day of year 0 in the proleptic calendar, month by month and year by
year; seconds from the first of January 1970.
-/

namespace WolfCert.CLib.Calendar

open Finset

def IsLeap (year : Nat) : Prop := year % 4 = 0 ∧ (year % 100 ≠ 0 ∨ year % 400 = 0)

instance (year : Nat) : Decidable (IsLeap year) := inferInstanceAs (Decidable (_ ∧ _))

def monthLength (year : Nat) : Nat → Nat
  | 2 => if IsLeap year then 29 else 28
  | 4 | 6 | 9 | 11 => 30
  | _ => 31

/-- The day stands in the calendar. -/
def IsDate (year month day : Nat) : Prop :=
  (1 ≤ month ∧ month ≤ 12) ∧ 1 ≤ day ∧ day ≤ monthLength year month

instance (year month day : Nat) : Decidable (IsDate year month day) := inferInstanceAs (Decidable (_ ∧ _))

def yearLength (year : Nat) : Nat := ∑ month ∈ Ico 1 13, monthLength year month

def daysBeforeYear (year : Nat) : Nat := ∑ earlier ∈ range year, yearLength earlier

def daysBeforeMonth (year month : Nat) : Nat := ∑ earlier ∈ Ico 1 month, monthLength year earlier

/-- How many days lie between the first day of year 0 and the day. -/
def dayNumber (year month day : Nat) : Int := daysBeforeYear year + daysBeforeMonth year month + day - 1

/-- Seconds from 1970-01-01 00:00:00 to that second of the day. -/
def unixSeconds (year month day second : Nat) : Int :=
  (dayNumber year month day - dayNumber 1970 1 1) * 86400 + second

theorem daysBeforeMonth_succ (year : Nat) {month : Nat} (first : 1 ≤ month) :
    daysBeforeMonth year (month + 1) = daysBeforeMonth year month + monthLength year month :=
  Finset.sum_Ico_succ_top first _

/-- The days before a month, February with 28 days, and its 29th day in a leap year. -/
theorem daysBeforeMonth_eq (year : Nat) {month : Nat} (range : 1 ≤ month ∧ month ≤ 13) :
    daysBeforeMonth year month =
      [0, 31, 59, 90, 120, 151, 181, 212, 243, 273, 304, 334, 365].getD (month - 1) 0 +
        if 2 < month ∧ IsLeap year then 1 else 0 := by
  obtain ⟨first, last⟩ := range
  induction month, first using Nat.le_induction with
  | base => rfl
  | succ month first ih =>
      have above : month ≤ 12 := by omega
      rw [daysBeforeMonth_succ year first, ih (by omega)]
      by_cases leap : IsLeap year
      · interval_cases month <;> simp [monthLength, leap]
      · interval_cases month <;> simp [monthLength, leap]

theorem yearLength_eq (year : Nat) : yearLength year = if IsLeap year then 366 else 365 := by
  have whole : yearLength year = daysBeforeMonth year 13 := rfl
  rw [whole, daysBeforeMonth_eq year (by decide)]
  by_cases leap : IsLeap year
  · simp [leap]
  · simp [leap]

/-- The leap days up to a year and through it. -/
theorem leapDays_succ (year : Nat) :
    ((year + 4 : Int) / 4 - (year + 100 : Int) / 100 + (year + 400 : Int) / 400) =
      (year + 3 : Int) / 4 - (year + 99 : Int) / 100 + (year + 399 : Int) / 400 +
        if IsLeap year then 1 else 0 := by
  have fourth : (year + 4 : Int) / 4 = (year + 3 : Int) / 4 + if year % 4 = 0 then 1 else 0 := by
    split <;> omega
  have century : (year + 100 : Int) / 100 = (year + 99 : Int) / 100 + if year % 100 = 0 then 1 else 0 := by
    split <;> omega
  have era : (year + 400 : Int) / 400 = (year + 399 : Int) / 400 + if year % 400 = 0 then 1 else 0 := by
    split <;> omega
  have nested : (year % 100 = 0 → year % 4 = 0) ∧ (year % 400 = 0 → year % 100 = 0) := by omega
  rw [fourth, century, era]
  unfold IsLeap
  by_cases four : year % 4 = 0
  · by_cases hundred : year % 100 = 0
    · by_cases all : year % 400 = 0
      · simp [four, hundred, all]
        omega
      · simp [four, hundred, all]
    · simp [four, hundred, mt nested.2 hundred]
      omega
  · simp [four, mt nested.1 four, mt nested.2 (mt nested.1 four)]

theorem daysBeforeYear_eq (year : Nat) :
    (daysBeforeYear year : Int) =
      365 * year + ((year + 3 : Int) / 4 - (year + 99 : Int) / 100 + (year + 399 : Int) / 400) := by
  induction year with
  | zero => rfl
  | succ year ih =>
      have step : daysBeforeYear (year + 1) = daysBeforeYear year + yearLength year :=
        Finset.sum_range_succ ..
      have length : (yearLength year : Int) = 365 + if IsLeap year then 1 else 0 := by
        rw [yearLength_eq]
        split <;> rfl
      have shift (k : Int) : ((year + 1 : Nat) : Int) + k = year + (k + 1) := by omega
      rw [step, Nat.cast_add, ih, length, shift 3, shift 99, shift 399]
      have raised := leapDays_succ year
      norm_num at raised ⊢
      linarith

/-- From one year to the next, the same day of the same month is days later. -/
theorem unixSeconds_succ (year : Nat) {month : Nat} (range : 1 ≤ month ∧ month ≤ 12) (day second : Nat) :
    unixSeconds year month day second + 86400 ≤ unixSeconds (year + 1) month day second := by
  have step : daysBeforeYear (year + 1) = daysBeforeYear year + yearLength year := Finset.sum_range_succ ..
  have length : 365 ≤ yearLength year := by
    rw [yearLength_eq]
    split <;> decide
  have months : daysBeforeMonth year month ≤ daysBeforeMonth (year + 1) month + 1 := by
    have within : 1 ≤ month ∧ month ≤ 13 := ⟨range.1, range.2.trans (by decide)⟩
    rw [daysBeforeMonth_eq year within, daysBeforeMonth_eq (year + 1) within]
    split <;> omega
  simp only [unixSeconds, dayNumber]
  omega

theorem unixSeconds_add (year years : Nat) {month : Nat} (range : 1 ≤ month ∧ month ≤ 12) (day second : Nat) :
    unixSeconds year month day second + 86400 * years ≤ unixSeconds (year + years) month day second := by
  induction years with
  | zero => simp
  | succ years ih =>
      have step := unixSeconds_succ (year + years) range day second
      rw [Nat.add_assoc] at step
      push_cast
      linarith

end WolfCert.CLib.Calendar
