import Mathlib.Algebra.Order.Ring.Int
import Mathlib.Data.List.Range

/-!
# The Gregorian calendar

Dates as year, month and day, counted from the first day of the year 1, with the
weekday that the count gives.  Months are counted from 0, and Sunday is the
weekday 0.
-/

namespace Calendar

def isLeap (year : ℤ) : Bool :=
  year % 4 == 0 && (year % 100 != 0 || year % 400 == 0)

def daysInMonth (year : ℤ) : ℕ → ℤ
  | 1 => if isLeap year then 29 else 28
  | 3 | 5 | 8 | 10 => 30
  | _ => 31

/-- The days of the years before. -/
def daysBeforeYear (year : ℤ) : ℤ :=
  365 * (year - 1) + (year - 1) / 4 - (year - 1) / 100 + (year - 1) / 400

/-- The days of the months before, in the same year. -/
def daysBeforeMonth (year : ℤ) (month : ℕ) : ℤ :=
  ((List.range month).map (daysInMonth year)).sum

/-- The number of a day; the first day of the year 1 has the number 0. -/
def dayNumber (year : ℤ) (month : ℕ) (day : ℤ) : ℤ :=
  daysBeforeYear year + daysBeforeMonth year month + (day - 1)

/-- The first day of the year 1 is a Monday. -/
def weekday (number : ℤ) : ℤ :=
  (number + 1) % 7

/-- The seconds since the begin of the year 1. -/
def seconds (number hour min sec : ℤ) : ℤ :=
  86400 * number + 3600 * hour + 60 * min + sec

/-- The last Sunday of a month. -/
def lastSunday (year : ℤ) (month : ℕ) : ℤ :=
  daysInMonth year month -
    weekday (dayNumber year month (daysInMonth year month))

theorem weekday_nonneg (number : ℤ) : 0 ≤ weekday number :=
  Int.emod_nonneg _ (by decide)

theorem weekday_lt (number : ℤ) : weekday number < 7 :=
  Int.emod_lt_of_pos _ (by decide)

/-- The weekday moves with the day. -/
theorem weekday_dayNumber_add (year : ℤ) (month : ℕ) (day k : ℤ) :
    weekday (dayNumber year month (day + k)) =
      (weekday (dayNumber year month day) + k) % 7 := by
  simp only [weekday, dayNumber]
  omega

theorem daysBeforeMonth_succ (year : ℤ) (month : ℕ) :
    daysBeforeMonth year (month + 1) =
      daysBeforeMonth year month + daysInMonth year month := by
  simp [daysBeforeMonth, List.range_succ]

theorem daysInMonth_pos (year : ℤ) (month : ℕ) : 28 ≤ daysInMonth year month := by
  unfold daysInMonth
  split
  · split <;> decide
  all_goals decide

/-- The months of a year follow one another. -/
theorem daysBeforeMonth_add_le (year : ℤ) {m n : ℕ} (h : m < n) :
    daysBeforeMonth year m + daysInMonth year m ≤ daysBeforeMonth year n := by
  induction n, h using Nat.le_induction with
  | base => rw [daysBeforeMonth_succ]
  | succ n _ ih =>
      rw [daysBeforeMonth_succ]
      have hpos := daysInMonth_pos year n
      omega

/-- A day of an earlier month has a smaller number. -/
theorem dayNumber_lt_of_month_lt {year : ℤ} {m n : ℕ} {d e : ℤ} (h : m < n)
    (hd : d ≤ daysInMonth year m) (he : 1 ≤ e) :
    dayNumber year m d < dayNumber year n e := by
  have hmonths := daysBeforeMonth_add_le year h
  simp only [dayNumber]
  omega

end Calendar
