import Mathlib
import Herak.Support.Calendar

/-!
# Dates of day numbers

The year, the month and the day of the month of a day number.  Together with the
number of a date they are a one-to-one correspondence.
-/

namespace Calendar

theorem isLeap_iff (year : ℤ) :
    isLeap year = true ↔ year % 4 = 0 ∧ (year % 100 ≠ 0 ∨ year % 400 = 0) := by
  simp [isLeap]

def daysInYear (year : ℤ) : ℤ :=
  if isLeap year then 366 else 365

theorem daysBeforeYear_succ (year : ℤ) :
    daysBeforeYear (year + 1) = daysBeforeYear year + daysInYear year := by
  simp only [daysBeforeYear, daysInYear, isLeap_iff]
  split
  · omega
  · omega

theorem daysBeforeMonth_twelve (year : ℤ) :
    daysBeforeMonth year 12 = daysInYear year := by
  rw [daysInYear]
  split
  next hleap => simp [daysBeforeMonth, List.range_succ, daysInMonth, hleap]
  next hleap => simp [daysBeforeMonth, List.range_succ, daysInMonth, hleap]

theorem daysInYear_mem (year : ℤ) :
    365 ≤ daysInYear year ∧ daysInYear year ≤ 366 := by
  rw [daysInYear]
  split
  · decide
  · decide

theorem daysInMonth_le (year : ℤ) (month : ℕ) : daysInMonth year month ≤ 31 := by
  unfold daysInMonth
  split
  · split <;> decide
  all_goals decide

/-! ## The year -/

/-- The year of a day; the quotient by the mean length of a year is at most one
year off. -/
def yearOf (number : ℤ) : ℤ :=
  let guess := 400 * number / 146097 + 1
  if number < daysBeforeYear guess then guess - 1
  else if daysBeforeYear (guess + 1) ≤ number then guess + 1
  else guess

theorem yearOf_spec (number : ℤ) :
    daysBeforeYear (yearOf number) ≤ number ∧
      number < daysBeforeYear (yearOf number + 1) := by
  rw [yearOf]
  split
  next hbefore =>
    simp only [daysBeforeYear] at hbefore ⊢
    omega
  next hbefore =>
    split
    next hbehind =>
      simp only [daysBeforeYear] at hbehind ⊢
      omega
    next hbehind =>
      simp only [daysBeforeYear] at hbefore hbehind ⊢
      omega

theorem daysBeforeYear_mono {y z : ℤ} (h : y ≤ z) :
    daysBeforeYear y ≤ daysBeforeYear z := by
  simp only [daysBeforeYear]
  omega

/-- A year is the one of the days that begin with its first and end before the
next year. -/
theorem yearOf_eq {number year : ℤ} (hle : daysBeforeYear year ≤ number)
    (hlt : number < daysBeforeYear (year + 1)) : yearOf number = year := by
  obtain ⟨hle', hlt'⟩ := yearOf_spec number
  apply le_antisymm
  · by_contra hyear
    have := daysBeforeYear_mono (Int.add_one_le_of_lt (not_le.mp hyear))
    omega
  · by_contra hyear
    have := daysBeforeYear_mono (Int.add_one_le_of_lt (not_le.mp hyear))
    omega

/-! ## The month and the day -/

/-- The days of the year before a day. -/
def dayOfYear (number : ℤ) : ℤ :=
  number - daysBeforeYear (yearOf number)

theorem dayOfYear_mem (number : ℤ) :
    0 ≤ dayOfYear number ∧ dayOfYear number < daysInYear (yearOf number) := by
  have hspec := yearOf_spec number
  rw [daysBeforeYear_succ] at hspec
  rw [dayOfYear]
  omega

def monthOf (number : ℤ) : ℕ :=
  Nat.findGreatest
    (fun month => daysBeforeMonth (yearOf number) month ≤ dayOfYear number) 11

def dayOf (number : ℤ) : ℤ :=
  dayOfYear number - daysBeforeMonth (yearOf number) (monthOf number) + 1

theorem monthOf_lt (number : ℤ) : monthOf number < 12 :=
  Nat.lt_succ_of_le (Nat.findGreatest_le 11)

theorem dayNumber_of (number : ℤ) :
    dayNumber (yearOf number) (monthOf number) (dayOf number) = number := by
  simp only [dayNumber, dayOf, dayOfYear]
  omega

theorem dayOf_mem (number : ℤ) :
    1 ≤ dayOf number ∧
      dayOf number ≤ daysInMonth (yearOf number) (monthOf number) := by
  obtain ⟨hnonneg, hlt⟩ := dayOfYear_mem number
  have hmonth : daysBeforeMonth (yearOf number) (monthOf number) ≤
      dayOfYear number :=
    Nat.findGreatest_spec (P := fun month =>
      daysBeforeMonth (yearOf number) month ≤ dayOfYear number)
      (Nat.zero_le 11) hnonneg
  have hnext : dayOfYear number <
      daysBeforeMonth (yearOf number) (monthOf number + 1) := by
    by_cases hlast : monthOf number = 11
    · rw [hlast, daysBeforeMonth_twelve]
      exact hlt
    · have hle : monthOf number + 1 ≤ 11 := by
        have := monthOf_lt number
        omega
      exact not_le.mp (Nat.findGreatest_is_greatest
        (P := fun month => daysBeforeMonth (yearOf number) month ≤
          dayOfYear number) (Nat.lt_succ_self _) hle)
  rw [daysBeforeMonth_succ] at hnext
  rw [dayOf]
  omega

/-- A date of the calendar. -/
structure IsDate (year : ℤ) (month : ℕ) (day : ℤ) : Prop where
  month_lt : month < 12
  one_le : 1 ≤ day
  le : day ≤ daysInMonth year month

variable {year : ℤ} {month : ℕ} {day : ℤ}

theorem daysBeforeMonth_nonneg (year : ℤ) (month : ℕ) :
    0 ≤ daysBeforeMonth year month := by
  induction month with
  | zero => exact le_rfl
  | succ month ih =>
      rw [daysBeforeMonth_succ]
      have := daysInMonth_pos year month
      omega

theorem IsDate.add_le (h : IsDate year month day) :
    daysBeforeMonth year month + day ≤ daysInYear year := by
  have hle := h.le
  rcases Nat.eq_or_lt_of_le (Nat.le_of_lt_succ h.month_lt) with rfl | hlt
  · have htwelve := daysBeforeMonth_twelve year
    rw [daysBeforeMonth_succ] at htwelve
    omega
  · have hmonths := daysBeforeMonth_add_le year hlt
    have htwelve := daysBeforeMonth_twelve year
    rw [daysBeforeMonth_succ] at htwelve
    have := daysInMonth_pos year 11
    omega

theorem IsDate.yearOf_eq (h : IsDate year month day) :
    yearOf (dayNumber year month day) = year := by
  have hadd := h.add_le
  have hone := h.one_le
  have hnonneg := daysBeforeMonth_nonneg year month
  apply Calendar.yearOf_eq
  · rw [dayNumber]
    omega
  · rw [daysBeforeYear_succ, dayNumber]
    omega

theorem IsDate.monthOf_eq (h : IsDate year month day) :
    monthOf (dayNumber year month day) = month := by
  have hyear := h.yearOf_eq
  obtain ⟨hone, hle⟩ := dayOf_mem (dayNumber year month day)
  have hnumber := dayNumber_of (dayNumber year month day)
  rw [hyear] at hle hnumber
  rcases lt_trichotomy (monthOf (dayNumber year month day)) month with
    hlt | heq | hlt
  · have := dayNumber_lt_of_month_lt hlt hle h.one_le
    exact (this.ne hnumber).elim
  · exact heq
  · have := dayNumber_lt_of_month_lt hlt h.le hone
    exact (this.ne hnumber.symm).elim

theorem IsDate.dayOf_eq (h : IsDate year month day) :
    dayOf (dayNumber year month day) = day := by
  have hnumber := dayNumber_of (dayNumber year month day)
  rw [h.yearOf_eq, h.monthOf_eq] at hnumber
  simp only [dayNumber] at hnumber ⊢
  omega

/-! ## Months in a row -/

/-- The months counted from the begin of the year 0. -/
def monthIndex (number : ℤ) : ℤ :=
  12 * yearOf number + monthOf number

/-- The number of the first day of a month. -/
def firstDay (index : ℤ) : ℤ :=
  dayNumber (index / 12) (index % 12).toNat 1

theorem firstDay_of_lt (year : ℤ) (hmonth : month < 12) :
    firstDay (12 * year + month) = dayNumber year month 1 := by
  rw [firstDay, show (12 * year + (month : ℤ)) / 12 = year by omega,
    show ((12 * year + (month : ℤ)) % 12).toNat = month by omega]

theorem firstDay_succ (index : ℤ) :
    firstDay (index + 1) =
      firstDay index + daysInMonth (index / 12) (index % 12).toNat := by
  rw [firstDay, firstDay]
  by_cases hlast : index % 12 = 11
  · have htwelve := daysBeforeMonth_twelve (index / 12)
    have hyear := daysBeforeYear_succ (index / 12)
    rw [daysBeforeMonth_succ] at htwelve
    rw [show (index + 1) / 12 = index / 12 + 1 by omega,
      show ((index + 1) % 12).toNat = 0 by omega, hlast]
    simp only [dayNumber, Int.reduceToNat]
    rw [show daysBeforeMonth (index / 12 + 1) 0 = 0 from rfl]
    omega
  · have hsucc := daysBeforeMonth_succ (index / 12) (index % 12).toNat
    rw [show (index + 1) / 12 = index / 12 by omega,
      show ((index + 1) % 12).toNat = (index % 12).toNat + 1 by omega]
    simp only [dayNumber]
    omega

theorem firstDay_strictMono : StrictMono firstDay := by
  refine strictMono_int_of_lt_succ fun index => ?_
  have hpos := daysInMonth_pos (index / 12) (index % 12).toNat
  rw [firstDay_succ]
  omega

/-- The day and its month, counted in a row. -/
theorem firstDay_monthIndex (number : ℤ) :
    firstDay (monthIndex number) = number - (dayOf number - 1) ∧
      number < firstDay (monthIndex number + 1) := by
  have hmonth := monthOf_lt number
  have hday := dayOf_mem number
  have hnumber := dayNumber_of number
  have hfirst := firstDay_of_lt (yearOf number) hmonth
  have hnext := firstDay_succ (monthIndex number)
  rw [monthIndex] at hnext ⊢
  rw [show (12 * yearOf number + (monthOf number : ℤ)) / 12 = yearOf number by
      omega,
    show ((12 * yearOf number + (monthOf number : ℤ)) % 12).toNat =
      monthOf number by omega] at hnext
  rw [hnext, hfirst]
  simp only [dayNumber] at hnumber ⊢
  omega

/-- A month begins before a day if it is not later than the month of the day. -/
theorem firstDay_gc : GaloisConnection firstDay monthIndex := by
  intro index number
  obtain ⟨hfirst, hnext⟩ := firstDay_monthIndex number
  have hday := (dayOf_mem number).1
  constructor
  · intro hle
    by_contra hlt
    have := firstDay_strictMono.monotone (Int.add_one_le_of_lt (not_le.mp hlt))
    omega
  · intro hle
    have := firstDay_strictMono.monotone hle
    omega

end Calendar
