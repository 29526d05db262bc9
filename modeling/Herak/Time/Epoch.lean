import Herak.Support.CalendarDate
import Herak.Time.LocalTime

/-!
# Seconds since the epoch

`time2epoch` of `time.c`, and `mktime` and `gmtime_r`, which it and `cron_next`
call.  No time zone is set, so that both count in UTC.  `mktime` takes fields out
of their ranges and puts the calendar right.
-/

namespace Herak.Time

open Calendar

/-- The number of 1970-01-01. -/
def epochDay : ℤ := 719162

namespace Tm

/-- What `mktime` makes of the fields; the months may be out of their range. -/
def instant (t : Tm) : ℤ :=
  Calendar.seconds
    (dayNumber (t.fullYear + t.mon / 12) (t.mon % 12).toNat t.mday - epochDay)
    t.hour t.min t.sec

end Tm

/-- `gmtime_r` -/
def gmtime (epoch : ℤ) : Tm where
  sec := epoch % 60
  min := epoch / 60 % 60
  hour := epoch / 3600 % 24
  mday := dayOf (epoch / 86400 + epochDay)
  mon := monthOf (epoch / 86400 + epochDay)
  year := yearOf (epoch / 86400 + epochDay) - 1900
  wday := weekday (epoch / 86400 + epochDay)
  yday := dayOfYear (epoch / 86400 + epochDay)

/-- The last year that `mktime` counts, from 1900 on; it counts as far back. -/
def maxYear : ℤ := 10000

/-- `mktime`; in a year that it does not count it fails, and leaves the day of
the week as it is. -/
def mktime (time : Tm) : ℤ × Tm :=
  let tm := gmtime time.instant
  if tm.year < -maxYear ∨ maxYear < tm.year then (-1, { tm with wday := time.wday })
  else (time.instant, tm)

/-- `time2epoch` -/
def time2epoch (time : Tm) : ℤ :=
  (mktime time).1

variable {t u : ℤ} {time : Tm}

theorem gmtime_instant (t : ℤ) : (gmtime t).instant = t := by
  have hmonth := monthOf_lt (t / 86400 + epochDay)
  have hnumber := dayNumber_of (t / 86400 + epochDay)
  simp only [Tm.instant, Tm.fullYear, gmtime, Calendar.seconds]
  rw [show ((monthOf (t / 86400 + epochDay) : ℤ) / 12) = 0 by omega,
    show ((monthOf (t / 86400 + epochDay) : ℤ) % 12).toNat =
      monthOf (t / 86400 + epochDay) by omega, Int.add_zero,
    Int.sub_add_cancel, hnumber]
  omega

/-! ## The years of `mktime` -/

/-- The first instant behind the years that `mktime` counts. -/
def timeEnd : ℤ :=
  86400 * (daysBeforeYear (maxYear + 1901) - epochDay)

/-- An instant from the epoch on that `mktime` counts. -/
structure InTime (t : ℤ) : Prop where
  nonneg : 0 ≤ t
  lt : t < timeEnd

theorem InTime.of_le (h : InTime t) (hu : 0 ≤ u) (hle : u ≤ t) : InTime u :=
  ⟨hu, hle.trans_lt h.lt⟩

theorem maxYear_lt_iff (t : ℤ) : maxYear < (gmtime t).year ↔ timeEnd ≤ t := by
  obtain ⟨hle, hlt⟩ := yearOf_spec (t / 86400 + epochDay)
  rw [show (gmtime t).year = yearOf (t / 86400 + epochDay) - 1900 from rfl, timeEnd]
  constructor
  · intro hyear
    have hmono := daysBeforeYear_mono
      (show maxYear + 1901 ≤ yearOf (t / 86400 + epochDay) by omega)
    omega
  · intro hend
    by_contra hyear
    have hmono := daysBeforeYear_mono
      (show yearOf (t / 86400 + epochDay) + 1 ≤ maxYear + 1901 by omega)
    omega

theorem mktime_of (h : time.instant = t) (ht : InTime t) :
    mktime time = (t, gmtime t) := by
  have hlast := mt (maxYear_lt_iff t).mp (not_le.mpr ht.lt)
  have hfirst : ¬(gmtime t).year < -maxYear := by
    intro hyear
    have hlt := (yearOf_spec (t / 86400 + epochDay)).2
    rw [show (gmtime t).year = yearOf (t / 86400 + epochDay) - 1900 from rfl,
      maxYear] at hyear
    have hmono := daysBeforeYear_mono
      (show yearOf (t / 86400 + epochDay) + 1 ≤ 0 by omega)
    rw [show daysBeforeYear 0 = -366 by decide] at hmono
    have hnonneg := ht.nonneg
    rw [epochDay] at hlt hmono
    omega
  rw [mktime, h]
  exact if_neg (not_or.mpr ⟨hfirst, hlast⟩)

theorem mktime_late (h : timeEnd ≤ time.instant) : (mktime time).1 = -1 := by
  rw [mktime, if_pos (Or.inr ((maxYear_lt_iff _).mpr h))]

end Herak.Time
