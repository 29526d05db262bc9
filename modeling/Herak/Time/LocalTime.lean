import Mathlib.Tactic.IntervalCases
import Herak.Support.Calendar

/-!
# Local time

`time.c`: the hardware clock delivers UTC, and `tz_datetime_get` turns it into
the time of Eastern Europe.  Summer time begins at 01:00 UTC on the last Sunday
of March and ends at 01:00 UTC on the last Sunday of October.
-/

namespace Herak.Time

open Calendar

/-- `struct tm` -/
structure Tm where
  sec : ℤ
  min : ℤ
  hour : ℤ
  mday : ℤ
  mon : ℤ
  year : ℤ
  wday : ℤ
  yday : ℤ
  deriving DecidableEq

namespace Tm

/-- The year, which `tm_year` counts from 1900. -/
def fullYear (t : Tm) : ℤ :=
  t.year + 1900

/-- The number of the day. -/
def day (t : Tm) : ℤ :=
  dayNumber t.fullYear t.mon.toNat t.mday

/-- The seconds since the begin of the calendar. -/
def seconds (t : Tm) : ℤ :=
  Calendar.seconds t.day t.hour t.min t.sec

/-- A calendar date and time, with the weekday of the date. -/
structure Valid (t : Tm) : Prop where
  sec : 0 ≤ t.sec ∧ t.sec < 60
  min : 0 ≤ t.min ∧ t.min < 60
  hour : 0 ≤ t.hour ∧ t.hour < 24
  mon : 0 ≤ t.mon ∧ t.mon < 12
  mday : 1 ≤ t.mday ∧ t.mday ≤ daysInMonth t.fullYear t.mon.toNat
  wday : t.wday = weekday t.day

end Tm

/-- A time that the hardware clock delivers. -/
structure UtcTime where
  tm : Tm
  valid : tm.Valid

/-! ## The code -/

def moffset : List ℤ := [2, 2, 0, 3, 3, 3, 3, 3, 3, 0, 2, 2]

def dwoffset : List ℤ := [0, 6, 5, 4, 3, 2, 1]

/-- `get_utc_eest_offset` -/
def getUtcEestOffset (dt : Tm) : ℤ :=
  if dt.mon < 0 ∨ 11 < dt.mon then 0
  else if moffset.getD dt.mon.toNat 0 ≠ 0 then moffset.getD dt.mon.toNat 0
  else if dt.mday ≤ 24 then
    -- compares the day with the number of March, not the month
    if dt.mday = 3 then 2 else 3
  else if dt.wday < 0 ∨ 6 < dt.wday then 0
  else if dt.wday ≠ 0 then
    if 31 < dt.mday + dwoffset.getD dt.wday.toNat 0 then
      if dt.mon = 2 then 3 else 2
    else if dt.mon = 2 then 2
    else 3
  else if dt.hour < 3 then
    if dt.mon = 2 then 2 else 3
  else 0

def mdays : List ℤ := [31, 28, 31, 30, 31, 30, 31, 31, 30, 31, 30, 31]

/-- The end of `tz_datetime_get`, after the clock has been read. -/
def tzDatetimeGet (date : Tm) : Tm :=
  let date := { date with hour := date.hour + getUtcEestOffset date }
  if 24 ≤ date.hour then
    let date := { date with mday := date.mday + 1, hour := date.hour - 24 }
    if 0 ≤ date.mon ∧ date.mon ≤ 11 ∧
        mdays.getD date.mon.toNat 0 < date.mday then
      let date := { date with mon := date.mon + 1, mday := 1 }
      if 11 < date.mon then { date with mon := 0 } else date
    else date
  else date

/-! ## Summer time -/

/-- 01:00 UTC on the last Sunday of a month. -/
def switchTime (year : ℤ) (month : ℕ) : ℤ :=
  Calendar.seconds (dayNumber year month (lastSunday year month)) 1 0 0

/-- Summer time, from the switch in March to the one in October. -/
def IsSummer (t : Tm) : Prop :=
  switchTime t.fullYear 2 ≤ t.seconds ∧ t.seconds < switchTime t.fullYear 9

instance (t : Tm) : Decidable (IsSummer t) :=
  inferInstanceAs (Decidable (_ ∧ _))

/-- The hours that Eastern Europe is ahead of UTC. -/
def eestOffset (t : Tm) : ℤ :=
  if IsSummer t then 3 else 2

/-- The last Sunday of a month is one of its days. -/
theorem lastSunday_mem (year : ℤ) (month : ℕ) :
    1 ≤ lastSunday year month ∧
      lastSunday year month ≤ daysInMonth year month := by
  have hpos := daysInMonth_pos year month
  have hlo := weekday_nonneg (dayNumber year month (daysInMonth year month))
  have hhi := weekday_lt (dayNumber year month (daysInMonth year month))
  rw [lastSunday]
  omega

namespace Tm.Valid

variable {t : Tm}

/-- A time lies in its day. -/
theorem seconds_mem (h : t.Valid) :
    86400 * t.day + 3600 * t.hour ≤ t.seconds ∧
      t.seconds < 86400 * t.day + 3600 * (t.hour + 1) := by
  have hmin := h.min
  have hsec := h.sec
  simp only [Tm.seconds, Calendar.seconds]
  omega

/-- In a later month the switch is over. -/
theorem switchTime_le_of_month_lt (h : t.Valid) {month : ℕ}
    (hmonth : month < t.mon.toNat) :
    switchTime t.fullYear month ≤ t.seconds := by
  have hday : dayNumber t.fullYear month (lastSunday t.fullYear month) <
      t.day :=
    dayNumber_lt_of_month_lt hmonth (lastSunday_mem _ _).2 h.mday.1
  have hsec := h.seconds_mem
  have hhour := h.hour
  simp only [switchTime, Calendar.seconds]
  omega

/-- In an earlier month the switch is still to come. -/
theorem seconds_lt_of_lt_month (h : t.Valid) {month : ℕ}
    (hmonth : t.mon.toNat < month) :
    t.seconds < switchTime t.fullYear month := by
  have hday : t.day <
      dayNumber t.fullYear month (lastSunday t.fullYear month) :=
    dayNumber_lt_of_month_lt hmonth h.mday.2 (lastSunday_mem _ _).1
  have hsec := h.seconds_mem
  have hhour := h.hour
  simp only [switchTime, Calendar.seconds]
  omega

/-- In its month the switch comes with the second hour of the last Sunday. -/
theorem switchTime_le_iff (h : t.Valid) {month : ℕ}
    (hmonth : t.mon.toNat = month) :
    switchTime t.fullYear month ≤ t.seconds ↔
      lastSunday t.fullYear month < t.mday ∨
        lastSunday t.fullYear month = t.mday ∧ 1 ≤ t.hour := by
  have hsec := h.seconds_mem
  have hhour := h.hour
  subst hmonth
  simp only [Tm.day, dayNumber] at hsec
  simp only [switchTime, Calendar.seconds, dayNumber]
  omega

/-- The last Sunday of a month of 31 days, as the weekday of any of its days
tells it. -/
theorem lastSunday_eq (h : t.Valid)
    (hlen : daysInMonth t.fullYear t.mon.toNat = 31) :
    lastSunday t.fullYear t.mon.toNat = 31 - (t.wday + (31 - t.mday)) % 7 := by
  have hmove := weekday_dayNumber_add t.fullYear t.mon.toNat t.mday
    (31 - t.mday)
  rw [show t.mday + (31 - t.mday) = 31 by omega] at hmove
  rw [lastSunday, hlen, hmove, h.wday, Tm.day]

theorem wday_mem (h : t.Valid) : 0 ≤ t.wday ∧ t.wday < 7 := by
  rw [h.wday]
  exact ⟨weekday_nonneg _, weekday_lt _⟩

end Tm.Valid

theorem dwoffset_eq {wday : ℤ} (hlo : 0 < wday) (hhi : wday < 7) :
    dwoffset.getD wday.toNat 0 = 7 - wday := by
  interval_cases wday <;> rfl

/-! ## The offset -/

namespace UtcTime

/-- The days on which the code is right: the months that are decided by the
table, the third of March and the other days of the first weeks of October, and
the days of the last week apart from the Sunday after its first hour. -/
def OffsetRight (t : UtcTime) : Prop :=
  (t.tm.mon ≠ 2 ∧ t.tm.mon ≠ 9) ∨
    (t.tm.mday ≤ 24 ∧ (t.tm.mon = 2 ↔ t.tm.mday = 3)) ∨
      (24 < t.tm.mday ∧ (t.tm.wday ≠ 0 ∨ t.tm.hour = 0))

/-- The months that the table decides. -/
theorem offset_of_moffset (t : UtcTime) (h2 : t.tm.mon ≠ 2)
    (h9 : t.tm.mon ≠ 9) : getUtcEestOffset t.tm = eestOffset t.tm := by
  obtain ⟨hlo, hhi⟩ := t.valid.mon
  rcases lt_trichotomy t.tm.mon 2 with hlt | heq | hgt
  · have hwinter : ¬IsSummer t.tm := fun hsummer =>
      (t.valid.seconds_lt_of_lt_month (by omega)).not_ge hsummer.1
    have hcode : getUtcEestOffset t.tm = 2 := by
      have hmon : t.tm.mon = 0 ∨ t.tm.mon = 1 := by omega
      rcases hmon with hmon | hmon <;>
        simp [getUtcEestOffset, moffset, hmon]
    rw [hcode, eestOffset, if_neg hwinter]
  · exact (h2 heq).elim
  · rcases lt_trichotomy t.tm.mon 9 with hlt | heq | hgt'
    · have hsummer : IsSummer t.tm :=
        ⟨t.valid.switchTime_le_of_month_lt (by omega),
          t.valid.seconds_lt_of_lt_month (by omega)⟩
      have hcode : getUtcEestOffset t.tm = 3 := by
        have hmon : t.tm.mon = 3 ∨ t.tm.mon = 4 ∨ t.tm.mon = 5 ∨
            t.tm.mon = 6 ∨ t.tm.mon = 7 ∨ t.tm.mon = 8 := by omega
        rcases hmon with hmon | hmon | hmon | hmon | hmon | hmon <;>
          simp [getUtcEestOffset, moffset, hmon]
      rw [hcode, eestOffset, if_pos hsummer]
    · exact (h9 heq).elim
    · have hwinter : ¬IsSummer t.tm := fun hsummer =>
        (t.valid.switchTime_le_of_month_lt (by omega)).not_gt hsummer.2
      have hcode : getUtcEestOffset t.tm = 2 := by
        have hmon : t.tm.mon = 10 ∨ t.tm.mon = 11 := by omega
        rcases hmon with hmon | hmon <;>
          simp [getUtcEestOffset, moffset, hmon]
      rw [hcode, eestOffset, if_neg hwinter]

/-- What the code computes in the two months that have a switch. -/
theorem offset_of_switch (t : UtcTime) (hmon : t.tm.mon = 2 ∨ t.tm.mon = 9) :
    getUtcEestOffset t.tm =
      if t.tm.mday ≤ 24 then if t.tm.mday = 3 then 2 else 3
      else if t.tm.wday ≠ 0 then
        if 31 < t.tm.mday + (7 - t.tm.wday) then
          if t.tm.mon = 2 then 3 else 2
        else if t.tm.mon = 2 then 2
        else 3
      else if t.tm.hour < 3 then
        if t.tm.mon = 2 then 2 else 3
      else 0 := by
  obtain ⟨hlo, hhi⟩ := t.valid.wday_mem
  have hrange : ¬(t.tm.mon < 0 ∨ 11 < t.tm.mon) := by omega
  have htable : moffset.getD t.tm.mon.toNat 0 = 0 := by
    rcases hmon with hmon | hmon <;> rw [hmon] <;> rfl
  have hwday : ¬(t.tm.wday < 0 ∨ 6 < t.tm.wday) := by omega
  rw [getUtcEestOffset, if_neg hrange, if_neg (not_not.mpr htable),
    if_neg hwday]
  by_cases hsunday : t.tm.wday = 0
  · rw [hsunday]
    rfl
  · rw [dwoffset_eq (by omega) (by omega)]

/-- The switch in a month of 31 days, by the weekday of the date. -/
theorem switchTime_le_iff (t : UtcTime) {month : ℕ}
    (hmonth : t.tm.mon.toNat = month)
    (hlen : daysInMonth t.tm.fullYear month = 31) :
    switchTime t.tm.fullYear month ≤ t.tm.seconds ↔
      31 - (t.tm.wday + (31 - t.tm.mday)) % 7 < t.tm.mday ∨
        31 - (t.tm.wday + (31 - t.tm.mday)) % 7 = t.tm.mday ∧
          1 ≤ t.tm.hour := by
  subst hmonth
  rw [t.valid.switchTime_le_iff rfl, t.valid.lastSunday_eq hlen]

theorem offset_march (t : UtcTime) (hmon : t.tm.mon = 2) :
    getUtcEestOffset t.tm = eestOffset t.tm ↔
      (t.tm.mday ≤ 24 ∧ t.tm.mday = 3) ∨
        (24 < t.tm.mday ∧ (t.tm.wday ≠ 0 ∨ t.tm.hour = 0)) := by
  have hmonth : t.tm.mon.toNat = 2 := by rw [hmon]; rfl
  have hoctober : t.tm.seconds < switchTime t.tm.fullYear 9 :=
    t.valid.seconds_lt_of_lt_month (by omega)
  have hswitch := t.switchTime_le_iff hmonth rfl
  obtain ⟨hwlo, hwhi⟩ := t.valid.wday_mem
  obtain ⟨hhlo, hhhi⟩ := t.valid.hour
  have hmday := t.valid.mday
  rw [hmonth] at hmday
  have hlen : daysInMonth t.tm.fullYear 2 = 31 := rfl
  have hsummer : IsSummer t.tm ↔
      switchTime t.tm.fullYear 2 ≤ t.tm.seconds :=
    and_iff_left hoctober
  rw [t.offset_of_switch (.inl hmon), eestOffset, hmon]
  simp only [hsummer, hswitch]
  split_ifs <;> omega

theorem offset_october (t : UtcTime) (hmon : t.tm.mon = 9) :
    getUtcEestOffset t.tm = eestOffset t.tm ↔
      (t.tm.mday ≤ 24 ∧ t.tm.mday ≠ 3) ∨
        (24 < t.tm.mday ∧ (t.tm.wday ≠ 0 ∨ t.tm.hour = 0)) := by
  have hmonth : t.tm.mon.toNat = 9 := by rw [hmon]; rfl
  have hmarch : switchTime t.tm.fullYear 2 ≤ t.tm.seconds :=
    t.valid.switchTime_le_of_month_lt (by omega)
  have hswitch := t.switchTime_le_iff hmonth rfl
  obtain ⟨hwlo, hwhi⟩ := t.valid.wday_mem
  obtain ⟨hhlo, hhhi⟩ := t.valid.hour
  have hmday := t.valid.mday
  rw [hmonth] at hmday
  have hlen : daysInMonth t.tm.fullYear 9 = 31 := rfl
  have hsummer : IsSummer t.tm ↔
      ¬switchTime t.tm.fullYear 9 ≤ t.tm.seconds :=
    (and_iff_right hmarch).trans not_le.symm
  rw [t.offset_of_switch (.inr hmon), eestOffset, hmon]
  simp only [hsummer, hswitch]
  split_ifs <;> omega

/-- The offset is that of Eastern Europe on these days, and on no others. -/
theorem eest_offset_iff (t : UtcTime) :
    getUtcEestOffset t.tm = eestOffset t.tm ↔ t.OffsetRight := by
  rw [OffsetRight]
  by_cases h2 : t.tm.mon = 2
  · rw [t.offset_march h2]
    simp [h2]
  · by_cases h9 : t.tm.mon = 9
    · rw [t.offset_october h9]
      simp [h9]
    · exact iff_of_true (t.offset_of_moffset h2 h9) (.inl ⟨h2, h9⟩)

/-- Noon of the first of March 2024, a Friday. -/
def marchNoon : UtcTime where
  tm := ⟨0, 0, 12, 1, 2, 124, 5, 60⟩
  valid := ⟨by decide, by decide, by decide, by decide, by decide, by decide⟩

/-- In the first weeks of March summer time has begun already. -/
theorem not_eest_offset :
    ¬∀ t : UtcTime, getUtcEestOffset t.tm = eestOffset t.tm ∧
      getUtcEestOffset t.tm ≠ 0 := by
  intro h
  exact absurd (h marchNoon).1 (by decide)

/-- On the last Sunday of March 2024 there is no offset from 03:00 on. -/
example : getUtcEestOffset ⟨0, 0, 3, 31, 2, 124, 0, 90⟩ = 0 := by decide

/-! ## The carry -/

/-- The offset has three values. -/
theorem getUtcEestOffset_cases (dt : Tm) :
    getUtcEestOffset dt = 0 ∨ getUtcEestOffset dt = 2 ∨
      getUtcEestOffset dt = 3 := by
  have htable : ∀ n : ℕ, moffset.getD n 0 = 0 ∨ moffset.getD n 0 = 2 ∨
      moffset.getD n 0 = 3 := by
    intro n
    by_cases hn : n < 12
    · interval_cases n <;> decide
    · have hnone : moffset[n]? = none :=
        List.getElem?_eq_none (Nat.le_of_not_lt hn)
      rw [List.getD_eq_getElem?_getD, hnone]
      exact .inl rfl
  unfold getUtcEestOffset
  split_ifs
  all_goals first
    | exact .inl rfl
    | exact .inr (.inl rfl)
    | exact .inr (.inr rfl)
    | exact htable _

/-- Without a carry the hour alone is changed. -/
theorem tzDatetimeGet_of_lt {date : Tm}
    (h : date.hour + getUtcEestOffset date < 24) :
    tzDatetimeGet date =
      { date with hour := date.hour + getUtcEestOffset date } :=
  if_neg h.not_ge

/-- The weekday is never changed. -/
theorem tzDatetimeGet_wday (date : Tm) : (tzDatetimeGet date).wday = date.wday := by
  unfold tzDatetimeGet
  dsimp only
  split_ifs <;> rfl

/-- What is asked of `tz_datetime_get`: a calendar time that is the offset
later. -/
def LocalTimeRight (t : UtcTime) : Prop :=
  (tzDatetimeGet t.tm).Valid ∧
    (tzDatetimeGet t.tm).seconds =
      t.tm.seconds + 3600 * getUtcEestOffset t.tm

/-- The local time is right as long as it is on the same day. -/
theorem local_time_iff (t : UtcTime) :
    LocalTimeRight t ↔ t.tm.hour + getUtcEestOffset t.tm < 24 := by
  have hoffset := getUtcEestOffset_cases t.tm
  have hhour := t.valid.hour
  constructor
  · rintro ⟨hvalid, hseconds⟩
    by_contra hcarry
    have hold := t.valid.seconds_mem
    have hnew := hvalid.seconds_mem
    have hnewHour := hvalid.hour
    have hday : (tzDatetimeGet t.tm).day = t.tm.day + 1 := by omega
    have hwday := hvalid.wday
    rw [tzDatetimeGet_wday, t.valid.wday, hday] at hwday
    simp only [weekday] at hwday
    omega
  · intro hlt
    rw [LocalTimeRight, tzDatetimeGet_of_lt hlt]
    constructor
    · exact ⟨t.valid.sec, t.valid.min, by dsimp only; omega, t.valid.mon,
        t.valid.mday, t.valid.wday⟩
    · simp only [Tm.seconds, Tm.day, Tm.fullYear, Calendar.seconds]
      omega

/-- The last minute of 2024 in UTC, a Tuesday. -/
def yearEnd : UtcTime where
  tm := ⟨0, 59, 23, 31, 11, 124, 2, 365⟩
  valid := ⟨by decide, by decide, by decide, by decide, by decide, by decide⟩

/-- The local time of the first hours of a year is in the year before. -/
theorem not_local_time : ¬∀ t : UtcTime, LocalTimeRight t := by
  intro h
  have hright := (h yearEnd).2
  exact absurd hright (by decide)

end UtcTime

end Herak.Time
