import Herak.Scripts.CronFields

/-!
# Days and months of a cron expression

An expression fires at the instants whose calendar has a bit in each of its
fields.  The search for a day stops at the next one that fires, and the one for
a month at the begin of a month behind which the next one that fires is not.
-/

namespace Herak.Scripts

open CInt Time Calendar LeastMatch

/-! ## Expressions -/

/-- A bit of a field is set. -/
def HasBit (bits : List UInt8) (least max : ℕ) : Prop :=
  ∃ i, least ≤ i ∧ i < max ∧ cronGetBit bits i = true

/-- Every bit of a field is set. -/
def AllBits (bits : List UInt8) (least max : ℕ) : Prop :=
  ∀ i, least ≤ i → i < max → cronGetBit bits i = true

namespace CronExpr

/-- Every field has a value, and the days are not restricted both by the month
and by the week. -/
structure Fires (e : CronExpr) : Prop where
  seconds : HasBit e.seconds 0 60
  minutes : HasBit e.minutes 0 60
  hours : HasBit e.hours 0 24
  daysOfMonth : HasBit e.daysOfMonth 1 32
  months : HasBit e.months 0 12
  daysOfWeek : HasBit e.daysOfWeek 0 7
  days : AllBits e.daysOfMonth 1 32 ∨ AllBits e.daysOfWeek 0 7

/-- The seconds are a range, and a restriction of the months goes with days that
every month has. -/
structure Regular (e : CronExpr) : Prop where
  seconds : ∀ i j k, i ≤ j → j ≤ k → k < 60 → cronGetBit e.seconds i = true →
    cronGetBit e.seconds k = true → cronGetBit e.seconds j = true
  months : AllBits e.months 0 12 ∨
    AllBits e.daysOfWeek 0 7 ∧
      ∀ i, 28 < i → i < 32 → cronGetBit e.daysOfMonth i = false

/-- A day on which the expression may fire, but for the month. -/
def DayFires (e : CronExpr) (number : ℤ) : Prop :=
  bitAt e.daysOfMonth (dayOf number) ∧ bitAt e.daysOfWeek (weekday number)

/-- An instant at which the expression fires, but for the month. -/
structure TimeFires (e : CronExpr) (t : ℤ) : Prop where
  second : bitAt e.seconds (t % 60)
  minute : bitAt e.minutes (t / 60 % 60)
  hour : bitAt e.hours (t / 3600 % 24)
  day : e.DayFires (dayAt t)

/-- An instant at which the expression fires. -/
structure FiresAt (e : CronExpr) (t : ℤ) : Prop extends e.TimeFires t where
  month : bitAt e.months (monthOf (dayAt t))

end CronExpr

variable {e : CronExpr} {t u : ℤ}

/-! ## The day -/

theorem gmtime_wday (t : ℤ) : (gmtime t).wday = weekday (dayAt t) := rfl

theorem toUInt32_wday (t : ℤ) :
    toUInt32 (gmtime t).wday = (weekday (dayAt t)).toNat := by
  have hnonneg := weekday_nonneg (dayAt t)
  have hlt := weekday_lt (dayAt t)
  rw [gmtime_wday, toUInt32]
  omega

theorem toUInt32_mday (t : ℤ) :
    toUInt32 (gmtime t).mday = (dayOf (dayAt t)).toNat := by
  have hday := dayOf_mem (dayAt t)
  have hle := daysInMonth_le (yearOf (dayAt t)) (monthOf (dayAt t))
  rw [show (gmtime t).mday = dayOf (dayAt t) from rfl, toUInt32]
  omega

theorem dayFires_iff (e : CronExpr) (number : ℤ) :
    (cronGetBit e.daysOfMonth (dayOf number).toNat &&
      cronGetBit e.daysOfWeek (weekday number).toNat) = true ↔
        e.DayFires number := by
  rw [Bool.and_eq_true]
  exact Iff.rfl

theorem findNextDay_fires {resets : List CronField} (left : ℕ)
    {dayOfMonth dayOfWeek : ℕ} (calendar : Tm)
    (h : (cronGetBit e.daysOfMonth dayOfMonth &&
      cronGetBit e.daysOfWeek dayOfWeek) = true) :
    findNextDay e.daysOfMonth e.daysOfWeek resets left calendar dayOfMonth
      dayOfWeek = .ok (dayOfMonth, calendar) := by
  cases left with
  | zero => simp only [findNextDay, h, if_true]
  | succ left => simp only [findNextDay, h, if_true]

/-- One step of the search for a day. -/
theorem findNextDay_step {reset : Bool} (left : ℕ) (ht : InTime t)
    (hend : t + 86400 < timeEnd) (hday : ¬e.DayFires (dayAt t)) {s : ℤ}
    (hs : (t / 86400 + 1) * 86400 + kept reset t = s) :
    findNextDay e.daysOfMonth e.daysOfWeek (belowDay reset) (left + 1)
        (gmtime t) (dayOf (dayAt t)).toNat (weekday (dayAt t)).toNat =
      findNextDay e.daysOfMonth e.daysOfWeek (belowDay reset) left
        (gmtime s) (dayOf (dayAt s)).toNat (weekday (dayAt s)).toNat := by
  have hkept := kept_mem reset t
  have hnext : InTime (t + 86400) :=
    ⟨Int.add_nonneg ht.nonneg (by decide), hend⟩
  have hadd : addToField (gmtime t) .dayOfMonth 1 =
      (false, gmtime (t + 86400)) :=
    addToField_gmtime .dayOfMonth (by decide) (by simp [CronField.unit]) hnext
  have hreset := resetAllMin_hour reset hnext
  have hsame : kept reset (t + 86400) = kept reset t := by
    rw [kept, kept, show (t + 86400) % 60 = t % 60 by omega]
  rw [hsame, show (t + 86400) / 86400 = t / 86400 + 1 by omega, hs] at hreset
  have hdayAt : dayAt (t + 86400) = dayAt s := by
    simp only [dayAt]
    omega
  have hnot : ¬(cronGetBit e.daysOfMonth (dayOf (dayAt t)).toNat &&
      cronGetBit e.daysOfWeek (weekday (dayAt t)).toNat) = true :=
    mt (dayFires_iff e _).mp hday
  rw [findNextDay, if_neg hnot]
  simp only [hadd, hreset, Bool.false_eq_true, if_false, toUInt32_mday,
    toUInt32_wday, hdayAt]

/-- The instant at which the search for a day stops, `k` days later. -/
def laterDay (reset : Bool) (t : ℤ) (k : ℕ) : ℤ :=
  if k = 0 then t else (t / 86400 + k) * 86400 + kept reset t

/-- The search for a day fails at the end of the years that are counted. -/
theorem findNextDay_late {reset : Bool} (left : ℕ) (hend : timeEnd ≤ t + 86400)
    (hday : ¬e.DayFires (dayAt t)) :
    findNextDay e.daysOfMonth e.daysOfWeek (belowDay reset) (left + 1)
      (gmtime t) (dayOf (dayAt t)).toNat (weekday (dayAt t)).toNat =
        .error .failed := by
  have hadd : (addToField (gmtime t) .dayOfMonth 1).1 = true :=
    addToField_late .dayOfMonth (by decide) (by simp [CronField.unit]) hend
  rw [findNextDay, if_neg (mt (dayFires_iff e _).mp hday)]
  exact if_pos hadd

/-- The search for a day stops at the next one that fires, if it is in the years
that are counted. -/
theorem findNextDay_cases (reset : Bool) {left k : ℕ} (ht : InTime t)
    (hk : k ≤ left)
    (hfires : e.DayFires (dayAt t + k))
    (hnone : ∀ j < k, ¬e.DayFires (dayAt t + j)) :
    findNextDay e.daysOfMonth e.daysOfWeek (belowDay reset) left (gmtime t)
          (dayOf (dayAt t)).toNat (weekday (dayAt t)).toNat =
        .ok ((dayOf (dayAt t + k)).toNat, gmtime (laterDay reset t k)) ∧
          InTime (laterDay reset t k) ∨
      findNextDay e.daysOfMonth e.daysOfWeek (belowDay reset) left (gmtime t)
          (dayOf (dayAt t)).toNat (weekday (dayAt t)).toNat = .error .failed ∧
        timeEnd ≤ t + 86400 * k := by
  induction k generalizing t left with
  | zero =>
      rw [Nat.cast_zero, add_zero] at hfires ⊢
      exact Or.inl
        ⟨findNextDay_fires left _ ((dayFires_iff e _).mpr hfires), ht⟩
  | succ k ih =>
      obtain ⟨left, rfl⟩ : ∃ n, left = n + 1 := ⟨left - 1, by omega⟩
      have hday : ¬e.DayFires (dayAt t) := by
        have := hnone 0 (Nat.succ_pos k)
        rwa [Nat.cast_zero, add_zero] at this
      by_cases hend : t + 86400 < timeEnd
      · have hnonneg := ht.nonneg
        have hkept := kept_mem reset t
        obtain ⟨s, hs⟩ : ∃ s, (t / 86400 + 1) * 86400 + kept reset t = s :=
          ⟨_, rfl⟩
        have hdayAt : ∀ j : ℕ, dayAt s + j = dayAt t + (j + 1 : ℕ) := by
          intro j
          simp only [dayAt]
          omega
        have hkept' : kept reset s = kept reset t := by
          cases reset with
          | false =>
              simp only [kept, Bool.false_eq_true, if_false] at hs ⊢
              omega
          | true => rfl
        have hlater : laterDay reset s k = laterDay reset t (k + 1) := by
          simp only [laterDay, hkept']
          split
          · subst_vars
            simp
          · simp only [Nat.add_eq_zero_iff, one_ne_zero, and_false, if_false]
            push_cast
            omega
        have hnext := ih (t := s) ⟨by omega, by omega⟩ (Nat.le_of_succ_le_succ hk)
          (by rwa [hdayAt])
          (fun j hj => by
            rw [hdayAt]
            exact hnone (j + 1) (by omega))
        rw [findNextDay_step left ht hend hday hs, ← hdayAt, ← hlater]
        refine hnext.imp_right fun hlate => ⟨hlate.1, hlate.2.trans ?_⟩
        push_cast
        omega
      · refine Or.inr ⟨findNextDay_late left (not_lt.mp hend) hday,
          (not_lt.mp hend).trans ?_⟩
        push_cast
        omega

theorem firstDay_add_le {i j : ℤ} (h : i < j) : firstDay i + 28 ≤ firstDay j := by
  have hsucc := firstDay_succ i
  have hpos := daysInMonth_pos (i / 12) (i % 12).toNat
  have hmono := firstDay_strictMono.monotone (Int.add_one_le_of_lt h)
  omega

/-- The days of a week have different numbers in their months. -/
theorem dayOf_ne {number k : ℤ} (hpos : 0 < k) (hk : k < 28) :
    dayOf (number + k) ≠ dayOf number := by
  intro heq
  have hfirst := (firstDay_monthIndex number).1
  have hfirst' := (firstDay_monthIndex (number + k)).1
  rcases lt_trichotomy (monthIndex number) (monthIndex (number + k)) with
    hlt | hsame | hlt
  · have := firstDay_add_le hlt
    omega
  · rw [hsame] at hfirst
    omega
  · have := firstDay_strictMono hlt
    omega

/-- Each day of the month comes again in December or in January. -/
theorem exists_dayOf {day : ℤ} (hone : 1 ≤ day) (hle : day ≤ 31) (number : ℤ) :
    ∃ k : ℕ, k ≤ 366 ∧ dayOf (number + k) = day := by
  obtain ⟨hlo, hhi⟩ := yearOf_spec number
  have hyear := daysInYear_mem (yearOf number)
  have htwelve := daysBeforeMonth_twelve (yearOf number)
  rw [daysBeforeMonth_succ, show daysInMonth (yearOf number) 11 = 31 from rfl]
    at htwelve
  rw [daysBeforeYear_succ] at hhi
  have hdecember : IsDate (yearOf number) 11 day := ⟨by decide, hone, hle⟩
  have hjanuary : IsDate (yearOf number + 1) 0 day := ⟨by decide, hone, hle⟩
  by_cases hbehind : number ≤ dayNumber (yearOf number) 11 day
  · refine ⟨(dayNumber (yearOf number) 11 day - number).toNat, ?_, ?_⟩
    · simp only [dayNumber] at hbehind ⊢
      omega
    · rw [Int.toNat_of_nonneg (Int.sub_nonneg_of_le hbehind),
        add_sub_cancel, hdecember.dayOf_eq]
  · have hless : number ≤ dayNumber (yearOf number + 1) 0 day := by
      rw [dayNumber, daysBeforeYear_succ,
        show daysBeforeMonth (yearOf number + 1) 0 = 0 from rfl]
      omega
    refine ⟨(dayNumber (yearOf number + 1) 0 day - number).toNat, ?_, ?_⟩
    · rw [dayNumber] at hbehind ⊢
      rw [daysBeforeYear_succ,
        show daysBeforeMonth (yearOf number + 1) 0 = 0 from rfl]
      omega
    · rw [Int.toNat_of_nonneg (Int.sub_nonneg_of_le hless),
        add_sub_cancel, hjanuary.dayOf_eq]

theorem bitAt_dayOf {bits : List UInt8} (hall : AllBits bits 1 32) (number : ℤ) :
    bitAt bits (dayOf number) := by
  have hday := dayOf_mem number
  have hle := daysInMonth_le (yearOf number) (monthOf number)
  exact hall _ (by omega) (by omega)

theorem bitAt_weekday {bits : List UInt8} (hall : AllBits bits 0 7)
    (number : ℤ) : bitAt bits (weekday number) := by
  have hnonneg := weekday_nonneg number
  have hlt := weekday_lt number
  exact hall _ (Nat.zero_le _) (by omega)

theorem CronExpr.Fires.exists_day (h : e.Fires) (number : ℤ) :
    ∃ k : ℕ, k ≤ 366 ∧ e.DayFires (number + k) ∧
      ∀ j : ℕ, 0 < j → j ≤ k → e.DayFires (number + j) →
        ¬e.DayFires number → dayOf (number + j) ≠ dayOf number := by
  rcases h.days with hall | hall
  · obtain ⟨i, -, hi, hbit⟩ := h.daysOfWeek
    have hpos := weekday_nonneg number
    have hlt := weekday_lt number
    refine ⟨((i - weekday number) % 7).toNat, by omega, ⟨bitAt_dayOf hall _, ?_⟩,
      fun j hj hle _ _ => dayOf_ne (by omega) (by omega)⟩
    have hweekday :
        (weekday (number + (((i - weekday number) % 7).toNat : ℕ))).toNat = i := by
      simp only [weekday] at hpos hlt ⊢
      omega
    rwa [bitAt, hweekday]
  · obtain ⟨i, hone, hi, hbit⟩ := h.daysOfMonth
    obtain ⟨k, hk, hday⟩ : ∃ k : ℕ, k ≤ 366 ∧ dayOf (number + k) = i :=
      exists_dayOf (by omega) (by omega) number
    refine ⟨k, hk, ⟨?_, bitAt_weekday hall _⟩, fun j _ _ hfires hnot heq => ?_⟩
    · rwa [bitAt, hday, Int.toNat_natCast]
    · refine hnot ⟨?_, bitAt_weekday hall _⟩
      rw [← heq]
      exact hfires.1

/-- The next day that fires is at most a year away and has another number in its
month. -/
theorem CronExpr.Fires.exists_next_day (h : e.Fires) (number : ℤ) :
    ∃ k : ℕ, k ≤ 366 ∧ e.DayFires (number + k) ∧
      (∀ j : ℕ, j < k → ¬e.DayFires (number + j)) ∧
        (0 < k → dayOf (number + k) ≠ dayOf number) := by
  classical
  obtain ⟨k, hk, hfires, hother⟩ := h.exists_day number
  have hex : ∃ k : ℕ, e.DayFires (number + k) := ⟨k, hfires⟩
  have hle : Nat.find hex ≤ k := Nat.find_min' hex hfires
  refine ⟨Nat.find hex, hle.trans hk, Nat.find_spec hex,
    fun j hj => Nat.find_min hex hj, fun hpos => ?_⟩
  have hnot := Nat.find_min hex hpos
  rw [Nat.cast_zero, add_zero] at hnot
  exact hother _ hpos hle (Nat.find_spec hex) hnot

/-! ## The month -/

/-- The time of day of an instant on another day. -/
def onDay (number t : ℤ) : ℤ :=
  (number - epochDay) * 86400 + t % 86400

theorem dayAt_onDay (number t : ℤ) : dayAt (onDay number t) = number := by
  simp only [dayAt, onDay]
  omega

theorem onDay_onDay (number number' t : ℤ) :
    onDay number (onDay number' t) = onDay number t := by
  simp only [onDay]
  omega

theorem kept_onDay (reset : Bool) (number t : ℤ) :
    kept reset (onDay number t) = kept reset t := by
  rw [kept, kept, onDay,
    show ((number - epochDay) * 86400 + t % 86400) % 60 = t % 60 by omega]

theorem onDay_nonneg {number : ℤ} (h : epochDay ≤ number) (t : ℤ) :
    0 ≤ onDay number t := by
  rw [onDay]
  omega

theorem yearOf_mono {m n : ℤ} (h : m ≤ n) : yearOf m ≤ yearOf n := by
  have hm := yearOf_spec m
  have hn := yearOf_spec n
  by_contra hlt
  have := daysBeforeYear_mono (Int.add_one_le_of_lt (not_le.mp hlt))
  omega

theorem yearOf_epochDay : yearOf epochDay = 1970 := by decide

theorem monthIndex_mod (number : ℤ) : monthIndex number % 12 = monthOf number := by
  have hmonth := monthOf_lt number
  rw [monthIndex]
  omega

theorem monthIndex_sub (number : ℤ) :
    monthIndex number - monthOf number = 12 * yearOf number := by
  rw [monthIndex]
  omega

/-- No day of a year after 1970 comes before the epoch. -/
theorem epochDay_le {year : ℤ} (h : yearOf (dayAt t) ≤ year) (ht : 0 ≤ t)
    (month : ℕ) {day : ℤ} (hday : 1 ≤ day) :
    epochDay ≤ dayNumber year month day := by
  have hepoch : yearOf epochDay ≤ yearOf (dayAt t) :=
    yearOf_mono (by rw [dayAt]; omega)
  rw [yearOf_epochDay] at hepoch
  have hyears := daysBeforeYear_mono (hepoch.trans h)
  rw [show daysBeforeYear 1970 = epochDay by decide] at hyears
  have hmonths := daysBeforeMonth_nonneg year month
  rw [dayNumber]
  omega

/-- A day at most 800 days later. -/
theorem onDay_le {number : ℤ} (h : number ≤ dayAt t + 800) :
    onDay number t ≤ t + 86400 * 800 := by
  simp only [dayAt, onDay] at h ⊢
  omega

/-- The calendar with another month. -/
theorem instant_setField_month (t : ℤ) {i : ℕ} (hi : i < 12) :
    ∃ calendar : Tm, calendar.instant =
        onDay (dayNumber (yearOf (dayAt t)) i (dayOf (dayAt t))) t ∧
      setField (gmtime t) .month i = cronMktime calendar := by
  refine ⟨_, ?_, rfl⟩
  simp only [Tm.instant, Tm.fullYear, Calendar.seconds, gmtime, onDay]
  rw [show (i : ℤ) / 12 = 0 by omega, show ((i : ℤ) % 12).toNat = i by omega,
    Int.add_zero, Int.sub_add_cancel, ← dayAt]
  omega

/-- The day a year later; in a year without it, the next one. -/
def nextYear (number : ℤ) : ℤ :=
  dayNumber (yearOf number + 1) (monthOf number) (dayOf number)

/-- The calendar with the next year. -/
theorem instant_addToField_year (t : ℤ) :
    ∃ calendar : Tm, calendar.instant = onDay (nextYear (dayAt t)) t ∧
      addToField (gmtime t) .year 1 = cronMktime calendar := by
  have hmonth := monthOf_lt (dayAt t)
  refine ⟨_, ?_, rfl⟩
  simp only [Tm.instant, Tm.fullYear, Calendar.seconds, gmtime, onDay, nextYear]
  rw [← dayAt,
    show (monthOf (dayAt t) : ℤ) / 12 = 0 by omega,
    show ((monthOf (dayAt t) : ℤ) % 12).toNat = monthOf (dayAt t) by omega,
    show yearOf (dayAt t) - 1900 + 1 + 1900 + 0 = yearOf (dayAt t) + 1 by omega]
  omega

/-- What the work on the month does: nothing, if its bit is set, or a move to the
begin of a month, which a short month in between may take too far.  It fails at
the end of the years that are counted. -/
inductive MonthMove (e : CronExpr) (reset : Bool) (t : ℤ) :
    Except CronStop (ℕ × Tm) → Prop
  | same : bitAt e.months (monthOf (dayAt t)) →
      MonthMove e reset t (.ok (monthOf (dayAt t), gmtime t))
  | moved (number b : ℤ) : monthIndex (dayAt t) < b → b ≤ monthIndex number →
      (dayOf (dayAt t) ≤ 28 → monthIndex number = b) →
      number ≤ dayAt t + 800 → InTime (monthStart number + kept reset t) →
      (b % 12).toNat ≠ monthOf (dayAt t) →
      (∀ c, monthIndex (dayAt t) ≤ c → c < b → ¬bitAt e.months (c % 12)) →
      MonthMove e reset t
        (.ok ((b % 12).toNat, gmtime (monthStart number + kept reset t)))
  | late : timeEnd ≤ t + 86400 * 800 → MonthMove e reset t (.error .failed)

theorem placeNext_month (reset : Bool) {i value : ℕ} (hi : i < 12)
    (hne : i ≠ value)
    (hin : InTime (onDay (dayNumber (yearOf (dayAt t)) i (dayOf (dayAt t))) t)) :
    placeNext (some i) value (gmtime t) .month (belowMonth reset) =
      .ok (i, gmtime (monthStart (dayNumber (yearOf (dayAt t)) i
        (dayOf (dayAt t))) + kept reset t)) := by
  obtain ⟨calendar, hinstant, hset⟩ := instant_setField_month t hi
  have hreset := resetAllMin_day reset hin
  rw [dayAt_onDay, kept_onDay] at hreset
  rw [placeNext, Option.getD_some, if_pos (Or.inr hne), hset,
    cronMktime_of hinstant hin]
  change (checked (resetAllMin (gmtime (onDay _ t)) _)).bind _ = _
  rw [hreset]
  rfl

/-- The month of another day, at the same time of the day. -/
theorem placeNext_month_onDay (reset : Bool) {i value : ℕ} (hi : i < 12)
    (hne : i ≠ value) {j : ℤ}
    (hin : InTime (onDay (dayNumber (yearOf j) i (dayOf j)) t)) :
    placeNext (some i) value (gmtime (onDay j t)) .month (belowMonth reset) =
      .ok (i, gmtime (monthStart (dayNumber (yearOf j) i (dayOf j)) +
        kept reset t)) := by
  have hplace := @placeNext_month (onDay j t) reset i value hi hne
    (by rwa [dayAt_onDay, onDay_onDay])
  rwa [dayAt_onDay, kept_onDay] at hplace

theorem placeNext_month_late {i value : ℕ} (hi : i < 12) (hne : i ≠ value)
    (hend : timeEnd ≤ onDay (dayNumber (yearOf (dayAt t)) i (dayOf (dayAt t))) t)
    (lower : List CronField) :
    placeNext (some i) value (gmtime t) .month lower = .error .failed := by
  obtain ⟨calendar, hinstant, hset⟩ := instant_setField_month t hi
  refine placeNext_failed hne ?_
  rw [hset, cronMktime_late hinstant hend]

/-- A day counted in a month is in this month or behind it. -/
theorem le_monthIndex {year day : ℤ} {i : ℕ} (hi : i < 12) (hday : 1 ≤ day) :
    12 * year + i ≤ monthIndex (dayNumber year i day) := by
  refine firstDay_gc.le_iff_le.mp ?_
  rw [firstDay_of_lt _ hi]
  simp only [dayNumber]
  omega

theorem monthIndex_eq {year day : ℤ} {i : ℕ} (hi : i < 12) (hday : 1 ≤ day)
    (hle : day ≤ 28) : monthIndex (dayNumber year i day) = 12 * year + i := by
  have hdate : IsDate year i day :=
    ⟨hi, hday, hle.trans (daysInMonth_pos year i)⟩
  rw [monthIndex, hdate.yearOf_eq, hdate.monthOf_eq]

/-- The same day a year later is in the next year. -/
theorem yearOf_nextYear (number : ℤ) :
    yearOf (nextYear number) = yearOf number + 1 := by
  have hmonth := monthOf_lt number
  obtain ⟨hone, hle⟩ := dayOf_mem number
  have hmonths := daysBeforeMonth_nonneg (yearOf number + 1) (monthOf number)
  have htwelve := daysBeforeMonth_twelve (yearOf number + 1)
  rw [daysBeforeMonth_succ,
    show daysInMonth (yearOf number + 1) 11 = 31 from rfl] at htwelve
  have hmax := daysInMonth_le (yearOf number) (monthOf number)
  apply yearOf_eq
  · rw [nextYear, dayNumber]
    omega
  · rw [daysBeforeYear_succ, nextYear, dayNumber]
    rcases Nat.lt_or_ge (monthOf number) 11 with hlt | hge
    · have hbefore := daysBeforeMonth_add_le (yearOf number + 1) hlt
      have hpos := daysInMonth_pos (yearOf number + 1) (monthOf number)
      omega
    · rw [show monthOf number = 11 by omega]
      omega

/-- A date of this or the next year is near. -/
theorem dayNumber_near {number number' year : ℤ} {i : ℕ}
    (hyear : year ≤ yearOf number + 1) (hi : i < 12) :
    dayNumber year i (dayOf number') ≤ number + 800 := by
  have hspec := (yearOf_spec number).1
  have hday := dayOf_mem number'
  have hmax := daysInMonth_le (yearOf number') (monthOf number')
  have hyears := daysBeforeYear_mono hyear
  have hlength := daysInYear_mem (yearOf number)
  have hmonths : daysBeforeMonth year i ≤ 366 := by
    have hlong := daysInYear_mem year
    have hdate : IsDate year i 1 :=
      ⟨hi, le_rfl, le_trans (by decide) (daysInMonth_pos year i)⟩
    have := hdate.add_le
    omega
  rw [daysBeforeYear_succ] at hyears
  rw [dayNumber]
  omega

/-- The months between a month and the next one with a bit. -/
theorem not_bitAt_month {q r c : ℤ} {k : ℕ} (hr : q % 12 = r) (hk : k ≤ 12)
    (hnone : ∀ j : ℕ, r.toNat ≤ j → j < k → cronGetBit e.months j = false)
    (hlo : q ≤ c) (hhi : c < q - r + k) : ¬bitAt e.months (c % 12) :=
  not_bitAt_of_lt (m := 12) (by decide) hr hk hnone hlo hhi

/-- Past December the search goes on in January of the next year. -/
theorem overflow_month (ht : 0 ≤ t)
    (hend : onDay (nextYear (dayAt t)) t < timeEnd) :
    addToField (gmtime t) .year 1 =
        (false, gmtime (onDay (nextYear (dayAt t)) t)) ∧
      ∃ j, resetMin (gmtime (onDay (nextYear (dayAt t)) t)) .month =
          (false, gmtime (onDay j t)) ∧
        epochDay ≤ j ∧ yearOf j = yearOf (dayAt t) + 1 ∧
          (dayOf (dayAt t) ≤ 28 → dayOf j = dayOf (dayAt t)) := by
  have hday := dayOf_mem (dayAt t)
  have hnyear := yearOf_nextYear (dayAt t)
  have hnumber := dayNumber_of (nextYear (dayAt t))
  have hepoch : epochDay ≤ nextYear (dayAt t) :=
    epochDay_le (by omega) ht _ hday.1
  have hsame : dayOf (dayAt t) ≤ 28 →
      dayOf (nextYear (dayAt t)) = dayOf (dayAt t) := by
    intro hle
    have hdate : IsDate (yearOf (dayAt t) + 1) (monthOf (dayAt t))
      (dayOf (dayAt t)) :=
      ⟨monthOf_lt _, hday.1, hle.trans (daysInMonth_pos _ _)⟩
    exact hdate.dayOf_eq
  obtain ⟨calendar, hinstant, hadd⟩ := instant_addToField_year t
  generalize nextYear (dayAt t) = n at *
  have hin : InTime (onDay n t) := ⟨onDay_nonneg hepoch t, hend⟩
  rw [cronMktime_of hinstant hin] at hadd
  have hnday := dayOf_mem n
  have hjanuary : IsDate (yearOf n) 0 (dayOf n) :=
    ⟨by decide, hnday.1, hnday.2.trans (daysInMonth_le _ _)⟩
  have hjepoch : epochDay ≤ dayNumber (yearOf n) 0 (dayOf n) :=
    epochDay_le (by omega) ht _ hnday.1
  -- January comes before the other months.
  have hbefore : dayNumber (yearOf n) 0 (dayOf n) ≤ n := by
    have hmonths := daysBeforeMonth_nonneg (yearOf n) (monthOf n)
    have hjanuary : daysBeforeMonth (yearOf n) 0 = 0 := rfl
    simp only [dayNumber] at hnumber ⊢
    omega
  obtain ⟨calendar', hinstant', hreset⟩ := instant_setField_month (onDay n t)
    (show 0 < 12 by decide)
  rw [dayAt_onDay] at hinstant'
  obtain ⟨j, hj⟩ : ∃ j, dayNumber (yearOf n) 0 (dayOf n) = j := ⟨_, rfl⟩
  rw [hj, onDay_onDay] at hinstant'
  rw [hj] at hbefore hjepoch
  have hjin : InTime (onDay j t) :=
    hin.of_le (onDay_nonneg hjepoch t) (by
      simp only [onDay]
      omega)
  rw [cronMktime_of hinstant' hjin] at hreset
  refine ⟨hadd, j, hreset, hjepoch, ?_, fun hle => ?_⟩
  · rw [← hj, hjanuary.yearOf_eq, hnyear]
  · rw [← hj, hjanuary.dayOf_eq, hsame hle]

/-- The work on a month that is not behind the last one with a bit. -/
theorem findNext_month_some {reset : Bool} (ht : InTime t) {i : ℕ}
    (hfound : nextSetBit e.months 12 (monthOf (dayAt t)) = some i) :
    MonthMove e reset t
      (placeNext (some i) (monthOf (dayAt t)) (gmtime t) .month
        (belowMonth reset)) := by
  have hday := dayOf_mem (dayAt t)
  have hindex := monthIndex_mod (dayAt t)
  have hyear := monthIndex_sub (dayAt t)
  obtain ⟨⟨hle, hlt⟩, hbit, hnone⟩ := nextSetBit_eq_some.mp hfound
  by_cases heq : i = monthOf (dayAt t)
  · subst heq
    rw [placeNext_same]
    exact MonthMove.same hbit
  · have hnear : dayNumber (yearOf (dayAt t)) i (dayOf (dayAt t)) ≤
        dayAt t + 800 := dayNumber_near (by omega) hlt
    by_cases hend : onDay (dayNumber (yearOf (dayAt t)) i (dayOf (dayAt t))) t <
        timeEnd
    · have hin : InTime
          (onDay (dayNumber (yearOf (dayAt t)) i (dayOf (dayAt t))) t) :=
        ⟨onDay_nonneg (epochDay_le le_rfl ht.nonneg i hday.1) t, hend⟩
      have hstart := inTime_monthStart reset hin
      rw [dayAt_onDay, kept_onDay] at hstart
      rw [placeNext_month reset hlt heq hin]
      have hb : (12 * yearOf (dayAt t) + (i : ℤ)) % 12 = i := by omega
      have hmoved : MonthMove e reset t _ :=
        MonthMove.moved (dayNumber (yearOf (dayAt t)) i (dayOf (dayAt t)))
          (12 * yearOf (dayAt t) + i) (by omega) (le_monthIndex hlt hday.1)
          (monthIndex_eq hlt hday.1) hnear hstart (by omega)
          (fun c hlo hhi => not_bitAt_month hindex hlt.le hnone hlo
            (by rwa [hyear]))
      rwa [hb, Int.toNat_natCast] at hmoved
    · rw [placeNext_month_late hlt heq (not_lt.mp hend)]
      exact MonthMove.late ((not_lt.mp hend).trans (onDay_le hnear))

/-- The work on a month behind the last one with a bit. -/
theorem findNext_month_none {reset : Bool} (ht : InTime t)
    (hmonths : HasBit e.months 0 12)
    (hfound : nextSetBit e.months 12 (monthOf (dayAt t)) = none) :
    MonthMove e reset t (do
      let calendar ← checked (addToField (gmtime t) .year 1)
      let calendar ← checked (resetMin calendar .month)
      placeNext (nextSetBit e.months 12 0) (monthOf (dayAt t)) calendar .month
        (belowMonth reset)) := by
  have hindex := monthIndex_mod (dayAt t)
  have hyear := monthIndex_sub (dayAt t)
  have hnone := nextSetBit_eq_none.mp hfound
  have hsome : ∃ i < 12, cronGetBit e.months i = true := by
    obtain ⟨i, -, hi, hbit⟩ := hmonths
    exact ⟨i, hi, hbit⟩
  obtain ⟨i, hi, ⟨hlt, hless⟩, -, hfirst⟩ := nextSetBit_again hsome hnone
  by_cases hend : onDay (nextYear (dayAt t)) t < timeEnd
  · obtain ⟨hadd, j, hreset, hepoch, hjyear, hjday⟩ := overflow_month ht.nonneg hend
    have hdays := dayOf_mem j
    have hnear : dayNumber (yearOf j) i (dayOf j) ≤ dayAt t + 800 :=
      dayNumber_near (by omega) hlt
    have hfind : (do
        let calendar ← checked (addToField (gmtime t) .year 1)
        let calendar ← checked (resetMin calendar .month)
        placeNext (nextSetBit e.months 12 0) (monthOf (dayAt t)) calendar
          .month (belowMonth reset)) =
        placeNext (some i) (monthOf (dayAt t)) (gmtime (onDay j t)) .month
          (belowMonth reset) := by
      rw [hadd]
      change (checked (resetMin (gmtime (onDay (nextYear (dayAt t)) t))
        .month)).bind _ = _
      rw [hreset, hi]
      rfl
    rw [hfind]
    by_cases hplaced : onDay (dayNumber (yearOf j) i (dayOf j)) t < timeEnd
    · have hin : InTime (onDay (dayNumber (yearOf j) i (dayOf j)) t) :=
        ⟨onDay_nonneg (epochDay_le (by omega) ht.nonneg i hdays.1) t, hplaced⟩
      have hstart := inTime_monthStart reset hin
      rw [dayAt_onDay, kept_onDay] at hstart
      rw [placeNext_month_onDay reset hlt hless.ne hin]
      have hb : (12 * yearOf j + (i : ℤ)) % 12 = i := by omega
      have hmoved : MonthMove e reset t _ :=
        MonthMove.moved (dayNumber (yearOf j) i (dayOf j)) (12 * yearOf j + i)
          (by omega) (le_monthIndex hlt hdays.1)
          (fun hle => monthIndex_eq hlt hdays.1 (by rwa [hjday hle]))
          hnear hstart (by omega) (fun c hlo hhi => ?_)
      · rwa [hb, Int.toNat_natCast] at hmoved
      · by_cases hc : c < 12 * yearOf (dayAt t) + 12
        · exact not_bitAt_month hindex le_rfl
            (by rw [Int.toNat_natCast]; exact hnone) hlo (by omega)
        · have hyearStart : 12 * yearOf j % 12 = 0 := by omega
          exact not_bitAt_month hyearStart hlt.le (fun j _ => hfirst j)
            (by omega) (by omega)
    · have hfail : timeEnd ≤ onDay (dayNumber (yearOf (dayAt (onDay j t))) i
          (dayOf (dayAt (onDay j t)))) (onDay j t) := by
        rw [dayAt_onDay, onDay_onDay]
        exact not_lt.mp hplaced
      rw [placeNext_month_late hlt hless.ne hfail]
      exact MonthMove.late ((not_lt.mp hplaced).trans (onDay_le hnear))
  · obtain ⟨calendar, hinstant, hadd⟩ := instant_addToField_year t
    have hnear : nextYear (dayAt t) ≤ dayAt t + 800 :=
      dayNumber_near le_rfl (monthOf_lt _)
    rw [hadd, checked, if_pos (cronMktime_late hinstant (not_lt.mp hend))]
    exact MonthMove.late ((not_lt.mp hend).trans (onDay_le hnear))

theorem findNext_month {reset : Bool} (ht : InTime t) (hmonths : HasBit e.months 0 12) :
    MonthMove e reset t
      (findNext e.months cronMaxMonths (monthOf (dayAt t)) (gmtime t) .month .year
        (belowMonth reset)) := by
  rw [findNext, cronMaxMonths]
  cases hfound : nextSetBit e.months 12 (monthOf (dayAt t)) with
  | some i => exact findNext_month_some ht hfound
  | none => exact findNext_month_none ht hmonths hfound

end Herak.Scripts
