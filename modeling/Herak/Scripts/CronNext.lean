import Mathlib.Data.Int.LeastGreatest
import Herak.Scripts.CronMoves

/-!
# The next time of a cron expression

`cron_next` gives an instant behind a date at which the expression fires, and for
a regular expression the least one.
-/

namespace Herak.Scripts

open CInt Time Calendar LeastMatch

variable {e : CronExpr} {dot : ℕ} {t u : ℤ}

theorem doNext_sound (hfires : e.Fires) (dot fuel : ℕ) :
    Sound e (doNext e dot fuel) := by
  induction fuel with
  | zero => exact fun _ _ _ h => (by cases h)
  | succ fuel ih =>
      intro t calendar ht hfound
      obtain ⟨s, early, hin, hskips, -, hmove⟩ := doNext_move hfires ih ht
      have hle := hskips.le
      rw [hfound] at hmove
      generalize hresult : (Except.ok calendar : Except CronStop Tm) = result
        at hmove
      cases hmove with
      | found hs =>
          cases hresult
          exact ⟨s, hle, hin, hs, rfl⟩
      | time u hlt hu =>
          obtain ⟨v, huv, hv⟩ := ih u calendar hu hresult.symm
          exact ⟨v, by omega, hv⟩
      | month u hlt hu =>
          obtain ⟨v, huv, hv⟩ := ih u calendar hu hresult.symm
          exact ⟨v, by omega, hv⟩
      | failed => cases hresult
      | late => cases hresult

theorem cronSearch_sound (hfires : e.Fires) (fuel : ℕ) :
    Sound e (cronSearch e fuel) := by
  intro t calendar ht hfound
  rw [cronSearch] at hfound
  exact doNext_sound hfires _ fuel t calendar ht hfound

/-! ## The least instant -/

/-- The search finds the least instant, if its year is not too late. -/
theorem doNext_least (hfires : e.Fires) (hregular : e.Regular) {l : ℤ}
    (hyear : ∀ u, t ≤ u → u ≤ l → toUInt32 ((gmtime u).year - dot) ≤ 4)
    (hend : l + 86400 * 800 < timeEnd) {fuel : ℕ} (ht : InTime t)
    (hl : IsLeast (From e.FiresAt t) l) (hfuel : l - t < fuel) :
    doNext e dot fuel (gmtime t) = .ok (gmtime l) := by
  induction fuel generalizing t with
  | zero =>
      have := le_of_isLeast hl
      omega
  | succ fuel ih =>
      obtain ⟨s, early, -, hskips, hearly, hmove⟩ :=
        doNext_move hfires (doNext_sound hfires dot fuel) ht
      have hle := hskips.le
      have hearly := hearly (Or.inl hregular)
      have hfrom := (hskips.mono fun v hv => hv.toTimeFires).isLeast_iff.mp hl
      -- A new search begins later and has the same least instant.
      have hagain : ∀ u, s < u → InTime u → Skips e.FiresAt s u →
          doNext e dot fuel (gmtime u) = .ok (gmtime l) := by
        intro u hlt hu hskips
        exact ih (fun w hw => hyear w (by omega)) hu
          (hskips.isLeast_iff.mp hfrom) (by omega)
      generalize doNext e dot (fuel + 1) (gmtime t) = result at hmove ⊢
      cases hmove with
      | found hs => rw [(isLeast_of_match hs).unique hfrom]
      | time u hlt hu hsettled hnear hskips =>
          exact hagain u hlt hu ((hskips hearly).mono fun v hv => hv.toTimeFires)
      | month u hlt hu hsettled hnear hyears hskips =>
          exact hagain u hlt hu (hskips hearly hregular)
      | failed u hlt hlate hskips =>
          have hul := le_of_isLeast
            ((hskips hearly hregular).isLeast_iff.mp hfrom)
          exact (not_lt.mpr (hyear u (by omega) hul) hlate).elim
      | late hlate =>
          have hsl := le_of_isLeast hfrom
          omega

/-! ## The search ends -/

/-- A day that fires has an instant at which the expression fires. -/
theorem CronExpr.Fires.exists_time (hfires : e.Fires) {number : ℤ}
    (hday : e.DayFires number) : ∃ v, dayAt v = number ∧ e.TimeFires v := by
  obtain ⟨i, -, hi, hsecond⟩ := hfires.seconds
  obtain ⟨j, -, hj, hminute⟩ := hfires.minutes
  obtain ⟨k, -, hk, hhour⟩ := hfires.hours
  obtain ⟨v, hv⟩ : ∃ v, v = Calendar.seconds (number - epochDay) k j i := ⟨_, rfl⟩
  rw [Calendar.seconds] at hv
  have hdayAt : dayAt v = number := by
    rw [dayAt]
    omega
  refine ⟨v, hdayAt, ⟨?_, ?_, ?_, by rwa [hdayAt]⟩⟩
  · rwa [bitAt, show (v % 60).toNat = i by omega]
  · rwa [bitAt, show (v / 60 % 60).toNat = j by omega]
  · rwa [bitAt, show (v / 3600 % 24).toNat = k by omega]

/-- The year of an instant. -/
def yearAt (t : ℤ) : ℤ :=
  yearOf (dayAt t)

theorem yearAt_mono : Monotone yearAt :=
  fun _ _ hle => yearOf_mono (dayAt_mono hle)

theorem toUInt32_year (t : ℤ) (year : ℤ) :
    toUInt32 ((gmtime t).year - toUInt32 (year - 1900)) =
      toUInt32 (yearAt t - year) := by
  rw [show (gmtime t).year = yearAt t - 1900 from rfl]
  simp only [toUInt32]
  omega

theorem yearAt_near {s : ℤ} (hnear : dayAt u ≤ dayAt s + 800) :
    yearAt u ≤ yearAt s + 3 := by
  have hu := (yearOf_spec (dayAt u)).1
  have hs := (yearOf_spec (dayAt s)).2
  by_contra hlate
  simp only [yearAt] at hlate
  have hmono := daysBeforeYear_mono (show yearOf (dayAt s) + 4 ≤
    yearOf (dayAt u) by omega)
  simp only [daysBeforeYear] at hu hs hmono
  omega

/-- A moment behind all the ones that a search that began in a year gets to. -/
def searchEnd (year : ℤ) : ℤ :=
  86400 * (daysBeforeYear (year + 11) + 400 - epochDay)

theorem exists_near (hfires : e.Fires) (t : ℤ) :
    ∃ v, t ≤ v ∧ dayAt v ≤ dayAt t + 367 ∧ e.TimeFires v := by
  obtain ⟨k, hk, hday, -⟩ := hfires.exists_next_day (dayAt t + 1)
  obtain ⟨v, hdayAt, hv⟩ := hfires.exists_time hday
  refine ⟨v, ?_, by omega, hv⟩
  simp only [dayAt] at hdayAt
  omega

theorem exists_before_searchEnd (hfires : e.Fires) {year : ℤ}
    (hyear : yearAt t ≤ year + 10) :
    ∃ v, t ≤ v ∧ v < searchEnd year ∧ e.TimeFires v := by
  obtain ⟨v, htv, hnear, hv⟩ := exists_near hfires t
  have hspec := (yearOf_spec (dayAt t)).2
  have hmono := daysBeforeYear_mono (show yearOf (dayAt t) + 1 ≤ year + 11 by
    rw [yearAt] at hyear
    omega)
  have hdayAt : dayAt v = v / 86400 + epochDay := rfl
  refine ⟨v, htv, ?_, hv⟩
  rw [searchEnd]
  omega

theorem yearAt_searchEnd {year v : ℤ} (hv : v < searchEnd year) :
    yearAt v ≤ year + 13 := by
  by_contra hlate
  have hspec := (yearOf_spec (dayAt v)).1
  have hmono := daysBeforeYear_mono (show year + 13 ≤ yearOf (dayAt v) by
    rw [yearAt] at hlate
    omega)
  rw [searchEnd] at hv
  simp only [daysBeforeYear] at hv hspec hmono
  simp only [dayAt] at hspec hmono hv
  omega

/-- A search from settled seconds ends. -/
theorem doNext_ends (hfires : e.Fires) {year : ℤ} {fuel : ℕ} (ht : InTime t)
    (hyear : year ≤ yearAt t) (hsettled : e.SettledAt t) {v : ℤ} (htv : t ≤ v)
    (hend : v < searchEnd year) (hv : e.TimeFires v)
    (hfuel : searchEnd year - t ≤ fuel) :
    doNext e (toUInt32 (year - 1900)) fuel (gmtime t) ≠ .error .fuel := by
  induction fuel generalizing t v with
  | zero => omega
  | succ fuel ih =>
      obtain ⟨s, early, -, hskips, hearly, hmove⟩ :=
        doNext_move hfires (doNext_sound hfires (toUInt32 (year - 1900)) fuel) ht
      have hle := hskips.le
      have hearly := hearly (Or.inr hsettled)
      have hsv : s ≤ v := not_lt.mp fun hlt => hskips.none v htv hlt hv
      have hs := yearAt_mono hle
      generalize doNext e (toUInt32 (year - 1900)) (fuel + 1) (gmtime t) = result
        at hmove ⊢
      cases hmove with
      | found =>
          intro h
          cases h
      | time u hlt hin hsettled hnear hskips =>
          have hu := yearAt_mono hlt.le
          exact ih hin (by omega) hsettled
            (not_lt.mp fun hvu => (hskips hearly).none v hsv hvu hv) hend hv
            (by omega)
      | month u hlt hin hsettled hnear hyears =>
          have hu := yearAt_mono hlt.le
          have hlast := yearAt_mono hsv
          have hbound := yearAt_searchEnd hend
          have hnear := yearAt_near hnear
          rw [toUInt32_year, toUInt32] at hyears
          obtain ⟨w, huw, hwend, hw⟩ : ∃ w, u ≤ w ∧ w < searchEnd year ∧
              e.TimeFires w :=
            exists_before_searchEnd hfires (by omega)
          exact ih hin (by omega) hsettled huw hwend hw (by omega)
      | failed =>
          intro h
          cases h
      | late =>
          intro h
          cases h

/-- A search from any seconds ends, as they are settled behind its first call. -/
theorem cronSearch_ends (hfires : e.Fires) (ht : InTime t) :
    ∃ n : ℕ, ∀ fuel, n ≤ fuel → cronSearch e fuel (gmtime t) ≠ .error .fuel := by
  refine ⟨(searchEnd (yearAt t) - t).toNat + 1, fun fuel hfuel => ?_⟩
  obtain ⟨fuel, rfl⟩ : ∃ n, fuel = n + 1 := ⟨fuel - 1, by omega⟩
  rw [cronSearch, show (gmtime t).year = yearAt t - 1900 from rfl]
  obtain ⟨s, early, -, hskips, -, hmove⟩ := doNext_move hfires
    (doNext_sound hfires (toUInt32 (yearAt t - 1900)) fuel) ht
  obtain ⟨v, htv, hnear, hv⟩ := exists_near hfires t
  have hle := hskips.le
  have hs := yearAt_mono hle
  have hsv := yearAt_mono (not_lt.mp fun hlt => hskips.none v htv hlt hv)
  have hv := yearAt_near (hnear.trans (by omega : _ ≤ dayAt t + 800))
  have hnonneg := ht.nonneg
  have hagain : ∀ u, s < u → InTime u → e.SettledAt u → dayAt u ≤ dayAt s + 800 →
      doNext e (toUInt32 (yearAt t - 1900)) fuel (gmtime u) ≠ .error .fuel := by
    intro u hlt hin hsettled hnear
    have hu := yearAt_mono hlt.le
    have hnear := yearAt_near hnear
    obtain ⟨w, huw, hwend, hw⟩ : ∃ w, u ≤ w ∧ w < searchEnd (yearAt t) ∧
        e.TimeFires w :=
      exists_before_searchEnd hfires (by omega)
    exact doNext_ends hfires hin (by omega) hsettled huw hwend hw (by omega)
  generalize doNext e (toUInt32 (yearAt t - 1900)) (fuel + 1) (gmtime t) = result
    at hmove ⊢
  cases hmove with
  | found =>
      intro h
      cases h
  | time u hlt hin hsettled hnear => exact hagain u hlt hin hsettled hnear
  | month u hlt hin hsettled hnear => exact hagain u hlt hin hsettled hnear
  | failed =>
      intro h
      cases h
  | late =>
      intro h
      cases h

/-! ## `cron_next` -/

/-- An instant that is counted is not the invalid one. -/
theorem ne_invalid (ht : InTime t) : (t == cronInvalidInstant) = false := by
  have hnonneg := ht.nonneg
  rw [beq_eq_false_iff_ne, cronInvalidInstant]
  omega

/-- `cron_next` fails at a date that is not counted. -/
theorem cronNextTime_late (hend : timeEnd ≤ t) (fuel : ℕ) :
    cronNextTime fuel e t = .error .failed := by
  have hlate : (mktime (gmtime t)).1 = -1 :=
    mktime_late (by rwa [gmtime_instant])
  rw [cronNextTime]
  generalize mktime (gmtime t) = made at hlate ⊢
  obtain ⟨original, calendar⟩ := made
  obtain rfl : original = -1 := hlate
  rfl

theorem cronNextTime_stop {fuel : ℕ} (ht : InTime t) {stop : CronStop}
    (h : cronSearch e fuel (gmtime t) = .error stop) :
    cronNextTime fuel e t = .error stop := by
  rw [cronNextTime, mktime_of (gmtime_instant t) ht]
  dsimp only
  rw [ne_invalid ht]
  change (cronSearch e fuel (gmtime t)).bind _ = _
  rw [h]
  rfl

theorem cronNextTime_of {fuel : ℕ} (ht : InTime t) (hu : InTime u)
    (h : cronSearch e fuel (gmtime t) = .ok (gmtime u)) :
    cronNextTime fuel e t =
      if u = t then
        if timeEnd ≤ t + 1 then .error .failed
        else (cronSearch e fuel (gmtime (t + 1))).map fun tm => (mktime tm).1
      else .ok u := by
  rw [cronNextTime, mktime_of (gmtime_instant t) ht]
  dsimp only
  rw [ne_invalid ht]
  change (cronSearch e fuel (gmtime t)).bind _ = _
  rw [h]
  simp only [Except.bind, mktime_of (gmtime_instant u) hu, ne_invalid hu]
  change (if u = t then _ else _) = _
  split
  next heq =>
    subst heq
    have hstep : u + CronField.second.unit * 1 = u + 1 := rfl
    split
    next hend =>
      have hadd := addToField_late .second (by decide) hstep hend
      rw [checked, if_pos hadd]
      rfl
    next hend =>
      have hadd := addToField_gmtime .second (by decide) hstep
        ⟨by have := hu.nonneg; omega, not_le.mp hend⟩
      rw [hadd]
      change (cronSearch e fuel (gmtime (u + 1))).bind _ = _
      cases cronSearch e fuel (gmtime (u + 1)) with
      | error stop => rfl
      | ok calendar => rfl
  next hne => rfl

/-- `cron_next` fails or gives an instant behind the date at which the expression
fires. -/
theorem cronNext_fires (hfires : e.Fires) (ht : 0 ≤ t) {fuel : ℕ}
    (h : cronNext fuel e t = some u) :
    u = cronInvalidInstant ∨ t < u ∧ e.FiresAt u := by
  unfold cronNext at h
  by_cases hend : timeEnd ≤ t
  · rw [cronNextTime_late hend] at h
    exact Or.inl (Option.some.inj h).symm
  have ht : InTime t := ⟨ht, not_le.mp hend⟩
  cases hsearch : cronSearch e fuel (gmtime t) with
  | error stop =>
      rw [cronNextTime_stop ht hsearch] at h
      cases stop with
      | failed =>
          cases h
          exact Or.inl rfl
      | fuel => cases h
  | ok calendar =>
      obtain ⟨v, htv, hin, hv, rfl⟩ :=
        cronSearch_sound hfires fuel t calendar ht hsearch
      rw [cronNextTime_of ht hin hsearch] at h
      by_cases hsame : v = t
      · rw [if_pos hsame] at h
        by_cases hlast : timeEnd ≤ t + 1
        · rw [if_pos hlast] at h
          cases h
          exact Or.inl rfl
        · rw [if_neg hlast] at h
          have hnext : InTime (t + 1) :=
            ⟨by have := ht.nonneg; omega, not_le.mp hlast⟩
          cases hsearch' : cronSearch e fuel (gmtime (t + 1)) with
          | error stop =>
              rw [hsearch'] at h
              cases stop with
              | failed =>
                  cases h
                  exact Or.inl rfl
              | fuel => cases h
          | ok calendar =>
              obtain ⟨w, htw, hin, hw, rfl⟩ :=
                cronSearch_sound hfires fuel (t + 1) calendar hnext hsearch'
              rw [hsearch'] at h
              change some (mktime (gmtime w)).1 = some u at h
              rw [mktime_of (gmtime_instant w) hin] at h
              cases h
              exact Or.inr ⟨by omega, hw⟩
      · rw [if_neg hsame] at h
        cases h
        exact Or.inr ⟨by omega, hv⟩

/-- `cron_next` returns. -/
theorem cronNext_ends (hfires : e.Fires) (ht : 0 ≤ t) :
    ∃ n : ℕ, ∀ fuel, n ≤ fuel → ∃ u, cronNext fuel e t = some u := by
  by_cases hend : timeEnd ≤ t
  · have hfailed : ∀ fuel, cronNext fuel e t = some cronInvalidInstant := by
      intro fuel
      unfold cronNext
      rw [cronNextTime_late hend]
    exact ⟨0, fun fuel _ => ⟨cronInvalidInstant, hfailed fuel⟩⟩
  have ht : InTime t := ⟨ht, not_le.mp hend⟩
  obtain ⟨n, hn⟩ := cronSearch_ends hfires ht
  obtain ⟨m, hm⟩ : ∃ m : ℕ, ∀ fuel, m ≤ fuel → ¬timeEnd ≤ t + 1 →
      cronSearch e fuel (gmtime (t + 1)) ≠ .error .fuel := by
    by_cases hlast : timeEnd ≤ t + 1
    · exact ⟨0, fun _ _ hnot => absurd hlast hnot⟩
    · obtain ⟨m, hm⟩ := cronSearch_ends (t := t + 1) hfires
        ⟨by have := ht.nonneg; omega, not_le.mp hlast⟩
      exact ⟨m, fun fuel hfuel _ => hm fuel hfuel⟩
  refine ⟨max n m, fun fuel hfuel => ?_⟩
  have hn := hn fuel (by omega)
  have hm := hm fuel (by omega)
  unfold cronNext
  cases hsearch : cronSearch e fuel (gmtime t) with
  | error stop =>
      rw [cronNextTime_stop ht hsearch]
      cases stop with
      | failed => exact ⟨_, rfl⟩
      | fuel => exact (hn hsearch).elim
  | ok calendar =>
      obtain ⟨v, htv, hin, hv, rfl⟩ :=
        cronSearch_sound hfires fuel t calendar ht hsearch
      rw [cronNextTime_of ht hin hsearch]
      by_cases hsame : v = t
      · rw [if_pos hsame]
        by_cases hlast : timeEnd ≤ t + 1
        · rw [if_pos hlast]
          exact ⟨_, rfl⟩
        · rw [if_neg hlast]
          cases hnext : cronSearch e fuel (gmtime (t + 1)) with
          | error stop =>
              cases stop with
              | failed => exact ⟨_, rfl⟩
              | fuel => exact (hm hlast hnext).elim
          | ok calendar => exact ⟨_, rfl⟩
      · rw [if_neg hsame]
        exact ⟨_, rfl⟩

/-- Half past twelve on the days from Monday to Friday -/
def weekdayNoon : CronExpr where
  seconds := [1, 0, 0, 0, 0, 0, 0, 0]
  minutes := [0, 0, 0, 64, 0, 0, 0, 0]
  hours := [0, 16, 0]
  daysOfWeek := [62]
  daysOfMonth := [254, 255, 255, 255]
  months := [255, 15]

theorem weekdayNoon_fires : weekdayNoon.Fires where
  seconds := ⟨0, by decide⟩
  minutes := ⟨30, by decide⟩
  hours := ⟨12, by decide⟩
  daysOfMonth := ⟨1, by decide⟩
  months := ⟨0, by decide⟩
  daysOfWeek := ⟨1, by decide⟩
  days := Or.inl fun i hle hlt => by interval_cases i <;> rfl

theorem weekdayNoon_regular : weekdayNoon.Regular where
  seconds := by
    have honly : ∀ i < 60, cronGetBit weekdayNoon.seconds i = true → i = 0 := by
      decide
    intro i j k hij hjk hk hi hbit
    obtain rfl := honly k hk hbit
    obtain rfl : j = 0 := Nat.le_zero.mp hjk
    exact hbit
  months := Or.inl fun i hle hlt => by interval_cases i <;> rfl

/-- `cron_next` always returns, and what it returns is -1 or an instant behind
the date at which the expression fires. -/
theorem cronNext_correct (hfires : e.Fires) (ht : 0 ≤ t) :
    ∃ n : ℕ, ∀ fuel, n ≤ fuel → ∃ u, cronNext fuel e t = some u ∧
      (u = cronInvalidInstant ∨ t < u ∧ e.FiresAt u) := by
  obtain ⟨n, hn⟩ := cronNext_ends hfires ht
  refine ⟨n, fun fuel hfuel => ?_⟩
  obtain ⟨u, hu⟩ := hn fuel hfuel
  exact ⟨u, hu, cronNext_fires hfires ht hu⟩

theorem cronNext_correct_weekdayNoon :
    ∃ n : ℕ, ∀ fuel, n ≤ fuel → ∃ u, cronNext fuel weekdayNoon 0 = some u ∧
      (u = cronInvalidInstant ∨ 0 < u ∧ weekdayNoon.FiresAt u) :=
  cronNext_correct weekdayNoon_fires le_rfl

/-! ## Regular expressions -/

theorem exists_firesAt (hfires : e.Fires) (hregular : e.Regular) (t : ℤ) :
    ∃ v, t < v ∧ e.FiresAt v ∧ yearAt v ≤ yearAt t + 4 := by
  rcases hregular.months with hall | ⟨hall, hdays⟩
  · obtain ⟨v, htv, hnear, hv⟩ := exists_near hfires (t + 1)
    have hmonth := monthOf_lt (dayAt v)
    have hnext : dayAt (t + 1) ≤ dayAt t + 1 := by
      simp only [dayAt]
      omega
    refine ⟨v, by omega, ⟨hv, hall _ (Nat.zero_le _) (by omega)⟩, ?_⟩
    have := yearAt_near (show dayAt v ≤ dayAt t + 800 by omega)
    omega
  · obtain ⟨i, -, hi, hmonth⟩ := hfires.months
    obtain ⟨day, hone, hshort, hday⟩ := hfires.daysOfMonth
    have hle : day ≤ 28 := by
      by_contra hlong
      rw [hdays day (by omega) hshort] at hday
      exact Bool.false_ne_true hday
    have hpos := daysInMonth_pos (yearAt t + 1) i
    have hdate : IsDate (yearAt t + 1) i day := ⟨hi, by omega, by omega⟩
    have hfiresDay : e.DayFires (dayNumber (yearAt t + 1) i day) := by
      refine ⟨?_, bitAt_weekday hall _⟩
      rwa [hdate.dayOf_eq, bitAt, Int.toNat_natCast]
    obtain ⟨v, hdayAt, hv⟩ := hfires.exists_time hfiresDay
    have hyear : yearAt v = yearAt t + 1 := by
      rw [yearAt, hdayAt, hdate.yearOf_eq]
    refine ⟨v, ?_, ⟨hv, ?_⟩, by omega⟩
    · by_contra hbefore
      have := yearAt_mono (not_lt.mp hbefore)
      omega
    · rwa [hdayAt, hdate.monthOf_eq, bitAt, Int.toNat_natCast]

/-- The last year for whose dates the next instants are well in the years that
are counted. -/
def lastCronYear : ℤ := 11890

/-- The end of the years is far from the instants of the four next ones. -/
theorem far_of_year (hyear : yearAt t ≤ lastCronYear + 4) :
    t + 86400 * 801 < timeEnd := by
  have hspec := (yearOf_spec (dayAt t)).2
  rw [yearAt, lastCronYear] at hyear
  have hmono := daysBeforeYear_mono (show yearOf (dayAt t) + 1 ≤ 11895 by omega)
  have hlast : daysBeforeYear 11895 + 802 ≤ daysBeforeYear (maxYear + 1901) := by
    decide
  rw [timeEnd]
  simp only [dayAt] at hspec hmono
  omega

/-- The search of a regular expression finds the least instant. -/
theorem cronSearch_least (hfires : e.Fires) (hregular : e.Regular) (ht : InTime t)
    {l : ℤ} (hl : IsLeast (From e.FiresAt t) l) (hend : l + 86400 * 800 < timeEnd)
    {fuel : ℕ} (hfuel : l - t < fuel) :
    cronSearch e fuel (gmtime t) = .ok (gmtime l) := by
  obtain ⟨v, htv, hv, hlate⟩ := exists_firesAt hfires hregular t
  have hlv := yearAt_mono (hl.2 ⟨htv.le, hv⟩)
  rw [cronSearch, show (gmtime t).year = yearAt t - 1900 from rfl]
  refine doNext_least hfires hregular (fun u htu hul => ?_) hend ht hl hfuel
  have htu := yearAt_mono htu
  have hul := yearAt_mono hul
  rw [toUInt32_year, toUInt32]
  omega

theorem exists_isLeast_firesAt (hfires : e.Fires) (hregular : e.Regular) (t : ℤ) :
    ∃ u, IsLeast {v | t < v ∧ e.FiresAt v} u := by
  obtain ⟨v, htv, hv, -⟩ := exists_firesAt hfires hregular t
  obtain ⟨u, hu, hle⟩ := Int.exists_least_of_bdd
    (P := fun v => t < v ∧ e.FiresAt v) ⟨t, fun v hv => hv.1.le⟩ ⟨v, htv, hv⟩
  exact ⟨u, hu, fun v hv => hle v hv⟩

theorem cronNext_of_isLeast (hfires : e.Fires) (hregular : e.Regular) (ht : 0 ≤ t)
    (hdate : yearAt t ≤ lastCronYear) {u : ℤ}
    (hu : IsLeast {v | t < v ∧ e.FiresAt v} u) {fuel : ℕ}
    (hfuel : u - t < fuel) : cronNext fuel e t = some u := by
  obtain ⟨⟨htu, hu⟩, hle⟩ := hu
  obtain ⟨v, htv, hv, hlate⟩ := exists_firesAt hfires hregular t
  have huv := yearAt_mono (hle ⟨htv, hv⟩)
  have hfar := far_of_year (t := u) (by omega)
  have hin : InTime t := ⟨ht, by omega⟩
  have huin : InTime u := ⟨by omega, by omega⟩
  unfold cronNext
  by_cases hmatch : e.FiresAt t
  · -- The date itself is found first, and the search goes on a second later.
    have hnext : IsLeast (From e.FiresAt (t + 1)) u :=
      ⟨⟨htu, hu⟩, fun v hv => hle ⟨hv.1, hv.2⟩⟩
    have hsearch : cronSearch e fuel (gmtime t) = .ok (gmtime t) :=
      cronSearch_least hfires hregular hin (isLeast_of_match hmatch) (by omega)
        (by omega)
    have hsearch' : cronSearch e fuel (gmtime (t + 1)) = .ok (gmtime u) :=
      cronSearch_least hfires hregular ⟨by omega, by omega⟩ hnext (by omega)
        (by omega)
    rw [cronNextTime_of hin hin hsearch, if_pos rfl, if_neg (by omega), hsearch']
    change some (mktime (gmtime u)).1 = some u
    rw [mktime_of (gmtime_instant u) huin]
  · have hfirst : IsLeast (From e.FiresAt t) u := by
      refine ⟨⟨htu.le, hu⟩, fun v hv => hle ⟨?_, hv.2⟩⟩
      refine lt_of_le_of_ne hv.1 fun heq => hmatch ?_
      rw [heq]
      exact hv.2
    have hsearch := cronSearch_least hfires hregular hin hfirst (by omega) hfuel
    rw [cronNextTime_of hin huin hsearch, if_neg htu.ne']

/-- `cron_next` of a regular expression returns the least instant behind the
date at which it fires. -/
theorem cronNext_least (hfires : e.Fires) (hregular : e.Regular) (ht : 0 ≤ t)
    (hdate : yearAt t ≤ lastCronYear) :
    ∃ u, IsLeast {v | t < v ∧ e.FiresAt v} u ∧
      ∀ fuel : ℕ, u - t < fuel → cronNext fuel e t = some u := by
  obtain ⟨u, hu⟩ := exists_isLeast_firesAt hfires hregular t
  exact ⟨u, hu, fun fuel => cronNext_of_isLeast hfires hregular ht hdate hu⟩

theorem cronNext_least_weekdayNoon :
    ∃ u, IsLeast {v | 0 < v ∧ weekdayNoon.FiresAt v} u ∧
      ∀ fuel : ℕ, u - 0 < fuel → cronNext fuel weekdayNoon 0 = some u :=
  cronNext_least weekdayNoon_fires weekdayNoon_regular le_rfl (by decide)

/-- 1970-01-01 is a Thursday. -/
example : cronNext 10 weekdayNoon 0 = some 45000 := by decide +kernel

/-- The seconds 10 and 45 are no range: in the search from second 30 for the fifth
minute, second 45 comes first and stays. -/
example :
    cronNext 10 { weekdayNoon with
      seconds := [0, 4, 0, 0, 0, 32, 0, 0], minutes := [32, 0, 0, 0, 0, 0, 0, 0] }
      (12 * 3600 + 30) = some (12 * 3600 + 5 * 60 + 45) := by decide +kernel

end Herak.Scripts
