import Herak.Scripts.CronDays

/-!
# Moves of the cron search

A call of `do_next` stops at the instant it was called with, if the expression
fires there, or it moves on and searches again.
-/

namespace Herak.Scripts

open CInt Time Calendar LeastMatch

variable {e : CronExpr} {dot : ℕ} {again : Tm → Except CronStop Tm} {t u : ℤ}

/-! ## Calendars at which the expression fires -/

theorem findNext_fires {bits : List UInt8} {max value : ℕ} (calendar : Tm)
    (field next : CronField) (lower : List CronField) (hlt : value < max)
    (hbit : cronGetBit bits value = true) :
    findNext bits max value calendar field next lower = .ok (value, calendar) := by
  have hfound : nextSetBit bits max value = some value :=
    nextSetBit_eq_some.mpr ⟨⟨le_rfl, hlt⟩, hbit, fun j hle hlt => by omega⟩
  rw [findNext, hfound]
  exact placeNext_same value calendar field lower

theorem toUInt32_mon (t : ℤ) : toUInt32 (gmtime t).mon = monthOf (dayAt t) := by
  have hmonth := monthOf_lt (dayAt t)
  rw [show (gmtime t).mon = monthOf (dayAt t) from rfl, toUInt32]
  omega

theorem toUInt32_clock {m : ℕ} (hpos : 0 < m) (hm : m ≤ 60) (q : ℤ) :
    toUInt32 (q % m) = (q % m).toNat ∧ (q % m).toNat < m := by
  have hmz : 0 < (m : ℤ) := Int.natCast_pos.mpr hpos
  have hnonneg := Int.emod_nonneg q hmz.ne'
  have hlt := Int.emod_lt_of_pos q hmz
  rw [toUInt32]
  omega

/-- What a search finds is an instant from its begin on at which the expression
fires. -/
def Sound (e : CronExpr) (search : Tm → Except CronStop Tm) : Prop :=
  ∀ t calendar, InTime t → search (gmtime t) = .ok calendar →
    ∃ v, t ≤ v ∧ InTime v ∧ e.FiresAt v ∧ calendar = gmtime v

/-- Behind a new search nothing is left to do. -/
theorem settle_moved (hsound : Sound e again) (hu : InTime u) (field : CronField)
    (resets : List CronField)
    {rest : List CronField → Tm → Except CronStop Tm}
    (hrest : ∀ v, e.FiresAt v → rest resets (gmtime v) = .ok (gmtime v)) :
    ((settle again field false resets (gmtime u)).bind fun settled =>
      rest settled.1 settled.2) = again (gmtime u) := by
  rw [settle, if_neg Bool.false_ne_true]
  cases hagain : again (gmtime u) with
  | error stop => rfl
  | ok calendar =>
      obtain ⟨v, -, -, hfires, rfl⟩ := hsound u calendar hu hagain
      exact hrest v hfires

namespace CronExpr.FiresAt

theorem nextMonth_eq (h : e.FiresAt t) (resets : List CronField) :
    nextMonth e dot again resets (gmtime t) = .ok (gmtime t) := by
  have hlt : monthOf (dayAt t) < cronMaxMonths := monthOf_lt (dayAt t)
  have hfind := findNext_fires (gmtime t) .month .year resets hlt h.month
  rw [nextMonth, toUInt32_mon]
  dsimp only
  rw [hfind]
  change (if monthOf (dayAt t) ≠ monthOf (dayAt t) then _ else _) = _
  rw [if_neg (not_not.mpr rfl)]
  rfl

theorem nextDay_eq (h : e.FiresAt t) (resets : List CronField) :
    nextDay e dot again resets (gmtime t) = .ok (gmtime t) := by
  rw [nextDay, toUInt32_mday, toUInt32_wday]
  dsimp only
  rw [findNextDay_fires 366 (gmtime t) ((dayFires_iff e _).mpr h.day)]
  change ((settle again .dayOfMonth (decide (_ = _)) resets (gmtime t)).bind
    fun settled => nextMonth e dot again settled.1 settled.2) = _
  rw [decide_eq_true rfl]
  exact h.nextMonth_eq _

theorem nextHour_eq (h : e.FiresAt t) (resets : List CronField) :
    nextHour e dot again resets (gmtime t) = .ok (gmtime t) := by
  obtain ⟨hvalue, hlt⟩ := toUInt32_clock (m := 24) (by decide) (by decide)
    (t / 3600)
  change (t / 3600 % (24 : ℕ)).toNat < cronMaxHours at hlt
  have hfind := findNext_fires (gmtime t) .hourOfDay .dayOfWeek resets hlt h.hour
  rw [nextHour, show toUInt32 (gmtime t).hour = (t / 3600 % (24 : ℕ)).toNat
    from hvalue]
  dsimp only
  rw [hfind]
  change ((settle again .hourOfDay (decide (_ = _)) resets (gmtime t)).bind
    fun settled => nextDay e dot again settled.1 settled.2) = _
  rw [decide_eq_true rfl]
  exact h.nextDay_eq _

end CronExpr.FiresAt

/-! ## Moves -/

/-- An instant that a move goes to, with its seconds reset or at their bit. -/
def CronExpr.SettledAt (e : CronExpr) (t : ℤ) : Prop :=
  bitAt e.seconds (t % 60) ∨ t % 60 = 0

/-- No second with a bit comes before the ones that are kept. -/
def Early (e : CronExpr) (reset : Bool) (t : ℤ) : Prop :=
  ∀ v, bitAt e.seconds (v % 60) → kept reset t ≤ v % 60

/-- What a call of `do_next` comes to: the instant is found, or the search goes
on at a later one, or it fails.  But for the months, a move from early seconds
skips no instant with the right time. -/
inductive Move (e : CronExpr) (dot : ℕ) (again : Tm → Except CronStop Tm)
    (early : Prop) (t : ℤ) : Except CronStop Tm → Prop
  | found : e.FiresAt t → Move e dot again early t (.ok (gmtime t))
  | time (u : ℤ) : t < u → InTime u → e.SettledAt u → dayAt u ≤ dayAt t + 800 →
      (early → Skips e.TimeFires t u) →
      Move e dot again early t (again (gmtime u))
  | month (u : ℤ) : t < u → InTime u → e.SettledAt u → dayAt u ≤ dayAt t + 800 →
      toUInt32 ((gmtime u).year - dot) ≤ 4 →
      (early → e.Regular → Skips e.FiresAt t u) →
      Move e dot again early t (again (gmtime u))
  | failed (u : ℤ) : t < u → 4 < toUInt32 ((gmtime u).year - dot) →
      (early → e.Regular → Skips e.FiresAt t u) →
      Move e dot again early t (.error .failed)
  | late : timeEnd ≤ t + 86400 * 800 → Move e dot again early t (.error .failed)

theorem settledAt_of_kept (reset : Bool) (hsecond : bitAt e.seconds (t % 60))
    (hu : u % 60 = kept reset t) : e.SettledAt u := by
  cases reset with
  | true => exact Or.inr hu
  | false =>
      refine Or.inl ?_
      rw [hu]
      exact hsecond

theorem lt_monthStart {number : ℤ} (h : monthIndex (dayAt t) < monthIndex number) :
    t < monthStart number := by
  have hnext := (firstDay_monthIndex (dayAt t)).2
  have hmono := firstDay_strictMono.monotone (Int.add_one_le_of_lt h)
  simp only [dayAt, monthStart] at hnext hmono ⊢
  omega

theorem monthIndex_mono : Monotone fun v => monthIndex (dayAt v) := by
  intro v w hle
  refine firstDay_gc.monotone_u ?_
  simp only [dayAt]
  omega

/-- The months between are all without a bit, if there are any. -/
theorem skips_month {reset : Bool} (hregular : e.Regular)
    (hearly : Early e reset t) (hday : e.DayFires (dayAt t)) {number b : ℤ}
    (hlt : monthIndex (dayAt t) < b)
    (hexact : dayOf (dayAt t) ≤ 28 → monthIndex number = b)
    (hnone : ∀ c, monthIndex (dayAt t) ≤ c → c < b → ¬bitAt e.months (c % 12)) :
    Skips e.FiresAt t (monthStart number + kept reset t) := by
  rcases hregular.months with hall | ⟨-, hdays⟩
  · refine (hnone _ le_rfl hlt ?_).elim
    exact hall _ (Nat.zero_le _) (by omega)
  · have hmem := dayOf_mem (dayAt t)
    have hshort : dayOf (dayAt t) ≤ 28 := by
      by_contra hlong
      have hmax := daysInMonth_le (yearOf (dayAt t)) (monthOf (dayAt t))
      have hbit := hdays (dayOf (dayAt t)).toNat (by omega) (by omega)
      rw [show cronGetBit e.daysOfMonth (dayOf (dayAt t)).toNat = true from
        hday.1] at hbit
      exact Bool.false_ne_true hbit.symm
    have hindex := hexact hshort
    have hkept := kept_mem reset t
    have hbegin : t < monthStart number := lt_monthStart (by omega)
    refine skips_block monthIndex_mono (q := fun c => bitAt e.months (c % 12))
      (b := b) (fun v hv => ?_) (by omega) hnone (fun v hv hle => ?_)
    · have hmonth := monthOf_lt (dayAt v)
      rw [monthIndex, show (12 * yearOf (dayAt v) + (monthOf (dayAt v) : ℤ)) % 12 =
        monthOf (dayAt v) by omega]
      exact hv.month
    · have hfirst := firstDay_gc.le_iff_le.mpr hle
      have hsecond := hearly v hv.second
      simp only [monthStart, hindex, dayAt] at hfirst ⊢
      omega

theorem nextMonth_move {reset : Bool} (hfires : e.Fires) (ht : InTime t)
    (htime : e.TimeFires t) :
    Move e dot again (Early e reset t) t
      (nextMonth e dot again (belowMonth reset) (gmtime t)) := by
  have hmove : MonthMove e reset t _ := findNext_month ht hfires.months
  have hkept := kept_mem reset t
  rw [nextMonth, toUInt32_mon]
  dsimp only
  generalize findNext e.months cronMaxMonths (monthOf (dayAt t)) (gmtime t) .month
    .year _ = result at hmove ⊢
  cases hmove with
  | same hbit =>
      change Move e dot again _ t
        (if monthOf (dayAt t) ≠ monthOf (dayAt t) then _ else _)
      rw [if_neg (not_not.mpr rfl)]
      exact Move.found ⟨htime, hbit⟩
  | late hend => exact Move.late hend
  | moved number b hlt hle hexact hnear hin hne hnone =>
      have hbegin := lt_monthStart (hlt.trans_le hle)
      have hsettled : e.SettledAt (monthStart number + kept reset t) := by
        refine settledAt_of_kept reset htime.second ?_
        rw [monthStart]
        omega
      have hskips : Early e reset t → e.Regular →
          Skips e.FiresAt t (monthStart number + kept reset t) :=
        fun hearly hregular =>
          skips_month hregular hearly htime.day hlt hexact hnone
      change Move e dot again _ t
        (if monthOf (dayAt t) ≠ (b % 12).toNat then _ else _)
      rw [if_pos hne.symm]
      split
      next hlate => exact Move.failed _ (by omega) hlate hskips
      next hlate =>
        refine Move.month _ (by omega) hin hsettled ?_ (not_lt.mp hlate) hskips
        have hfirst := (firstDay_monthIndex number).1
        have hday := dayOf_mem number
        simp only [dayAt, monthStart] at hnear ⊢
        omega

theorem lows_minute (reset : Bool) :
    pushToFieldsArr (lows reset) .minute = belowHour reset := by
  cases reset with
  | false => rfl
  | true => rfl

theorem lows_hour (reset : Bool) :
    pushToFieldsArr (belowHour reset) .hourOfDay = belowDay reset := by
  cases reset with
  | false => rfl
  | true => rfl

theorem lows_day (reset : Bool) :
    pushToFieldsArr (belowDay reset) .dayOfMonth = belowMonth reset := by
  cases reset with
  | false => rfl
  | true => rfl

theorem dayAt_mono : Monotone dayAt := by
  intro v w hle
  simp only [dayAt]
  omega

theorem nextDay_move {reset : Bool} (hfires : e.Fires)
    (hsound : Sound e again) (ht : InTime t) (hsecond : bitAt e.seconds (t % 60))
    (hminute : bitAt e.minutes (t / 60 % 60))
    (hhour : bitAt e.hours (t / 3600 % 24)) :
    Move e dot again (Early e reset t) t
      (nextDay e dot again (belowDay reset) (gmtime t)) := by
  obtain ⟨k, hk, hday, hnone, hother⟩ := hfires.exists_next_day (dayAt t)
  have hmem := dayOf_mem (dayAt t)
  have hmem' := dayOf_mem (dayAt t + k)
  have hkept := kept_mem reset t
  rw [nextDay, toUInt32_mday, toUInt32_wday]
  dsimp only
  have hsearch := findNextDay_cases reset ht hk hday hnone
  generalize findNextDay e.daysOfMonth e.daysOfWeek _ 366 (gmtime t) _ _ = found
    at hsearch ⊢
  rcases hsearch with ⟨rfl, hin⟩ | ⟨rfl, hend⟩
  · change Move e dot again _ t ((settle again .dayOfMonth (decide (_ = _)) _
      (gmtime (laterDay reset t k))).bind
        fun settled => nextMonth e dot again settled.1 settled.2)
    rcases Nat.eq_zero_or_pos k with rfl | hpos
    · rw [Nat.cast_zero, add_zero] at hday ⊢
      rw [decide_eq_true rfl, settle, if_pos rfl, lows_day]
      exact nextMonth_move hfires ht ⟨hsecond, hminute, hhour, hday⟩
    · have hfirst : ¬e.DayFires (dayAt t) := by
        have := hnone 0 hpos
        rwa [Nat.cast_zero, add_zero] at this
      have hne : (dayOf (dayAt t)).toNat ≠ (dayOf (dayAt t + k)).toNat := by
        have := hother hpos
        omega
      have hu : laterDay reset t k = (t / 86400 + k) * 86400 + kept reset t := by
        rw [laterDay, if_neg hpos.ne']
      rw [hu] at hin
      rw [decide_eq_false hne, hu, settle_moved hsound hin .dayOfMonth _
        (fun v hv => hv.nextMonth_eq _)]
      refine Move.time _ (by omega) hin (settledAt_of_kept reset hsecond
        (by omega)) (by simp only [dayAt]; omega) (fun hearly => ?_)
      refine skips_block dayAt_mono (q := e.DayFires) (b := dayAt t + k)
        (fun v hv => hv.day) (by omega) (fun c hlo hhi => ?_)
        (fun v hv hle => ?_)
      · have := hnone (c - dayAt t).toNat (by omega)
        rwa [Int.toNat_of_nonneg (Int.sub_nonneg_of_le hlo), add_sub_cancel] at this
      · have := hearly v hv.second
        simp only [dayAt] at hle
        omega
  · refine Move.late (hend.trans ?_)
    omega

/-- The next block with a bit is less than a round of the field away. -/
theorem le_of_moved {bits : List UInt8} {m : ℕ} {q b : ℤ}
    (hsome : HasBit bits 0 m)
    (hnone : ∀ c, q ≤ c → c < b → ¬bitAt bits (c % m)) : b ≤ q + m := by
  obtain ⟨i, -, hi, hbit⟩ := hsome
  have hm : 0 < (m : ℤ) := by omega
  have hround : 0 ≤ (i - q) % m := Int.emod_nonneg _ hm.ne'
  have hlt := Int.emod_lt_of_pos (i - q) hm
  by_contra hlate
  refine hnone (q + (i - q) % m) (by omega) (by omega) ?_
  rw [bitAt, Int.add_emod_emod, add_sub_cancel,
    Int.emod_eq_of_lt (by omega) (by omega), Int.toNat_natCast]
  exact hbit

/-- A field of the clock moves to its next block of seconds with a bit. -/
theorem move_clock {bits : List UInt8} {m : ℕ} {reset : Bool} {w b : ℤ}
    (hw : w = 60 ∨ w = 3600) (ht : InTime t) (hin : InTime (b * w + t % w))
    (hsecond : bitAt e.seconds (t % 60))
    (hsome : HasBit bits 0 m) (hm : m ≤ 60)
    (hbits : ∀ v, e.TimeFires v → bitAt bits (v / w % m)) (hlt : t / w < b)
    (hnone : ∀ c, t / w ≤ c → c < b → ¬bitAt bits (c % m)) :
    InTime (b * w + kept reset t) ∧
      Move e dot again (Early e reset t) t
        (again (gmtime (b * w + kept reset t))) := by
  have hkept := kept_mem reset t
  have hlater : t < b * w := by
    rcases hw with rfl | rfl
    · omega
    · omega
  have hmod : (b * w + kept reset t) % 60 = kept reset t := by
    rcases hw with rfl | rfl
    · omega
    · omega
  have hnear : dayAt (b * w + kept reset t) ≤ dayAt t + 800 := by
    have hround := le_of_moved hsome hnone
    simp only [dayAt]
    rcases hw with rfl | rfl
    · omega
    · omega
  have hmoved : InTime (b * w + kept reset t) := by
    have hnonneg := ht.nonneg
    refine hin.of_le (by omega) ?_
    rcases hw with rfl | rfl
    · omega
    · omega
  refine ⟨hmoved, Move.time _ (by omega) hmoved
    (settledAt_of_kept reset hsecond hmod) hnear (fun hearly => ?_)⟩
  have hmono : Monotone fun v : ℤ => v / w := by
    intro v v' hle
    rcases hw with rfl | rfl
    · exact Int.ediv_le_ediv (by decide) hle
    · exact Int.ediv_le_ediv (by decide) hle
  refine skips_block hmono (q := fun c => bitAt bits (c % m)) (b := b) hbits
    (by omega) hnone (fun v hv hle => ?_)
  have := hearly v hv.second
  rcases hw with rfl | rfl
  · omega
  · omega

theorem nextHour_move {reset : Bool} (hfires : e.Fires)
    (hsound : Sound e again) (ht : InTime t) (hsecond : bitAt e.seconds (t % 60))
    (hminute : bitAt e.minutes (t / 60 % 60)) :
    Move e dot again (Early e reset t) t
      (nextHour e dot again (belowHour reset) (gmtime t)) := by
  obtain ⟨i, -, hi, hbit⟩ := hfires.hours
  have hmove := findNext_move clock_hour ht ⟨i, hi, hbit⟩
    (fun s hs => resetAllMin_minute reset hs)
  obtain ⟨hvalue, -⟩ := toUInt32_clock (m := 24) (by decide) (by decide)
    (t / 3600)
  rw [nextHour, show toUInt32 (gmtime t).hour = (t / 3600 % (24 : ℕ)).toNat
    from hvalue]
  dsimp only
  change FieldMove _ _ _ _ _ (findNext e.hours cronMaxHours
    (t / 3600 % (24 : ℕ)).toNat (gmtime t) .hourOfDay .dayOfWeek _) at hmove
  generalize findNext e.hours cronMaxHours (t / 3600 % (24 : ℕ)).toNat (gmtime t)
    .hourOfDay .dayOfWeek _ = result at hmove ⊢
  cases hmove with
  | same hhour =>
      change Move e dot again _ t ((settle again .hourOfDay
        (decide ((t / 3600 % (24 : ℕ)).toNat = (t / 3600 % (24 : ℕ)).toNat)) _
        (gmtime t)).bind
          fun settled => nextDay e dot again settled.1 settled.2)
      rw [decide_eq_true rfl, settle, if_pos rfl, lows_hour]
      exact nextDay_move hfires hsound ht hsecond hminute hhour
  | late hend => exact Move.late (hend.trans (by rw [cronMaxHours]; omega))
  | moved b hlt hin hhour hne hnone =>
      have hfloor : (b * 3600 + t % 3600) / 3600 * 3600 +
          kept reset (b * 3600 + t % 3600) = b * 3600 + kept reset t := by
        rw [kept, kept]
        split
        · omega
        · omega
      have hclock : _ ∧ Move e dot again (Early e reset t) t _ :=
        move_clock (Or.inr rfl) ht hin hsecond hfires.hours (by decide)
          (fun v hv => hv.hour) hlt hnone
      obtain ⟨hmoved, hmove⟩ := hclock
      rw [hfloor]
      change Move e dot again _ t ((settle again .hourOfDay (decide (_ = _)) _
        (gmtime (b * 3600 + kept reset t))).bind
          fun settled => nextDay e dot again settled.1 settled.2)
      have hvalues : (t / 3600 % (24 : ℕ)).toNat ≠
          (b % (cronMaxHours : ℕ)).toNat := by
        rw [cronMaxHours] at hne ⊢
        omega
      rw [decide_eq_false hvalues, settle_moved hsound hmoved .hourOfDay _
        (fun v hv => hv.nextDay_eq _)]
      exact hmove

theorem nextMinute_move {reset : Bool} (hfires : e.Fires)
    (hsound : Sound e again) (ht : InTime t) (hsecond : bitAt e.seconds (t % 60)) :
    Move e dot again (Early e reset t) t
      (nextMinute e dot again (lows reset) (gmtime t)) := by
  obtain ⟨i, -, hi, hbit⟩ := hfires.minutes
  have hmove := findNext_move clock_minute ht ⟨i, hi, hbit⟩
    (fun s hs => resetAllMin_lows reset hs)
  obtain ⟨hvalue, -⟩ := toUInt32_clock (m := 60) (by decide) (by decide)
    (t / 60)
  rw [nextMinute, show toUInt32 (gmtime t).min = (t / 60 % (60 : ℕ)).toNat
    from hvalue]
  dsimp only
  change FieldMove _ _ _ _ _ (findNext e.minutes cronMaxMinutes
    (t / 60 % (60 : ℕ)).toNat (gmtime t) .minute .hourOfDay _) at hmove
  generalize findNext e.minutes cronMaxMinutes (t / 60 % (60 : ℕ)).toNat (gmtime t)
    .minute .hourOfDay _ = result at hmove ⊢
  cases hmove with
  | same hminute =>
      change Move e dot again _ t ((settle again .minute
        (decide ((t / 60 % (60 : ℕ)).toNat = (t / 60 % (60 : ℕ)).toNat)) _
        (gmtime t)).bind
          fun settled => nextHour e dot again settled.1 settled.2)
      rw [decide_eq_true rfl, settle, if_pos rfl, lows_minute]
      exact nextHour_move hfires hsound ht hsecond hminute
  | late hend => exact Move.late (hend.trans (by rw [cronMaxMinutes]; omega))
  | moved b hlt hin hminute hne hnone =>
      have hfloor : (b * 60 + t % 60) / 60 * 60 +
          kept reset (b * 60 + t % 60) = b * 60 + kept reset t := by
        rw [kept, kept]
        split
        · omega
        · omega
      have hclock : _ ∧ Move e dot again (Early e reset t) t _ :=
        move_clock (Or.inl rfl) ht hin hsecond hfires.minutes (by decide)
          (fun v hv => hv.minute) hlt hnone
      obtain ⟨hmoved, hmove⟩ := hclock
      rw [hfloor]
      change Move e dot again _ t ((settle again .minute (decide (_ = _)) _
        (gmtime (b * 60 + kept reset t))).bind
          fun settled => nextHour e dot again settled.1 settled.2)
      have hvalues : (t / 60 % (60 : ℕ)).toNat ≠
          (b % (cronMaxMinutes : ℕ)).toNat := by
        rw [cronMaxMinutes] at hne ⊢
        omega
      rw [decide_eq_false hvalues, settle_moved hsound hmoved .minute _
        (fun v hv => hv.nextHour_eq _)]
      exact hmove

/-- The least second with a bit behind seconds without one. -/
theorem early_of_moved {b : ℤ} (hlt : t < b) (hbit : bitAt e.seconds (b % 60))
    (hnone : ∀ c, t ≤ c → c < b → ¬bitAt e.seconds (c % 60))
    (h : e.Regular ∨ e.SettledAt t) : Early e false b := by
  intro v hv
  change b % 60 ≤ v % 60
  by_contra hless
  have hmoment : ∀ c, c % 60 = v % 60 → t ≤ c → ¬c < b :=
    fun c hc hle hcb => hnone c hle hcb (by rwa [hc])
  have hsame : b / 60 = t / 60 := by
    have hnext := hmoment (b / 60 * 60 + v % 60) (by omega)
    omega
  have hbehind : v % 60 < t % 60 := by
    have hbetween := hmoment (t / 60 * 60 + v % 60) (by omega)
    omega
  rcases h with hregular | hbit' | hzero
  · exact hnone t le_rfl hlt (hregular.seconds (v % 60).toNat (t % 60).toNat
      (b % 60).toNat (by omega) (by omega) (by omega) hv hbit)
  · exact hnone t le_rfl hlt hbit'
  · omega

/-- A call of `do_next` skips to a second with a bit, and moves from there. -/
theorem doNext_move (hfires : e.Fires) {fuel : ℕ}
    (hsound : Sound e (doNext e dot fuel)) (ht : InTime t) :
    ∃ s early, InTime s ∧ Skips e.TimeFires t s ∧
      (e.Regular ∨ e.SettledAt t → early) ∧
        Move e dot (doNext e dot fuel) early s
          (doNext e dot (fuel + 1) (gmtime t)) := by
  obtain ⟨i, -, hi, hbit⟩ := hfires.seconds
  have hmove : FieldMove _ _ _ id t (findNext _ _ _ _ _ _ []) :=
    findNext_move clock_second ht ⟨i, hi, hbit⟩ (fun s _ => rfl)
  obtain ⟨hvalue, -⟩ := toUInt32_clock (m := 60) (by decide) (by decide) (t / 1)
  have hsec : toUInt32 (gmtime t).sec = (t / 1 % (60 : ℕ)).toNat := by
    rw [← hvalue, Int.ediv_one]
    rfl
  rw [doNext, hsec]
  dsimp only
  change FieldMove _ _ _ _ _ (findNext e.seconds cronMaxSeconds
    (t / 1 % (60 : ℕ)).toNat (gmtime t) .second .minute []) at hmove
  generalize findNext e.seconds cronMaxSeconds (t / 1 % (60 : ℕ)).toNat (gmtime t)
    .second .minute [] = result at hmove ⊢
  cases hmove with
  | same hsecond =>
      rw [Int.ediv_one] at hsecond
      refine ⟨t, Early e true t, ht, Skips.refl _ t, fun _ v _ => ?_, ?_⟩
      · exact Int.emod_nonneg _ (by decide)
      · change Move e dot (doNext e dot fuel) _ t (nextMinute e dot
          (doNext e dot fuel) (if (t / 1 % (60 : ℕ)).toNat =
            (t / 1 % (60 : ℕ)).toNat then _ else _) (gmtime t))
        rw [if_pos rfl]
        exact nextMinute_move hfires hsound ht hsecond
  | late hend =>
      refine ⟨t, Early e true t, ht, Skips.refl _ t, fun _ v _ => ?_,
        Move.late (hend.trans (by rw [cronMaxSeconds]; omega))⟩
      exact Int.emod_nonneg _ (by decide)
  | moved b hlt hin hsecond hne hnone =>
      rw [Int.ediv_one] at hlt hnone
      have hvalues : (t / 1 % (60 : ℕ)).toNat ≠
          (b % (cronMaxSeconds : ℕ)).toNat := by
        rw [cronMaxSeconds] at hne ⊢
        omega
      rw [Int.mul_one, Int.emod_one, Int.add_zero] at hin ⊢
      refine ⟨b, Early e false b, hin, ?_, early_of_moved hlt hsecond hnone, ?_⟩
      · exact ⟨hlt.le, fun v hle hvb hv => hnone v hle hvb hv.second⟩
      · change Move e dot (doNext e dot fuel) _ b (nextMinute e dot
          (doNext e dot fuel) (if (t / 1 % (60 : ℕ)).toNat =
            (b % (cronMaxSeconds : ℕ)).toNat then _ else _) (gmtime b))
        rw [if_neg hvalues]
        exact nextMinute_move hfires hsound hin hsecond

end Herak.Scripts
