import Mathlib.Tactic.LinearCombination
import Herak.Scripts.Cron
import Herak.Support.LeastMatch

/-!
# Fields of the cron search

The calendar of an instant, in which a field that counts seconds moves the
instant, and what the work on a field of the clock does.
-/

namespace Herak.Scripts

open CInt Time Calendar LeastMatch

/-! ## Bits -/

theorem nextSetBit_eq_some {bits : List UInt8} {max start i : ℕ} :
    nextSetBit bits max start = some i ↔
      (start ≤ i ∧ i < max) ∧ cronGetBit bits i = true ∧
        ∀ j, start ≤ j → j < i → cronGetBit bits j = false := by
  rw [nextSetBit, List.find?_range'_eq_some, List.mem_range'_1]
  simp only [Bool.not_eq_true']
  constructor
  · rintro ⟨hbit, hmem, hnone⟩
    exact ⟨⟨hmem.1, by omega⟩, hbit, hnone⟩
  · rintro ⟨hmem, hbit, hnone⟩
    exact ⟨hbit, ⟨hmem.1, by omega⟩, hnone⟩

theorem nextSetBit_eq_none {bits : List UInt8} {max start : ℕ} :
    nextSetBit bits max start = none ↔
      ∀ i, start ≤ i → i < max → cronGetBit bits i = false := by
  rw [nextSetBit, List.find?_range'_eq_none]
  simp only [Bool.not_eq_true']
  constructor
  · exact fun h i hle hlt => h i hle (by omega)
  · exact fun h i hle hlt => h i hle (by omega)

/-- Past the last set bit the search starts again and finds a lower one. -/
theorem nextSetBit_again {bits : List UInt8} {max start : ℕ}
    (hsome : ∃ i < max, cronGetBit bits i = true)
    (hnone : ∀ i, start ≤ i → i < max → cronGetBit bits i = false) :
    ∃ i, nextSetBit bits max 0 = some i ∧ (i < max ∧ i < start) ∧
      cronGetBit bits i = true ∧ ∀ j < i, cronGetBit bits j = false := by
  obtain ⟨i, hi⟩ : ∃ i, nextSetBit bits max 0 = some i := by
    rw [← Option.isSome_iff_exists, ← Option.ne_none_iff_isSome]
    intro hnever
    obtain ⟨i, hlt, hbit⟩ := hsome
    rw [nextSetBit_eq_none.mp hnever i (Nat.zero_le i) hlt] at hbit
    exact Bool.false_ne_true hbit
  obtain ⟨⟨-, hlt⟩, hbit, hfirst⟩ := nextSetBit_eq_some.mp hi
  refine ⟨i, hi, ⟨hlt, ?_⟩, hbit, fun j => hfirst j (Nat.zero_le j)⟩
  by_contra hnot
  rw [hnone i (not_lt.mp hnot) hlt] at hbit
  exact Bool.false_ne_true hbit

/-! ## Calendars of instants -/

variable {t u : ℤ}

theorem cronMktime_of {calendar : Tm} (h : calendar.instant = t) (ht : InTime t) :
    cronMktime calendar = (false, gmtime t) := by
  have hne : (t == cronInvalidInstant) = false := by
    have hnonneg := ht.nonneg
    rw [beq_eq_false_iff_ne, cronInvalidInstant]
    omega
  simp only [cronMktime, mktime_of h ht, hne]

theorem cronMktime_late {calendar : Tm} (h : calendar.instant = t)
    (ht : timeEnd ≤ t) : (cronMktime calendar).1 = true := by
  rw [cronMktime, mktime_late (h ▸ ht)]
  rfl

/-- The seconds that a field counts. -/
def CronField.unit : CronField → ℤ
  | .second => 1
  | .minute => 60
  | .hourOfDay => 3600
  | .dayOfWeek | .dayOfMonth => 86400
  | .month | .year => 0

/-- A field of the calendar of an instant. -/
def CronField.value (t : ℤ) : CronField → ℤ
  | .second => (gmtime t).sec
  | .minute => (gmtime t).min
  | .hourOfDay => (gmtime t).hour
  | .dayOfWeek => (gmtime t).wday
  | .dayOfMonth => (gmtime t).mday
  | .month => (gmtime t).mon
  | .year => (gmtime t).year

/-- The calendar with a field `val` greater. -/
theorem instant_addToField (field : CronField) (hunit : field.unit ≠ 0) {val : ℤ}
    (heq : t + field.unit * val = u) :
    ∃ calendar : Tm, calendar.instant = u ∧
      addToField (gmtime t) field val = cronMktime calendar := by
  have hinstant := gmtime_instant t
  simp only [Tm.instant, Tm.fullYear, Calendar.seconds, dayNumber] at hinstant
  subst heq
  cases field with
  | month => exact (hunit rfl).elim
  | year => exact (hunit rfl).elim
  | _ =>
      refine ⟨_, ?_, rfl⟩
      simp only [Tm.instant, Tm.fullYear, Calendar.seconds, dayNumber,
        CronField.unit] at hinstant ⊢
      omega

theorem addToField_gmtime (field : CronField) (hunit : field.unit ≠ 0) {val : ℤ}
    (heq : t + field.unit * val = u) (hu : InTime u) :
    addToField (gmtime t) field val = (false, gmtime u) := by
  obtain ⟨calendar, hinstant, hadd⟩ := instant_addToField field hunit heq
  rw [hadd, cronMktime_of hinstant hu]

theorem addToField_late (field : CronField) (hunit : field.unit ≠ 0) {val : ℤ}
    (heq : t + field.unit * val = u) (hu : timeEnd ≤ u) :
    (addToField (gmtime t) field val).1 = true := by
  obtain ⟨calendar, hinstant, hadd⟩ := instant_addToField field hunit heq
  rw [hadd, cronMktime_late hinstant hu]

/-- The calendar with a field set to `val`. -/
theorem instant_setField (field : CronField) (hunit : field.unit ≠ 0)
    (hwday : field ≠ .dayOfWeek) {val : ℤ}
    (heq : t + field.unit * (val - field.value t) = u) :
    ∃ calendar : Tm, calendar.instant = u ∧
      setField (gmtime t) field val = cronMktime calendar := by
  have hinstant := gmtime_instant t
  simp only [Tm.instant, Tm.fullYear, Calendar.seconds, dayNumber] at hinstant
  subst heq
  cases field with
  | month => exact (hunit rfl).elim
  | year => exact (hunit rfl).elim
  | dayOfWeek => exact (hwday rfl).elim
  | _ =>
      refine ⟨_, ?_, rfl⟩
      simp only [Tm.instant, Tm.fullYear, Calendar.seconds, dayNumber,
        CronField.unit, CronField.value] at hinstant ⊢
      omega

theorem setField_gmtime (field : CronField) (hunit : field.unit ≠ 0)
    (hwday : field ≠ .dayOfWeek) {val : ℤ}
    (heq : t + field.unit * (val - field.value t) = u) (hu : InTime u) :
    setField (gmtime t) field val = (false, gmtime u) := by
  obtain ⟨calendar, hinstant, hset⟩ := instant_setField field hunit hwday heq
  rw [hset, cronMktime_of hinstant hu]

theorem setField_late (field : CronField) (hunit : field.unit ≠ 0)
    (hwday : field ≠ .dayOfWeek) {val : ℤ}
    (heq : t + field.unit * (val - field.value t) = u) (hu : timeEnd ≤ u) :
    (setField (gmtime t) field val).1 = true := by
  obtain ⟨calendar, hinstant, hset⟩ := instant_setField field hunit hwday heq
  rw [hset, cronMktime_late hinstant hu]

/-! ## Resets -/

/-- The seconds of an instant that a reset keeps: all or none. -/
def kept (reset : Bool) (t : ℤ) : ℤ :=
  if reset then 0 else t % 60

theorem kept_mem (reset : Bool) (t : ℤ) :
    0 ≤ kept reset t ∧ kept reset t ≤ t % 60 := by
  rw [kept]
  split
  · omega
  · omega

/-- The field of the seconds, if it is reset. -/
def lows (reset : Bool) : List CronField :=
  if reset then [.second] else []

/-- The fields that a new hour resets. -/
def belowHour (reset : Bool) : List CronField :=
  lows reset ++ [.minute]

/-- The fields that a new day resets. -/
def belowDay (reset : Bool) : List CronField :=
  belowHour reset ++ [.hourOfDay]

/-- The fields that a new month resets. -/
def belowMonth (reset : Bool) : List CronField :=
  belowDay reset ++ [.dayOfMonth]

theorem resetAllMin_append (calendar : Tm) (fields fields' : List CronField) :
    resetAllMin calendar (fields ++ fields') =
      if (resetAllMin calendar fields).1 then resetAllMin calendar fields
      else resetAllMin (resetAllMin calendar fields).2 fields' := by
  induction fields generalizing calendar with
  | nil => rfl
  | cons field fields ih =>
      simp only [List.cons_append, resetAllMin]
      split
      · rfl
      · exact ih _

theorem resetAllMin_concat {calendar calendar' : Tm} {fields : List CronField}
    (h : resetAllMin calendar fields = (false, calendar')) (field : CronField) :
    resetAllMin calendar (fields ++ [field]) = resetMin calendar' field := by
  rw [resetAllMin_append, h]
  simp only [Bool.false_eq_true, if_false, resetAllMin]
  split
  · rfl
  next hreset => rw [← Bool.eq_false_iff.mpr hreset]

theorem resetAllMin_lows (reset : Bool) (ht : InTime t) :
    resetAllMin (gmtime t) (lows reset) =
      (false, gmtime (t / 60 * 60 + kept reset t)) := by
  cases reset with
  | false =>
      rw [kept, if_neg Bool.false_ne_true, Int.ediv_mul_add_emod]
      rfl
  | true =>
      have heq : t + CronField.second.unit * (0 - CronField.second.value t) =
          t / 60 * 60 + kept true t := by
        simp only [CronField.unit, CronField.value, gmtime, kept, if_true]
        omega
      have hreset : InTime (t / 60 * 60 + kept true t) := by
        have hkept := kept_mem true t
        have hnonneg := ht.nonneg
        exact ht.of_le (by omega) (by omega)
      have hset := setField_gmtime .second (by decide) (by decide) heq hreset
      simp only [lows, if_true, resetAllMin, resetMin, CronField.least, hset,
        Bool.false_eq_true, if_false]

theorem resetAllMin_minute (reset : Bool) (ht : InTime t) :
    resetAllMin (gmtime t) (belowHour reset) =
      (false, gmtime (t / 3600 * 3600 + kept reset t)) := by
  have hkept := kept_mem reset t
  have heq : t / 60 * 60 + kept reset t + CronField.minute.unit *
      (0 - CronField.minute.value (t / 60 * 60 + kept reset t)) =
        t / 3600 * 3600 + kept reset t := by
    simp only [CronField.unit, CronField.value, gmtime]
    omega
  have hnonneg := ht.nonneg
  have hset := setField_gmtime .minute (by decide) (by decide) heq
    (ht.of_le (by omega) (by omega))
  rw [belowHour, resetAllMin_concat (resetAllMin_lows reset ht)]
  exact hset

theorem resetAllMin_hour (reset : Bool) (ht : InTime t) :
    resetAllMin (gmtime t) (belowDay reset) =
      (false, gmtime (t / 86400 * 86400 + kept reset t)) := by
  have hkept := kept_mem reset t
  have heq : t / 3600 * 3600 + kept reset t + CronField.hourOfDay.unit *
      (0 - CronField.hourOfDay.value (t / 3600 * 3600 + kept reset t)) =
        t / 86400 * 86400 + kept reset t := by
    simp only [CronField.unit, CronField.value, gmtime]
    omega
  have hnonneg := ht.nonneg
  have hset := setField_gmtime .hourOfDay (by decide) (by decide) heq
    (ht.of_le (by omega) (by omega))
  rw [belowDay, resetAllMin_concat (resetAllMin_minute reset ht)]
  exact hset

/-- The number of the day of an instant. -/
def dayAt (t : ℤ) : ℤ :=
  t / 86400 + epochDay

/-- The first instant of the month of a day. -/
def monthStart (number : ℤ) : ℤ :=
  86400 * (firstDay (monthIndex number) - epochDay)

theorem monthStart_nonneg {number : ℤ} (h : epochDay ≤ number) :
    0 ≤ monthStart number := by
  have hepoch : firstDay (12 * 1970) = epochDay := by decide
  have hindex := firstDay_gc.le_iff_le.mp (hepoch.trans_le h)
  have hle := firstDay_strictMono.monotone hindex
  rw [monthStart]
  omega

theorem inTime_monthStart (reset : Bool) (ht : InTime t) :
    InTime (monthStart (dayAt t) + kept reset t) := by
  have hkept := kept_mem reset t
  have hnonneg := ht.nonneg
  have hstart : 0 ≤ monthStart (dayAt t) :=
    monthStart_nonneg (by rw [dayAt]; omega)
  have hfirst := (firstDay_monthIndex (dayAt t)).1
  have hone := (dayOf_mem (dayAt t)).1
  refine ht.of_le (by omega) ?_
  simp only [monthStart, dayAt] at hfirst hone ⊢
  omega

theorem resetAllMin_day (reset : Bool) (ht : InTime t) :
    resetAllMin (gmtime t) (belowMonth reset) =
      (false, gmtime (monthStart (dayAt t) + kept reset t)) := by
  have hkept := kept_mem reset t
  have hday : (t / 86400 * 86400 + kept reset t) / 86400 = t / 86400 := by
    omega
  have heq : t / 86400 * 86400 + kept reset t + CronField.dayOfMonth.unit *
      (1 - CronField.dayOfMonth.value (t / 86400 * 86400 + kept reset t)) =
        monthStart (dayAt t) + kept reset t := by
    have hfirst := (firstDay_monthIndex (dayAt t)).1
    simp only [CronField.unit, CronField.value, gmtime, hday, monthStart,
      dayAt] at hfirst ⊢
    omega
  have hset := setField_gmtime .dayOfMonth (by decide) (by decide) heq
    (inTime_monthStart reset ht)
  rw [belowMonth, resetAllMin_concat (resetAllMin_hour reset ht)]
  exact hset

/-! ## The fields of the clock -/

/-- A field that counts `u` seconds and runs from 0 to `m`. -/
structure Clock (field next : CronField) (u : ℤ) (m : ℕ) : Prop where
  unit : field.unit = u
  next_unit : next.unit = u * m
  value : ∀ t, field.value t = t / u % m
  unit_pos : 0 < u
  pos : 0 < m
  wday : field ≠ .dayOfWeek
  least : field.least = 0

theorem clock_second : Clock .second .minute 1 cronMaxSeconds :=
  ⟨rfl, rfl, fun t => by simp [CronField.value, gmtime, cronMaxSeconds],
    by decide, by decide, nofun, rfl⟩

theorem clock_minute : Clock .minute .hourOfDay 60 cronMaxMinutes :=
  ⟨rfl, rfl, fun _ => rfl, by decide, by decide, nofun, rfl⟩

theorem clock_hour : Clock .hourOfDay .dayOfWeek 3600 cronMaxHours :=
  ⟨rfl, rfl, fun _ => rfl, by decide, by decide, nofun, rfl⟩

/-- The bit of a value of a field. -/
def bitAt (bits : List UInt8) (value : ℤ) : Prop :=
  cronGetBit bits value.toNat = true

instance (bits : List UInt8) (value : ℤ) : Decidable (bitAt bits value) :=
  inferInstanceAs (Decidable (_ = true))

/-- What the work on a field of the clock does: nothing, if its bit is set, or a
move to the next block of `u` seconds that has a bit.  It fails at the end of the
years that are counted. -/
inductive FieldMove (bits : List UInt8) (u : ℤ) (m : ℕ) (floor : ℤ → ℤ) (t : ℤ) :
    Except CronStop (ℕ × Tm) → Prop
  | same : bitAt bits (t / u % m) →
      FieldMove bits u m floor t (.ok ((t / u % m).toNat, gmtime t))
  | moved (b : ℤ) : t / u < b → InTime (b * u + t % u) → bitAt bits (b % m) →
      b % m ≠ t / u % m → (∀ c, t / u ≤ c → c < b → ¬bitAt bits (c % m)) →
      FieldMove bits u m floor t
        (.ok ((b % m).toNat, gmtime (floor (b * u + t % u))))
  | late : timeEnd ≤ t + u * m → FieldMove bits u m floor t (.error .failed)

variable {bits : List UInt8} {field next : CronField} {m : ℕ}
  {lower : List CronField} {floor : ℤ → ℤ}

theorem placeNext_same (value : ℕ) (calendar : Tm) (field : CronField)
    (lower : List CronField) :
    placeNext (some value) value calendar field lower = .ok (value, calendar) := by
  simp only [placeNext, Option.getD_some, reduceCtorEq, ne_eq, not_true_eq_false,
    or_self, if_false]
  rfl

/-- A move by at most `k` blocks. -/
theorem block_le (hu : 0 < u) (t : ℤ) {b k : ℤ} (h : b ≤ t / u + k) :
    b * u + t % u ≤ t + u * k := by
  have hsplit : (t / u + k) * u + t % u = t + u * k := by
    linear_combination Int.mul_ediv_add_emod t u
  rw [← hsplit]
  exact Int.add_le_add_right (Int.mul_le_mul_of_nonneg_right h hu.le) _

/-- The instant that a field is set to, as a block. -/
theorem Clock.setField_block (hclock : Clock field next u m) {s b : ℤ} {i : ℕ}
    (hb : b = s / u - s / u % m + i) :
    s + field.unit * (i - field.value s) = b * u + s % u := by
  rw [hclock.unit, hclock.value, hb]
  linear_combination -(Int.mul_ediv_add_emod s u)

theorem Clock.unit_ne (hclock : Clock field next u m) : field.unit ≠ 0 := by
  rw [hclock.unit]
  exact hclock.unit_pos.ne'

/-- A new value starts a block. -/
theorem placeNext_moved (hclock : Clock field next u m)
    (hlower : ∀ s, InTime s → resetAllMin (gmtime s) lower = (false, gmtime (floor s)))
    {i value : ℕ} (hne : i ≠ value) {s b : ℤ} (hin : InTime (b * u + s % u))
    (hb : b = s / u - s / u % m + i) :
    placeNext (some i) value (gmtime s) field lower =
      .ok (i, gmtime (floor (b * u + s % u))) := by
  rw [placeNext, Option.getD_some, if_pos (Or.inr hne),
    setField_gmtime field hclock.unit_ne hclock.wday (hclock.setField_block hb) hin]
  change (checked (resetAllMin (gmtime (b * u + s % u)) lower)).bind _ = _
  rw [hlower _ hin]
  rfl

/-- Setting a field fails, and so does what it is set for. -/
theorem placeNext_failed {i value : ℕ} (hne : i ≠ value) {calendar : Tm}
    (h : (setField calendar field i).1 = true) :
    placeNext (some i) value calendar field lower = .error .failed := by
  rw [placeNext, Option.getD_some, if_pos (Or.inr hne), checked, if_pos h]
  rfl

theorem emod_of_lt {q r : ℤ} {m i : ℕ} (hr : q % m = r) (hi : i < m) (k : ℤ) :
    (q - r + m * k + i) % m = i := by
  have hq := Int.mul_ediv_add_emod q m
  rw [hr] at hq
  rw [show q - r + m * k + i = i + m * (q / m + k) by linear_combination -hq,
    Int.add_mul_emod_self_left]
  exact Int.emod_eq_of_lt (by omega) (by omega)

theorem emod_mem {q r : ℤ} {m : ℕ} (hpos : 0 < m) (hr : q % m = r) :
    0 ≤ r ∧ r < m := by
  have hm : 0 < (m : ℤ) := Int.natCast_pos.mpr hpos
  rw [← hr]
  exact ⟨Int.emod_nonneg q hm.ne', Int.emod_lt_of_pos q hm⟩

theorem emod_le {q r : ℤ} {m : ℕ} (hq : 0 ≤ q) (hr : q % m = r) : r ≤ q := by
  have hdiv := Int.mul_ediv_add_emod q m
  have hquot := Int.mul_nonneg (Int.natCast_nonneg m)
    (Int.ediv_nonneg hq (Int.natCast_nonneg m))
  omega

/-- Within `m` blocks the values run through a field. -/
theorem not_bitAt_of_lt {q r c : ℤ} {m k : ℕ} (hpos : 0 < m) (hr : q % m = r)
    (hk : k ≤ m) (hnone : ∀ j : ℕ, r.toNat ≤ j → j < k → cronGetBit bits j = false)
    (hlo : q ≤ c) (hhi : c < q - r + k) : ¬bitAt bits (c % m) := by
  have hrm := emod_mem hpos hr
  obtain ⟨j, rfl⟩ : ∃ j : ℕ, c = q - r + j := ⟨(c - (q - r)).toNat, by omega⟩
  have hj := emod_of_lt hr (show j < m by omega) 0
  rw [Int.mul_zero, Int.add_zero] at hj
  rw [bitAt, hj, Int.toNat_natCast, hnone j (by omega) (by omega)]
  exact Bool.false_ne_true

/-- A field that overflows takes the next one along and starts from 0. -/
theorem Clock.overflow (hclock : Clock field next u m) (ht : 0 ≤ t)
    (hend : t + u * m < timeEnd) {q r : ℤ} (hq : t / u = q) (hr : q % m = r)
    (hnonneg : 0 ≤ q - r) :
    addToField (gmtime t) next 1 = (false, gmtime (t + u * m)) ∧
      resetMin (gmtime (t + u * m)) field =
        (false, gmtime ((q - r + m) * u + t % u)) := by
  have hm : 0 < (m : ℤ) := Int.natCast_pos.mpr hclock.pos
  have hlong := Int.mul_pos hclock.unit_pos hm
  have hadded : InTime (t + u * m) := ⟨Int.add_nonneg ht hlong.le, hend⟩
  constructor
  · refine addToField_gmtime next ?_ (by rw [hclock.next_unit, mul_one]) hadded
    rw [hclock.next_unit]
    exact hlong.ne'
  · have hquot : (t + u * m) / u = q + m := by
      rw [Int.add_mul_ediv_left _ _ hclock.unit_pos.ne', hq]
    refine setField_gmtime field hclock.unit_ne hclock.wday ?_ (hadded.of_le ?_ ?_)
    · rw [hclock.unit, hclock.least, hclock.value, hquot, Int.add_emod_right, hr,
        ← hq]
      linear_combination -(Int.mul_ediv_add_emod t u)
    · have hrest := Int.emod_nonneg t hclock.unit_pos.ne'
      have hblock : 0 ≤ q - r + m := by omega
      exact Int.add_nonneg (Int.mul_nonneg hblock hclock.unit_pos.le) hrest
    · have hrem := (emod_mem hclock.pos hr).1
      exact block_le hclock.unit_pos t (by omega)

/-- Past the years that are counted, no field is taken along. -/
theorem Clock.overflow_late (hclock : Clock field next u m)
    (hend : timeEnd ≤ t + u * m) : (addToField (gmtime t) next 1).1 = true := by
  have hm : 0 < (m : ℤ) := Int.natCast_pos.mpr hclock.pos
  refine addToField_late next ?_ (by rw [hclock.next_unit, mul_one]) hend
  rw [hclock.next_unit]
  exact (Int.mul_pos hclock.unit_pos hm).ne'

/-- The new value of a field that starts from 0. -/
theorem Clock.placeNext_again (hclock : Clock field next u m)
    (hlower : ∀ s, InTime s → resetAllMin (gmtime s) lower = (false, gmtime (floor s)))
    {i value : ℕ} (hne : i ≠ value) {b rest : ℤ} (hb : b % m = 0)
    (hrest : 0 ≤ rest ∧ rest < u) (hin : InTime ((b + i) * u + rest)) :
    placeNext (some i) value (gmtime (b * u + rest)) field lower =
      .ok (i, gmtime (floor ((b + i) * u + rest))) := by
  have hquot : (b * u + rest) / u = b := by
    rw [Int.mul_comm, Int.add_comm,
      Int.add_mul_ediv_left _ _ hclock.unit_pos.ne',
      Int.ediv_eq_zero_of_lt hrest.1 hrest.2, Int.zero_add]
  have hrem : (b * u + rest) % u = rest := by
    rw [Int.add_comm, Int.add_mul_emod_self_right,
      Int.emod_eq_of_lt hrest.1 hrest.2]
  have hplace := placeNext_moved hclock hlower hne
    (show InTime ((b + i) * u + (b * u + rest) % u) by rwa [hrem])
    (by rw [hquot, hb, Int.sub_zero])
  rwa [hrem] at hplace

/-- The work on a field whose value is not the last one with a bit. -/
theorem findNext_move_some (hclock : Clock field next u m) (ht : InTime t)
    (hlower : ∀ s, InTime s → resetAllMin (gmtime s) lower = (false, gmtime (floor s)))
    {r : ℤ} (hr : t / u % m = r) {i : ℕ}
    (hfound : nextSetBit bits m r.toNat = some i) :
    FieldMove bits u m floor t
      (placeNext (some i) r.toNat (gmtime t) field lower) := by
  have hpos := hclock.pos
  have hrest : 0 ≤ t % u := Int.emod_nonneg _ hclock.unit_pos.ne'
  have hrm := emod_mem hpos hr
  have hle : r ≤ t / u :=
    emod_le (Int.ediv_nonneg ht.nonneg hclock.unit_pos.le) hr
  obtain ⟨⟨hle', hlt⟩, hbit, hnone⟩ := nextSetBit_eq_some.mp hfound
  by_cases heq : i = r.toNat
  · subst heq
    rw [placeNext_same, ← hr]
    exact FieldMove.same (by rwa [bitAt, hr])
  · have hmod := emod_of_lt hr hlt 0
    rw [Int.mul_zero, Int.add_zero] at hmod
    have hblock : 0 ≤ t / u - r + i := by omega
    have hbefore := block_le hclock.unit_pos t (k := m)
      (show t / u - r + i ≤ t / u + m by omega)
    have hsplit : t / u - r + i = t / u - t / u % m + i := by rw [hr]
    by_cases hend : (t / u - r + i) * u + t % u < timeEnd
    · have hin : InTime ((t / u - r + i) * u + t % u) :=
        ⟨Int.add_nonneg (Int.mul_nonneg hblock hclock.unit_pos.le) hrest, hend⟩
      rw [placeNext_moved hclock hlower heq hin hsplit]
      have hmoved : FieldMove bits u m floor t _ :=
        FieldMove.moved (t / u - r + i) (by omega) hin
          (by rw [bitAt, hmod]; exact hbit) (by rw [hmod, hr]; omega)
          (fun c => not_bitAt_of_lt hpos hr hlt.le hnone)
      rwa [hmod, Int.toNat_natCast] at hmoved
    · rw [placeNext_failed heq (setField_late field hclock.unit_ne hclock.wday
        (hclock.setField_block hsplit) (not_lt.mp hend))]
      exact FieldMove.late ((not_lt.mp hend).trans hbefore)

/-- The work on a field whose value is behind the last one with a bit. -/
theorem findNext_move_none (hclock : Clock field next u m) (ht : InTime t)
    (hsome : ∃ i < m, cronGetBit bits i = true)
    (hlower : ∀ s, InTime s → resetAllMin (gmtime s) lower = (false, gmtime (floor s)))
    {r : ℤ} (hr : t / u % m = r) (hfound : nextSetBit bits m r.toNat = none) :
    FieldMove bits u m floor t (do
      let calendar ← checked (addToField (gmtime t) next 1)
      let calendar ← checked (resetMin calendar field)
      placeNext (nextSetBit bits m 0) r.toNat calendar field lower) := by
  have hpos := hclock.pos
  have hrest : 0 ≤ t % u := Int.emod_nonneg _ hclock.unit_pos.ne'
  have hrm := emod_mem hpos hr
  have hle : r ≤ t / u :=
    emod_le (Int.ediv_nonneg ht.nonneg hclock.unit_pos.le) hr
  have hnone := nextSetBit_eq_none.mp hfound
  obtain ⟨i, hi, ⟨hlt, hless⟩, hbit, hfirst⟩ := nextSetBit_again hsome hnone
  by_cases hend : t + u * m < timeEnd
  · obtain ⟨hadd, hreset⟩ := hclock.overflow ht.nonneg hend rfl hr (by omega)
    have hzero : (t / u - r + m) % m = 0 := by
      have hmod := emod_of_lt hr hpos 1
      simpa using hmod
    have hblock : 0 ≤ t / u - r + m + i := by omega
    have hbefore := block_le hclock.unit_pos t (k := m)
      (show t / u - r + m + i ≤ t / u + m by omega)
    have hin : InTime ((t / u - r + m + i) * u + t % u) :=
      ⟨Int.add_nonneg (Int.mul_nonneg hblock hclock.unit_pos.le) hrest,
        hbefore.trans_lt hend⟩
    have hplace := hclock.placeNext_again hlower hless.ne hzero
      ⟨hrest, Int.emod_lt_of_pos t hclock.unit_pos⟩ hin
    have hfind : (do
        let calendar ← checked (addToField (gmtime t) next 1)
        let calendar ← checked (resetMin calendar field)
        placeNext (nextSetBit bits m 0) r.toNat calendar field lower) =
          Except.ok (i, gmtime (floor ((t / u - r + m + i) * u + t % u))) := by
      rw [hadd]
      change (checked (resetMin (gmtime (t + u * m)) field)).bind _ = _
      rw [hreset, hi]
      exact hplace
    rw [hfind]
    have hmod := emod_of_lt hr hlt 1
    rw [Int.mul_one] at hmod
    have hmoved : FieldMove bits u m floor t _ :=
      FieldMove.moved (t / u - r + m + i) (by omega) hin
        (by rw [bitAt, hmod]; exact hbit) (by rw [hmod, hr]; omega)
        (fun c hlo hhi => ?_)
    · rwa [hmod, Int.toNat_natCast] at hmoved
    · by_cases hc : c < t / u - r + m
      · exact not_bitAt_of_lt hpos hr le_rfl hnone hlo hc
      · refine not_bitAt_of_lt hpos hzero hlt.le (fun j _ => hfirst j)
          (not_lt.mp hc) ?_
        rw [Int.sub_zero]
        exact hhi
  · have hfail := hclock.overflow_late (not_lt.mp hend)
    rw [checked, if_pos hfail]
    exact FieldMove.late (not_lt.mp hend)

theorem findNext_move (hclock : Clock field next u m) (ht : InTime t)
    (hsome : ∃ i < m, cronGetBit bits i = true)
    (hlower : ∀ s, InTime s → resetAllMin (gmtime s) lower = (false, gmtime (floor s))) :
    FieldMove bits u m floor t
      (findNext bits m (t / u % m).toNat (gmtime t) field next lower) := by
  rw [findNext]
  cases hfound : nextSetBit bits m (t / u % m).toNat with
  | some i => exact findNext_move_some hclock ht hlower rfl hfound
  | none => exact findNext_move_none hclock ht hsome hlower rfl hfound

end Herak.Scripts
