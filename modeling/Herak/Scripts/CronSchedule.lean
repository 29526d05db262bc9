import Herak.Scripts.CronNames
import Herak.Scripts.CronNext

/-!
# From the text of a cron expression to its next time

The text of an expression is parsed, and `cron_next` gives the least instant
behind a date at which each field of the calendar is one that the text names.
-/

namespace Herak.Scripts

open CString CInt Time Calendar

/-- Every day or every month. -/
def everyItem : CronItem := ⟨.every, none⟩

theorem namesValue_every {min max i : ℕ} :
    NamesValue min max [everyItem] i ↔ min ≤ i ∧ i ≤ max - 1 := by
  constructor
  · rintro ⟨item, hitem, hnames⟩
    obtain rfl := List.mem_singleton.mp hitem
    exact ⟨hnames.1, hnames.2.1⟩
  · rintro ⟨hge, hle⟩
    exact ⟨everyItem, List.mem_cons_self, hge, hle, Nat.mod_one _⟩

/-- An accepted expression fires if its days are not restricted twice. -/
theorem CronExpr.Accepted.fires {e : CronExpr} (h : e.Accepted)
    (hdays : AllBits e.daysOfMonth 1 32 ∨ AllBits e.daysOfWeek 0 7) : e.Fires :=
  ⟨h.seconds.some, h.minutes.some, h.hours.some, h.daysOfMonth.some,
    h.months.some, h.daysOfWeek.some, hdays⟩

namespace CronSchedule

/-- An instant whose calendar the text of an expression names. -/
structure FiresAt (s : CronSchedule) (t : ℤ) : Prop where
  second : NamesValue 0 60 s.seconds (gmtime t).sec.toNat
  minute : NamesValue 0 60 s.minutes (gmtime t).min.toNat
  hour : NamesValue 0 24 s.hours (gmtime t).hour.toNat
  dayOfMonth : NamesValue 1 32 s.daysOfMonth (gmtime t).mday.toNat
  month : NamesValue 1 13 s.months ((gmtime t).mon + 1).toNat
  dayOfWeek : NamesValue 0 8 s.daysOfWeek (gmtime t).wday.toNat ∨
    (gmtime t).wday = 0 ∧ NamesValue 0 8 s.daysOfWeek 7

/-- The seconds are one range, the days are not restricted twice, and a
restriction of the months goes with days that every month has. -/
structure Regular (s : CronSchedule) : Prop where
  seconds : ∃ item, s.seconds = [item] ∧ item.step = none
  days : s.daysOfMonth = [everyItem] ∨ s.daysOfWeek = [everyItem]
  months : s.months = [everyItem] ∨ s.daysOfWeek = [everyItem] ∧
    ∀ i, NamesValue 1 32 s.daysOfMonth i → i ≤ 28

variable {s : CronSchedule} {e : CronExpr} {t : ℤ}

theorem Denotes.firesAt_iff (h : s.Denotes e) (t : ℤ) :
    e.FiresAt t ↔ s.FiresAt t := by
  have hnonneg := weekday_nonneg (dayAt t)
  have hlt := weekday_lt (dayAt t)
  have hmonth : ((gmtime t).mon + 1).toNat = monthOf (dayAt t) + 1 := by
    rw [show (gmtime t).mon = monthOf (dayAt t) from rfl]
    omega
  have hmonths : cronGetBit e.months (monthOf (dayAt t) : ℤ).toNat = true ↔
      NamesValue 1 13 s.months ((gmtime t).mon + 1).toNat := by
    rw [h.months, hmonth, Int.toNat_natCast]
  have hweek : bitAt e.daysOfWeek (weekday (dayAt t)) ↔
      NamesValue 0 8 s.daysOfWeek (gmtime t).wday.toNat ∨
        (gmtime t).wday = 0 ∧ NamesValue 0 8 s.daysOfWeek 7 := by
    rw [bitAt, h.daysOfWeek, gmtime_wday]
    constructor
    · rintro ⟨-, hday | ⟨hzero, hseven⟩⟩
      · exact Or.inl hday
      · exact Or.inr ⟨by omega, hseven⟩
    · rintro (hday | ⟨hzero, hseven⟩)
      · exact ⟨by omega, Or.inl hday⟩
      · exact ⟨by omega, Or.inr ⟨by omega, hseven⟩⟩
  constructor
  · rintro ⟨⟨hsecond, hminute, hhour, hday, hweekday⟩, hbit⟩
    exact ⟨(h.seconds _).mp hsecond, (h.minutes _).mp hminute,
      (h.hours _).mp hhour, (h.daysOfMonth _).mp hday, hmonths.mp hbit,
      hweek.mp hweekday⟩
  · rintro ⟨hsecond, hminute, hhour, hday, hbit, hweekday⟩
    exact ⟨⟨(h.seconds _).mpr hsecond, (h.minutes _).mpr hminute,
      (h.hours _).mpr hhour, (h.daysOfMonth _).mpr hday, hweek.mpr hweekday⟩,
      hmonths.mpr hbit⟩

theorem Denotes.allDaysOfMonth (h : s.Denotes e)
    (hevery : s.daysOfMonth = [everyItem]) : AllBits e.daysOfMonth 1 32 := by
  intro i hge hlt
  rw [h.daysOfMonth, hevery, namesValue_every]
  omega

theorem Denotes.allDaysOfWeek (h : s.Denotes e)
    (hevery : s.daysOfWeek = [everyItem]) : AllBits e.daysOfWeek 0 7 := by
  intro i hge hlt
  rw [h.daysOfWeek, hevery, namesValue_every, namesValue_every]
  omega

theorem Denotes.regular (h : s.Denotes e) (hregular : s.Regular) : e.Regular := by
  refine ⟨fun i j k hij hjk hk hi hbit => ?_, ?_⟩
  · obtain ⟨item, hseconds, hstep⟩ := hregular.seconds
    have hrange : ∀ i, cronGetBit e.seconds i = true ↔
        (item.range.bounds 0 60).1 ≤ i ∧ i ≤ item.last 0 60 := by
      intro i
      rw [h.seconds, hseconds]
      constructor
      · rintro ⟨item', hitem, hge, hle, -⟩
        obtain rfl := List.mem_singleton.mp hitem
        exact ⟨hge, hle⟩
      · rintro ⟨hge, hle⟩
        refine ⟨item, List.mem_cons_self, hge, hle, ?_⟩
        rw [hstep]
        exact Nat.mod_one _
    have hfirst := (hrange i).mp hi
    have hlast := (hrange k).mp hbit
    exact (hrange j).mpr (by omega)
  · rcases hregular.months with hevery | ⟨hevery, hshort⟩
    · refine Or.inl fun i hge hlt => ?_
      rw [h.months, hevery, namesValue_every]
      omega
    · refine Or.inr ⟨h.allDaysOfWeek hevery, fun i hlong hlt => ?_⟩
      by_contra hbit
      have := hshort i ((h.daysOfMonth i).mp (Bool.eq_true_of_not_eq_false hbit))
      omega

theorem Regular.days_of (hregular : s.Regular) (h : s.Denotes e) :
    AllBits e.daysOfMonth 1 32 ∨ AllBits e.daysOfWeek 0 7 :=
  hregular.days.imp h.allDaysOfMonth h.allDaysOfWeek

theorem Denotes.eq (h : s.Denotes e) (haccepted : e.Accepted)
    {e' : CronExpr} (h' : s.Denotes e') (haccepted' : e'.Accepted) : e' = e := by
  have hsame : ∀ {bits bits' : List UInt8} {n least max : ℕ} {P : ℕ → Prop},
      Filled bits n least max → Filled bits' n least max →
      (∀ i, cronGetBit bits i = true ↔ P i) →
      (∀ i, cronGetBit bits' i = true ↔ P i) → bits = bits' :=
    fun hfilled hfilled' hbits hbits' =>
      (cronGetBit_eq_iff (hfilled.length_eq.trans hfilled'.length_eq.symm)).mp
        fun i => (hbits i).trans (hbits' i).symm
  have hseconds := hsame haccepted'.seconds haccepted.seconds h'.seconds h.seconds
  have hminutes := hsame haccepted'.minutes haccepted.minutes h'.minutes h.minutes
  have hhours := hsame haccepted'.hours haccepted.hours h'.hours h.hours
  have hdays := hsame haccepted'.daysOfMonth haccepted.daysOfMonth
    h'.daysOfMonth h.daysOfMonth
  have hmonths := hsame haccepted'.months haccepted.months h'.months h.months
  have hweek := hsame haccepted'.daysOfWeek haccepted.daysOfWeek h'.daysOfWeek
    h.daysOfWeek
  cases e
  cases e'
  subst hseconds hminutes hhours hdays hmonths hweek
  rfl

end CronSchedule

/-- A text in the limits denotes one expression with a value in each field, and
this is what the parser returns. -/
theorem cronParseExpr_text (s : CronSchedule) (h : s.Valid) (target : CronExpr) :
    ∃ e, cronParseExpr (some s.text) target = (e, none) ∧
      ∀ e', e'.Accepted ∧ s.Denotes e' ↔ e' = e := by
  obtain ⟨e, hparse, hdenotes⟩ := cronParseExpr_denotes s h target
  have haccepted := CronExpr.Accepted.of_parse hparse
  refine ⟨e, hparse, fun e' => ⟨fun h' => ?_, ?_⟩⟩
  · exact hdenotes.eq haccepted h'.2 h'.1
  · rintro rfl
    exact ⟨haccepted, hdenotes⟩

/-- `cron_next` of a parsed text gives the least instant behind a date that the
text names. -/
theorem cronNext_text (s : CronSchedule) (hvalid : s.Valid) (hregular : s.Regular)
    (target : CronExpr) {t : ℤ} (ht : 0 ≤ t) (hdate : yearAt t ≤ lastCronYear) :
    ∃ e u, cronParseExpr (some s.text) target = (e, none) ∧
      IsLeast {v | t < v ∧ s.FiresAt v} u ∧
        ∀ fuel : ℕ, u - t < fuel → cronNext fuel e t = some u := by
  obtain ⟨e, hparse, hdenotes⟩ := cronParseExpr_denotes s hvalid target
  have hfires := (CronExpr.Accepted.of_parse hparse).fires
    (hregular.days_of hdenotes)
  have hbits := hdenotes.regular hregular
  obtain ⟨u, hleast⟩ := exists_isLeast_firesAt hfires hbits t
  have hnext : ∀ fuel : ℕ, u - t < fuel → cronNext fuel e t = some u :=
    fun fuel => cronNext_of_isLeast hfires hbits ht hdate hleast
  have hsame : {v | t < v ∧ e.FiresAt v} = {v | t < v ∧ s.FiresAt v} := by
    ext v
    exact and_congr_right fun _ => hdenotes.firesAt_iff v
  rw [hsame] at hleast
  exact ⟨e, u, hparse, hleast, hnext⟩

/-- A number without a name. -/
def plainNumber (n : ℕ) : CronNumber := ⟨n, none⟩

/-- `0 30 12 * * Mon-fri` -/
def noonSchedule : CronSchedule where
  seconds := [⟨.value (plainNumber 0), none⟩]
  minutes := [⟨.value (plainNumber 30), none⟩]
  hours := [⟨.value (plainNumber 12), none⟩]
  daysOfMonth := [everyItem]
  months := [everyItem]
  daysOfWeek := [⟨.range ⟨1, some (lit "Mon")⟩ ⟨5, some (lit "fri")⟩, none⟩]

example : noonSchedule.text = lit "0 30 12 * * Mon-fri" := by decide +kernel

theorem fieldValid_range {arr : List CStr} {min max : ℕ} {range : CronRange}
    (h : range.Valid min max) (hnamed : ∀ n ∈ range.numbers, n.Named arr) :
    FieldValid arr min max [⟨range, none⟩] := by
  refine ⟨List.cons_ne_nil _ _, fun item hitem => ?_, fun item hitem => ?_⟩
  · obtain rfl := List.mem_singleton.mp hitem
    exact ⟨h, nofun, nofun⟩
  · obtain rfl := List.mem_singleton.mp hitem
    exact hnamed

theorem fieldValid_plain {min max n : ℕ} (hge : min ≤ n) (hlt : n < max) :
    FieldValid [] min max [⟨.value (plainNumber n), none⟩] := by
  refine fieldValid_range ⟨hge, le_rfl, hlt⟩ fun m hm => ?_
  obtain rfl := List.mem_singleton.mp hm
  exact nofun

theorem noonSchedule_valid : noonSchedule.Valid where
  seconds := fieldValid_plain (by decide) (by decide)
  minutes := fieldValid_plain (by decide) (by decide)
  hours := fieldValid_plain (by decide) (by decide)
  daysOfMonth := fieldValid_range ⟨by decide, by decide, by decide⟩ nofun
  months := fieldValid_range ⟨by decide, by decide, by decide⟩ nofun
  daysOfWeek := by
    refine fieldValid_range ⟨by decide, by decide, by decide⟩ fun n hn => ?_
    rcases List.mem_pair.mp hn with rfl | rfl
    · rintro name ⟨⟩
      decide
    · rintro name ⟨⟩
      decide
  length := by decide +kernel

theorem noonSchedule_regular : noonSchedule.Regular where
  seconds := ⟨_, rfl, rfl⟩
  days := Or.inl rfl
  months := Or.inl rfl

theorem cronNext_text_noon :
    ∃ e u, cronParseExpr (some noonSchedule.text) clearExpr = (e, none) ∧
      IsLeast {v | 0 < v ∧ noonSchedule.FiresAt v} u ∧
        ∀ fuel : ℕ, u - 0 < fuel → cronNext fuel e 0 = some u :=
  cronNext_text noonSchedule noonSchedule_valid noonSchedule_regular clearExpr
    le_rfl (by decide)

theorem cronParseExpr_text_noon :
    ∃ e, cronParseExpr (some noonSchedule.text) clearExpr = (e, none) ∧
      ∀ e', e'.Accepted ∧ noonSchedule.Denotes e' ↔ e' = e :=
  cronParseExpr_text noonSchedule noonSchedule_valid clearExpr

theorem cronParseExpr_accepted_noon :
    weekdayNoon.Accepted ∧ ∀ target', cronParseExpr
      (some (lit "0 30 12 * * Mon-fri")) target' = (weekdayNoon, none) :=
  cronParseExpr_accepted (show cronParseExpr
    (some (lit "0 30 12 * * Mon-fri")) clearExpr = (weekdayNoon, none) by
      decide +kernel)

end Herak.Scripts
