import Herak.Support.CInt
import Herak.Support.Decimal
import Herak.Time.LocalTime

/-!
# Durations

`time_msec2datetime` splits a duration into the fields of a `struct tm`, and
`time_date2str` prints them.  The two do not agree on the field of the days.
-/

namespace Herak.Time

open CInt CString

/-! ## The code -/

/-- The `struct tm` that `memset` leaves. -/
def Tm.zero : Tm :=
  ⟨0, 0, 0, 0, 0, 0, 0, 0⟩

/-- `time_msec2datetime`; the first result is the rest of milliseconds. -/
def timeMsec2datetime (msec : ℕ) : ℕ × Tm :=
  let sec := if 1000 ≤ msec then toUInt32 ↑(msec / 1000) else 0
  let msec := if 1000 ≤ msec then msec % 1000 else msec
  let min := if 60 ≤ sec then sec / 60 else 0
  let sec := if 60 ≤ sec then sec % 60 else sec
  let hour := if 60 ≤ min then min / 60 else 0
  let min := if 60 ≤ min then min % 60 else min
  let day := if 24 ≤ hour then hour / 24 else 0
  let hour := if 24 ≤ hour then hour % 24 else hour
  let year := if 365 ≤ day then day / 365 else 0
  let day := if 365 ≤ day then day % 365 else day
  (msec,
    { Tm.zero with
      sec := sec, min := min, hour := hour, mday := day
      year := toInt32 ((year : ℤ) - 1900) })

/-- `%.2d` -/
def decimal2 (n : ℤ) : CStr :=
  (if n < 0 then lit "-" else []) ++
    (if n.natAbs < 10 then lit "0" else []) ++ decimal n.natAbs

/-- The text of `time_date2str`. -/
def dateText (date : Tm) : CStr :=
  if 0 < date.year then
    decimalInt (date.year + 1900) ++ lit " years, " ++
      decimalInt date.yday ++ lit " days, " ++ decimal2 date.hour ++ lit ":" ++
      decimal2 date.min ++ lit ":" ++ decimal2 date.sec ++ lit " hours"
  else if date.yday ≠ 0 then
    decimalInt date.yday ++ lit " days, " ++ decimal2 date.hour ++ lit ":" ++
      decimal2 date.min ++ lit ":" ++ decimal2 date.sec ++ lit " hours"
  else if date.hour ≠ 0 then
    decimal2 date.hour ++ lit ":" ++ decimal2 date.min ++ lit ":" ++
      decimal2 date.sec ++ lit " hours"
  else if date.min ≠ 0 then
    decimal2 date.min ++ lit ":" ++ decimal2 date.sec ++ lit " minutes"
  else if date.sec ≠ 0 then decimal2 date.sec ++ lit " sec"
  else lit "0"

/-- `time_date2str` -/
def timeDate2str (strLen : ℕ) (date : Tm) : CStr :=
  snprintf strLen (dateText date)

/-! ## The fields -/

/-- The duration in milliseconds that the fields stand for in the units that
`time_date2str` prints them with. -/
def Tm.printedMsec (date : Tm) (msec : ℕ) : ℤ :=
  ((((date.year + 1900) * 365 + date.yday) * 24 + date.hour) * 60 +
    date.min) * 60000 + date.sec * 1000 + msec

/-- A duration in milliseconds below `2 ^ 32` seconds. -/
structure Duration where
  msec : ℕ
  msec_lt : msec < 2 ^ 32 * 1000

namespace Duration

def seconds (d : Duration) : ℕ :=
  d.msec / 1000

def days (d : Duration) : ℕ :=
  d.seconds / 86400

/-- The seconds since the last full day. -/
def secondOfDay (d : Duration) : ℕ :=
  d.seconds % 86400

/-- What `time_msec2datetime` makes of the duration. -/
def fields (d : Duration) : ℕ × Tm :=
  timeMsec2datetime d.msec

def text (d : Duration) (strLen : ℕ) : CStr :=
  timeDate2str strLen d.fields.2

end Duration

theorem div_of_le (a n : ℕ) : (if n ≤ a then a / n else 0) = a / n := by
  split
  · rfl
  · exact (Nat.div_eq_of_lt (by omega)).symm

theorem mod_of_le (a n : ℕ) : (if n ≤ a then a % n else a) = a % n := by
  split
  · rfl
  · exact (Nat.mod_eq_of_lt (by omega)).symm

namespace Duration

variable (d : Duration)

/-- The fields of a duration. -/
theorem fields_eq :
    d.fields =
      (d.msec % 1000,
        { Tm.zero with
          sec := ↑(d.secondOfDay % 60)
          min := ↑(d.secondOfDay / 60 % 60)
          hour := ↑(d.secondOfDay / 3600)
          mday := ↑(d.days % 365)
          year := (d.days / 365 : ℕ) - 1900 }) := by
  have hlt := d.msec_lt
  have hsec : toUInt32 ((d.msec / 1000 : ℕ) : ℤ) = d.seconds := by
    have hrange := @toUInt32_of_range ((d.msec / 1000 : ℕ) : ℤ) (by omega)
      (by omega)
    exact Int.ofNat.inj hrange
  have hsec' : (if 1000 ≤ d.msec then toUInt32 ((d.msec / 1000 : ℕ) : ℤ)
      else 0) = d.seconds := by
    rw [hsec]
    exact div_of_le d.msec 1000
  have hyear : toInt32 (((d.days / 365 : ℕ) : ℤ) - 1900) =
      ((d.days / 365 : ℕ) : ℤ) - 1900 := by
    apply toInt32_of_range
    · omega
    · simp only [days, seconds]
      omega
  have hmin : d.seconds / 60 / 60 / 24 = d.days := by
    simp only [days, Nat.div_div_eq_div_mul]
  simp only [fields, timeMsec2datetime, hsec', mod_of_le, div_of_le]
  simp only [hmin, hyear]
  have hhour : d.seconds / 60 / 60 % 24 = d.secondOfDay / 3600 := by
    simp only [secondOfDay]
    omega
  have hmin' : d.seconds / 60 % 60 = d.secondOfDay / 60 % 60 := by
    simp only [secondOfDay]
    omega
  have hsec'' : d.seconds % 60 = d.secondOfDay % 60 := by
    simp only [secondOfDay]
    omega
  rw [hhour, hmin', hsec'']

/-- The printed units make up the duration exactly if it has no days beyond the
full years. -/
theorem printedMsec_eq_iff :
    d.fields.2.printedMsec d.fields.1 = d.msec ↔ d.days % 365 = 0 := by
  rw [d.fields_eq]
  simp only [Tm.printedMsec, Tm.zero]
  simp only [secondOfDay, days, seconds]
  omega

end Duration

/-! ## The text -/

/-- What is printed of the seconds of a day. -/
def clockText (s : ℕ) : CStr :=
  if s / 3600 ≠ 0 then
    decimal2 ↑(s / 3600) ++ lit ":" ++ decimal2 ↑(s / 60 % 60) ++ lit ":" ++
      decimal2 ↑(s % 60) ++ lit " hours"
  else if s / 60 % 60 ≠ 0 then
    decimal2 ↑(s / 60 % 60) ++ lit ":" ++ decimal2 ↑(s % 60) ++ lit " minutes"
  else if s % 60 ≠ 0 then decimal2 ↑(s % 60) ++ lit " sec"
  else lit "0"

/-- Neither days nor years are printed. -/
theorem Duration.dateText_eq (d : Duration) :
    dateText d.fields.2 = clockText d.secondOfDay := by
  have hyear : ¬(0 : ℤ) < (d.days / 365 : ℕ) - 1900 := by
    have hlt := d.msec_lt
    simp only [Duration.days, Duration.seconds]
    omega
  rw [d.fields_eq, dateText, clockText]
  simp only [hyear, if_false, Tm.zero, ne_eq, not_true_eq_false,
    Int.natCast_eq_zero]

theorem decimal2_eq {n : ℕ} (hn : n < 100) :
    decimal2 n = [digit (n / 10), digit (n % 10)] := by
  have hneg : ¬(n : ℤ) < 0 := by omega
  rw [decimal2, if_neg hneg, Int.natAbs_natCast, List.nil_append, decimal_eq]
  by_cases hlt : n < 10
  · rw [if_pos hlt, if_pos hlt, Nat.div_eq_of_lt hlt]
    rfl
  · rw [if_neg hlt, if_neg hlt, decimal_of_lt (by omega)]
    rfl

theorem decimal2_length {n : ℕ} (hn : n < 100) : (decimal2 n).length = 2 := by
  rw [decimal2_eq hn]
  rfl

theorem decimal2_inj {m n : ℕ} (hm : m < 100) (hn : n < 100)
    (h : decimal2 m = decimal2 n) : m = n := by
  rw [decimal2_eq hm, decimal2_eq hn, List.cons.injEq, List.cons.injEq] at h
  have htens := digit_inj (by omega) (by omega) h.1
  have hones := digit_inj (by omega) (by omega) h.2.1
  omega

/-- The length of the text tells how many fields are printed. -/
theorem clockText_length {s : ℕ} (hs : s < 86400) :
    (clockText s).length =
      if s / 3600 ≠ 0 then 14 else if s / 60 % 60 ≠ 0 then 13
      else if s % 60 ≠ 0 then 6 else 1 := by
  have hlit : ∀ t : String, (lit t).length = t.length := fun t => by
    rw [lit, List.length_map, String.length_toList]
  unfold clockText
  split_ifs <;>
    simp only [List.length_append, hlit,
      decimal2_length (show s / 3600 < 100 by omega),
      decimal2_length (show s / 60 % 60 < 100 by omega),
      decimal2_length (show s % 60 < 100 by omega)] <;>
    rfl

/-- Two seconds of a day are printed differently. -/
theorem clockText_inj {s t : ℕ} (hs : s < 86400) (ht : t < 86400)
    (h : clockText s = clockText t) : s = t := by
  have hlen := congrArg List.length h
  rw [clockText_length hs, clockText_length ht] at hlen
  have htwo : ∀ {m n : ℕ} {x y : CStr}, m < 100 → n < 100 →
      decimal2 m ++ x = decimal2 n ++ y → m = n ∧ x = y := by
    intro m n x y hm hn hxy
    have hlens := (decimal2_length hm).trans (decimal2_length hn).symm
    obtain ⟨hmn, hrest⟩ := List.append_inj hxy hlens
    exact ⟨decimal2_inj hm hn hmn, hrest⟩
  have hlast : ∀ {m n : ℕ} {x : CStr}, m < 100 → n < 100 →
      decimal2 m ++ x = decimal2 n ++ x → m = n :=
    fun hm hn hxy => (htwo hm hn hxy).1
  unfold clockText at h
  by_cases hhour : s / 3600 ≠ 0
  · have hhour' : t / 3600 ≠ 0 := by
      by_contra hzero
      rw [if_pos hhour, if_neg (not_not.mpr hzero)] at hlen
      split_ifs at hlen <;> omega
    rw [if_pos hhour, if_pos hhour'] at h
    simp only [List.append_assoc] at h
    obtain ⟨hhours, hrest⟩ := htwo (by omega) (by omega) h
    obtain ⟨hmins, hrest⟩ := htwo (by omega) (by omega)
      (List.append_cancel_left hrest)
    have hsecs := hlast (by omega) (by omega) (List.append_cancel_left hrest)
    omega
  · by_cases hmin : s / 60 % 60 ≠ 0
    · have hother : ¬t / 3600 ≠ 0 ∧ t / 60 % 60 ≠ 0 := by
        rw [if_neg hhour, if_pos hmin] at hlen
        split_ifs at hlen <;> omega
      rw [if_neg hhour, if_pos hmin, if_neg hother.1, if_pos hother.2] at h
      simp only [List.append_assoc] at h
      obtain ⟨hmins, hrest⟩ := htwo (by omega) (by omega) h
      have hsecs := hlast (by omega) (by omega) (List.append_cancel_left hrest)
      omega
    · by_cases hsec : s % 60 ≠ 0
      · have hother : ¬t / 3600 ≠ 0 ∧ ¬t / 60 % 60 ≠ 0 ∧ t % 60 ≠ 0 := by
          rw [if_neg hhour, if_neg hmin, if_pos hsec] at hlen
          split_ifs at hlen <;> omega
        rw [if_neg hhour, if_neg hmin, if_pos hsec, if_neg hother.1,
          if_neg hother.2.1, if_pos hother.2.2] at h
        have hsecs := hlast (by omega) (by omega) h
        omega
      · have hother : ¬t / 3600 ≠ 0 ∧ ¬t / 60 % 60 ≠ 0 ∧ ¬t % 60 ≠ 0 := by
          rw [if_neg hhour, if_neg hmin, if_neg hsec] at hlen
          split_ifs at hlen <;> omega
        omega

namespace Duration

variable {d e : Duration} {strLen : ℕ}

/-- With room for all texts, two durations are printed alike exactly if they
end in the same second of a day. -/
theorem text_eq_iff (hlen : 14 < strLen) :
    d.text strLen = e.text strLen ↔ d.secondOfDay = e.secondOfDay := by
  have hday : ∀ f : Duration, f.secondOfDay < 86400 := fun f =>
    Nat.mod_lt _ (by decide)
  have htext : ∀ f : Duration, f.text strLen = clockText f.secondOfDay := by
    intro f
    have hfits : (clockText f.secondOfDay).length < strLen := by
      rw [clockText_length (hday f)]
      split_ifs <;> omega
    rw [text, timeDate2str, f.dateText_eq, snprintf_of_lt hfits]
  rw [htext, htext]
  exact ⟨clockText_inj (hday d) (hday e), fun h => h ▸ rfl⟩

end Duration

/-- What is asked of two durations: each is made up by its printed units, and
they are printed differently if they differ by a second. -/
def DurationsRight (strLen : ℕ) (d e : Duration) : Prop :=
  d.fields.2.printedMsec d.fields.1 = d.msec ∧
    e.fields.2.printedMsec e.fields.1 = e.msec ∧
    (d.msec + 1000 ≤ e.msec ∨ e.msec + 1000 ≤ d.msec →
      d.text strLen ≠ e.text strLen)

/-- A buffer that the longest of the texts fits. -/
structure TextBuffer where
  strLen : ℕ
  lt_strLen : 36 < strLen

/-- Durations are right without days beyond the full years, and without a whole
number of days between them. -/
theorem durations_iff (b : TextBuffer) (d e : Duration) :
    DurationsRight b.strLen d e ↔
      d.days % 365 = 0 ∧ e.days % 365 = 0 ∧
        (d.msec + 1000 ≤ e.msec ∨ e.msec + 1000 ≤ d.msec →
          d.secondOfDay ≠ e.secondOfDay) := by
  have hlen : 14 < b.strLen := by
    have hlt := b.lt_strLen
    omega
  rw [DurationsRight, d.printedMsec_eq_iff, e.printedMsec_eq_iff, ne_eq,
    Duration.text_eq_iff hlen]

/-- A day is printed as nothing. -/
theorem not_durations :
    ¬∀ (b : TextBuffer) (d e : Duration), DurationsRight b.strLen d e := by
  intro h
  have hday := (h ⟨64, by decide⟩ ⟨0, by decide⟩ ⟨86400000, by decide⟩).2.1
  exact absurd hday (by decide)

end Herak.Time
