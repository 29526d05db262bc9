import Herak.Scripts.Script
import Herak.Time.Epoch

/-!
# The next time of a cron expression

`cron_next` of `ccronexpr.c`, compiled with `CRON_USE_LOCAL_TIME`.  The search
goes through the fields of a calendar, from the seconds to the months.  A field
that has to change resets the ones below it, and the search begins again.  Each
call of `do_next` is one unit of fuel.
-/

namespace Herak.Scripts

open CInt Time

/-- The fields `CRON_CF_SECOND` to `CRON_CF_YEAR` -/
inductive CronField
  | second
  | minute
  | hourOfDay
  | dayOfWeek
  | dayOfMonth
  | month
  | year
  deriving DecidableEq

/-- `CRON_MAX_SECONDS` -/
def cronMaxSeconds : ℕ := 60

/-- `CRON_MAX_MINUTES` -/
def cronMaxMinutes : ℕ := 60

/-- `CRON_MAX_HOURS` -/
def cronMaxHours : ℕ := 24

/-- `CRON_MAX_MONTHS` -/
def cronMaxMonths : ℕ := 12

/-- `CRON_INVALID_INSTANT` -/
def cronInvalidInstant : ℤ := -1

/-! ## Bits -/

/-- `cron_set_bit` -/
def cronSetBit (rbyte : List UInt8) (idx : ℕ) : List UInt8 :=
  rbyte.modify (idx / 8) fun byte => UInt8.ofNat (byte.toNat ||| 2 ^ (idx % 8))

/-- `cron_del_bit` -/
def cronDelBit (rbyte : List UInt8) (idx : ℕ) : List UInt8 :=
  rbyte.modify (idx / 8) fun byte =>
    UInt8.ofNat (byte.toNat &&& (255 - 2 ^ (idx % 8)))

/-- `cron_get_bit` -/
def cronGetBit (rbyte : List UInt8) (idx : ℕ) : Bool :=
  (rbyte.getD (idx / 8) 0).toNat.testBit (idx % 8)

/-- `next_set_bit`; nothing when it sets `notfound`. -/
def nextSetBit (bits : List UInt8) (max fromIndex : ℕ) : Option ℕ :=
  (List.range' fromIndex (max - fromIndex)).find? (cronGetBit bits)

/-! ## Fields of the calendar -/

/-- `cron_mktime_local`, and the test for an invalid instant that follows it. -/
def cronMktime (calendar : Tm) : Bool × Tm :=
  let m := mktime calendar
  (m.1 == cronInvalidInstant, m.2)

/-- `add_to_field`; true when it fails. -/
def addToField (calendar : Tm) (field : CronField) (val : ℤ) : Bool × Tm :=
  cronMktime <| match field with
    | .second => { calendar with sec := calendar.sec + val }
    | .minute => { calendar with min := calendar.min + val }
    | .hourOfDay => { calendar with hour := calendar.hour + val }
    | .dayOfWeek | .dayOfMonth => { calendar with mday := calendar.mday + val }
    | .month => { calendar with mon := calendar.mon + val }
    | .year => { calendar with year := calendar.year + val }

/-- `set_field` -/
def setField (calendar : Tm) (field : CronField) (val : ℤ) : Bool × Tm :=
  cronMktime <| match field with
    | .second => { calendar with sec := val }
    | .minute => { calendar with min := val }
    | .hourOfDay => { calendar with hour := val }
    | .dayOfWeek => { calendar with wday := val }
    | .dayOfMonth => { calendar with mday := val }
    | .month => { calendar with mon := val }
    | .year => { calendar with year := val }

/-- The least value of a field. -/
def CronField.least : CronField → ℤ
  | .dayOfMonth => 1
  | _ => 0

/-- `reset_min` -/
def resetMin (calendar : Tm) (field : CronField) : Bool × Tm :=
  setField calendar field field.least

/-- `reset_all_min` -/
def resetAllMin (calendar : Tm) : List CronField → Bool × Tm
  | [] => (false, calendar)
  | field :: fields =>
      let reset := resetMin calendar field
      if reset.1 then reset else resetAllMin reset.2 fields

/-- `push_to_fields_arr` -/
def pushToFieldsArr (arr : List CronField) (field : CronField) :
    List CronField :=
  if field ∈ arr then arr else arr ++ [field]

/-! ## The search -/

/-- Why a search gives no calendar. -/
inductive CronStop
  | failed
  | fuel
  deriving DecidableEq

/-- The calendar of an operation that did not fail. -/
def checked (result : Bool × Tm) : Except CronStop Tm :=
  if result.1 then .error .failed else .ok result.2

/-- The end of `find_next`: a new value is set, and the fields below are reset. -/
def placeNext (found : Option ℕ) (value : ℕ) (calendar : Tm) (field : CronField)
    (lowerOrders : List CronField) : Except CronStop (ℕ × Tm) := do
  let nextValue := found.getD 0
  if found = none ∨ nextValue ≠ value then
    let calendar ← checked (setField calendar field nextValue)
    let calendar ← checked (resetAllMin calendar lowerOrders)
    return (nextValue, calendar)
  else
    return (nextValue, calendar)

/-- `find_next` -/
def findNext (bits : List UInt8) (max value : ℕ) (calendar : Tm)
    (field nextField : CronField) (lowerOrders : List CronField) :
    Except CronStop (ℕ × Tm) :=
  match nextSetBit bits max value with
  | some nextValue =>
      placeNext (some nextValue) value calendar field lowerOrders
  | none => do
      let calendar ← checked (addToField calendar nextField 1)
      let calendar ← checked (resetMin calendar field)
      placeNext (nextSetBit bits max 0) value calendar field lowerOrders

/-- `find_next_day`, with the steps that are left; what `reset_all_min` returns
is not read. -/
def findNextDay (daysOfMonth daysOfWeek : List UInt8)
    (resets : List CronField) :
    ℕ → Tm → ℕ → ℕ → Except CronStop (ℕ × Tm)
  | left, calendar, dayOfMonth, dayOfWeek =>
      if cronGetBit daysOfMonth dayOfMonth && cronGetBit daysOfWeek dayOfWeek then
        .ok (dayOfMonth, calendar)
      else
        match left with
        | 0 => .ok (dayOfMonth, calendar)
        | left + 1 =>
            let added := addToField calendar .dayOfMonth 1
            if added.1 then .error .failed
            else
              findNextDay daysOfMonth daysOfWeek resets left
                (resetAllMin added.2 resets).2 (toUInt32 added.2.mday)
                (toUInt32 added.2.wday)

/-- What `do_next` does with a field that has been worked on: one that is the
same is reset from now on, and behind a new one the search begins again. -/
def settle (again : Tm → Except CronStop Tm) (field : CronField) (same : Bool)
    (resets : List CronField) (calendar : Tm) :
    Except CronStop (List CronField × Tm) :=
  if same then .ok (pushToFieldsArr resets field, calendar)
  else (again calendar).map fun calendar => (resets, calendar)

variable (expr : CronExpr) (dot : ℕ) (again : Tm → Except CronStop Tm)

/-- `do_next`, the month. -/
def nextMonth (resets : List CronField) (calendar : Tm) :
    Except CronStop Tm := do
  let month := toUInt32 calendar.mon
  let (updateMonth, calendar) ← findNext expr.months cronMaxMonths month
    calendar .month .year resets
  if month ≠ updateMonth then
    if 4 < toUInt32 (calendar.year - dot) then .error .failed
    else again calendar
  else return calendar

/-- `do_next`, the day and what follows. -/
def nextDay (resets : List CronField) (calendar : Tm) :
    Except CronStop Tm := do
  let dayOfMonth := toUInt32 calendar.mday
  let (updateDayOfMonth, calendar) ← findNextDay expr.daysOfMonth
    expr.daysOfWeek resets 366 calendar dayOfMonth (toUInt32 calendar.wday)
  let (resets, calendar) ← settle again .dayOfMonth
    (dayOfMonth = updateDayOfMonth) resets calendar
  nextMonth expr dot again resets calendar

/-- `do_next`, the hour and what follows. -/
def nextHour (resets : List CronField) (calendar : Tm) :
    Except CronStop Tm := do
  let hour := toUInt32 calendar.hour
  let (updateHour, calendar) ← findNext expr.hours cronMaxHours hour calendar
    .hourOfDay .dayOfWeek resets
  let (resets, calendar) ← settle again .hourOfDay (hour = updateHour) resets
    calendar
  nextDay expr dot again resets calendar

/-- `do_next`, the minute and what follows. -/
def nextMinute (resets : List CronField) (calendar : Tm) :
    Except CronStop Tm := do
  let minute := toUInt32 calendar.min
  let (updateMinute, calendar) ← findNext expr.minutes cronMaxMinutes minute
    calendar .minute .hourOfDay resets
  let (resets, calendar) ← settle again .minute (minute = updateMinute) resets
    calendar
  nextHour expr dot again resets calendar

/-- `do_next` -/
def doNext : ℕ → Tm → Except CronStop Tm
  | 0, _ => .error .fuel
  | fuel + 1, calendar => do
      let second := toUInt32 calendar.sec
      let (updateSecond, calendar) ← findNext expr.seconds cronMaxSeconds second
        calendar .second .minute []
      let resets := if second = updateSecond then pushToFieldsArr [] .second
        else []
      nextMinute expr dot (doNext fuel) resets calendar

/-- The searches of `cron_next`. -/
def cronSearch (fuel : ℕ) (calendar : Tm) :
    Except CronStop Tm :=
  doNext expr (toUInt32 calendar.year) fuel calendar

/-- `cron_next`, but for its value when it fails. -/
def cronNextTime (fuel : ℕ) (expr : CronExpr) (date : ℤ) :
    Except CronStop ℤ := do
  let (original, calendar) := mktime (gmtime date)
  let _ ← checked (original == cronInvalidInstant, calendar)
  let calendar ← cronSearch expr fuel calendar
  let (calculated, calendar) := mktime calendar
  let _ ← checked (calculated == cronInvalidInstant, calendar)
  if calculated = original then
    let calendar ← checked (addToField calendar .second 1)
    let calendar ← cronSearch expr fuel calendar
    return (mktime calendar).1
  else
    return (mktime calendar).1

/-- `cron_next`; nothing when the fuel runs out. -/
def cronNext (fuel : ℕ) (expr : CronExpr) (date : ℤ) : Option ℤ :=
  match cronNextTime fuel expr date with
  | .ok next => some next
  | .error .failed => some cronInvalidInstant
  | .error .fuel => none

end Herak.Scripts
