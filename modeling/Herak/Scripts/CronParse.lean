import Herak.Scripts.Cron
import Herak.Support.Decimal

/-!
# The parser of cron expressions

`cron_parse_expr` of `ccronexpr.c`.  The memory it asks for is there.  An error
leaves the fields before it set, and of its own field what was read so far.
-/

namespace Herak.Scripts

open CString CInt

/-- `DAYS_ARR` -/
def daysArr : List CStr :=
  [lit "SUN", lit "MON", lit "TUE", lit "WED", lit "THU", lit "FRI", lit "SAT"]

/-- `MONTHS_ARR` -/
def monthsArr : List CStr :=
  [lit "FOO", lit "JAN", lit "FEB", lit "MAR", lit "APR", lit "MAY", lit "JUN",
    lit "JUL", lit "AUG", lit "SEP", lit "OCT", lit "NOV", lit "DEC"]

/-- `CRON_MAX_DAYS_OF_MONTH` -/
def cronMaxDaysOfMonth : ℕ := 32

/-- `CRON_MAX_STR_LEN_TO_SPLIT` -/
def cronMaxStrLenToSplit : ℕ := 256

/-! ## Texts -/

/-- A character of `split_str`, behind complete fields and the begin of one. -/
def splitStep (del : UInt8) (state : List CStr × CStr) (c : UInt8) :
    List CStr × CStr :=
  if c = del then
    if state.2 = [] then state else (state.1 ++ [state.2], [])
  else if isspace c then state
  else (state.1, state.2 ++ [c])

/-- `split_str`; no field when it returns NULL. -/
def splitStr (str : CStr) (del : UInt8) : List CStr :=
  if cronMaxStrLenToSplit ≤ str.length then []
  else
    let state := str.foldl (splitStep del) ([], [])
    if state.2 = [] then state.1 else state.1 ++ [state.2]

def toupper (c : UInt8) : UInt8 :=
  if 97 ≤ c && c ≤ 122 then c - 32 else c

/-- `to_upper` -/
def toUpper (str : CStr) : CStr :=
  str.map toupper

/-- `str_replace`, with the replacements that are left at most. -/
def strReplaceFrom (rep with' : CStr) : ℕ → CStr → CStr
  | 0, orig => orig
  | left + 1, orig =>
      match strstr orig rep with
      | none => orig
      | some front =>
          orig.take front ++ with' ++
            strReplaceFrom rep with' left (orig.drop (front + rep.length))

/-- `str_replace` -/
def strReplace (orig rep with' : CStr) : CStr :=
  strReplaceFrom rep with' orig.length orig

/-- `replace_ordinals` -/
def replaceOrdinals (value : CStr) (arr : List CStr) : CStr :=
  arr.zipIdx.foldl (fun cur name => strReplace cur name.1 (decimal name.2)) value

/-! ## Numbers -/

/-- `INT_MAX` -/
def intMax : ℤ := 2147483647

/-- The digits of a number behind its blanks and its sign. -/
def unsignedPart (str : CStr) : CStr :=
  match str.dropWhile isspace with
  | 45 :: digits => digits
  | 43 :: digits => digits
  | digits => digits

/-- Where `strtol` stops; at the begin, if there is no digit. -/
def strtolEnd (str : CStr) : CStr :=
  let rest := (unsignedPart str).dropWhile (digitValue · < 10)
  if rest = unsignedPart str then str else rest

/-- `strtol` sets `errno` to `ERANGE`. -/
def strtolOverflows (str : CStr) : Bool :=
  match str.dropWhile isspace with
  | 45 :: digits => -(magnitude 10 digits : ℤ) < longMin
  | _ => longMax < (magnitude 10 (unsignedPart str) : ℤ)

/-- `parse_uint`; nothing when it sets `errcode`. -/
def parseUint (str : CStr) : Option ℕ :=
  let l := strtol str 10
  if strtolOverflows str = true ∨ strtolEnd str ≠ [] ∨ l < 0 ∨ intMax < l then
    none
  else some l.toNat

/-- The values that `get_range` reads. -/
def readRange (field : CStr) (min max : ℕ) : Except CStr (ℕ × ℕ) :=
  if field = [42] then .ok (min, max - 1)
  else if 45 ∉ field then
    match parseUint field with
    | none => .error (lit "Unsigned integer parse error 1")
    | some val => .ok (val, val)
  else
    match splitStr field 45 with
    | [first, last] =>
        match parseUint first with
        | none => .error (lit "Unsigned integer parse error 2")
        | some val =>
            match parseUint last with
            | none => .error (lit "Unsigned integer parse error 3")
            | some val' => .ok (val, val')
    | _ => .error (lit "Specified range requires two fields")

/-- The checks of `get_range`. -/
def checkRange (min max : ℕ) (res : ℕ × ℕ) : Except CStr (ℕ × ℕ) :=
  if max ≤ res.1 ∨ max ≤ res.2 then
    .error (lit "Specified range exceeds maximum")
  else if res.1 < min ∨ res.2 < min then
    .error (lit "Specified range is less than minimum")
  else if res.2 < res.1 then
    .error (lit "Specified range start exceeds range end")
  else .ok res

/-- `get_range` -/
def getRange (field : CStr) (min max : ℕ) : Except CStr (ℕ × ℕ) :=
  (readRange field min max).bind (checkRange min max)

/-! ## Fields -/

/-- A loop of `set_number_hits`; its counter does not overflow. -/
def setHits (target : List UInt8) (first last delta : ℕ) : List UInt8 :=
  (List.range' first ((last + delta - first) / delta) delta).foldl cronSetBit
    target

/-- What `set_number_hits` reads of a field: first, last and distance. -/
def getHits (field : CStr) (min max : ℕ) : Except CStr (ℕ × ℕ × ℕ) :=
  if 47 ∉ field then
    (getRange field min max).map fun range => (range.1, range.2, 1)
  else
    match splitStr field 47 with
    | [first, second] => do
        let range ← getRange first min max
        let last := if 45 ∉ first then max - 1 else range.2
        match parseUint second with
        | none => .error (lit "Unsigned integer parse error 4")
        | some 0 => .error (lit "Incrementer may not be zero")
        | some delta => .ok (range.1, last, delta)
    | _ => .error (lit "Incrementer must have two fields")

/-- The loop of `set_number_hits` over the fields. -/
def setFields (min max : ℕ) : List CStr → List UInt8 → List UInt8 × Option CStr
  | [], target => (target, none)
  | field :: fields, target =>
      match getHits field min max with
      | .error error => (target, some error)
      | .ok (first, last, delta) =>
          setFields min max fields (setHits target first last delta)

/-- `set_number_hits`; the target, and `error`. -/
def setNumberHits (value : CStr) (target : List UInt8) (min max : ℕ) :
    List UInt8 × Option CStr :=
  match splitStr value 44 with
  | [] => (target, some (lit "Comma split error"))
  | fields => setFields min max fields target

/-- A month or a day in place of another one. -/
def moveBit (targ : List UInt8) (i j : ℕ) : List UInt8 :=
  if cronGetBit targ i then cronDelBit (cronSetBit targ j) i else targ

/-- The months, rotated to the front. -/
def shiftMonths (targ : List UInt8) (max : ℕ) : List UInt8 :=
  (List.range' 1 max).foldl (fun targ i => moveBit targ i (i - 1)) targ

/-- `set_months` -/
def setMonths (value : CStr) (targ : List UInt8) : List UInt8 × Option CStr :=
  let hits := setNumberHits (replaceOrdinals (toUpper value) monthsArr) targ 1 13
  (shiftMonths hits.1 12, hits.2)

/-- The question mark for every day. -/
def everyDay (field : CStr) : CStr :=
  if field = [63] then [42] else field

/-- `set_days_of_week` -/
def setDaysOfWeek (field : CStr) (targ : List UInt8) :
    List UInt8 × Option CStr :=
  let hits := setNumberHits
    (replaceOrdinals (toUpper (everyDay field)) daysArr) targ 0 8
  (moveBit hits.1 7 0, hits.2)

/-- `set_days_of_month` -/
def setDaysOfMonth (field : CStr) (targ : List UInt8) :
    List UInt8 × Option CStr :=
  setNumberHits (everyDay field) targ 1 cronMaxDaysOfMonth

/-! ## Expressions -/

/-- The expression that `memset` leaves. -/
def clearExpr : CronExpr where
  seconds := List.replicate 8 0
  minutes := List.replicate 8 0
  hours := List.replicate 3 0
  daysOfWeek := List.replicate 1 0
  daysOfMonth := List.replicate 4 0
  months := List.replicate 2 0

/-- A field of `cron_parse_expr`, unless one before it has an error. -/
def nextField (put : CronExpr → List UInt8 → CronExpr)
    (hits : List UInt8 × Option CStr) (result : CronExpr × Option CStr) :
    CronExpr × Option CStr :=
  match result.2 with
  | some _ => result
  | none => (put result.1 hits.1, hits.2)

/-- `cron_parse_expr`; the target, and `error`. -/
def cronParseExpr (expression : Option CStr) (target : CronExpr) :
    CronExpr × Option CStr :=
  match expression with
  | none => (target, some (lit "Invalid NULL expression"))
  | some expression =>
      match splitStr expression 32 with
      | [second, minute, hour, dayOfMonth, month, dayOfWeek] =>
          nextField (fun e hits => { e with daysOfWeek := hits })
            (setDaysOfWeek dayOfWeek clearExpr.daysOfWeek) <|
          nextField (fun e hits => { e with months := hits })
            (setMonths month clearExpr.months) <|
          nextField (fun e hits => { e with daysOfMonth := hits })
            (setDaysOfMonth dayOfMonth clearExpr.daysOfMonth) <|
          nextField (fun e hits => { e with hours := hits })
            (setNumberHits hour clearExpr.hours 0 24) <|
          nextField (fun e hits => { e with minutes := hits })
            (setNumberHits minute clearExpr.minutes 0 60) <|
          nextField (fun e hits => { e with seconds := hits })
            (setNumberHits second clearExpr.seconds 0 60) (clearExpr, none)
      | _ => (target, some (lit "Invalid number of fields, expression must consist of 6 fields"))

end Herak.Scripts
