import Herak.Support.CInt
import Herak.Support.CString

/-!
# Scripts

`scripts.c`: the loaded scripts, the requests to run them and the selection of
the one to run next.  A request is the time in the field `run_now` of the
script; 0 stands for none.
-/

namespace Herak.Scripts

open CInt CString

/-- `CRON_CHECK_MS` -/
def cronCheckMs : ℕ := 30000

/-- `cron_expr` -/
structure CronExpr where
  seconds : List UInt8
  minutes : List UInt8
  hours : List UInt8
  daysOfWeek : List UInt8
  daysOfMonth : List UInt8
  months : List UInt8
  deriving DecidableEq

/-- `script_cron_t` -/
structure ScriptCron where
  valid : Bool
  enable : Bool
  schedule : CronExpr
  next : ℤ
  deriving DecidableEq

/-- `script_t` -/
structure Script where
  name : CStr
  file : CStr
  runNow : ℕ
  startupMs : ℤ
  execCount : ℕ
  fd : ℤ
  lastRun : ℕ
  cron : ScriptCron
  deriving DecidableEq

/-- `scripts_context_t`; `run` is the index of the script that it points to. -/
structure ScriptsContext where
  scripts : List Script
  run : Option ℕ
  startupCount : ℕ
  lastCron : ℕ
  line : List UInt8
  deriving DecidableEq

/-- `wifi_get_state` -/
inductive WifiState
  | off
  | connected
  | notConnected
  deriving DecidableEq

/-- `MAX_LINE` -/
def maxLine : ℕ := 256

/-- A script as `script_load` leaves it. -/
def Script.loaded (s : Script) : Script :=
  { s with runNow := 0, execCount := 0, fd := -1, lastRun := 0 }

/-- `sys_scripts_init`, after the scripts are read from their files. -/
def sysScriptsInit (scripts : List Script) : ScriptsContext where
  scripts := scripts.map Script.loaded
  run := none
  startupCount := toUInt8 (scripts.countP fun s => 0 < s.startupMs)
  lastCron := 0
  line := List.replicate maxLine 0

/-! ## Names -/

/-- The test for a script of a name or of a name prefix. -/
def nameMatches (name : CStr) (prefixMatch : Bool) (s : Script) : Bool :=
  (if prefixMatch then strlen name ≤ strlen s.name
    else strlen name = strlen s.name) ∧
    strncmp name s.name (strlen name) = 0

/-- The loops over the scripts of a name: `f` acts on all that match a prefix,
and on the first that matches a whole name.  The result counts them. -/
def forNamed (f : Script → Option Script) (name : CStr) (prefixMatch : Bool) :
    List Script → ℕ × List Script
  | [] => (0, [])
  | s :: rest =>
      match if nameMatches name prefixMatch s then f s else none with
      | none =>
          let result := forNamed f name prefixMatch rest
          (result.1, s :: result.2)
      | some s' =>
          if prefixMatch = false then (1, s' :: rest)
          else
            let result := forNamed f name prefixMatch rest
            (result.1 + 1, s' :: result.2)

/-- `script_name_run` -/
def scriptNameRun (ctx : ScriptsContext) (name : CStr) (prefixMatch : Bool)
    (now : ℕ) : ℤ × ScriptsContext :=
  let result := forNamed (fun s => some { s with runNow := now }) name
    prefixMatch ctx.scripts
  (if result.1 = 0 then -1 else 0, { ctx with scripts := result.2 })

/-- `script_exist` -/
def scriptExist (ctx : ScriptsContext) (name : CStr) (prefixMatch : Bool) : ℕ :=
  (forNamed some name prefixMatch ctx.scripts).1

/-! ## Cron -/

/-- `script_cron_set_next`; `tm` is the current time, `none` while it is not
known. -/
def scriptCronSetNext (cronNext : CronExpr → ℤ → ℤ) (tm : Option ℤ)
    (s : Script) : Script :=
  match tm with
  | none => s
  | some tm =>
      if s.cron.valid = false then s
      else
        { s with
          cron := { s.cron with next := cronNext s.cron.schedule tm } }

/-- `script_name_auto_run` -/
def scriptNameAutoRun (cronNext : CronExpr → ℤ → ℤ) (ctx : ScriptsContext)
    (name : CStr) (enable prefixMatch : Bool) (tm : Option ℤ) :
    ℤ × ScriptsContext :=
  let act (s : Script) : Option Script :=
    if s.cron.valid = false then none
    else if enable then
      some (scriptCronSetNext cronNext tm
        { s with cron := { s.cron with enable := true } })
    else some { s with cron := { s.cron with enable := false, next := 0 } }
  let result := forNamed act name prefixMatch ctx.scripts
  (if result.1 = 0 then -1 else 0, { ctx with scripts := result.2 })

/-- A round of the loop of `script_cron_check`. -/
def scriptCronCheckOne (cronNext : CronExpr → ℤ → ℤ) (now : ℕ) (timeNow : ℤ)
    (tm : Option ℤ) (s : Script) : Script :=
  if s.cron.valid = false then s
  else if s.cron.enable = false then s
  else if s.cron.next ≤ 0 then scriptCronSetNext cronNext tm s
  else if s.cron.next ≤ timeNow then
    scriptCronSetNext cronNext tm { s with runNow := now }
  else s

/-- `script_cron_check`; `timeNow` is the date it reads, `tm` the one that is
read again for each script. -/
def scriptCronCheck (cronNext : CronExpr → ℤ → ℤ) (ctx : ScriptsContext)
    (now : ℕ) (timeNow : Option ℤ) (tm : ℕ → Option ℤ) : ScriptsContext :=
  match timeNow with
  | none => ctx
  | some timeNow =>
      if subU64 now ctx.lastCron < cronCheckMs then ctx
      else
        { ctx with
          scripts := ctx.scripts.mapIdx fun i s =>
            scriptCronCheckOne cronNext now timeNow (tm i) s
          lastCron := now }

/-! ## Startup and selection -/

/-- `script_startup` -/
def scriptStartup (ctx : ScriptsContext) (wifi : WifiState) (now : ℕ) :
    ScriptsContext :=
  if wifi = .notConnected then ctx
  else
    { ctx with
      scripts := ctx.scripts.map fun s =>
        if s.startupMs = 0 then s
        else { s with runNow := toUInt64 (now + s.startupMs) }
      startupCount := 0 }

/-- The loop of `sys_scripts_run` that selects a script, from index `i` on;
`best` is the one selected so far with its time. -/
def selectFrom : List Script → ℕ → Option (ℕ × ℕ) → Option (ℕ × ℕ)
  | [], _, best => best
  | s :: rest, i, best =>
      if s.runNow = 0 then selectFrom rest (i + 1) best
      else
        match best with
        | none => selectFrom rest (i + 1) (some (i, s.runNow))
        | some (j, t) =>
            if s.runNow < t then selectFrom rest (i + 1) (some (i, s.runNow))
            else selectFrom rest (i + 1) (some (j, t))

/-- The script that is run next. -/
def selectScript (scripts : List Script) : Option ℕ :=
  (selectFrom scripts 0 none).map Prod.fst

end Herak.Scripts
