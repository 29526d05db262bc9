import Herak.Fs.Handles
import Herak.Scripts.Script

/-!
# Running scripts

`script_exec` passes the next command of the running script on, and
`sys_scripts_run` is the round of the module: it goes on with the running
script, or starts the next one.  The commands of the module reach it between
the rounds; so does a command that a script itself passes on.
-/

namespace Herak.Scripts

open CInt CString Fs

/-- `COMMENT_CHAR` -/
def commentChar : UInt8 := 35

/-- `SPEC_CHAR` -/
def specChar : UInt8 := 64

/-- The pointer behind the leading blanks. -/
def stripBlanks (line : CStr) : CStr :=
  line.dropWhile isBlank

/-- The line is one for the loader of the scripts, or a comment. -/
def isMarked (ldata : CStr) : Bool :=
  ldata.head? = some commentChar || ldata.head? = some specChar

/-- The module with the file system that its scripts are read from. -/
structure ScriptsSystem where
  ctx : ScriptsContext
  fs : FsContext

/-- What the files hold, the texts that `cmd_exec` takes for a call of
`fs_close_all`, and the next date of a cron expression. -/
structure ScriptsEnv where
  files : CStr → List UInt8
  closesAll : CStr → Bool
  cronNext : CronExpr → ℤ → ℤ

/-- What a command that is passed on is: the bytes that were left in the file
where its text begins, and the text. -/
structure Passed where
  left : List UInt8
  ldata : CStr
  deriving DecidableEq

/-- The loop of `script_exec`: the command that is passed on, or none at the
end of the file.  Each round but the last one reads a byte, so that one round
more than bytes is enough. -/
def execLoop (fd : ℤ) :
    ℕ → FsContext → List UInt8 → Option Passed × FsContext × List UInt8
  | 0, fs, line => (none, fs, line)
  | fuel + 1, fs, line =>
      let left := ((fs.fd? fd).map fs.unread).getD []
      let result := fsGets fs fd line maxLine
      if result.1 < 0 then (none, result.2.2, result.2.1)
      else if result.1 = 0 then execLoop fd fuel result.2.2 result.2.1
      else
        let ldata := stripBlanks (cstrAt result.2.1 0)
        if isMarked ldata then execLoop fd fuel result.2.2 result.2.1
        else (some ⟨left, ldata⟩, result.2.2, result.2.1)

/-- What a round of the module reads: the times and dates at the calls that
read them, the state of the WiFi, and what `pico_open` returns. -/
structure TickInput where
  now : ℕ
  cronNow : ℕ
  wifi : WifiState
  opened : ℤ
  timeNow : Option ℤ
  tm : ℕ → Option ℤ

/-- `script_exec` of the script `j`: what it passes to `cmd_exec`, and the
module after it.  Of the commands only `fs_close_all` reaches the file that the
script is read from. -/
def scriptExec (env : ScriptsEnv) (s : ScriptsSystem) (j : ℕ) (script : Script)
    (t : TickInput) : Option Passed × ScriptsSystem :=
  let start : ℤ × FsContext :=
    if script.fd < 0 then fsOpen s.fs t.opened (env.files script.file)
    else (script.fd, s.fs)
  let script := { script with fd := start.1 }
  if start.1 < 0 then
    (none,
      { ctx := { s.ctx with scripts := s.ctx.scripts.set j script, run := none }
        fs := start.2 })
  else
    let left := ((start.2.fd? start.1).map start.2.unread).getD []
    let result := execLoop start.1 (left.length + 1) start.2 s.ctx.line
    match result with
    | (some passed, fs, line) =>
        (some passed,
          { ctx :=
              { s.ctx with
                scripts := s.ctx.scripts.set j script
                line := line }
            fs := if env.closesAll passed.ldata then fsCloseAll fs else fs })
    | (none, fs, line) =>
        (none,
          { ctx :=
              { s.ctx with
                scripts := s.ctx.scripts.set j
                  { script with
                    fd := -1
                    lastRun := t.now
                    execCount := script.execCount + 1 }
                run := none
                line := line }
            fs := fsClose fs start.1 })

/-- The script that `ctx->run` points to. -/
def ScriptsContext.running (ctx : ScriptsContext) : Option (ℕ × Script) :=
  ctx.run.bind fun j => ctx.scripts[j]?.map fun script => (j, script)

/-- A round that does not go on with a script, up to the selection. -/
def scriptsPending (ctx : ScriptsContext) (t : TickInput) : ScriptsContext :=
  if ctx.startupCount ≠ 0 then scriptStartup ctx t.wifi t.now else ctx

/-- The selection starts a script. -/
def scriptsStart (ctx : ScriptsContext) : ScriptsContext :=
  match selectScript ctx.scripts with
  | none => ctx
  | some j =>
      { ctx with
        run := some j
        scripts := ctx.scripts.modify j fun s => { s with runNow := 0 } }

/-- `sys_scripts_run`: what it passes to `cmd_exec`, and the module after
it. -/
def sysScriptsRun (env : ScriptsEnv) (s : ScriptsSystem) (t : TickInput) :
    Option Passed × ScriptsSystem :=
  if s.ctx.scripts.length < 1 then (none, s)
  else
    match s.ctx.running with
    | some (j, script) => scriptExec env s j script t
    | none =>
        (none,
          { s with
            ctx := scriptCronCheck env.cronNext
              (scriptsStart (scriptsPending s.ctx t)) t.cronNow t.timeNow
              t.tm })

/-! ## Runs -/

inductive ScriptsEvent
  | tick (t : TickInput)
  | run (name : CStr) (prefixMatch : Bool) (now : ℕ)
  | autoRun (name : CStr) (enable prefixMatch : Bool) (tm : Option ℤ)

/-- The times that an event reads, in order. -/
def ScriptsEvent.times : ScriptsEvent → List ℕ
  | .tick t => [t.now, t.cronNow]
  | .run _ _ now => [now]
  | .autoRun _ _ _ _ => []

def ScriptsEvent.isTick : ScriptsEvent → Bool
  | .tick _ => true
  | _ => false

namespace ScriptsSystem

variable (env : ScriptsEnv)

def step (s : ScriptsSystem) : ScriptsEvent → ScriptsSystem
  | .tick t => (sysScriptsRun env s t).2
  | .run name prefixMatch now =>
      { s with ctx := (scriptNameRun s.ctx name prefixMatch now).2 }
  | .autoRun name enable prefixMatch tm =>
      { s with
        ctx := (scriptNameAutoRun env.cronNext s.ctx name enable prefixMatch
          tm).2 }

/-- What an event passes to `cmd_exec`. -/
def passed (s : ScriptsSystem) : ScriptsEvent → Option Passed
  | .tick t => (sysScriptsRun env s t).1
  | _ => none

def init (scripts : List Script) : ScriptsSystem where
  ctx := sysScriptsInit scripts
  fs := FsContext.init

end ScriptsSystem

end Herak.Scripts
