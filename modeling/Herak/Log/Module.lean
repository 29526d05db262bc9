import Herak.Common.Internal
import Herak.Support.CString
import Herak.Support.EventMachine
import Herak.Support.Mutex

/-!
# The log module

`log.c`: a line of the log is printed on the console, sent to the log server
once its address is known, and to a web client.  The module looks the address
up in its periodic run.  It logs about itself with the same function, and its
lock is not recursive.
-/

namespace Herak.Log

open CString MutexM

/-- `MAX_LOG_SIZE` -/
def maxLogSize : ℕ := 512
/-- `RLOG_DEFULT_PORT` -/
def rlogDefultPort : ℤ := 514
/-- `FACILITY` -/
def facility : ℤ := 1
/-- `IP_TIMEOUT_MS` -/
def ipTimeoutMs : UInt64 := 10000
/-- `HLOG_INFO` -/
def hlogInfoLevel : ℤ := 6
/-- `LOG_MODULE` -/
def logModule : CStr := lit "log"

/-- `log_context_t` -/
structure LogContext where
  serverUrl : Option CStr
  serverPort : ℤ
  serverAddr : IpAddr
  httpLog : Bool
  connectCount : UInt32
  lastSend : UInt64
  severIpState : IpResolveState
  logPcb : Option ℕ
  logLevel : ℤ
  debug : UInt32
  deriving DecidableEq

/-- `IS_DEBUG` -/
def LogContext.isDebug (ctx : LogContext) : Bool := ctx.debug ≠ 0

/-- `sys_log_init`; `str` is the parameter with the server. -/
def sysLogInit (str : Option CStr) : LogContext where
  serverUrl := (strtokR str (lit ":")).1
  serverPort :=
    match str, (strtokR str (lit ":")).2 with
    | none, _ => 0
    | some _, some rest => strtol rest 10
    | some _, none => rlogDefultPort
  serverAddr := 0
  httpLog := false
  connectCount := 0
  lastSend := 0
  severIpState := .notResolved
  logPcb := none
  logLevel := hlogInfoLevel
  debug := 0

/-- Where a line goes. -/
inductive LogOutput
  | console (line : CStr)
  | server (pcb : Option ℕ) (addr : IpAddr) (port : ℤ) (line : CStr)
  | http (line : CStr)
  deriving DecidableEq

/-- The module with what it has put out; `nested` is whether `hlog_any` has ever
been entered by a caller that holds the lock. -/
structure LogState where
  ctx : LogContext
  out : List LogOutput
  nested : Bool
  deriving DecidableEq

namespace LogState

def init (str : Option CStr) : LogState := ⟨sysLogInit str, [], false⟩

def setCtx (s : LogState) (f : LogContext → LogContext) : LogState :=
  { s with ctx := f s.ctx }

def print (s : LogState) (o : LogOutput) : LogState :=
  { s with out := s.out ++ [o] }

end LogState

/-! ## A line -/

/-- `LBUFF_PRINT`: the text in the buffer and `psize`. -/
def lbuffPrint (buff : CStr × ℤ) (text : CStr) : CStr × ℤ :=
  if 0 < buff.2 then
    (buff.1 ++ snprintf buff.2.toNat text, buff.2 - text.length)
  else buff

/-- What the pieces make of an empty buffer. -/
def lbuff (pieces : List CStr) : CStr :=
  (pieces.foldl lbuffPrint ([], (maxLogSize : ℤ))).1

/-- What `hlog_any` reads and is answered: the time of the line, the name of the
host, whether there is a buffer for the datagram, the error of `udp_sendto` (0 or
-1 if the datagram is kept), the time then, and the result of
`syscmd_log_send`. -/
structure HlogTurn where
  timeStr : CStr
  hostname : CStr
  pbuf : Bool
  err : ℤ
  now : UInt64
  http : ℤ

/-- The arguments of `hlog_any`; `text` is what the format makes. -/
structure LogCall where
  severity : ℤ
  topic : Option CStr
  text : CStr
  turn : HlogTurn

namespace LogCall

def severity' (call : LogCall) : ℤ :=
  if call.severity < 0 then hlogInfoLevel else call.severity

/-- The line of the call. -/
def line (call : LogCall) : CStr :=
  lbuff [lit "<" ++ decimalInt (facility * 8 + call.severity') ++ lit ">1 ",
    call.turn.timeStr ++ lit " ", call.turn.hostname ++ lit " ",
    call.topic.getD (lit "system") ++ lit ": ", call.text, lit "\r\n"]

end LogCall

/-! ## The functions -/

/-- `ERR_MEM` -/
def errMem : ℤ := -1

/-- `slog_send` -/
def LogState.slogSend (s : LogState) (turn : HlogTurn) (line : CStr) :
    LogState :=
  if turn.pbuf = false then s
  else
    let s := s.print
      (.server s.ctx.logPcb s.ctx.serverAddr s.ctx.serverPort line)
    if turn.err ≠ 0 ∧ turn.err ≠ errMem then
      s.setCtx fun ctx => { ctx with severIpState := .notResolved }
    else s.setCtx fun ctx => { ctx with lastSend := turn.now }

/-- The web client in `hlog_any`. -/
def LogState.syscmdLogSend (s : LogState) (turn : HlogTurn) (line : CStr) :
    LogState :=
  if turn.http < 0 then s.setCtx fun ctx => { ctx with httpLog := false }
  else s.print (.http line)

/-- `hlog_any` between the lock and the unlock. -/
def LogState.putLine (s : LogState) (call : LogCall) : LogState :=
  let s := s.print (.console call.line)
  let s :=
    if s.ctx.severIpState = .resolved then s.slogSend call.turn call.line else s
  if s.ctx.httpLog then s.syscmdLogSend call.turn call.line else s

/-- The entry of `hlog_any`. -/
def noteEntry : MutexM LogState Unit := fun x =>
  some ((), x.1, { x.2 with nested := x.2.nested || x.1 })

/-- `hlog_any` -/
def hlogAny (call : LogCall) : MutexM LogState Unit := do
  noteEntry
  if (← read fun s => s.ctx.logLevel) < call.severity' then return
  else locked <| update fun s => s.putLine call

/-- `hlog_info` of the module itself. -/
def hlogInfo (text : CStr) (turn : HlogTurn) : MutexM LogState Unit :=
  hlogAny ⟨hlogInfoLevel, some logModule, text, turn⟩

/-- Calls of `hlog_any`, one after the other. -/
def hlogAll : List LogCall → MutexM LogState Unit
  | [] => return
  | call :: calls => do
      hlogAny call
      hlogAll calls

/-- `log_server_found` -/
def logServerFound (ipaddr : IpAddr) : MutexM LogState Unit :=
  locked <| update fun s => s.setCtx fun ctx =>
    { ctx with
      serverAddr := ipaddr
      severIpState := .resolved
      connectCount := ctx.connectCount + 1 }

/-- `hlog_remoute` -/
def hlogRemoute : MutexM LogState Bool :=
  locked <| read fun s => s.ctx.severIpState = .resolved

/-- `hlog_web_enable` -/
def hlogWebEnable (set : Bool) : MutexM LogState Unit :=
  locked <| update fun s => s.setCtx fun ctx => { ctx with httpLog := set }

/-- `log_level_set`; `log_level` is an `int`. -/
def logLevelSet (level : UInt32) : MutexM LogState Unit :=
  locked <| update fun s => s.setCtx fun ctx =>
    { ctx with logLevel := level.toBitVec.toInt }

/-- `sys_log_debug_set` -/
def sysLogDebugSet (lvl : UInt32) : MutexM LogState Unit :=
  update fun s => s.setCtx fun ctx => { ctx with debug := lvl }

/-- What `sys_log_status` logs; `addr` is what `inet_ntoa` writes. -/
def statusText (url addr : CStr) (dcount : UInt32) : IpResolveState → CStr
  | .notResolved =>
      lit "Not connected to server " ++ url ++ lit ", connect count " ++
        decimalInt dcount.toBitVec.toInt
  | .resolving =>
      lit "Resolving " ++ url ++ lit " ... connect count " ++
        decimalInt dcount.toBitVec.toInt
  | .resolved =>
      lit "Forwarding logs to " ++ url ++ lit " (" ++ addr ++
        lit "), connect count " ++ decimalInt dcount.toBitVec.toInt

/-- `sys_log_status` -/
def sysLogStatus (inetNtoa : IpAddr → CStr) (turn : HlogTurn) :
    MutexM LogState Bool := do
  match ← read fun s => s.ctx.serverUrl with
  | none =>
      hlogInfo (lit "Logs are not forwarded to an external server") turn
      return true
  | some url =>
      let ctx ← locked <| read LogState.ctx
      hlogInfo (statusText url (inetNtoa ctx.serverAddr) ctx.connectCount
        ctx.severIpState) turn
      return true

/-- `sys_log_reconnect` -/
def sysLogReconnect (turn : HlogTurn) : MutexM LogState Unit := do
  locked <| update fun s => s.setCtx fun ctx =>
    { ctx with severIpState := .notResolved, logPcb := none }
  if ← read fun s => s.ctx.isDebug then
    hlogInfo (lit "Log server reconnect") turn

/-- What `dns_gethostbyname` returns: an address that is known already, or that
it will be asked for. -/
inductive DnsResult
  | ok (ipaddr : IpAddr)
  | inProgress
  | failed

/-- What the periodic run reads: whether the network is there, the time, a
socket, and the answers of the resolver; `found` is an address it has found
before the lock is taken again, `lines` are the turns of the own lines, and
`status` is what `sys_state_log_status` logs. -/
structure ConnectTurn where
  wifi : Bool
  now : UInt64
  pcb : Option ℕ
  dns : DnsResult
  found : Option IpAddr
  lines : ℕ → HlogTurn
  status : List LogCall

/-- `hlog_info` in the debug mode. -/
def debugInfo (text : CStr) (turn : HlogTurn) : MutexM LogState Unit := do
  if ← read fun s => s.ctx.isDebug then hlogInfo text turn

/-- What the resolver calls, if it finds the address. -/
def resolverFound : Option IpAddr → MutexM LogState Unit
  | none => return
  | some ipaddr => logServerFound ipaddr

/-- The case `IP_NOT_RESOLEVED` of `sys_log_connect`, which is entered with the
lock: it is given back for the call of the resolver.  The result is `resolving`
and `connected`. -/
def logResolve (url : CStr) (turn : ConnectTurn) :
    MutexM LogState (Bool × Bool) := do
  leave
  resolverFound turn.found
  enter
  match turn.dns with
  | .inProgress =>
      update fun s => s.setCtx fun ctx =>
        { ctx with severIpState := .resolving, lastSend := turn.now }
      return (true, false)
  | .ok ipaddr =>
      update fun s => s.setCtx fun ctx =>
        { ctx with
          serverAddr := ipaddr
          severIpState := .resolved
          connectCount := ctx.connectCount + 1 }
      debugInfo (lit "Resolved " ++ url) (turn.lines 1)
      return (false, true)
  | .failed => return (false, false)

/-- The case `IP_RESOLVING` of `sys_log_connect`. -/
def logTimeout (url : CStr) (turn : ConnectTurn) : MutexM LogState Unit := do
  if ipTimeoutMs < turn.now - (← read fun s => s.ctx.lastSend) then
    update fun s => s.setCtx fun ctx => { ctx with severIpState := .notResolved }
    debugInfo (lit "Resolving " ++ url ++ lit " timeout") (turn.lines 1)

/-- `sys_log_connect` between its lock and the last unlock. -/
def logConnect (url : CStr) (turn : ConnectTurn) :
    MutexM LogState (Bool × Bool) := do
  if (← read fun s => s.ctx.severIpState) = .resolved then
    return (false, false)
  else
    debugInfo (lit "Log server connect") (turn.lines 0)
    update fun s => s.setCtx fun ctx =>
      { ctx with logPcb := ctx.logPcb.or turn.pcb }
    if (← read fun s => s.ctx.logPcb) = none then return (false, false)
    else
      match ← read fun s => s.ctx.severIpState with
      | .notResolved => logResolve url turn
      | .resolved => return (false, true)
      | .resolving =>
          logTimeout url turn
          return (false, false)

/-- `sys_log_connect` -/
def sysLogConnect (turn : ConnectTurn) : MutexM LogState Unit := do
  match ← read fun s => s.ctx.serverUrl with
  | none => return
  | some url =>
      if turn.wifi then
        let flags ← locked (logConnect url turn)
        if flags.1 then
          hlogInfo (lit "Resolving " ++ url ++ lit " ...") (turn.lines 2)
        if flags.2 then hlogAll turn.status

/-! ## Entry points -/

inductive LogEvent
  | run (turn : ConnectTurn)
  | reconnect (turn : HlogTurn)
  | logStatus (turn : HlogTurn)
  | hlog (call : LogCall)
  | serverFound (ipaddr : IpAddr)
  | remoute
  | webEnable (set : Bool)
  | levelSet (level : UInt32)
  | debugSet (lvl : UInt32)

/-- The entry point. -/
def LogEvent.entry (inetNtoa : IpAddr → CStr) : LogEvent → MutexM LogState Unit
  | .run turn => sysLogConnect turn
  | .reconnect turn => sysLogReconnect turn
  | .logStatus turn => do
      let _ ← sysLogStatus inetNtoa turn
      return
  | .hlog call => hlogAny call
  | .serverFound ipaddr => logServerFound ipaddr
  | .remoute => do
      let _ ← hlogRemoute
      return
  | .webEnable set => hlogWebEnable set
  | .levelSet level => logLevelSet level
  | .debugSet lvl => sysLogDebugSet lvl

/-- The module with its lock after the entry point; a call that waits for ever
changes nothing more. -/
def LogEvent.step (inetNtoa : IpAddr → CStr) (e : LogEvent)
    (x : Bool × LogState) : Bool × LogState :=
  ((e.entry inetNtoa x).map Prod.snd).getD x

/-- The functions are called in any order. -/
def logMachine (inetNtoa : IpAddr → CStr) :
    EventMachine (Bool × LogState) LogEvent where
  step := fun x e => e.step inetNtoa x
  enabled := fun _ _ => True

end Herak.Log
