import Mathlib.Data.List.FinRange
import Herak.Support.EventMachine
import Herak.Web.Request

/-!
# The web server and its users

`webserv.c` has a table of clients, and other modules keep indices of it:
`syscmd.c` the client that the log is forwarded to, `fs.c` and `ota_update.c`
the client to be closed when a copy or an update ends.  An entry of the table
is given to the next connection when it is free.
-/

namespace Herak.Web

open CString

/-- `MAX_CLIENTS` -/
abbrev maxClients : ℕ := 3

/-- The clients of `webserv.c` with what the other modules know of them:
`client_log` and `status_log` of `syscmd.c`, `http_log` of `log.c`, and the
`web_idx` of `fs.c` and of `ota_update.c`.  An index of -1 is `none`. -/
structure WebServer where
  client : Fin maxClients → WebClient
  clientLog : Option (Fin maxClients)
  statusLog : Bool
  httpLog : Bool
  copyIdx : Option (Fin maxClients)
  updateIdx : Option (Fin maxClients)

namespace WebServer

def init : WebServer where
  client := fun _ => .zero
  clientLog := none
  statusLog := false
  httpLog := false
  copyIdx := none
  updateIdx := none

def setClient (s : WebServer) (i : Fin maxClients) (client : WebClient) :
    WebServer :=
  { s with client := Function.update s.client i client }

@[simp] theorem setClient_client_self
    (s : WebServer) (i : Fin maxClients) (client : WebClient) :
    (s.setClient i client).client i = client :=
  Function.update_self ..

theorem setClient_client_of_ne {i j : Fin maxClients} (h : j ≠ i)
    (s : WebServer) (client : WebClient) :
    (s.setClient i client).client j = s.client j :=
  Function.update_of_ne h ..

/-- `debug_log_forward` -/
def debugLogForward (s : WebServer) (clientIdx : Option (Fin maxClients)) :
    WebServer :=
  { s with clientLog := clientIdx, httpLog := clientIdx.isSome }

/-- `webserv_client_close` -/
def webservClientClose (s : WebServer) (i : Fin maxClients) : WebServer :=
  if (s.client i).tcpClient = none then s
  else (s.setClient i (Web.webservClientClose (s.client i))).debugLogForward none

/-- A close of an index that another module has, if it has one. -/
def closeIdx (s : WebServer) : Option (Fin maxClients) → WebServer
  | none => s
  | some i => s.webservClientClose i

/-- `webserv_accept` -/
def webservAccept (s : WebServer) (pcb : ℕ) : WebServer :=
  match (List.finRange maxClients).find?
      fun i => (s.client i).tcpClient = none with
  | none => s
  | some i => s.setClient i (Web.webservAccept (s.client i) pcb)

/-- `webclient_close_check` -/
def webclientCloseCheck (s : WebServer) (now : ℕ) : WebServer :=
  { s with client := fun i => Web.webclientCloseCheck (s.client i) now }

/-- `ws_tcp_err_cb` -/
def wsTcpErrCb (s : WebServer) (i : Fin maxClients) : WebServer :=
  s.setClient i (webclientDisconnect { s.client i with tcpClient := none })

/-- `syscmd_log_send`: what it returns, the server, and what TCP has taken. -/
def syscmdLogSend (s : WebServer) (logbuff : CStr) (now : ℕ) (tcp : TcpWrite) :
    ℤ × WebServer × List UInt8 :=
  match s.clientLog with
  | none => (-1, s, [])
  | some i =>
      let result := webservClientSendData (s.client i) logbuff now tcp
      let s := s.setClient i result.2.1
      if result.1 ≤ 0 then (-1, { s with clientLog := none }, result.2.2)
      else (0, s, result.2.2)

/-- What `hlog_any` does with the line for the web client, and what TCP has
taken of it. -/
def hlogAny (s : WebServer) (logBuff : CStr) (now : ℕ) (tcp : TcpWrite) :
    WebServer × List UInt8 :=
  if s.httpLog then
    let result := s.syscmdLogSend logBuff now tcp
    if result.1 < 0 then ({ result.2.1 with httpLog := false }, result.2.2)
    else result.2
  else (s, [])

/-- `sys_log_off` -/
def sysLogOff (s : WebServer) : WebServer :=
  s.closeIdx s.clientLog

/-- `sys_commands_run`; `inProgress` is `sys_state_log_in_progress`. -/
def sysCommandsRun (s : WebServer) (inProgress : Bool) : WebServer :=
  if s.statusLog ∧ inProgress = false then
    { s with statusLog := false }.closeIdx s.clientLog
  else s

/-- `fs_cp_reset` -/
def fsCpReset (s : WebServer) : WebServer :=
  { s.closeIdx s.copyIdx with copyIdx := none }

/-- `ota_update_reset` -/
def otaUpdateReset (s : WebServer) : WebServer :=
  { s.closeIdx s.updateIdx with updateIdx := none }

end WebServer

/-- What happens to the server.  A request is `webserv_client_send` of the
first reply, then `command` when its line has a command, then what the command
does, the last replies, and `endRequest`; lines of the log come anywhere
between. -/
inductive ServerEvent
  /-- `webserv_accept` -/
  | accept
  /-- `webserv_client_send` -/
  | send (i : Fin maxClients) (data : List UInt8) (rep : HttpResponseId)
      (date : CStr) (now : ℕ) (tcp : TcpWrite)
  /-- `webserv_client_send_data` of a reply. -/
  | sendData (i : Fin maxClients) (data : List UInt8) (now : ℕ) (tcp : TcpWrite)
  /-- `webclient_send_poll` -/
  | sendPoll (i : Fin maxClients) (tcp : TcpWrite)
  /-- `web_cmd_exec` until it calls `cmd_exec`. -/
  | command (i : Fin maxClients)
  /-- `sys_status` -/
  | status
  /-- `sys_log_off` -/
  | logOff
  /-- `fs_cp_file` of a copy that has been started; the context of a command
  that is not of the web server has no client. -/
  | copyStart (i : Option (Fin maxClients))
  /-- `ota_udate_start_cmd` -/
  | updateStart (i : Option (Fin maxClients))
  /-- The close in `client_parse_incoming` and in `ws_tcp_recv_cb`. -/
  | endRequest (i : Fin maxClients)
  /-- `fs_cp_reset` -/
  | copyReset
  /-- `ota_update_reset` -/
  | updateReset
  /-- `sys_commands_run` -/
  | commandsRun (inProgress : Bool)
  /-- `hlog_any` -/
  | log (logBuff : CStr) (now : ℕ) (tcp : TcpWrite)
  /-- `ws_tcp_recv_cb` without data. -/
  | remoteClosed (i : Fin maxClients)
  /-- `ws_tcp_err_cb` -/
  | tcpError (i : Fin maxClients)
  /-- `webclient_close_check` -/
  | closeCheck (now : ℕ)

/-- The server with the connections; `conns` is how many there have been. -/
structure ServerWorld where
  server : WebServer
  conns : ℕ

namespace ServerWorld

def init : ServerWorld := ⟨.init, 0⟩

/-- The connection of a client. -/
def conn (x : ServerWorld) (i : Fin maxClients) : Option ℕ :=
  (x.server.client i).tcpClient

/-- The server after the event. -/
def call (x : ServerWorld) : ServerEvent → WebServer
  | .accept => x.server.webservAccept x.conns
  | .send i data rep date now tcp =>
      x.server.setClient i
        (webservClientSend (x.server.client i) data rep date now tcp).2.1
  | .sendData i data now tcp =>
      x.server.setClient i
        (webservClientSendData (x.server.client i) data now tcp).2.1
  | .sendPoll i tcp =>
      x.server.setClient i (webclientSendPoll (x.server.client i) tcp).1
  | .command i => x.server.debugLogForward (some i)
  | .status => { x.server with statusLog := true }
  | .logOff => x.server.sysLogOff
  | .copyStart i => { x.server with copyIdx := i }
  | .updateStart i => { x.server with updateIdx := i }
  | .endRequest i => x.server.webservClientClose i
  | .copyReset => x.server.fsCpReset
  | .updateReset => x.server.otaUpdateReset
  | .commandsRun inProgress => x.server.sysCommandsRun inProgress
  | .log logBuff now tcp => (x.server.hlogAny logBuff now tcp).1
  | .remoteClosed i =>
      x.server.setClient i (webclientDisconnect (x.server.client i))
  | .tcpError i => x.server.wsTcpErrCb i
  | .closeCheck now => x.server.webclientCloseCheck now

def step (x : ServerWorld) (e : ServerEvent) : ServerWorld where
  server := x.call e
  conns :=
    match e with
    | .accept => x.conns + 1
    | _ => x.conns

/-- What TCP takes of a line of the log for a client. -/
def lineTo (x : ServerWorld) (logBuff : CStr) (now : ℕ) (tcp : TcpWrite)
    (i : Fin maxClients) : List UInt8 :=
  if x.server.clientLog = some i then (x.server.hlogAny logBuff now tcp).2
  else []

/-- TCP calls back for open connections only. -/
def Enabled (x : ServerWorld) : ServerEvent → Prop
  | .send i _ _ _ _ _ | .sendData i _ _ _ | .command i | .endRequest i
  | .remoteClosed i | .tcpError i => x.conn i ≠ none
  | .copyStart i | .updateStart i => ∀ j ∈ i, x.conn j ≠ none
  | .accept | .sendPoll _ _ | .status | .logOff | .copyReset | .updateReset
  | .commandsRun _ | .log _ _ _ | .closeCheck _ => True

end ServerWorld

def serverMachine : EventMachine ServerWorld ServerEvent where
  step := ServerWorld.step
  enabled := ServerWorld.Enabled

theorem WebServer.webservClientClose_client_self
    (s : WebServer) (i : Fin maxClients) :
    (s.webservClientClose i).client i =
      Web.webservClientClose (s.client i) := by
  unfold WebServer.webservClientClose Web.webservClientClose
  split
  · rfl
  · rename_i h
    simp [debugLogForward]

end Herak.Web
