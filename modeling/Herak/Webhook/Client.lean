import Herak.Common.Internal
import Herak.Support.CString
import Herak.Support.EventMachine
import Herak.Support.Mutex
import Herak.Web.Client

/-!
# The webhook client

`webhook.c`: one server, to which messages are posted.  The functions take the
lock of the client, each for itself, and call one another.  TCP calls back:
`altcp_abort` calls the error callback of the connection before it returns.
-/

namespace Herak.Wh

open CString Memory MutexM
open Web (TcpWrite webCmdNr httpUserAgent)

/-- `PACKET_BUFF_SIZE` -/
def packetBuffSize : ℕ := 512
/-- `WH_PAYLOAD_MAX_SIZE` -/
def whPayloadMaxSize : ℕ := 384
/-- `IP_TIMEOUT_MS` -/
def ipTimeoutMs : ℕ := 20000

/-- `enum tcp_state_t` -/
inductive TcpState
  | disconnected
  | connecting
  | connected
  deriving DecidableEq

/-- What `sys_webhook_init` reads, and the name of the host. -/
structure WebhookConfig where
  addrStr : CStr
  endpoint : CStr
  port : ℕ
  hostname : CStr
  deriving DecidableEq

/-- `webhook_t`, without the counters; `errCb` is whether TCP has the error
callback of `tcpConn`, and `wifi` is `connected` in `sys_webhook_run`. -/
structure Webhook where
  config : WebhookConfig
  ipResolve : IpResolveState
  lastSend : ℕ
  sending : Bool
  keepOpen : Bool
  tcpState : TcpState
  tcpConn : Option ℕ
  errCb : Bool
  buff : List UInt8
  buffP : ℕ
  buffLen : ℕ
  lastReply : UInt32
  wifi : Bool
  deriving DecidableEq

/-- `sys_webhook_init` -/
def Webhook.init (config : WebhookConfig) : Webhook where
  config := config
  ipResolve := .notResolved
  lastSend := 0
  sending := false
  keepOpen := true
  tcpState := .disconnected
  tcpConn := none
  errCb := false
  buff := List.replicate packetBuffSize 0
  buffP := 0
  buffLen := 0
  lastReply := -1
  wifi := false

/-! ## Requests -/

/-- `WH_PAYLOAD_TEMPLATE` as `snprintf` writes it. -/
def whPayload (config : WebhookConfig) (message : CStr) : CStr :=
  (lit "\x7b \"message\":\"(" ++ config.hostname ++ lit ") " ++ message ++
    lit "\"\x7d").take (whPayloadMaxSize - 1)

/-- `WH_HTTP_HEAD` as `snprintf` writes it. -/
def whHttpHead (config : WebhookConfig) (keepOpen : Bool) (payload : CStr) :
    CStr :=
  (lit "POST " ++ config.endpoint ++ lit " HTTP/1.1" ++ webCmdNr ++
    lit "Host: " ++ config.addrStr ++ lit ":" ++ decimal config.port ++
    webCmdNr ++
    lit "Content-Length: " ++ decimal payload.length ++ webCmdNr ++
    (if keepOpen then [] else lit "Connection: close" ++ webCmdNr) ++
    lit "User-Agent: " ++ httpUserAgent ++ webCmdNr ++
    lit "Content-Type: application/json" ++ webCmdNr ++ webCmdNr).take
      (packetBuffSize - 1)

/-- The request for a message. -/
def Webhook.request (wh : Webhook) (message : CStr) : List UInt8 :=
  let payload := whPayload wh.config message
  whHttpHead wh.config wh.keepOpen payload ++ payload

/-! ## The functions -/

/-- `wh_tcp_send` between the lock and the unlock: the client, and what TCP has
taken. -/
def Webhook.tcpSend (wh : Webhook) (tcp : TcpWrite) : Webhook × List UInt8 :=
  let dataLen := wh.buffLen - wh.buffP
  if wh.sending = false ∨ tcp.sndbuf = 0 ∨ dataLen = 0 then (wh, [])
  else
    let sendLen := min tcp.sndbuf dataLen
    if tcp.ok then
      let data := (wh.buff.drop wh.buffP).take sendLen
      let buffP := wh.buffP + sendLen
      if wh.buffLen ≤ buffP then
        ({ wh with sending := false, buffP := 0, buffLen := 0 }, data)
      else ({ wh with buffP := buffP }, data)
    else (wh, [])

/-- `wh_tcp_send`; it returns what TCP has taken. -/
def whTcpSend (tcp : TcpWrite) : MutexM Webhook (List UInt8) :=
  locked do
    let data ← read fun wh => (wh.tcpSend tcp).2
    update fun wh => (wh.tcpSend tcp).1
    return data

/-- `webhook_disconnect` between the lock and the unlock; the callbacks are
taken from the connection before it is closed or aborted. -/
def Webhook.disconnect (wh : Webhook) : Webhook :=
  { wh with
    tcpConn := none
    errCb := false
    buffP := 0
    buffLen := 0
    tcpState := .disconnected
    ipResolve := .notResolved }

/-- `webhook_disconnect` -/
def webhookDisconnect : MutexM Webhook Unit :=
  locked <| update Webhook.disconnect

/-- `wh_tcp_err_cb` -/
def whTcpErrCb : MutexM Webhook Unit := do
  locked <| update fun wh => { wh with tcpConn := none, errCb := false }
  webhookDisconnect

/-- `altcp_abort` of the connection. -/
def altcpAbort : MutexM Webhook Unit := do
  if ← read Webhook.errCb then whTcpErrCb

/-- `wh_abort` -/
def whAbort : MutexM Webhook Unit :=
  locked do
    if ← read fun wh => wh.tcpConn.isSome then
      altcpAbort
      update fun wh => { wh with tcpConn := none, errCb := false }
    update fun wh => { wh with tcpState := .disconnected }

/-- What TCP does when a connection is opened: the new connection, and whether
it is bound and the connect is sent. -/
structure TcpConnect where
  pcb : Option ℕ
  ok : Bool

/-- `webhook_connect` between its second lock and its unlock. -/
def Webhook.open (wh : Webhook) (now : ℕ) (connect : TcpConnect) : Webhook :=
  let wh := { wh with tcpConn := connect.pcb, errCb := false }
  if connect.pcb.isSome ∧ connect.ok then
    { wh with errCb := true, tcpState := .connecting, lastSend := now }
  else wh

/-- `webhook_connect` -/
def webhookConnect (now : ℕ) (connect : TcpConnect) : MutexM Webhook Unit := do
  let st ← locked <| read fun wh => (wh.tcpState, wh.ipResolve, wh.lastSend)
  if st.2.1 ≠ .resolved then return
  match st.1 with
  | .disconnected =>
      whAbort
      locked <| update fun wh => wh.open now connect
  | .connecting => if ipTimeoutMs < now - st.2.2 then whAbort
  | .connected => return

/-- The buffer is filled with a request: whether it fits, and the client. -/
def Webhook.fill (wh : Webhook) (message : CStr) (now : ℕ) : Bool × Webhook :=
  let payload := whPayload wh.config message
  let head := whHttpHead wh.config wh.keepOpen payload
  let wh := { wh with buff := memcpy wh.buff 0 head, buffLen := head.length }
  if packetBuffSize ≤ head.length + payload.length then (false, wh)
  else
    (true, { wh with
      buff := memcpy wh.buff head.length payload
      buffLen := head.length + payload.length
      sending := true
      lastSend := now })

/-- What `webhook_send` reads: the time, what TCP does with a connection that
is opened, and with the data. -/
structure SendTurn where
  now : ℕ
  connectNow : ℕ
  connect : TcpConnect
  tcp : TcpWrite

/-- `webhook_send`: what it returns, and what TCP has taken. -/
def webhookSend (message : CStr) (turn : SendTurn) :
    MutexM Webhook (ℤ × List UInt8) := do
  enter
  if ← read Webhook.sending then
    leave
    return (-1, [])
  if (← read Webhook.tcpState) ≠ .connected then
    webhookConnect turn.connectNow turn.connect
    leave
    return (-1, [])
  let fits ← read fun wh => (wh.fill message turn.now).1
  update fun wh => (wh.fill message turn.now).2
  leave
  if fits then
    let data ← whTcpSend turn.tcp
    return (0, data)
  return (-1, [])

/-- `wh_server_found` -/
def whServerFound : MutexM Webhook Unit :=
  locked <| update fun wh => { wh with ipResolve := .resolved }

/-- What `dns_gethostbyname` returns. -/
inductive DnsResult
  | ok
  | inProgress
  | failed

/-- What the periodic run reads: whether the network is there, the times of its
parts, and what the resolver and TCP do. -/
structure WebhookTurn where
  wifi : Bool
  resolveNow : ℕ
  dns : DnsResult
  resolvingNow : ℕ
  connectNow : ℕ
  connect : TcpConnect
  checkNow : ℕ

/-- `webhook_resolve` -/
def webhookResolve (turn : WebhookTurn) : MutexM Webhook Unit := do
  let st ← locked <| read fun wh => (wh.ipResolve, wh.lastSend)
  match st.1 with
  | .notResolved =>
      match turn.dns with
      | .inProgress =>
          locked <| update fun wh =>
            { wh with lastSend := turn.resolvingNow, ipResolve := .resolving }
      | .ok => locked <| update fun wh => { wh with ipResolve := .resolved }
      | .failed => return
  | .resolving =>
      if ipTimeoutMs < turn.resolveNow - st.2 then
        locked <| update fun wh => { wh with ipResolve := .notResolved }
  | .resolved => return

/-- The client after `webhook_timeout_check`. -/
def Webhook.timeoutCheck (wh : Webhook) (now : ℕ) : Webhook :=
  if wh.sending ∧ ipTimeoutMs < now - wh.lastSend then
    { wh with sending := false, buffLen := 0, buffP := 0, lastReply := 0 }
  else wh

/-- `webhook_timeout_check` -/
def webhookTimeoutCheck (now : ℕ) : MutexM Webhook Unit :=
  locked <| update fun wh => wh.timeoutCheck now

/-- `sys_webhook_run` -/
def sysWebhookRun (turn : WebhookTurn) : MutexM Webhook Unit := do
  if turn.wifi then
    update fun wh => { wh with wifi := true }
    webhookResolve turn
    if ← read Webhook.keepOpen then
      webhookConnect turn.connectNow turn.connect
    webhookTimeoutCheck turn.checkNow
  else if ← read Webhook.wifi then
    webhookDisconnect
    update fun wh => { wh with wifi := false }

/-- `wh_parse_incoming`; `hcode` is what `wh_parse_http_reply` returns. -/
def whParseIncoming (hcode : ℤ) : MutexM Webhook Unit := do
  locked <| update id
  if 0 ≤ hcode then
    locked <| update fun wh => { wh with lastReply := .ofNat hcode.toNat }

/-- What `wh_tcp_recv_cb` is called with. -/
inductive Received
  | closed
  | error
  | data (hcode : ℤ)

/-- `wh_tcp_recv_cb` -/
def whTcpRecvCb : Received → MutexM Webhook Unit
  | .closed => webhookDisconnect
  | .error => return
  | .data hcode => whParseIncoming hcode

/-- `wh_tcp_connect_cb` -/
def whTcpConnectCb (ok : Bool) (now : ℕ) : MutexM Webhook Unit := do
  if ok then
    locked <| update fun wh =>
      { wh with tcpState := .connected, lastSend := now }

/-- `sys_webhook_log_status` -/
def sysWebhookLogStatus : MutexM Webhook Unit :=
  locked <| update id

/-! ## Entry points -/

inductive WebhookEvent
  | send (message : CStr) (turn : SendTurn)
  | run (turn : WebhookTurn)
  | reconnect
  | logStatus
  | serverFound
  | recvCb (received : Received)
  | errCb
  | connectCb (ok : Bool) (now : ℕ)

/-- The entry point: what it returns, and what TCP has taken. -/
def WebhookEvent.entry : WebhookEvent → MutexM Webhook (ℤ × List UInt8)
  | .send message turn => webhookSend message turn
  | .run turn => do
      sysWebhookRun turn
      return (0, [])
  | .reconnect => do
      webhookDisconnect
      return (0, [])
  | .logStatus => do
      sysWebhookLogStatus
      return (0, [])
  | .serverFound => do
      whServerFound
      return (0, [])
  | .recvCb received => do
      whTcpRecvCb received
      return (0, [])
  | .errCb => do
      whTcpErrCb
      return (0, [])
  | .connectCb ok now => do
      whTcpConnectCb ok now
      return (0, [])

/-- The client with its lock after the entry point; a call that waits for ever
changes nothing more. -/
def WebhookEvent.step (e : WebhookEvent) (x : Bool × Webhook) :
    Bool × Webhook :=
  ((e.entry x).map Prod.snd).getD x

/-- TCP calls back for its connection only. -/
def WebhookEvent.Enabled (x : Bool × Webhook) : WebhookEvent → Prop
  | .recvCb _ => x.2.tcpConn ≠ none ∧ x.2.tcpState = .connected
  | .errCb => x.2.tcpConn ≠ none ∧ x.2.errCb = true
  | .connectCb _ _ => x.2.tcpConn ≠ none ∧ x.2.tcpState = .connecting
  | .send _ _ | .run _ | .reconnect | .logStatus | .serverFound => True

def webhookMachine : EventMachine (Bool × Webhook) WebhookEvent where
  step := fun x e => e.step x
  enabled := WebhookEvent.Enabled

end Herak.Wh
