import Herak.Mqtt.Discovery
import Herak.Support.EventMachine

/-!
# Recovery of a stuck connection

`mqtt_connect` drops a connection on which too many messages have failed for
too long.  The failures are counted in eight bits: by `mqtt_msg_send` for the
messages that lwIP does not take, and by `mqtt_publish_cb` for those that it
does not get acknowledged.
-/

namespace Herak.Mqtt

open CInt

/-! ## The code -/

/-- `MAX_CONN_ERR` -/
def maxConnErr : ℕ := 10

/-- `CONN_ERR_TIME_MSEC` -/
def connErrTimeMsec : ℕ := 120000

/-- `IP_TIMEOUT_MS` -/
def ipTimeoutMs : ℕ := 20000

/-- `ERR_INPROGRESS` of lwIP -/
def errInprogress : ℤ := -5

/-- The part of `mqtt_context_t` that keeps the connection; `client` tells
whether there is a client and whether it is connected. -/
structure MqttConnector (Hook : Type*) where
  conn : MqttContext Hook
  client : Option Bool
  lastSend : ℕ

/-- What `mqtt_connect` reads and is answered: whether WiFi is connected, the
time when it starts and when it notes a request, and the results of
`dns_gethostbyname`, `mqtt_client_new` and `mqtt_client_connect`. -/
structure ConnectCall where
  wifi : Bool
  now : ℕ
  later : ℕ
  resolve : ℤ
  newClient : Bool
  connect : ℤ

variable {Hook : Type*}

namespace MqttConnector

def init (topics : List (MqttTopic Hook)) : MqttConnector Hook :=
  ⟨.init topics, none, 0⟩

/-- `mqtt_is_connected_ctx` -/
def mqttIsConnectedCtx (x : MqttConnector Hook) : Bool :=
  x.client.getD false

/-- `mqtt_disconnect` of the client, if there is one. -/
def mqttDisconnect (x : MqttConnector Hook) : MqttConnector Hook :=
  { x with client := x.client.map fun _ => false }

/-- `sys_mqtt_reconnect` with the client. -/
def reconnect (x : MqttConnector Hook) : MqttConnector Hook :=
  if x.conn.state = .init then { x with conn := sysMqttReconnect x.conn }
  else { x with conn := sysMqttReconnect x.conn }.mqttDisconnect

/-- The end of `mqtt_connect`, when the address is known. -/
def connectClient (x : MqttConnector Hook) (call : ConnectCall) :
    MqttConnector Hook :=
  let x :=
    if x.client.isSome then x.mqttDisconnect
    else { x with client := if call.newClient then some false else none }
  if x.client.isNone then x
  else if call.connect = 0 then
    { x with conn := { x.conn with state := .connecting }, lastSend := call.later }
  else { x with conn := { x.conn with state := .disconnected } }

/-- The part of `mqtt_connect` that looks up the address. -/
def resolveServer (x : MqttConnector Hook) (call : ConnectCall) :
    MqttConnector Hook :=
  match x.conn.severIpState with
  | .notResolved =>
      if call.resolve = errInprogress then
        { x with
          conn := { x.conn with severIpState := .resolving }
          lastSend := call.later }
      else if call.resolve = 0 then
        { x with conn := { x.conn with severIpState := .resolved } }.connectClient
          call
      else x
  | .resolved => x.connectClient call
  | .resolving =>
      if ipTimeoutMs < subU64 call.now x.lastSend then
        { x with conn := { x.conn with severIpState := .notResolved } }
      else x

/-- The test of `mqtt_connect` on a connection. -/
def isStuck (x : MqttConnector Hook) (now : ℕ) : Bool :=
  maxConnErr ≤ x.conn.sendErrCount &&
    connErrTimeMsec ≤ subU64 now x.conn.sendStart

/-- `mqtt_connect` -/
def mqttConnect (x : MqttConnector Hook) (call : ConnectCall) :
    Bool × MqttConnector Hook :=
  if call.wifi = false then
    (false, if x.mqttIsConnectedCtx then x.reconnect else x)
  else if x.mqttIsConnectedCtx then
    if x.isStuck call.now then (false, x.reconnect) else (true, x)
  else if x.conn.state = .connecting then
    if subU64 call.now x.lastSend < ipTimeoutMs then (false, x)
    else
      (false, { x.mqttDisconnect with
        conn := { x.conn with
          state := .disconnected
          severIpState := .notResolved } }.resolveServer call)
  else (false, x.resolveServer call)

/-- `mqtt_msg_send`, when lwIP answers `err`. -/
def msgSend (x : MqttConnector Hook) (err : ℤ) (now : ℕ) :
    MqttConnector Hook :=
  if x.mqttIsConnectedCtx then { x with conn := x.conn.noteSend err now }
  else x

/-- `mqtt_publish_cb` -/
def mqttPublishCb (x : MqttConnector Hook) (result : ℤ) :
    MqttConnector Hook :=
  { x with
    conn := { x.conn with
      sendInProgress := x.conn.sendInProgress - 1
      sendErrCount :=
        if result ≠ 0 then toUInt8 (x.conn.sendErrCount + 1)
        else x.conn.sendErrCount } }

/-- `mqtt_hook`, with what the client of lwIP has become. -/
def hook (x : MqttConnector Hook) (status : MqttConnectionStatus) :
    MqttConnector Hook :=
  { x with
    conn := mqttHook x.conn status
    client := x.client.map fun _ => status = .accepted }

/-- `mqtt_server_found` -/
def serverFound (x : MqttConnector Hook) : MqttConnector Hook :=
  { x with conn := { x.conn with severIpState := .resolved } }

end MqttConnector

/-- What happens to the connection. -/
inductive ConnectorEvent
  | send (err : ℤ) (now : ℕ)
  | publishCb (result : ℤ)
  | hook (status : MqttConnectionStatus)
  | serverFound
  | reconnect
  | connect (call : ConnectCall)

def connectorMachine (Hook : Type*) :
    EventMachine (MqttConnector Hook) ConnectorEvent where
  step := fun x e =>
    match e with
    | .send err now => x.msgSend err now
    | .publishCb result => x.mqttPublishCb result
    | .hook status => x.hook status
    | .serverFound => x.serverFound
    | .reconnect => x.reconnect
    | .connect call => (x.mqttConnect call).2
  enabled := fun _ _ => True

/-! ## The property and the condition -/

/-- `mqtt_connect` drops the connection. -/
def ForcesReconnection (x : MqttConnector Hook) (call : ConnectCall) : Prop :=
  x.mqttConnect call = (false, x.reconnect)

/-- How many messages have failed since the last one that was sent or the last
change of the connection. -/
def countFailures (x : MqttConnector Hook) (e : ConnectorEvent) (failed : ℕ) :
    ℕ :=
  match e with
  | .send err _ =>
      if x.mqttIsConnectedCtx then if err = 0 then 0 else failed + 1
      else failed
  | .publishCb result => if result = 0 then failed else failed + 1
  | .hook status => if status = .unknown then failed else 0
  | .serverFound => failed
  | .reconnect => 0
  | .connect call =>
      if x.mqttIsConnectedCtx ∧ (x.mqttConnect call).1 = false then 0
      else failed

def failureMachine (Hook : Type*) :
    EventMachine (MqttConnector Hook × ℕ) ConnectorEvent :=
  (connectorMachine Hook).recording countFailures

/-! ## The counter -/

/-- The counter holds the lowest eight bits of the number of failures. -/
def Counts (x : MqttConnector Hook × ℕ) : Prop :=
  x.1.conn.sendErrCount = x.2 % 256

theorem toUInt8_succ (n : ℕ) : toUInt8 ((n % 256 : ℕ) + 1) = (n + 1) % 256 := by
  unfold toUInt8
  omega

@[simp] theorem sysMqttReconnect_sendErrCount (ctx : MqttContext Hook) :
    (sysMqttReconnect ctx).sendErrCount = 0 := by
  unfold sysMqttReconnect
  dsimp only
  split <;> rfl

namespace MqttConnector

variable (x : MqttConnector Hook)

@[simp] theorem reconnect_sendErrCount : x.reconnect.conn.sendErrCount = 0 := by
  unfold reconnect
  split <;> exact sysMqttReconnect_sendErrCount x.conn

theorem connectClient_sendErrCount (call : ConnectCall) :
    (x.connectClient call).conn.sendErrCount = x.conn.sendErrCount := by
  unfold connectClient mqttDisconnect
  cases x.client with
  | some connected =>
      change (if call.connect = 0 then _ else _ :
        MqttConnector Hook).conn.sendErrCount = _
      split <;> rfl
  | none =>
      cases call.newClient with
      | false => rfl
      | true =>
          change (if call.connect = 0 then _ else _ :
            MqttConnector Hook).conn.sendErrCount = _
          split <;> rfl

theorem resolveServer_sendErrCount (call : ConnectCall) :
    (x.resolveServer call).conn.sendErrCount = x.conn.sendErrCount := by
  unfold resolveServer
  split
  · split
    · rfl
    · split
      · exact connectClient_sendErrCount _ call
      · rfl
  · exact connectClient_sendErrCount x call
  · split <;> rfl

/-- What `mqtt_connect` does to a connection, and to the counter if there is
none. -/
theorem mqttConnect_connected (call : ConnectCall)
    (h : x.mqttIsConnectedCtx = true) :
    x.mqttConnect call =
      if call.wifi = false ∨ x.isStuck call.now = true then (false, x.reconnect)
      else (true, x) := by
  unfold mqttConnect
  by_cases hwifi : call.wifi = false
  · rw [if_pos hwifi, if_pos h, if_pos (Or.inl hwifi)]
  · by_cases hstuck : x.isStuck call.now = true
    · rw [if_neg hwifi, if_pos h, if_pos hstuck, if_pos (Or.inr hstuck)]
    · rw [if_neg hwifi, if_pos h, if_neg hstuck,
        if_neg (not_or.mpr ⟨hwifi, hstuck⟩)]

theorem mqttConnect_disconnected (call : ConnectCall)
    (h : x.mqttIsConnectedCtx = false) :
    (x.mqttConnect call).2.conn.sendErrCount = x.conn.sendErrCount := by
  unfold mqttConnect
  rw [h]
  split
  · rfl
  · rw [if_neg Bool.false_ne_true]
    split
    · split
      · rfl
      · exact resolveServer_sendErrCount _ call
    · exact resolveServer_sendErrCount x call

end MqttConnector

/-- Each event keeps the counter in step with the failures. -/
theorem Counts.step (x : MqttConnector Hook × ℕ) (e : ConnectorEvent)
    (h : Counts x) : Counts ((failureMachine Hook).step x e) := by
  obtain ⟨x, failed⟩ := x
  have hcount : x.conn.sendErrCount = failed % 256 := h
  change ((connectorMachine Hook).step x e).conn.sendErrCount =
    countFailures x e failed % 256
  cases e with
  | send err now =>
      simp only [connectorMachine, MqttConnector.msgSend, MqttContext.noteSend,
        countFailures]
      split
      · split
        · rfl
        · rw [hcount]
          exact toUInt8_succ failed
      · exact hcount
  | publishCb result =>
      simp only [connectorMachine, MqttConnector.mqttPublishCb, countFailures,
        ne_eq, ite_not]
      split
      · exact hcount
      · rw [hcount]
        exact toUInt8_succ failed
  | hook status =>
      cases status with
      | unknown => exact hcount
      | _ => rfl
  | serverFound => exact hcount
  | reconnect => exact x.reconnect_sendErrCount
  | connect call =>
      simp only [connectorMachine, countFailures]
      cases hconnected : x.mqttIsConnectedCtx with
      | false =>
          rw [if_neg (fun h => Bool.false_ne_true h.1),
            x.mqttConnect_disconnected call hconnected]
          exact hcount
      | true =>
          rw [x.mqttConnect_connected call hconnected]
          split
          · rw [if_pos ⟨rfl, rfl⟩]
            exact x.reconnect_sendErrCount
          · rw [if_neg (fun h => Bool.false_ne_true h.2.symm)]
            exact hcount

/-- The counter is that of all failures in every state of a run. -/
theorem failureMachine_counts (topics : List (MqttTopic Hook))
    (es : List ConnectorEvent) :
    Counts ((failureMachine Hook).run (MqttConnector.init topics, 0) es) := by
  have hinit : Counts (MqttConnector.init topics, 0) := rfl
  exact (failureMachine Hook).invariant (I := Counts) Counts.step hinit es

/-! ## The recovery -/

/-- In every run: when the client is connected and the last message was sent two
minutes ago or more, `mqtt_connect` drops the connection exactly if WiFi is down
or the lowest eight bits of the number of failures are ten or more. -/
theorem mqttConnect_recovers_iff (topics : List (MqttTopic Hook))
    (es : List ConnectorEvent) (call : ConnectCall)
    (x : MqttConnector Hook) (failed : ℕ)
    (hrun : (failureMachine Hook).run (MqttConnector.init topics, 0) es =
      (x, failed))
    (hconnected : x.mqttIsConnectedCtx = true)
    (htime : x.conn.sendStart + connErrTimeMsec ≤ call.now)
    (hnow : call.now < 2 ^ 64) :
    ForcesReconnection x call ↔
      call.wifi = false ∨ maxConnErr ≤ failed % 256 := by
  have hcount : x.conn.sendErrCount = failed % 256 := by
    have hcounts := failureMachine_counts topics es
    rwa [hrun] at hcounts
  have helapsed : connErrTimeMsec ≤ subU64 call.now x.conn.sendStart := by
    unfold subU64
    omega
  have hstuck : x.isStuck call.now = true ↔ maxConnErr ≤ failed % 256 := by
    simp [MqttConnector.isStuck, hcount, helapsed]
  rw [ForcesReconnection, x.mqttConnect_connected call hconnected, ← hstuck]
  split
  next h => exact ⟨fun _ => h, fun _ => rfl⟩
  next h =>
    exact ⟨fun heq => absurd (Prod.mk.inj heq).1 (by decide),
      fun h' => (h h').elim⟩

/-- A client that connects, and then cannot send any message. -/
def failingSends (n : ℕ) : List ConnectorEvent :=
  [.connect ⟨true, 1000, 1000, 0, true, 0⟩, .hook .accepted] ++
    List.replicate n (.send (-1) 2000)

/-- What is left after it. -/
def failingState (n : ℕ) : MqttConnector Unit × ℕ :=
  (failureMachine Unit).run (MqttConnector.init [], 0) (failingSends n)

/-- A connection check two minutes after the start. -/
def lateCheck : ConnectCall := ⟨true, 200000, 200000, 0, true, 0⟩

theorem mqttConnect_recovers_ten :
    ForcesReconnection (failingState 10).1 lateCheck ↔
      lateCheck.wifi = false ∨ maxConnErr ≤ 10 % 256 :=
  mqttConnect_recovers_iff [] (failingSends 10) lateCheck (failingState 10).1 10
    rfl rfl (by decide) (by decide)

/-- After 256 failures the connection is kept. -/
theorem not_mqttConnect_recovers :
    (failingState 256).1.mqttIsConnectedCtx = true ∧
      maxConnErr ≤ (failingState 256).2 ∧
      (failingState 256).1.conn.sendStart + connErrTimeMsec ≤ lateCheck.now ∧
      ¬ForcesReconnection (failingState 256).1 lateCheck := by
  refine ⟨by decide +kernel, by decide +kernel, by decide +kernel, ?_⟩
  intro hforces
  have hkept : ((failingState 256).1.mqttConnect lateCheck).1 = true := by
    decide +kernel
  rw [hforces] at hkept
  cases hkept

end Herak.Mqtt
