import Herak.Mqtt.TopicList
import Herak.Support.CInt
import Herak.Support.EventMachine

/-!
# Discovery messages

`mqtt_publish.c` and `mqtt_config_send`: after every connection, and then once
in an hour, the client sends its status, a discovery message for the device and
one for each registered component, and subscribes to its topics.  A call of
`mqtt_config_send` sends at most one of them; flags and an index say which one
is next.
-/

namespace Herak.Mqtt

open CInt CString

variable {Hook : Type*}

/-! ## The texts -/

/-- `MQTT_DISCOVERY_MAX_COUNT` -/
def mqttDiscoveryMaxCount : ℕ := 512

/-- `MQTT_DISCOVERY_BUFF_SIZE` -/
def mqttDiscoveryBuffSize : ℕ := 640

/-- `CONFIG_INTERVAL_MSEC` -/
def configIntervalMsec : ℕ := 3600000

/-- `ONLINE_MSG` -/
def onlineMsg : CStr := lit "online"

/-- `OFFLINE_MSG` -/
def offlineMsg : CStr := lit "offline"

/-- `mqtt_component_t`: the texts that a discovery message is made of. -/
structure MqttComponent where
  moduleName : CStr
  name : CStr
  platform : CStr
  devClass : Option CStr
  unit : Option CStr
  valueTemplate : CStr
  payloadOn : Option CStr
  payloadOff : Option CStr
  stateTopic : Option CStr
  deriving DecidableEq

/-- The names that `sys_mqtt_init` gives the client. -/
structure MqttNames where
  clientId : CStr
  stateTopic : CStr
  deriving DecidableEq

def MqttNames.statusTopic (names : MqttNames) : CStr :=
  snprintf mqttMaxTopicSize (names.stateTopic ++ lit "/status")

/-- The state topic that a component is registered with. -/
def MqttNames.componentTopic (names : MqttNames) (c : MqttComponent) : CStr :=
  names.stateTopic ++ lit "/" ++ c.moduleName ++ lit "/" ++ c.name ++
    lit "/status"

structure DiscoveryMessage where
  topic : CStr
  text : CStr
  deriving DecidableEq

/-- `ADD_STR`: the buffer and the size that is left of it. -/
def addStr (buff : CStr) (size : ℤ) (piece : CStr) : CStr × ℤ :=
  (buff ++ snprintf size.toNat piece, size - strlen piece)

/-- The pieces up to the first one that leaves a negative size. -/
def addStrs (buff : CStr) (size : ℤ) : List CStr → CStr × ℤ
  | [] => (buff, size)
  | piece :: pieces =>
      if (addStr buff size piece).2 < 0 then addStr buff size piece
      else addStrs (addStr buff size piece).1 (addStr buff size piece).2 pieces

/-- The common body of the two functions that generate a message; the result
comes with what is in the buffers. -/
def mqttDiscoveryGenerate (topic : CStr) (pieces : List CStr) :
    ℤ × DiscoveryMessage :=
  if strlen topic ≤ 0 then (-1, ⟨[], []⟩)
  else
    ((addStrs [] mqttDiscoveryBuffSize pieces).2,
      ⟨snprintf mqttMaxTopicSize topic,
        (addStrs [] mqttDiscoveryBuffSize pieces).1⟩)

/-- A field that follows another one. -/
def discoveryField (key : String) (value : CStr) : CStr :=
  lit ",\"" ++ lit key ++ lit "\": \"" ++ value ++ lit "\""

/-- The device section at the begin of every message. -/
def devicePieces (names : MqttNames) : List CStr :=
  [lit "\x7b\"device\":\x7b",
    lit "\"identifiers\": [\"" ++ names.clientId ++ lit "\"]",
    discoveryField "name" names.clientId,
    lit "\x7d"]

def componentTopicText (names : MqttNames) (c : MqttComponent) : CStr :=
  lit "homeassistant/" ++ c.platform ++ lit "/" ++ names.stateTopic ++
    lit "_" ++ c.moduleName ++ lit "_" ++ c.name ++ lit "/config"

def componentPieces (names : MqttNames) (c : MqttComponent) : List CStr :=
  devicePieces names ++
    ((c.devClass.map (discoveryField "device_class")).toList ++
      (c.unit.map (discoveryField "unit_of_measurement")).toList ++
      [discoveryField "value_template" c.valueTemplate,
        discoveryField "name" (c.moduleName ++ lit "_" ++ c.name),
        discoveryField "unique_id"
          (names.clientId ++ lit "_" ++ c.moduleName ++ lit "_" ++ c.name),
        discoveryField "state_topic" (c.stateTopic.getD (lit "(null)")),
        discoveryField "json_attributes_topic" (names.componentTopic c),
        discoveryField "json_attributes_template"
          (lit "\x7b\x7b value_json | tojson \x7d\x7d")] ++
      (c.payloadOn.map (discoveryField "payload_on")).toList ++
      (c.payloadOff.map (discoveryField "payload_off")).toList ++
      [lit "\x7d"])

/-- `mqtt_discovery_generate_component` -/
def mqttDiscoveryGenerateComponent (names : MqttNames) (c : MqttComponent) :
    ℤ × DiscoveryMessage :=
  mqttDiscoveryGenerate (componentTopicText names c) (componentPieces names c)

/-- The port of the web server, 0 without one, and the address of the device. -/
structure WebAddress where
  port : ℕ
  address : CStr

def deviceTopicText (names : MqttNames) : CStr :=
  lit "homeassistant/device/" ++ names.stateTopic ++ lit "/config"

def deviceMessagePieces (names : MqttNames) (web : WebAddress) : List CStr :=
  devicePieces names ++
    ([lit ",\"origin\":\x7b",
        lit "\"name\": \"" ++ names.clientId ++ lit "\""] ++
      (if web.port = 0 then []
        else [discoveryField "url" (lit "http://" ++ web.address ++ lit ":" ++
          decimal web.port ++ lit "/help")]) ++
      [lit "\x7d",
        lit ",\"components\":\x7b",
        lit "\"" ++ names.clientId ++ lit "-device\": \x7b",
        lit "\"platform\": \"binary_sensor\"",
        discoveryField "device_class" (lit "connectivity"),
        discoveryField "name" (names.clientId ++ lit "_device_link"),
        discoveryField "unique_id" (names.clientId ++ lit "_device_link"),
        discoveryField "payload_on" onlineMsg,
        discoveryField "payload_off" offlineMsg,
        lit "\x7d\x7d",
        discoveryField "state_topic" names.statusTopic,
        discoveryField "availability_topic" names.statusTopic,
        discoveryField "payload_available" onlineMsg,
        discoveryField "payload_not_available" offlineMsg,
        lit "\x7d"])

/-- `mqtt_discovery_generate_device` -/
def mqttDiscoveryGenerateDevice (names : MqttNames) (web : WebAddress) :
    ℤ × DiscoveryMessage :=
  mqttDiscoveryGenerate (deviceTopicText names) (deviceMessagePieces names web)

/-! ### What is generated -/

/-- The message that a topic and pieces are meant for. -/
def discoveryMessage (topic : CStr) (pieces : List CStr) : DiscoveryMessage :=
  ⟨snprintf mqttMaxTopicSize topic, pieces.flatten⟩

/-- A message fits the buffer with its terminator. -/
def DiscoveryMessage.Fits (msg : DiscoveryMessage) : Prop :=
  msg.text.length < mqttDiscoveryBuffSize

instance (msg : DiscoveryMessage) : Decidable msg.Fits :=
  inferInstanceAs (Decidable (_ < _))

def MqttNames.componentMessage (names : MqttNames) (c : MqttComponent) :
    DiscoveryMessage :=
  discoveryMessage (componentTopicText names c) (componentPieces names c)

def MqttNames.deviceMessage (names : MqttNames) (web : WebAddress) :
    DiscoveryMessage :=
  discoveryMessage (deviceTopicText names) (deviceMessagePieces names web)

/-- Pieces that fit are added as they are. -/
theorem addStrs_of_lt (pieces : List CStr) :
    ∀ (buff : CStr) (size : ℤ), (pieces.flatten.length : ℤ) < size →
      addStrs buff size pieces =
        (buff ++ pieces.flatten, size - pieces.flatten.length) := by
  induction pieces with
  | nil =>
      intro buff size _
      simp [addStrs]
  | cons piece pieces ih =>
      intro buff size hsize
      rw [List.flatten_cons, List.length_append] at hsize
      have hpiece : snprintf size.toNat piece = piece :=
        snprintf_of_lt (by omega)
      have hleft : ¬(addStr buff size piece).2 < 0 := by
        simp only [addStr, strlen_eq]
        omega
      rw [addStrs, if_neg hleft]
      simp only [addStr, strlen_eq, hpiece]
      rw [ih _ _ (by omega)]
      simp only [List.flatten_cons, List.length_append, List.append_assoc]
      congr 1
      omega

/-- Other pieces leave no size. -/
theorem addStrs_of_le (pieces : List CStr) :
    ∀ (buff : CStr) (size : ℤ), size ≤ pieces.flatten.length →
      (addStrs buff size pieces).2 ≤ 0 := by
  induction pieces with
  | nil =>
      intro buff size hsize
      simpa [addStrs] using hsize
  | cons piece pieces ih =>
      intro buff size hsize
      rw [List.flatten_cons, List.length_append] at hsize
      rw [addStrs]
      by_cases hleft : (addStr buff size piece).2 < 0
      · rw [if_pos hleft]
        exact hleft.le
      · rw [if_neg hleft]
        apply ih
        simp only [addStr, strlen_eq]
        omega

/-- A function that generates a message succeeds if it fits, and then it is the
message in the buffer. -/
theorem mqttDiscoveryGenerate_spec {topic : CStr} (htopic : topic ≠ [])
    (pieces : List CStr) :
    (0 < (mqttDiscoveryGenerate topic pieces).1 ↔
        (discoveryMessage topic pieces).Fits) ∧
      ((discoveryMessage topic pieces).Fits →
        (mqttDiscoveryGenerate topic pieces).2 =
          discoveryMessage topic pieces) := by
  have hlen : ¬strlen topic ≤ 0 := by
    rw [strlen_eq]
    exact Nat.not_le.mpr (List.length_pos_of_ne_nil htopic)
  rw [mqttDiscoveryGenerate, if_neg hlen]
  by_cases hfits : (discoveryMessage topic pieces).Fits
  · have hsize : (pieces.flatten.length : ℤ) < mqttDiscoveryBuffSize :=
      Int.ofNat_lt.mpr hfits
    rw [addStrs_of_lt pieces [] _ hsize]
    refine ⟨⟨fun _ => hfits, fun _ => ?_⟩, fun _ => rfl⟩
    exact Int.sub_pos_of_lt hsize
  · have hsize : (mqttDiscoveryBuffSize : ℤ) ≤ pieces.flatten.length :=
      Int.ofNat_le.mpr (Nat.le_of_not_lt hfits)
    have hnone := addStrs_of_le pieces [] _ hsize
    exact ⟨⟨fun h => (hnone.not_gt h).elim, fun h => (hfits h).elim⟩,
      fun h => (hfits h).elim⟩

theorem componentTopicText_ne_nil (names : MqttNames) (c : MqttComponent) :
    componentTopicText names c ≠ [] := by
  simp [componentTopicText, lit]

theorem deviceTopicText_ne_nil (names : MqttNames) :
    deviceTopicText names ≠ [] := by
  simp [deviceTopicText, lit]

/-! ## The context -/

/-- What the broker client of lwIP has accepted. -/
inductive BrokerRequest
  | publish (topic text : CStr)
  | subscribe (topic : CStr)
  deriving DecidableEq

/-- The broker client of lwIP: whether it is connected, and what it has
accepted since its connection was accepted. -/
structure BrokerClient where
  connected : Bool
  accepted : List BrokerRequest

/-- A call of `mqtt_publish` or `mqtt_subscribe` that returns `err`. -/
def BrokerClient.request (client : BrokerClient) (r : BrokerRequest) (err : ℤ) :
    BrokerClient :=
  if err = 0 then { client with accepted := client.accepted ++ [r] }
  else client

/-- The client reports a change of the connection. -/
def BrokerClient.report (client : BrokerClient) :
    MqttConnectionStatus → BrokerClient
  | .accepted => ⟨true, []⟩
  | _ => { client with connected := false }

def BrokerClient.disconnect (client : BrokerClient) : BrokerClient :=
  { client with connected := false }

/-- `components` and `cmp_count` -/
structure MqttComponents where
  list : List MqttComponent
  length_le : list.length ≤ mqttDiscoveryMaxCount

/-- The part of `mqtt_context_t` that sends the configuration. -/
structure MqttSender (Hook : Type*) where
  conn : MqttContext Hook
  topics : MqttTopics Hook
  client : Option BrokerClient
  names : MqttNames
  components : MqttComponents
  sendIdx : ℕ
  discoveryDev : Bool
  discoveryComp : Bool
  status : Bool

/-- A call of `mqtt_config_send`: its time, the address of the device, and what
`mqtt_publish` and `mqtt_subscribe` return, if they are called. -/
structure ConfigCall where
  now : ℕ
  sentAt : ℕ
  web : WebAddress
  publish : ℤ
  subscribe : ℤ

/-- The counters that `mqtt_msg_send` keeps. -/
def MqttContext.noteSend (ctx : MqttContext Hook) (err : ℤ) (now : ℕ) :
    MqttContext Hook :=
  if err = 0 then
    { ctx with
      sendErrCount := 0
      sendInProgress := ctx.sendInProgress + 1
      sendStart := now }
  else { ctx with sendErrCount := toUInt8 (ctx.sendErrCount + 1) }

namespace MqttSender

def init (names : MqttNames) : MqttSender Hook where
  conn := .init []
  topics := .init
  client := none
  names := names
  components := ⟨[], Nat.zero_le _⟩
  sendIdx := 0
  discoveryDev := false
  discoveryComp := false
  status := false

/-- `cmp_count` -/
def cmpCount (x : MqttSender Hook) : ℕ :=
  x.components.list.length

/-- `mqtt_is_connected_ctx` -/
def mqttIsConnected (x : MqttSender Hook) : Bool :=
  x.client.any (·.connected)

/-- `mqtt_is_discovery_sent` -/
def mqttIsDiscoverySent (x : MqttSender Hook) : Bool :=
  x.client.isSome && decide (x.cmpCount ≤ x.conn.discoverySend)

/-- What the broker client has accepted. -/
def accepted (x : MqttSender Hook) : List BrokerRequest :=
  x.client.elim [] (·.accepted)

/-! ## Sending -/

/-- `mqtt_msg_send` -/
def mqttMsgSend (x : MqttSender Hook) (topic message : CStr)
    (call : ConfigCall) : ℤ × MqttSender Hook :=
  if x.mqttIsConnected = false then (-1, x)
  else
    (if call.publish = 0 then 0 else -1,
      { x with
        conn := x.conn.noteSend call.publish call.sentAt
        client := x.client.map
          (·.request (.publish topic message) call.publish) })

/-- A message is sent if it fits its buffer. -/
def sendGenerated (x : MqttSender Hook) (msg : ℤ × DiscoveryMessage)
    (call : ConfigCall) : ℤ × MqttSender Hook :=
  if 0 < msg.1 then x.mqttMsgSend msg.2.topic msg.2.text call
  else (-1, x)

/-- `mqtt_msg_discovery_send_device` -/
def mqttMsgDiscoverySendDevice (x : MqttSender Hook) (call : ConfigCall) :
    ℤ × MqttSender Hook :=
  x.sendGenerated (mqttDiscoveryGenerateDevice x.names call.web) call

/-- `mqtt_msg_discovery_send` -/
def mqttMsgDiscoverySend (x : MqttSender Hook) (call : ConfigCall) :
    ℤ × MqttSender Hook :=
  match x.components.list[x.sendIdx]? with
  | none => (-1, x)
  | some comp =>
      x.sendGenerated (mqttDiscoveryGenerateComponent x.names comp) call

/-- `mqtt_send_subscribe` on the topics of the context. -/
def sendSubscribe (x : MqttSender Hook) (call : ConfigCall) :
    Option (ℤ × MqttSender Hook) :=
  (mqttSendSubscribe { x.topics with state := x.conn.state }
    call.subscribe).map fun result =>
      (result.1,
        { x with
          topics := result.2.2
          client := (result.2.1.bind x.topics.entry).elim x.client fun t =>
            x.client.map (·.request (.subscribe t.topic) call.subscribe) })

/-! ## `mqtt_config_send` -/

/-- A new round begins. -/
def roundDue (x : MqttSender Hook) (now : ℕ) : Bool :=
  x.conn.configLastSend == 0 ||
    decide (configIntervalMsec < subU64 now x.conn.configLastSend)

def beginRound (x : MqttSender Hook) : Option (MqttSender Hook) :=
  let x := { x with discoveryDev := true }
  let x :=
    if 0 < x.cmpCount then { x with discoveryComp := true, sendIdx := 0 }
    else x
  let x := if x.names.statusTopic ≠ [] then { x with status := true } else x
  if x.topics.count ≠ 0 then
    (mqttSubscribeAll x.topics).map fun t => { x with topics := t }
  else some x

/-- The status phase; the first result is `sent`. -/
def configStatus (x : MqttSender Hook) (call : ConfigCall) :
    Bool × MqttSender Hook :=
  let result := x.mqttMsgSend x.names.statusTopic onlineMsg call
  if result.1 = 0 then (true, { result.2 with status := false })
  else (false, result.2)

/-- The device phase, which does not count as sent. -/
def configDevice (x : MqttSender Hook) (call : ConfigCall) :
    Bool × MqttSender Hook :=
  let result := x.mqttMsgDiscoverySendDevice call
  if result.1 = 0 then (false, { result.2 with discoveryDev := false })
  else (false, result.2)

/-- The end of the component phase. -/
def endComponents (x : MqttSender Hook) : MqttSender Hook :=
  if x.cmpCount ≤ x.sendIdx then
    { x with sendIdx := 0, discoveryComp := false }
  else x

/-- A component is counted. -/
def countComponent (x : MqttSender Hook) : MqttSender Hook :=
  { x with
    conn := { x.conn with
      discoverySend := toUInt32 (x.conn.discoverySend + 1) }
    sendIdx := x.sendIdx + 1 }

/-- The component phase. -/
def configComponent (x : MqttSender Hook) (call : ConfigCall) :
    Bool × MqttSender Hook :=
  let result := x.mqttMsgDiscoverySend call
  if result.1 = 0 then (true, result.2.countComponent.endComponents)
  else (false, result.2.endComponents)

/-- The subscribe phase. -/
def configSubscribe (x : MqttSender Hook) (call : ConfigCall) :
    Option (Bool × MqttSender Hook) :=
  if x.topics.count ≠ 0 ∧ x.topics.subscribe < x.topics.count then
    (x.sendSubscribe call).map fun result =>
      (decide (result.1 = 0), result.2)
  else some (false, x)

/-- The first phase whose flag is set. -/
def configPhase (x : MqttSender Hook) (call : ConfigCall) :
    Option (Bool × MqttSender Hook) :=
  if x.status then some (x.configStatus call)
  else if x.discoveryDev then some (x.configDevice call)
  else if x.discoveryComp then some (x.configComponent call)
  else x.configSubscribe call

/-- `config.last_send` at the end of the call. -/
def noteRound (now : ℕ) (result : Bool × MqttSender Hook) : MqttSender Hook :=
  if result.1 then
    { result.2 with conn := { result.2.conn with configLastSend := now } }
  else result.2

/-- `mqtt_config_send`; there is no context behind a read outside of the array
of topics. -/
def mqttConfigSend (x : MqttSender Hook) (call : ConfigCall) :
    Option (MqttSender Hook) :=
  if x.mqttIsConnected = false then some x
  else
    (if x.roundDue call.now then x.beginRound else some x).bind fun x =>
      (x.configPhase call).map (noteRound call.now)

/-! ## The other calls -/

/-- `mqtt_msg_component_register` -/
def mqttMsgComponentRegister (x : MqttSender Hook) (c : MqttComponent) :
    ℤ × MqttSender Hook :=
  if h : mqttDiscoveryMaxCount ≤ x.cmpCount then (-1, x)
  else
    let c := { c with
      stateTopic := some (c.stateTopic.getD (x.names.componentTopic c)) }
    (x.cmpCount,
      { x with
        components := ⟨x.components.list ++ [c], by
          rw [List.length_append, List.length_singleton]
          exact Nat.lt_of_not_le h⟩
        conn := { x.conn with configLastSend := 0 } })

/-- lwIP reports to `mqtt_hook`. -/
def report (x : MqttSender Hook) (status : MqttConnectionStatus) :
    MqttSender Hook :=
  { x with
    conn := mqttHook x.conn status
    client := x.client.map (·.report status) }

/-- `sys_mqtt_reconnect` -/
def reconnect (x : MqttSender Hook) : MqttSender Hook :=
  { x with
    conn := sysMqttReconnect x.conn
    client :=
      if x.conn.state = .init then x.client
      else x.client.map (·.disconnect) }

/-- The end of `mqtt_connect`, which takes a new client if there is none. -/
def mqttConnect (x : MqttSender Hook) : MqttSender Hook :=
  { x with
    conn := { x.conn with state := .connecting }
    client := some ((x.client.getD ⟨false, []⟩).disconnect) }

end MqttSender

/-! ## What is sent -/

/-- The request that a discovery message is published with. -/
def DiscoveryMessage.request (msg : DiscoveryMessage) : BrokerRequest :=
  .publish msg.topic msg.text

namespace MqttContext

variable (ctx : MqttContext Hook) (err : ℤ) (now : ℕ)

@[simp] theorem noteSend_state : (ctx.noteSend err now).state = ctx.state := by
  unfold noteSend
  split <;> rfl

@[simp] theorem noteSend_discoverySend :
    (ctx.noteSend err now).discoverySend = ctx.discoverySend := by
  unfold noteSend
  split <;> rfl

@[simp] theorem noteSend_configLastSend :
    (ctx.noteSend err now).configLastSend = ctx.configLastSend := by
  unfold noteSend
  split <;> rfl

end MqttContext

namespace MqttSender

/-- A generated message is sent exactly if it fits. -/
theorem sendGenerated_eq (x : MqttSender Hook) {topic : CStr}
    (htopic : topic ≠ []) (pieces : List CStr) (call : ConfigCall) :
    x.sendGenerated (mqttDiscoveryGenerate topic pieces) call =
      if (discoveryMessage topic pieces).Fits then
        x.mqttMsgSend (discoveryMessage topic pieces).topic
          (discoveryMessage topic pieces).text call
      else (-1, x) := by
  obtain ⟨hpos, hmsg⟩ := mqttDiscoveryGenerate_spec htopic pieces
  rw [sendGenerated]
  by_cases hfits : (discoveryMessage topic pieces).Fits
  · rw [if_pos (hpos.mpr hfits), if_pos hfits, hmsg hfits]
  · rw [if_neg (mt hpos.mp hfits), if_neg hfits]

end MqttSender

/-! ## Runs -/

/-- A call of one of the functions, with the outcomes of what it calls, or a
report of lwIP. -/
inductive SenderEvent (Hook : Type*)
  | register (c : MqttComponent)
  | listen (r : ListenCall Hook)
  | connect
  | report (status : MqttConnectionStatus)
  | reconnect
  | configSend (call : ConfigCall)

def SenderEvent.call (x : MqttSender Hook) :
    SenderEvent Hook → Option (MqttSender Hook)
  | .register c => some (x.mqttMsgComponentRegister c).2
  | .listen r =>
      (r.call none x.topics).map fun result => { x with topics := result.2 }
  | .connect => some x.mqttConnect
  | .report status => some (x.report status)
  | .reconnect => some x.reconnect
  | .configSend call => x.mqttConfigSend call

/-- The client; there is none behind an access outside of the array of
topics. -/
def senderMachine :
    EventMachine (Option (MqttSender Hook)) (SenderEvent Hook) where
  step := fun x e => x.bind (e.call ·)
  enabled := fun _ _ => True

def senderAfter (names : MqttNames) (es : List (SenderEvent Hook)) :
    Option (MqttSender Hook) :=
  senderMachine.run (some (.init names)) es

end Herak.Mqtt
