import Herak.Common.Internal
import Herak.Mqtt.Listen

/-!
# MQTT connection events

The parts of the client that lwIP calls when the connection changes
(`mqttHook`) and that the system calls to drop it (`sysMqttReconnect`).  Both
reset the sending half of the context.
-/

namespace Herak.Mqtt

inductive MqttClientState
  | init
  | disconnected
  | connecting
  | connected
  deriving DecidableEq

/-- The states lwIP reports to the connection callback. -/
inductive MqttConnectionStatus
  | accepted
  | refusedProtocolVersion
  | refusedIdentifier
  | refusedServer
  | refusedUsernamePass
  | refusedNotAuthorized
  | disconnected
  | timeout
  | unknown
  deriving DecidableEq

/-- `mqtt_context_t`: the receive half and the connection bookkeeping. -/
structure MqttContext (Hook : Type*) where
  listen : MqttListen Hook
  state : MqttClientState
  severIpState : IpResolveState
  connectCount : ℕ
  sendInProgress : ℤ
  sendStart : ℕ
  sendErrCount : ℕ
  discoverySend : ℕ
  configLastSend : ℕ

def MqttContext.init {Hook : Type*} (topics : List (MqttTopic Hook)) :
    MqttContext Hook where
  listen := MqttListen.init topics
  state := .init
  severIpState := .notResolved
  connectCount := 0
  sendInProgress := 0
  sendStart := 0
  sendErrCount := 0
  discoverySend := 0
  configLastSend := 0

variable {Hook : Type*}

/-- The connection callback.  On acceptance it also registers the two incoming
callbacks with lwIP. -/
def mqttHook (ctx : MqttContext Hook) (status : MqttConnectionStatus) :
    MqttContext Hook :=
  let ctx := { ctx with sendInProgress := 0 }
  match status with
  | .accepted =>
      { ctx with
        connectCount :=
          if ctx.state = .connected then ctx.connectCount
          else ctx.connectCount + 1
        state := .connected
        discoverySend := 0
        configLastSend := 0
        sendErrCount := 0 }
  | .disconnected | .timeout
  | .refusedProtocolVersion | .refusedIdentifier | .refusedServer
  | .refusedUsernamePass | .refusedNotAuthorized =>
      { ctx with state := .disconnected, sendErrCount := 0 }
  | .unknown => ctx

def sysMqttReconnect (ctx : MqttContext Hook) : MqttContext Hook :=
  let ctx := { ctx with sendErrCount := 0, sendStart := 0 }
  if ctx.state = .init then ctx
  else { ctx with state := .disconnected, severIpState := .notResolved }

/-- No connection event touches the receive half. -/
@[simp] theorem mqttHook_listen
    (ctx : MqttContext Hook) (status : MqttConnectionStatus) :
    (mqttHook ctx status).listen = ctx.listen := by
  cases status <;> rfl

@[simp] theorem sysMqttReconnect_listen (ctx : MqttContext Hook) :
    (sysMqttReconnect ctx).listen = ctx.listen := by
  simp only [sysMqttReconnect]
  split <;> rfl

end Herak.Mqtt
