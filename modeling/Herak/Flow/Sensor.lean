import Mathlib.Data.List.FinRange
import Mathlib.Data.Rat.Floor
import Herak.Mqtt.Payload
import Herak.Support.BinaryFloat
import Herak.Support.CString
import Herak.Support.EventMachine

/-!
# Flow sensors

`flow_yf.c`: the pulses of a sensor are counted by an interrupt, the main loop
turns them into a flow and a volume, and a message with the volume is published
from time to time.  The code is generic in the arithmetic of `float`.
-/

namespace Herak.Flow

open CString
open Mqtt (addMqttMsgs mqttPayload)

/-- `MEASURE_TIME_MS` -/
def measureTimeMs : ℕ := 1000
/-- `MQTT_DATA_LEN` -/
def mqttDataLen : ℕ := 256
/-- `MQTT_DELAY_MS` -/
def mqttDelayMs : ℕ := 5000

/-- What the code does with `float`: conversions from and to `uint64_t`,
arithmetic, the test for zero, and `%3.2f` of a flow and of millilitres as
litres. -/
class FloatOps (F : Type) where
  ofNat : ℕ → F
  toNat : F → ℕ
  add : F → F → F
  mul : F → F → F
  div : F → F → F
  isZero : F → Bool
  flowText : F → CStr
  litreText : ℕ → CStr

/-- `struct flow_yf_sensor`, with the `force` of its MQTT component; a time of 0
is not set. -/
structure FlowSensor (F : Type) where
  pps : F
  pulse : ℕ
  flow : F
  force : Bool
  flowStart : ℕ
  lastRead : ℕ
  durationMs : ℕ
  lastFlowDate : ℕ
  totalFlowMl : ℕ
  lastResetDate : ℕ
  sendTotal : Bool
  totalMl : ℕ
  compForce : Bool

/-- `struct flow_yf_context_t`, with `idx` of `flow_yf_mqtt_send`. -/
structure FlowContext (F : Type) (count : ℕ) where
  sensors : Fin count → FlowSensor F
  accMsec : ℕ
  accMsecLast : ℕ
  mqttLastSend : ℕ
  idx : ℕ

/-- The clock: whether it was set, and the time that `tz_datetime_get` returns
if it does not fail. -/
structure Clock where
  ntpValid : Bool
  date : Option ℕ

section

variable {F : Type} [FloatOps F] {count : ℕ}

open FloatOps

/-- A sensor after `flow_yf_config_get` and `flow_yf_init`. -/
def FlowSensor.init (pps : F) (accMsec : ℕ) : FlowSensor F where
  pps := pps
  pulse := 0
  flow := ofNat 0
  force := false
  flowStart := 0
  lastRead := 0
  durationMs := 0
  lastFlowDate := 0
  totalFlowMl := 0
  lastResetDate := 0
  sendTotal := if 0 < accMsec then false else true
  totalMl := 0
  compForce := false

def FlowContext.init (pps : Fin count → F) (accMsec : ℕ) :
    FlowContext F count where
  sensors := fun i => .init (pps i) accMsec
  accMsec := accMsec
  accMsecLast := 0
  mqttLastSend := 0
  idx := 0

/-- `flow_yf_irq` -/
def flowYfIrq (sensor : FlowSensor F) : FlowSensor F :=
  { sensor with pulse := (sensor.pulse + 1) % 2 ^ 32 }

/-- `flow_yf_reset` -/
def flowYfReset (sensor : FlowSensor F) (clock : Clock) : FlowSensor F :=
  { sensor with
    totalMl := 0
    lastResetDate :=
      if clock.ntpValid then clock.date.getD sensor.lastResetDate
      else sensor.lastResetDate }

/-- The volume in millilitres that is added to a total of `total`. -/
def addVolume (total : ℕ) (flow : F) : ℕ :=
  toNat (add (ofNat total) (div (mul flow (ofNat 1000)) (ofNat 60)))

/-- The flow for a number of pulses in an interval. -/
def flowOf (sensor : FlowSensor F) (interval : ℕ) (data : ℕ) : F :=
  div (mul (div (ofNat measureTimeMs) (ofNat interval)) (ofNat data)) sensor.pps

/-- `flow_yf_sensor_data` -/
def flowYfSensorData (sensor : FlowSensor F) (now : ℕ) (clock : Clock) :
    FlowSensor F :=
  if now - sensor.lastRead < measureTimeMs then sensor
  else
    let data := sensor.pulse
    let sensor := { sensor with pulse := 0 }
    let sensor :=
      if data ≠ 0 then
        let sensor :=
          if isZero sensor.flow then
            { sensor with
              flowStart := now
              totalFlowMl := 0
              lastFlowDate := clock.date.getD sensor.lastFlowDate }
          else sensor
        let flow := flowOf sensor (now - sensor.lastRead) data
        { sensor with
          durationMs := now - sensor.flowStart
          flow := flow
          totalFlowMl := addVolume sensor.totalFlowMl flow
          totalMl := addVolume sensor.totalMl flow
          force := true }
      else if isZero sensor.flow then sensor
      else { sensor with flow := ofNat 0, force := true }
    { sensor with lastRead := now }

/-! ## Messages -/

/-- What a message is made with: the text of the time and of the dates, and
whether `mqtt_msg_component_publish` takes it. -/
structure MqttTurn where
  sendNow : ℕ
  dataNow : ℕ
  time : CStr
  dateText : ℕ → CStr
  publish : CStr → Bool

/-- The message until the total. -/
def messageHead (sensor : FlowSensor F) (turn : MqttTurn) : Option CStr :=
  addMqttMsgs mqttDataLen []
    [lit "\x7b", lit "\"time\": \"" ++ turn.time ++ lit "\"",
      lit ",\"flow\": \"" ++ flowText sensor.flow ++ lit "\""]

/-- The piece for a date, which may not be set. -/
def datePiece (name : CStr) (turn : MqttTurn) (date : ℕ) : CStr :=
  if date = 0 then lit ",\"" ++ name ++ lit "\":\"N/A\""
  else lit ",\"" ++ name ++ lit "\": \"" ++ turn.dateText date ++ lit "\""

/-- The message from the total, which is `tot` millilitres. -/
def messageTail (sensor : FlowSensor F) (turn : MqttTurn) (tot : ℕ)
    (head : CStr) : Option CStr :=
  addMqttMsgs mqttDataLen head
    [lit ",\"total\": \"" ++ litreText F tot ++ lit "\"",
      datePiece (lit "last_reset") turn sensor.lastResetDate,
      lit ",\"total_flow\": \"" ++ litreText F sensor.totalFlowMl ++ lit "\"",
      datePiece (lit "last_flow") turn sensor.lastFlowDate,
      lit ",\"duration_flow\": \"" ++
        lit (Nat.repr (sensor.durationMs / 60000)) ++ lit "\"",
      lit "\x7d"]

/-- The part of `flow_yf_mqtt_data_send` for the total: the sensor, and the
total of the message. -/
def takeTotal (sensor : FlowSensor F) (clock : Clock) : FlowSensor F × ℕ :=
  if sensor.sendTotal then
    ({ flowYfReset sensor clock with sendTotal := false }, sensor.totalMl)
  else (sensor, 0)

/-- What `flow_yf_mqtt_data_send` comes to: it stops before or after the
counter is reset, or it has built a message. -/
inductive DataSend (F : Type)
  | full
  | fullAfterTotal (sensor : FlowSensor F)
  | message (sensor : FlowSensor F) (payload : CStr)

/-- `flow_yf_mqtt_data_send` until the message is published. -/
def buildMessage (sensor : FlowSensor F) (clock : Clock) (turn : MqttTurn) :
    DataSend F :=
  match messageHead sensor turn with
  | none => .full
  | some head =>
      let result := takeTotal sensor clock
      match messageTail result.1 turn result.2 head with
      | none => .fullAfterTotal result.1
      | some payload => .message result.1 (mqttPayload mqttDataLen payload)

def FlowContext.setSensor (ctx : FlowContext F count) (i : Fin count)
    (sensor : FlowSensor F) : FlowContext F count :=
  { ctx with sensors := Function.update ctx.sensors i sensor }

/-- `flow_yf_mqtt_data_send` -/
def flowYfMqttDataSend (ctx : FlowContext F count) (i : Fin count)
    (clock : Clock) (turn : MqttTurn) : FlowContext F count :=
  match buildMessage (ctx.sensors i) clock turn with
  | .full => ctx
  | .fullAfterTotal sensor => ctx.setSensor i sensor
  | .message sensor payload =>
      if turn.publish payload then
        { ctx.setSensor i { sensor with force := false, compForce := false } with
          mqttLastSend := turn.dataNow }
      else ctx.setSensor i { sensor with force := false }

/-- The first loop of `flow_yf_mqtt_send`. -/
def FlowContext.markForced (ctx : FlowContext F count) : FlowContext F count :=
  { ctx with
    sensors := fun i =>
      if (ctx.sensors i).force then { ctx.sensors i with compForce := true }
      else ctx.sensors i }

/-- The index that `idx` stands for. -/
def FlowContext.nextIdx (ctx : FlowContext F count) : ℕ :=
  if count ≤ ctx.idx then 0 else ctx.idx

/-- The sensor that `flow_yf_mqtt_send` sends a message for, and the new value
of `idx`. -/
def FlowContext.chosen (ctx : FlowContext F count) (now : ℕ) :
    Option (Fin count × ℕ) :=
  match (List.finRange count).find? fun i => (ctx.sensors i).compForce with
  | some i => some (i, ctx.idx)
  | none =>
      if now - ctx.mqttLastSend < mqttDelayMs then none
      else if h : ctx.nextIdx < count then
        some (⟨ctx.nextIdx, h⟩, ctx.nextIdx + 1)
      else none

/-- `flow_yf_mqtt_send` -/
def flowYfMqttSend (ctx : FlowContext F count) (clock : Clock)
    (turn : MqttTurn) : FlowContext F count :=
  let ctx := ctx.markForced
  match ctx.chosen turn.sendNow with
  | none => ctx
  | some (i, idx) => flowYfMqttDataSend { ctx with idx := idx } i clock turn

/-! ## The main loop -/

/-- What a turn of the main loop reads. -/
structure FlowTurn (count : ℕ) where
  now : ℕ
  readNow : Fin count → ℕ
  clock : Clock
  mqtt : MqttTurn

/-- The reset of `flow_yf_run` at the first valid clock. -/
def clockReset (sensor : FlowSensor F) (clock : Clock) : FlowSensor F :=
  if sensor.lastResetDate = 0 ∧ clock.ntpValid then flowYfReset sensor clock
  else sensor

/-- The first loop of `flow_yf_run`. -/
def FlowContext.readSensors (ctx : FlowContext F count) (turn : FlowTurn count) :
    FlowContext F count :=
  { ctx with
    sensors := fun i =>
      flowYfSensorData (clockReset (ctx.sensors i) turn.clock) (turn.readNow i)
        turn.clock }

/-- The end of an interval of accumulation in `flow_yf_run`. -/
def FlowContext.endInterval (ctx : FlowContext F count) (now : ℕ) :
    FlowContext F count :=
  if 0 < ctx.accMsec ∧ ctx.accMsec ≤ now - ctx.accMsecLast then
    { ctx with
      accMsecLast := now
      sensors := fun i =>
        { ctx.sensors i with force := true, sendTotal := true } }
  else ctx

/-- `flow_yf_run` -/
def flowYfRun (ctx : FlowContext F count) (turn : FlowTurn count) :
    FlowContext F count :=
  flowYfMqttSend ((ctx.readSensors turn).endInterval turn.now) turn.clock
    turn.mqtt

/-- `cmd_flow_yf_reset` with valid parameters, of one sensor or of all. -/
def cmdFlowYfReset (ctx : FlowContext F count) (target : Option (Fin count))
    (clock : Clock) : FlowContext F count :=
  { ctx with
    sensors := fun i =>
      if target.all fun j => j = i then flowYfReset (ctx.sensors i) clock
      else ctx.sensors i }

end

/-! ## Exact arithmetic -/

/-- `%3.2f` of a number of hundredths. -/
def hundredthsText (n : ℕ) : CStr :=
  lit (Nat.repr (n / 100)) ++ lit "." ++ lit (Nat.repr (n / 10 % 10)) ++
    lit (Nat.repr (n % 10))

/-- The code with rational numbers in the place of `float`. -/
instance exactOps : FloatOps ℚ where
  ofNat := fun n => n
  toNat := fun x => ⌊x⌋₊
  add := fun x y => x + y
  mul := fun x y => x * y
  div := fun x y => x / y
  isZero := fun x => x = 0
  flowText := fun x =>
    hundredthsText (BinaryFloat.roundEven (100 * x.num.toNat) x.den)
  litreText := fun ml => hundredthsText (BinaryFloat.roundEven ml 10)

end Herak.Flow
