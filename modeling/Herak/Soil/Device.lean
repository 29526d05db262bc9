import Mathlib.Data.Fintype.Basic
import Mathlib.Data.List.FinRange
import Mathlib.Data.UInt
import Mathlib.Logic.Function.Basic
import Herak.Support.EventMachine
import Herak.Support.Tokens

/-!
# Soil sensors

`soil.c`: a sensor has a digital output, an analog one, or both.  The table of
the sensors is filled from two lists of ids and pins, and the loops over it end
at `sensors_count`, the number of the sensors.
-/

namespace Herak.Soil

open CString

/-- `MAX_SOIL_SENSORS_COUNT` -/
abbrev maxSoilSensorsCount : ℕ := 5

/-- Number of a sensor. -/
abbrev SoilIdx := Fin maxSoilSensorsCount

/-- `MQTT_SEND_INTERVAL_MS` -/
def mqttSendIntervalMs : UInt64 := 10000

/-- `MEASURE_INTERVAL_MS` -/
def measureIntervalMs : UInt64 := 5000

/-- `WH_SEND_DELAY_MS` -/
def whSendDelayMs : UInt64 := 5000

/-- `soil_sensor_analog_t`: whether there is an ADC sensor. -/
structure SoilAnalog where
  adc : Bool
  deriving DecidableEq

/-- `soil_sensor_t`; `force` is that of its MQTT component. -/
structure SoilSensor where
  analogPin : ℤ
  analog : Option SoilAnalog
  digitalPin : ℤ
  lastDigital : Bool
  whSend : Bool
  whLastSend : UInt64
  force : Bool

/-- The MQTT components of a sensor, `Soil_<id>` and `SoilA_<id>`. -/
inductive SoilComponent
  | soil (i : SoilIdx)
  | soilA (i : SoilIdx)
  deriving DecidableEq

/-- A pin or an ADC input that is read. -/
inductive Measure
  | digital (i : SoilIdx)
  | analog (i : SoilIdx)
  deriving DecidableEq

/-- `soil_context_t` with the static index of `soil_mqtt_send`, the components
that were registered, what the last run has measured, and the sensors whose
messages were published. -/
structure SoilContext where
  sensorsCount : ℕ
  sensors : SoilIdx → SoilSensor
  mqttLastSend : UInt64
  lastRun : UInt64
  whNotify : Bool
  idx : ℕ
  components : List SoilComponent
  measured : List Measure
  published : List SoilIdx

namespace SoilContext

/-- The sensors of the loops that end at `sensors_count`. -/
def walked (ctx : SoilContext) : List SoilIdx :=
  (List.finRange maxSoilSensorsCount).filter
    fun i : SoilIdx => decide ((i : ℕ) < ctx.sensorsCount)

def setSensor (ctx : SoilContext) (i : SoilIdx) (s : SoilSensor) : SoilContext :=
  { ctx with sensors := Function.update ctx.sensors i s }

end SoilContext

/-! ## The configuration -/

/-- What `calloc` and `adc_sensor_init` are answered: for the context, for the
analog part of a sensor, and for its ADC sensor. -/
structure SoilMemory where
  context : Bool
  analog : SoilIdx → Bool
  adc : SoilIdx → Bool

/-- The pins of `adc_mapping`. -/
def adcMapping : List ℤ := [26, 27, 28, 29, -1]

/-- `adc_sensor_init`: whether there is an ADC sensor for the pin. -/
def adcSensorInit (pin : ℤ) (memory : Bool) : Bool :=
  adcMapping.contains pin && memory

/-- `ctx->sensors[idx].digital_pin = id` or `.analog_pin = id` -/
def SoilSensor.setPin (s : SoilSensor) (digital : Bool) (pin : ℤ) : SoilSensor :=
  if digital then { s with digitalPin := pin } else { s with analogPin := pin }

/-- A round of the second loop of `soil_read_pin_cfg`. -/
def soilReadPin (digital : Bool) (state : ℕ × (SoilIdx → SoilSensor))
    (tok : CStr) : ℕ × (SoilIdx → SoilSensor) :=
  match strtokR (some tok) (lit ":") with
  | (none, _) => state
  | (some idxText, rest) =>
      match strtokR rest (lit ":") with
      | (none, _) => state
      | (some idText, _) =>
          let idx := strtol idxText 10
          let id := strtol idText 10
          if h : 0 ≤ idx ∧ idx.toNat < maxSoilSensorsCount then
            if id < 0 ∨ 40 < id then state
            else
              (state.1 + 1,
                Function.update state.2 ⟨idx.toNat, h.2⟩
                  ((state.2 ⟨idx.toNat, h.2⟩).setPin digital id))
          else state

/-- `soil_read_pin_cfg`: the first tokens of the list, from the last one back.
Without a token the second loop reads `config_tokens[0]`, which was never
written. -/
def soilReadPinCfg (sensors : SoilIdx → SoilSensor) (config : Option CStr)
    (digital : Bool) : Option (ℕ × (SoilIdx → SoilSensor)) :=
  match config with
  | none => some (0, sensors)
  | some config =>
      let toks := (tokens (some config) (lit ";")).take maxSoilSensorsCount
      if toks = [] then none
      else some (toks.reverse.foldl (soilReadPin digital) (0, sensors))

/-- The sensors before the lists are read. -/
def noSensor : SoilSensor where
  analogPin := -1
  analog := none
  digitalPin := -1
  lastDigital := false
  whSend := false
  whLastSend := 0
  force := false

/-- A round of the loop of `soil_init` that counts the sensors: the sensor, and
what is added to the count. -/
def soilInitSensor (memory : SoilMemory) (i : SoilIdx) (s : SoilSensor) :
    SoilSensor × ℕ :=
  let digital := if 0 ≤ s.digitalPin then 1 else 0
  if 0 ≤ s.analogPin then
    if !memory.analog i then (s, digital)
    else
      let adc := adcSensorInit s.analogPin (memory.adc i)
      let s := { s with analog := some ⟨adc⟩ }
      if !adc then (s, digital)
      else (s, digital + if s.digitalPin < 0 then 1 else 0)
  else (s, digital)

/-- `mqtt_msg_component_register`: whether there is room for the component. -/
def mqttMsgComponentRegister (registered : SoilComponent → Bool)
    (ctx : SoilContext) (c : SoilComponent) : SoilContext :=
  if registered c then { ctx with components := ctx.components ++ [c] } else ctx

/-- A round of the loop of `soil_mqtt_init`; a component that could be
registered asks for its first message. -/
def soilMqttInitSensor (registered : SoilComponent → Bool) (ctx : SoilContext)
    (i : SoilIdx) : SoilContext :=
  let ctx := mqttMsgComponentRegister registered ctx (.soil i)
  let s := ctx.sensors i
  let ctx := ctx.setSensor i { s with force := s.force || registered (.soil i) }
  if s.analog.isSome then mqttMsgComponentRegister registered ctx (.soilA i)
  else ctx

/-- `soil_mqtt_init` -/
def soilMqttInit (registered : SoilComponent → Bool) (ctx : SoilContext) :
    SoilContext :=
  ctx.walked.foldl (soilMqttInitSensor registered) ctx

/-- There is no text. -/
def noText (param : Option CStr) : Bool :=
  match param with
  | none => true
  | some text => strlen text < 1

/-- The context with the sensors of the lists. -/
def soilContext (memory : SoilMemory) (sensors : SoilIdx → SoilSensor)
    (wnotify : Option CStr) : SoilContext where
  sensorsCount := ((List.finRange maxSoilSensorsCount).map
    fun i => (soilInitSensor memory i (sensors i)).2).sum
  sensors := fun i => (soilInitSensor memory i (sensors i)).1
  mqttLastSend := 0
  lastRun := 0
  whNotify :=
    match wnotify with
    | none => false
    | some text => 1 ≤ strlen text && strtol text 0 != 0
  idx := 0
  components := []
  measured := []
  published := []

/-- `soil_init`: the context, if it returns true. -/
def soilInit (memory : SoilMemory) (registered : SoilComponent → Bool)
    (digital analog wnotify : Option CStr) : Option (Option SoilContext) :=
  if noText digital && noText analog then some none
  else if !memory.context then some none
  else do
    let (cnt, sensors) ← soilReadPinCfg (fun _ => noSensor) digital true
    let (cnt', sensors) ← soilReadPinCfg sensors analog false
    if cnt + cnt' < 1 then some none
    else
      let ctx := soilContext memory sensors wnotify
      if ctx.sensorsCount < 1 then some none
      else some (some (soilMqttInit registered ctx))

/-! ## A run -/

/-- What a run reads and is answered: the time, the levels of the pins, whether
an ADC sensor has a new value, the webhook (whether it is connected, the time,
and whether it takes a message), and MQTT (the time, the time of the message,
and the result of `soil_mqtt_sensor_send`). -/
structure RunInput where
  now : UInt64
  gpio : ℤ → Bool
  adc : SoilIdx → Bool
  whConnected : SoilIdx → Bool
  whNow : SoilIdx → UInt64
  whSent : SoilIdx → Bool
  mqttNow : UInt64
  sendTime : UInt64
  result : ℤ

namespace SoilContext

/-- `wh_notify_send` -/
def whNotifySend (ctx : SoilContext) (input : RunInput) (i : SoilIdx) :
    SoilContext :=
  let s := ctx.sensors i
  if !input.whConnected i then ctx
  else if input.whNow i - s.whLastSend < whSendDelayMs then ctx
  else
    ctx.setSensor i
      { s with
        whSend := s.whSend && !input.whSent i
        whLastSend := input.whNow i }

/-- `gpio_get` on the pin of a sensor, which is measured by it. -/
def gpioGet (ctx : SoilContext) (input : RunInput) (i : SoilIdx) :
    Bool × SoilContext :=
  (input.gpio (ctx.sensors i).digitalPin,
    { ctx with measured := ctx.measured ++ [.digital i] })

/-- `adc_sensor_measure`, which does nothing without an ADC sensor: whether
there is a new value. -/
def adcSensorMeasure (ctx : SoilContext) (input : RunInput) (i : SoilIdx)
    (analog : SoilAnalog) : Bool × SoilContext :=
  if !analog.adc then (false, ctx)
  else (input.adc i, { ctx with measured := ctx.measured ++ [.analog i] })

/-- `measure_digital` -/
def measureDigital (ctx : SoilContext) (input : RunInput) (i : SoilIdx) :
    SoilContext :=
  let (digital, ctx) := ctx.gpioGet input i
  let s := ctx.sensors i
  if digital ≠ s.lastDigital then
    ctx.setSensor i
      { s with
        lastDigital := digital
        whSend := s.whSend || ctx.whNotify
        force := true }
  else ctx

/-- The analog part of a round of the loop of `soil_run`. -/
def measureAnalog (ctx : SoilContext) (input : RunInput) (i : SoilIdx) :
    SoilContext :=
  match (ctx.sensors i).analog with
  | none => ctx
  | some analog =>
      let (changed, ctx) := ctx.adcSensorMeasure input i analog
      if changed then ctx.setSensor i { ctx.sensors i with force := true }
      else ctx

/-- A round of the loop of `soil_run`. -/
def measureSensor (input : RunInput) (ctx : SoilContext) (i : SoilIdx) :
    SoilContext :=
  let ctx := ctx.measureAnalog input i
  if 0 ≤ (ctx.sensors i).digitalPin then
    let ctx := ctx.measureDigital input i
    if (ctx.sensors i).whSend then ctx.whNotifySend input i else ctx
  else ctx

/-- `soil_mqtt_sensor_send` -/
def soilMqttSensorSend (ctx : SoilContext) (input : RunInput) (i : SoilIdx) :
    SoilContext :=
  if input.result = 0 then
    { ctx with
      sensors := Function.update ctx.sensors i
        { ctx.sensors i with force := false }
      mqttLastSend := input.sendTime
      published := ctx.published ++ [i] }
  else ctx

/-- The first sensor that asks for a message. -/
def firstForced (ctx : SoilContext) : Option SoilIdx :=
  ctx.walked.find? fun i => (ctx.sensors i).force

/-- `soil_mqtt_send` -/
def soilMqttSend (ctx : SoilContext) (input : RunInput) : SoilContext :=
  match ctx.firstForced with
  | some i => ctx.soilMqttSensorSend input i
  | none =>
      if ctx.mqttLastSend ≠ 0 ∧
          input.mqttNow - ctx.mqttLastSend < mqttSendIntervalMs then ctx
      else
        let idx := if ctx.sensorsCount ≤ ctx.idx then 0 else ctx.idx
        if h : idx < maxSoilSensorsCount then
          { ctx.soilMqttSensorSend input ⟨idx, h⟩ with
            idx := if input.result = 0 then idx + 1 else idx }
        else ctx

/-- The loop of `soil_run`. -/
def measure (ctx : SoilContext) (input : RunInput) : SoilContext :=
  ctx.walked.foldl (measureSensor input) { ctx with measured := [] }

/-- A measurement is due. -/
def Due (ctx : SoilContext) (input : RunInput) : Prop :=
  ¬ input.now - ctx.lastRun < measureIntervalMs

/-- `soil_run` -/
def soilRun (ctx : SoilContext) (input : RunInput) : SoilContext :=
  if input.now - ctx.lastRun < measureIntervalMs then ctx
  else { (ctx.measure input).soilMqttSend input with lastRun := input.now }

end SoilContext

def soilMachine : EventMachine SoilContext RunInput where
  step := SoilContext.soilRun
  enabled := fun _ _ => True

end Herak.Soil
