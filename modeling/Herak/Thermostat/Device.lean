import Herak.Common.Internal
import Herak.Ssr.Relay

/-!
# Thermostats

A thermostat reads a sensor and switches its relay, which other modules may
switch as well, between two temperatures.  `thermRun` is the round of the
module; a round of its devices comes at most every half second.
-/

namespace Herak.Thermostat

open BinaryFloat CFloat CInt CString Ssr

/-- `MEASURE_INTERVAL_MS` -/
def measureIntervalMs : ℕ := 500

/-- `MQTT_SEND_INTERVAL_MS` -/
def mqttSendIntervalMs : ℕ := 60000

/-- `MAX_THERMOSTAT_DEVICES` -/
def maxThermostatDevices : ℕ := 10

/-- The types of sensors. -/
inductive TempProvider
  | oneWire
  | sht20
  | ntc
  | remote
  deriving DecidableEq

/-- `therm_device_t`; `force` asks for the next report to be sent at once. -/
structure ThermDevice where
  enable : Bool
  ssrId : ℕ
  ssrState : Bool
  offT : CFloat32
  onT : CFloat32
  currentT : CFloat32
  validT : Bool
  tempProvider : TempProvider
  tempId : ℕ
  tempName : CStr
  force : Bool

/-- The relay and the thresholds, which the rounds of a device keep. -/
def ThermDevice.settings (dev : ThermDevice) : ℕ × CFloat32 × CFloat32 :=
  (dev.ssrId, dev.offT, dev.onT)

/-- `thermostat_context_t`, with the index that `therm_mqtt_send` keeps. -/
structure ThermContext where
  devices : List ThermDevice
  lastRun : ℕ
  mqttLastSend : ℕ
  sendIdx : ℕ

/-- What the sensor modules return: a temperature, or nothing when the call
fails. -/
structure Sensors where
  oneWire : ℕ → ℕ → Option CFloat32
  sht20 : ℕ → Option CFloat32
  ntc : ℕ → Option CFloat32
  rsensorIndex : CStr → ℤ
  rsensor : ℕ → Option CFloat32

/-- The calls of the relay module by a device: a run with what it read and the
thresholds it had, a disable command, and a state that was read back.  They are
recorded for the statements; nothing reads them. -/
inductive RelayCall
  | ran (dev : ℕ) (reading : Option CFloat32) (onT offT : CFloat32) (state : Bool)
  | disabled (dev : ℕ)
  | readBack (dev : ℕ) (state : Bool)

/-- The module with the relays. -/
structure ThermSystem where
  ctx : ThermContext
  ssr : SsrState
  log : List RelayCall

namespace ThermSystem

def setDevice (s : ThermSystem) (i : ℕ) (dev : ThermDevice) : ThermSystem :=
  { s with ctx := { s.ctx with devices := s.ctx.devices.set i dev } }

def record (s : ThermSystem) (call : RelayCall) : ThermSystem :=
  { s with log := s.log ++ [call] }

end ThermSystem

/-! ## The round of a device -/

/-- The switch of `therm_device_read_temperature`. -/
def thermSensorRead (sensors : Sensors) (dev : ThermDevice) :
    Option CFloat32 × ThermDevice :=
  match dev.tempProvider with
  | .oneWire => (sensors.oneWire (dev.tempId / 256) (dev.tempId % 256), dev)
  | .sht20 => (sensors.sht20 dev.tempId, dev)
  | .ntc => (sensors.ntc dev.tempId, dev)
  | .remote =>
      let dev := if dev.tempId = 65535 then
          { dev with tempId := toUInt16 (sensors.rsensorIndex dev.tempName) }
        else dev
      (sensors.rsensor dev.tempId, dev)

/-- `therm_device_read_temperature` -/
def thermDeviceReadTemperature (sensors : Sensors) (dev : ThermDevice) :
    Bool × ThermDevice :=
  match thermSensorRead sensors { dev with validT := false } with
  | (none, dev) => (false, dev)
  | (some t, dev) => (true, { dev with currentT := t, validT := true })

/-- The relay state that a round of an enabled device commands; `ok` tells that
the sensor was read. -/
def thermCommand (ok : Bool) (dev : ThermDevice) : Bool :=
  if ok = true ∧ dev.validT = true then
    if dev.offT.le dev.currentT then false
    else if dev.currentT.le dev.onT then true
    else dev.ssrState
  else false

/-- `therm_device_run`; `clock` is the time at which the relay is set. -/
def thermDeviceRun (s : ThermSystem) (idx : ℕ) (sensors : Sensors)
    (clock : ℕ) : ℤ × ThermSystem :=
  match s.ctx.devices[idx]? with
  | none => (-1, s)
  | some dev =>
      if dev.enable = false then
        match ssrApiStateGet s.ssr dev.ssrId with
        | none => (0, s)
        | some (state, _, _) =>
            let dev := if state ≠ dev.ssrState then
                { dev with ssrState := state, force := true }
              else dev
            (0, (s.setDevice idx dev).record (.readBack idx state))
      else
        let read := thermDeviceReadTemperature sensors dev
        let dev := read.2
        let state := thermCommand read.1 dev
        let set := ssrApiStateSet s.ssr dev.ssrId state 0 0 clock
        let call : RelayCall :=
          .ran idx (if read.1 then some dev.currentT else none) dev.onT
            dev.offT state
        let dev := if set.1 = 0 ∧ state ≠ dev.ssrState then
            { dev with ssrState := state, force := true }
          else dev
        (set.1, { (s.setDevice idx dev).record call with ssr := set.2 })

/-! ## Reports -/

/-- `therm_mqtt_dvice_send`; `published` tells whether the report was sent. -/
def thermMqttDviceSend (s : ThermSystem) (idx : ℕ) (published : Bool) :
    ThermSystem :=
  match s.ctx.devices[idx]? with
  | none => s
  | some dev =>
      let dev := { dev with force := dev.force && !published }
      match ssrApiStateGet s.ssr dev.ssrId with
      | none => s.setDevice idx dev
      | some (state, _, _) =>
          (s.setDevice idx { dev with ssrState := state }).record
            (.readBack idx state)

/-- `therm_mqtt_send` -/
def thermMqttSend (s : ThermSystem) (now : ℕ) (published : Bool) :
    ThermSystem :=
  let count := s.ctx.devices.length
  let idx := if count ≤ s.ctx.sendIdx then 0 else s.ctx.sendIdx
  match (List.range' idx (count - idx)).find? fun i =>
      (s.ctx.devices[i]?.map ThermDevice.force).getD false with
  | some i =>
      thermMqttDviceSend { s with ctx := { s.ctx with sendIdx := i + 1 } } i
        published
  | none =>
      let s := { s with ctx := { s.ctx with sendIdx := count } }
      if s.ctx.mqttLastSend ≠ 0 ∧
          subU64 now s.ctx.mqttLastSend < mqttSendIntervalMs then s
      else
        { s with
          ctx :=
            { s.ctx with
              devices := s.ctx.devices.map fun dev => { dev with force := true }
              mqttLastSend := now } }

/-- What a round of the module reads: the time, again for the reports, and
when each relay is set; whether a report is sent; the sensors. -/
structure ThermTick where
  now : ℕ
  sendNow : ℕ
  published : Bool
  sensors : Sensors
  clock : ℕ → ℕ

/-- `therm_run` -/
def thermRun (s : ThermSystem) (t : ThermTick) : ThermSystem :=
  let s := thermMqttSend s t.sendNow t.published
  if subU64 t.now s.ctx.lastRun < measureIntervalMs then s
  else
    let s := (List.range s.ctx.devices.length).foldl
      (fun s i => (thermDeviceRun s i t.sensors (t.clock i)).2) s
    { s with ctx := { s.ctx with lastRun := t.now } }

/-! ## Commands -/

/-- What `therm_set_state` does to a device. -/
def thermSetStateOne (s : ThermSystem) (i : ℕ) (state : Bool) (clock : ℕ) :
    ThermSystem :=
  match s.ctx.devices[i]? with
  | none => s
  | some dev =>
      let dev :=
        { dev with force := dev.force || dev.enable != state, enable := state }
      if state = false then
        let set := ssrApiStateSet s.ssr dev.ssrId false 0 0 clock
        { (s.setDevice i { dev with ssrState := false }).record (.disabled i)
          with ssr := set.2 }
      else
        match ssrApiStateGet s.ssr dev.ssrId with
        | none => s.setDevice i dev
        | some (on, _, _) =>
            (s.setDevice i { dev with ssrState := on }).record (.readBack i on)

/-- `therm_set_state`; a negative index stands for all devices. -/
def thermSetState (s : ThermSystem) (idx : ℤ) (state : Bool)
    (clock : ℕ → ℕ) : ℤ × ThermSystem :=
  if 0 ≤ idx then
    if idx.toNat < s.ctx.devices.length then
      (0, thermSetStateOne s idx.toNat state (clock idx.toNat))
    else (-1, s)
  else
    (0, (List.range s.ctx.devices.length).foldl
      (fun s i => thermSetStateOne s i state (clock i)) s)

/-- What `therm_set_temperatures` makes of a device, or `none` when it rejects
the temperature; `hist` tells that it is a hysteresis. -/
def thermTemperatures (dev : ThermDevice) (temperature : CFloat32)
    (hist : Bool) : Option ThermDevice :=
  if hist then
    if dev.offT.lt temperature then none
    else
      let f := dev.offT.sub temperature
      some { dev with onT := f, force := dev.force || !f.eq dev.onT }
  else
    let f := dev.offT.sub dev.onT
    if f.lt (Value.zero _) || temperature.lt f then none
    else
      let f := temperature.sub f
      some
        { dev with
          onT := f
          offT := temperature
          force := dev.force || !temperature.eq dev.offT || !f.eq dev.onT }

/-- `therm_set_temperatures` -/
def thermSetTemperatures (ctx : ThermContext) (idx : ℤ)
    (temperature : CFloat32) (hist : Bool) : ℤ × ThermContext :=
  if idx < 0 then (-1, ctx)
  else
    match ctx.devices[idx.toNat]? with
    | none => (-1, ctx)
    | some dev =>
        match thermTemperatures dev temperature hist with
        | none => (-1, ctx)
        | some dev =>
            (0, { ctx with devices := ctx.devices.set idx.toNat dev })

/-- `cmd_therm_state` -/
def cmdThermState (s : ThermSystem) (params : CStr) (clock : ℕ → ℕ) :
    ℤ × ThermSystem :=
  if strlen params < 2 ∨ params.head? ≠ some 58 then (-1, s)
  else
    match strtokR (some params) (lit ":") with
    | (some tok, some rest) =>
        let id := strtol tok 0
        let state := strtol rest 0 != 0
        if 0 ≤ id ∨ id = -1 then thermSetState s id state clock else (-1, s)
    | _ => (-1, s)

/-- The device and the temperature that a command names. -/
def thermRequest (params : CStr) : Option (ℤ × CFloat32) :=
  match strtokR (some params) (lit ":") with
  | (some tok, some rest) =>
      let id := strtol tok 0
      if id < 0 then none
      else (sysStrtof rest).map fun temp => (id, temp)
  | _ => none

/-- `cmd_therm_set_temperature` -/
def cmdThermSetTemperature (ctx : ThermContext) (params : CStr) (hist : Bool) :
    ℤ × ThermContext :=
  match thermRequest params with
  | none => (-1, ctx)
  | some (id, temp) => thermSetTemperatures ctx id temp hist

/-- `cmd_therm_temp` and `cmd_therm_hist` -/
def cmdThermTemperatures (ctx : ThermContext) (params : CStr) (hist : Bool) :
    ℤ × ThermContext :=
  if strlen params < 2 ∨ params.head? ≠ some 58 then (-1, ctx)
  else cmdThermSetTemperature ctx (params.drop 1) hist

def cmdThermTemp (ctx : ThermContext) (params : CStr) : ℤ × ThermContext :=
  cmdThermTemperatures ctx params false

def cmdThermHist (ctx : ThermContext) (params : CStr) : ℤ × ThermContext :=
  cmdThermTemperatures ctx params true

end Herak.Thermostat
