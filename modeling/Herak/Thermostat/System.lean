import Herak.Ssr.Schedule
import Herak.Thermostat.Device

/-!
# The thermostat module

The configuration of the thermostats, and the runs of the module: its rounds
and commands in any order, with anything that happens to the relays in between.
-/

namespace Herak.Thermostat

open BinaryFloat CFloat CInt CString Ssr

/-! ## Configuration -/

/-- The text is the name. -/
def isName (text name : CStr) : Bool :=
  strlen text = strlen name ∧ strncmp text name (strlen text) = 0

def tempProvider (text : CStr) : Option TempProvider :=
  if isName text (lit "one_wire") then some .oneWire
  else if isName text (lit "sht20") then some .sht20
  else if isName text (lit "ntc") then some .ntc
  else if isName text (lit "remote") then some .remote
  else none

/-- `strtol` with base 0 finds a number. -/
def hasNumber (s : CStr) : Bool :=
  let unsigned :=
    match s.dropWhile isspace with
    | 45 :: rest => rest
    | 43 :: rest => rest
    | rest => rest
  (unsigned.head?.map fun c => 48 ≤ c && c ≤ 57).getD false

/-- The identifier of a sensor. -/
def tempSource (provider : TempProvider) (text : CStr) : Option (ℕ × CStr) :=
  match provider with
  | .remote => some (65535, text)
  | _ =>
      let id := toUInt16 (strtol text 0)
      if id = 0 ∧ hasNumber text = false then none else some (id, [])

/-- A thermostat of the parameter `THERMOSTAT`. -/
def thermDevice (tok : CStr) : Option ThermDevice :=
  match strtokR (some tok) (lit ":") with
  | (some tok1, some rest1) =>
      match strtokR (some rest1) (lit "-") with
      | (some tok2, some rest2) =>
          match tempProvider tok2 with
          | none => none
          | some provider =>
              match tempSource provider rest2 with
              | none => none
              | some (tempId, tempName) =>
                  some
                    { enable := false, ssrId := toUInt8 (strtol tok1 10),
                      ssrState := false, offT := Value.zero _,
                      onT := Value.zero _, currentT := Value.zero _,
                      validT := false, tempProvider := provider,
                      tempId := tempId, tempName := tempName, force := false }
      | _ => none
  | _ => none

/-- The first loop of `therm_config_get`. -/
def thermDevices (toks : List CStr) : List ThermDevice :=
  toks.foldl (fun devices tok =>
    if maxThermostatDevices ≤ devices.length then devices
    else devices ++ (thermDevice tok).toList) []

/-- A part of the parameter `THERMOSTAT_DEF`, with the numbers that can be
read. -/
structure ThermSetting where
  enable : Bool
  temperature : Option CFloat32
  hysteresis : Option CFloat32

/-- The parts that the second loop of `therm_config_get` does not skip. -/
def thermSetting (tok : CStr) : Option ThermSetting :=
  match strtokR (some tok) (lit ":") with
  | (some tok1, some rest1) =>
      match strtokR (some rest1) (lit "-") with
      | (some tok2, some rest2) =>
          some { enable := isName tok1 (lit "on"),
                 temperature := sysStrtof tok2, hysteresis := sysStrtof rest2 }
      | _ => none
  | _ => none

/-- A thermostat with its setting. -/
def thermDefault (v : ThermSetting) (dev : ThermDevice) : ThermDevice :=
  let dev := { dev with enable := v.enable }
  match v.temperature with
  | none => { dev with enable := false }
  | some off =>
      let dev := { dev with offT := off }
      match v.hysteresis with
      | none => { dev with enable := false }
      | some f =>
          if f.le dev.offT then { dev with onT := dev.offT.sub f }
          else { dev with enable := false }

/-- The second loop of `therm_config_get`: the settings go to the thermostats
in order. -/
def thermDefaults : List ThermSetting → List ThermDevice → List ThermDevice
  | [], devices => devices
  | _, [] => []
  | v :: settings, dev :: devices =>
      thermDefault v dev :: thermDefaults settings devices

/-- `therm_config_get` of the parameters `THERMOSTAT` and `THERMOSTAT_DEF`. -/
def thermConfigGet (configTherm configDefaults : Option CStr) :
    Option ThermContext :=
  match configTherm with
  | none => none
  | some config =>
      if strlen config < 1 then none
      else
        let devices := thermDefaults
          ((tokens configDefaults (lit ";")).filterMap thermSetting)
          (thermDevices (tokens (some config) (lit ";")))
        if devices.length < 1 then none
        else
          some { devices := devices, lastRun := 0, mqttLastSend := 0,
                 sendIdx := 0 }

/-- `therm_init`; `registered` tells which devices `therm_mqtt_init` could
register. -/
def thermInit (configTherm configDefaults : Option CStr)
    (registered : ℕ → Bool) : Option ThermContext :=
  (thermConfigGet configTherm configDefaults).map fun ctx =>
    { ctx with
      devices := ctx.devices.mapIdx fun i dev =>
        { dev with force := registered i } }

/-! ## Runs -/

inductive ThermEvent
  | tick (t : ThermTick)
  | state (params : CStr) (clock : ℕ → ℕ)
  | temperature (params : CStr)
  | hysteresis (params : CStr)
  | ssr (e : SsrEvent)

namespace ThermSystem

/-- The system after `therm_init`. -/
def init (ctx : ThermContext) (ssr : SsrState) : ThermSystem where
  ctx := ctx
  ssr := ssr
  log := []

def step (s : ThermSystem) : ThermEvent → ThermSystem
  | .tick t => thermRun s t
  | .state params clock => (cmdThermState s params clock).2
  | .temperature params => { s with ctx := (cmdThermTemp s.ctx params).2 }
  | .hysteresis params => { s with ctx := (cmdThermHist s.ctx params).2 }
  | .ssr e => { s with ssr := (SsrSession.step ⟨s.ssr, 0⟩ e).ssr }

def run (s : ThermSystem) (es : List ThermEvent) : ThermSystem :=
  es.foldl step s

end ThermSystem

end Herak.Thermostat
