import Herak.BmsJk.Automation
import Herak.Common.Internal
import Herak.Support.Places

/-!
# Configuration of the BMS devices

`get_bms_config` makes the devices of the list `BMS_BT`, and walks over the
other lists one after another, each with an index of its own.
-/

namespace Herak.BmsJk

open BinaryFloat CFloat CInt CString Scripts

/-- `BMS_MAX_DEVICES` -/
def bmsMaxDevices : ℕ := 4

/-- `CELL_VOLTAGE_MAX` -/
def cellVoltageMax : ℤ := 65

/-- `BMS_MODEL_STR` -/
def bmsModelStr : CStr := lit "JK"

/-- The parameters that `get_bms_config` reads. -/
structure BmsParams where
  cellLevels : Option CStr
  timeoutSec : Option CStr
  model : Option CStr
  bt : Option CStr
  name : Option CStr
  notify : Option CStr
  chargeCurrentThreshold : Option CStr

/-- Which of its allocations succeed: that of the context, and those of each
device and of its pin. -/
structure BmsMemory where
  context : Bool
  device : ℕ → Bool
  pin : ℕ → Bool

/-- A device of `get_bms_config`.  `bmsData` is the `force` of the component
that `mqtt.bms_data` points to.  The places of the entries that the device was
given are recorded for the statements; nothing reads them. -/
structure ConfigDev where
  address : List UInt8
  pin : Option CStr
  dev : JkBmsDev
  bmsData : Option Bool
  btPlace : ℕ
  modelPlace : ℕ
  timeoutPlace : Option ℕ
  levelsPlace : Option ℕ
  namePlace : Option ℕ
  chargePlace : Option ℕ

/-- `bms_context_t`, as far as `get_bms_config` sets it. -/
structure ConfigContext where
  whNotify : Bool
  devices : List ConfigDev

/-- `param && strlen(param) >= 1` -/
def hasText (param : Option CStr) : Bool :=
  match param with
  | none => false
  | some text => 1 ≤ strlen text

/-- The tokens of a list, if it has a text. -/
def listTokens (param : Option CStr) : List (CStr × ℕ) :=
  if hasText param then placedTokens param 59 else []

/-! ## The devices -/

/-- The address and the pin of an entry of `BMS_BT`. -/
def btEntry (dev : CStr) : Option (List UInt8 × CStr) :=
  match strtokR (some dev) (lit ",") with
  | (some addr, some pin) =>
      if strlen addr < 1 ∨ strlen pin < 1 then none
      else
        let chs := (tokens (some addr) (lit ":")).take 6
        if chs.length ≠ 6 then none
        else some (chs.map fun ch => UInt8.ofNat (toUInt8 (strtol ch 16)), pin)
  | _ => none

/-- The model of an entry of `BMS_MODEL` is that of the devices. -/
def isModel (mod : CStr) : Bool :=
  strlen mod = strlen bmsModelStr && strcmp mod bmsModelStr = 0

/-- A device after `calloc`, with its address and its pin. -/
def ConfigDev.new (address : List UInt8) (pin : Option CStr)
    (btPlace modelPlace : ℕ) : ConfigDev where
  address := address
  pin := pin
  dev := JkBmsDev.cleared none 0 0
  bmsData := none
  btPlace := btPlace
  modelPlace := modelPlace
  timeoutPlace := none
  levelsPlace := none
  namePlace := none
  chargePlace := none

/-- The loop over `BMS_BT`, which goes on in `BMS_MODEL` with each round: the
devices that are counted, and one behind them that has no pin. -/
def btLoop (memory : BmsMemory) :
    List (CStr × ℕ) → List (CStr × ℕ) → List ConfigDev →
      List ConfigDev × Option ConfigDev
  | [], _, devices => (devices, none)
  | _ :: toks, [], devices => btLoop memory toks [] devices
  | (tok, btPlace) :: toks, (mod, modelPlace) :: mods, devices =>
      if !isModel mod then btLoop memory toks mods devices
      else
        match btEntry tok with
        | none => btLoop memory toks mods devices
        | some (address, pin) =>
            if bmsMaxDevices ≤ devices.length then (devices, none)
            else if !memory.device devices.length then (devices, none)
            else if !memory.pin devices.length then
              (devices, some (.new address none btPlace modelPlace))
            else
              btLoop memory toks mods
                (devices ++ [.new address (some pin) btPlace modelPlace])

/-! ## The settings of a device

A pointer to a device is `none` when it is NULL, and so is the result when a
null pointer is dereferenced. -/

/-- `timeout_msec` of an entry of `BMS_TIMEOUT_SEC`. -/
def timeoutMsec (tok : CStr) : ℕ :=
  let timeout := toUInt64 (strtol tok 0)
  if 0 < timeout then toUInt64 (timeout * 1000) else timeout

def setTimeout (tok : CStr × ℕ) (dev : Option ConfigDev) :
    Option (Option ConfigDev) :=
  dev.map fun d =>
    some
      { d with
        dev := { d.dev with timeoutMsec := timeoutMsec tok.1 }
        timeoutPlace := some tok.2 }

def setName (tok : CStr × ℕ) (dev : Option ConfigDev) :
    Option (Option ConfigDev) :=
  dev.map fun d =>
    some
      { d with
        dev := { d.dev with userName := some tok.1 }
        namePlace := some tok.2 }

/-- The two texts of an entry of `BMS_CELL_LEVELS`. -/
def cellPair (tok : CStr) : Option (CStr × CStr) :=
  match strtokR (some tok) (lit ",") with
  | (some low, some high) => some (low, high)
  | _ => none

/-- `(uint16_t)(val * 1000)` of a voltage that `sys_strtof` reads, if it is above
zero and not above `CELL_VOLTAGE_MAX`. -/
def cellVolt (s : CStr) : Option ℕ :=
  (sysStrtof s).bind fun val =>
    if (Value.zero _).lt val && val.le (ofFrac _ cellVoltageMax 1) then
      match val.mul (ofFrac _ 1000 1) with
      | .finite units _ => some (toUInt16 (units / 2 ^ binary32.unitExp))
      | _ => none
    else none

/-- The cell levels in millivolts. -/
def cellLevels (pair : CStr × CStr) : Option (ℕ × ℕ) :=
  match cellVolt pair.1, cellVolt pair.2 with
  | some low, some high => some (low, high)
  | _, _ => none

/-- `jk_bt_enable_battery_track` -/
def enableBatteryTrack (place low high : ℕ) (dev : Option ConfigDev) :
    Option (Option ConfigDev) :=
  if high ≤ low then some dev
  else
    match dev with
    | none => none
    | some d =>
        d.bmsData.map fun _ =>
          some
            { d with
              dev := jkBtEnableBatteryTrack d.dev low high
              bmsData := some true
              levelsPlace := some place }

def setLevels (pair : (CStr × CStr) × ℕ) (dev : Option ConfigDev) :
    Option (Option ConfigDev) :=
  match cellLevels pair.1 with
  | none => some dev
  | some (low, high) => enableBatteryTrack pair.2 low high dev

/-- `jk_bt_enable_solar_track` -/
def enableSolarTrack (scripts : Option ScriptsContext) (place : ℕ)
    (chargeCurrent : ℤ) (dev : Option ConfigDev) : Option (Option ConfigDev) :=
  match dev with
  | none => none
  | some d =>
      d.bmsData.map fun _ =>
        some
          { d with
            dev := jkBtEnableSolarTrack scripts d.dev chargeCurrent
            bmsData := some true
            chargePlace := some place }

def setCharge (scripts : Option ScriptsContext) (tok : CStr × ℕ)
    (dev : Option ConfigDev) : Option (Option ConfigDev) :=
  let val := strtol tok.1 0
  if 0 < val then enableSolarTrack scripts tok.2 val dev else some dev

/-- What the pointer `devices[i]` points to after a change. -/
def putDev (devices : List ConfigDev) (i : ℕ) (dev : Option ConfigDev) :
    List ConfigDev :=
  match dev with
  | none => devices
  | some d => devices.set i d

/-- A loop over a list with the index `i` of a device, until `count`. -/
def configLoop {α : Type*} (body : α → Option ConfigDev → Option (Option ConfigDev))
    (count : ℕ) : ℕ → List α → List ConfigDev → Option (List ConfigDev)
  | _, [], devices => some devices
  | i, tok :: toks, devices => do
      let dev ← body tok devices[i]?
      let devices := putDev devices i dev
      if count ≤ i + 1 then some devices
      else configLoop body count (i + 1) toks devices

/-- The entries of `BMS_CELL_LEVELS`; one without a second part is left out,
without a step of the index. -/
def cellPairs (param : Option CStr) : List ((CStr × CStr) × ℕ) :=
  (listTokens param).filterMap fun x =>
    (cellPair x.1).map fun pair => (pair, x.2)

/-- `wh_notify` -/
def whNotify (param : Option CStr) : Bool :=
  match param with
  | none => false
  | some text => 1 ≤ strlen text && strtol text 0 != 0

/-- `get_bms_config`: the context, if it returns true. -/
def getBmsConfig (scripts : Option ScriptsContext) (memory : BmsMemory)
    (p : BmsParams) : Option (Option ConfigContext) :=
  if !hasText p.model then some none
  else if !hasText p.bt then some none
  else if !memory.context then some none
  else do
    let (devices, spare) :=
      btLoop memory (placedTokens p.bt 59) (placedTokens p.model 59) []
    let count := devices.length
    let devices := devices ++ spare.toList
    let devices ← configLoop setTimeout count 0 (listTokens p.timeoutSec) devices
    let devices ← configLoop setLevels count 0 (cellPairs p.cellLevels) devices
    let devices ← configLoop setName count 0 (listTokens p.name) devices
    let devices ←
      configLoop (setCharge scripts) count 0 (listTokens p.chargeCurrentThreshold)
        devices
    if 0 < count then some (some ⟨whNotify p.notify, devices.take count⟩)
    else some none

end Herak.BmsJk
