import Mathlib.Data.Int.Notation
import Mathlib.Data.List.Basic

/-!
# Bluetooth devices

`bt.c`: the known devices, what the HCI and GATT events of BTstack do to them,
and the turn of the main loop that drives the discovery of their services.  A
device is found by its address when it connects and by the handle noted then
ever after.
-/

namespace Herak.Bt

/-- `hci_con_handle_t` -/
abbrev HciConHandle := UInt16

/-- `bd_addr_t` -/
abbrev BdAddr := List UInt8

/-- `CONNECT_TIMEOUT_MS` -/
def connectTimeoutMs : ℕ := 10000
/-- `BT_MAX_DEVICES` -/
def btMaxDevices : ℕ := 4
/-- `BT_MAX_SERVICES` -/
def btMaxServices : ℕ := 20

inductive BtDevState
  | disconnected
  | connected
  | discoveringPrimary
  | discoveringSecondary
  | discoveringCharacteristic
  | ready
  deriving DecidableEq

/-- `gatt_client_service_t` -/
structure GattService where
  startGroupHandle : UInt16
  endGroupHandle : UInt16
  uuid16 : UInt16
  uuid128 : List UInt8

/-- `gatt_client_characteristic_t` -/
structure GattCharacteristic where
  startHandle : UInt16
  valueHandle : UInt16
  endHandle : UInt16
  properties : UInt16
  uuid16 : UInt16
  uuid128 : List UInt8

/-- `bt_char_t` -/
structure BtChar where
  id : ℕ
  gatChar : GattCharacteristic

/-- `bt_svc_t`; `chars` are the first `char_count` ones. -/
structure BtSvc where
  id : ℕ
  primary : Bool
  gatSvc : GattService
  chars : List BtChar

/-- `bt_event_t` with the data that comes with it. -/
inductive BtEvent
  | disconnected
  | connected
  | newService (svcId : ℕ) (primary : Bool) (uuid16 : UInt16)
      (uuid128 : List UInt8)
  | newCharacteristic (charId : ℕ) (properties uuid16 : UInt16)
      (uuid128 : List UInt8)
  | ready
  | valueReceived (charId : ℕ) (data : List UInt8) (valLong : Bool)
  deriving DecidableEq

/-- One call of the handler of a user. -/
structure BtCall where
  device : ℕ
  event : BtEvent
  deriving DecidableEq

/-- `bt_device_t`; `services` are all slots of the array, `userCb` tells
whether there is a handler. -/
structure BtDevice where
  id : ℕ
  connectionHandle : HciConHandle
  btaddress : BdAddr
  userCb : Bool
  state : BtDevState
  discovering : Bool
  stateTime : ℕ
  services : List BtSvc
  svcCount : ℕ
  svcCurrent : ℤ

/-- `bt_context_t`; `devices` are the first `dev_count` ones. -/
structure BtContext where
  devices : List BtDevice
  forceInit : Bool
  scanning : Bool

def emptySvc : BtSvc := ⟨0, false, ⟨0, 0, 0, []⟩, []⟩

/-- The services after `memset`. -/
def noServices : List BtSvc := List.replicate btMaxServices emptySvc

def BtContext.init : BtContext := ⟨[], false, false⟩

/-- The call of the handler, if there is one. -/
def BtDevice.notify (dev : BtDevice) (e : BtEvent) : List BtCall :=
  if dev.userCb then [⟨dev.id, e⟩] else []

/-! ## Lookups -/

def btGetDeviceByAddress (ctx : BtContext) (btaddress : BdAddr) : Option ℕ :=
  ctx.devices.findIdx? (·.btaddress = btaddress)

def btGetDeviceByHandle (ctx : BtContext) (handle : HciConHandle) : Option ℕ :=
  ctx.devices.findIdx? (·.connectionHandle = handle)

def btGetCharByHandle (dev : BtDevice) (valHandle : UInt16) : Option BtChar :=
  (dev.services.take dev.svcCount).findSome? fun svc =>
    svc.chars.find? (·.gatChar.valueHandle = valHandle)

/-! ## One device -/

/-- `bt_new_service`; in the other states the slot is filled but not counted. -/
def btNewService (dev : BtDevice) (svc : GattService) (now : ℕ) :
    BtDevice × List BtCall :=
  if dev.discovering = false ∨ btMaxServices ≤ dev.svcCount then (dev, [])
  else
    let btsvc := { emptySvc with
      gatSvc := svc, id := dev.id ||| ((dev.svcCount + 1) <<< 8) }
    match dev.state with
    | .discoveringPrimary | .discoveringSecondary =>
        let btsvc := { btsvc with
          primary := dev.state = .discoveringPrimary }
        ({ dev with
            services := dev.services.set dev.svcCount btsvc
            svcCount := dev.svcCount + 1
            stateTime := now },
          dev.notify (.newService btsvc.id btsvc.primary svc.uuid16 svc.uuid128))
    | _ => ({ dev with services := dev.services.set dev.svcCount btsvc }, [])

/-- `bt_new_characteristic` -/
def btNewCharacteristic (dev : BtDevice) (gchar : GattCharacteristic)
    (now : ℕ) : BtDevice × List BtCall :=
  if dev.discovering = false ∨ dev.svcCurrent < 0 ∨
      (btMaxServices : ℤ) ≤ dev.svcCurrent then (dev, [])
  else
    match dev.services[dev.svcCurrent.toNat]? with
    | none => (dev, [])
    | some btsvc =>
        if btMaxServices ≤ btsvc.chars.length then (dev, [])
        else if btsvc.chars.any (·.gatChar.uuid128 = gchar.uuid128) then
          (dev, [])
        else
          let charc : BtChar := ⟨btsvc.id ||| (btsvc.chars.length + 1), gchar⟩
          ({ dev with
              services := dev.services.set dev.svcCurrent.toNat
                { btsvc with chars := btsvc.chars ++ [charc] }
              stateTime := now },
            dev.notify (.newCharacteristic charc.id gchar.properties
              btsvc.gatSvc.uuid16 gchar.uuid128))

/-- A value for a characteristic of the device: a notification, or the answer
to a read. -/
def btValue (dev : BtDevice) (valueHandle : UInt16) (data : List UInt8)
    (valLong : Bool) : BtDevice × List BtCall :=
  match btGetCharByHandle dev valueHandle with
  | none => (dev, [])
  | some charc => (dev, dev.notify (.valueReceived charc.id data valLong))

/-- `bt_reset_device`; the handle stays as it is. -/
def btResetDevice (dev : BtDevice) (state : BtDevState) :
    BtDevice × List BtCall :=
  ({ dev with
      svcCount := 0
      state := state
      discovering := false
      svcCurrent := -1
      services := noServices },
    if state = .disconnected then dev.notify .disconnected else [])

/-- The device of a `HCI_SUBEVENT_LE_CONNECTION_COMPLETE`, whatever its
status. -/
def btConnected (dev : BtDevice) (handle : HciConHandle) (now : ℕ) :
    BtDevice × List BtCall :=
  ({ dev with
      state := .connected
      svcCount := 0
      services := noServices
      connectionHandle := handle
      stateTime := now },
    dev.notify .connected)

/-! ## Events of BTstack -/

/-- The HCI events of `bt_packet_handler` that concern connections. -/
inductive HciPacket
  | leConnectionComplete (status : UInt8) (peer : BdAddr)
      (handle : HciConHandle)
  | disconnectionComplete (status : UInt8) (handle : HciConHandle)

/-- The events of `handle_gatt_client_event`, and those of the read callback
`handle_gatt_client_cb` that carry a value. -/
inductive GattPacket
  | serviceQueryResult (handle : HciConHandle) (svc : GattService)
  | characteristicQueryResult (handle : HciConHandle)
      (characteristic : GattCharacteristic)
  | queryComplete (handle : HciConHandle)
  | notification (handle : HciConHandle) (valueHandle : UInt16)
      (value : List UInt8)
  | valueQueryResult (handle : HciConHandle) (valueHandle : UInt16)
      (value : List UInt8) (valLong : Bool)

namespace BtContext

/-- What is done to one device of the context. -/
def onDevice (ctx : BtContext) (i : Option ℕ)
    (f : BtDevice → BtDevice × List BtCall) : BtContext × List BtCall :=
  match i.bind fun i => (ctx.devices[i]?).map fun dev => (i, dev) with
  | none => (ctx, [])
  | some (i, dev) =>
      ({ ctx with devices := ctx.devices.set i (f dev).1 }, (f dev).2)

end BtContext

/-- `trigger_scanning` -/
def triggerScanning (ctx : BtContext) : BtContext :=
  { ctx with scanning := ctx.devices.any (·.state = .disconnected) }

def btPacketHandler (ctx : BtContext) (packet : HciPacket) (now : ℕ) :
    BtContext × List BtCall :=
  match packet with
  | .leConnectionComplete _ peer handle =>
      let result := ctx.onDevice (btGetDeviceByAddress ctx peer)
        (btConnected · handle now)
      (triggerScanning result.1, result.2)
  | .disconnectionComplete _ handle =>
      let result := ctx.onDevice (btGetDeviceByHandle ctx handle)
        (btResetDevice · .disconnected)
      (triggerScanning result.1, result.2)

def handleGattClientEvent (ctx : BtContext) (packet : GattPacket) (now : ℕ) :
    BtContext × List BtCall :=
  match packet with
  | .serviceQueryResult handle svc =>
      ctx.onDevice (btGetDeviceByHandle ctx handle) (btNewService · svc now)
  | .characteristicQueryResult handle characteristic =>
      ctx.onDevice (btGetDeviceByHandle ctx handle)
        (btNewCharacteristic · characteristic now)
  | .queryComplete handle =>
      ctx.onDevice (btGetDeviceByHandle ctx handle) fun dev =>
        ({ dev with discovering := false }, [])
  | .notification handle valueHandle value =>
      ctx.onDevice (btGetDeviceByHandle ctx handle)
        (btValue · valueHandle value false)
  | .valueQueryResult handle valueHandle value valLong =>
      ctx.onDevice (btGetDeviceByHandle ctx handle)
        (btValue · valueHandle value valLong)

/-! ## The main loop -/

/-- `bt_discover_next_char`; `gatt` is what the GATT client returns. -/
def btDiscoverNextChar (dev : BtDevice) (now : ℕ) (gatt : ℤ) : ℤ × BtDevice :=
  let dev := { dev with svcCurrent := dev.svcCurrent + 1 }
  if (dev.svcCount : ℤ) ≤ dev.svcCurrent then (0, dev)
  else
    (if gatt = 0 then 1 else -1,
      { dev with
        state := .discoveringCharacteristic
        discovering := true
        stateTime := now })

/-- `bt_device_state`; `gatt` is what the GATT client returns, if it is
called. -/
def btDeviceState (dev : BtDevice) (now : ℕ) (gatt : ℤ) :
    ℤ × BtDevice × List BtCall :=
  match dev.state with
  | .connected =>
      if gatt ≠ 0 then (-1, { dev with discovering := false }, [])
      else
        (0, { dev with
          discovering := true
          state := .discoveringPrimary
          stateTime := now }, [])
  | .discoveringPrimary | .discoveringSecondary | .discoveringCharacteristic =>
      if dev.discovering then
        if connectTimeoutMs < now - dev.stateTime then (-1, dev, [])
        else (0, dev, [])
      else if dev.state = .discoveringPrimary then
        if gatt ≠ 0 then (-1, dev, [])
        else
          (0, { dev with
            state := .discoveringSecondary
            discovering := true
            stateTime := now }, [])
      else
        let dev :=
          if dev.state = .discoveringSecondary then
            { dev with svcCurrent := -1 }
          else dev
        match btDiscoverNextChar dev now gatt with
        | (ret, dev) =>
            if ret < 0 then (-1, dev, [])
            else if ret = 0 then
              (0, { dev with
                state := .ready
                svcCurrent := -1
                stateTime := now }, dev.notify .ready)
            else (0, dev, [])
  | .disconnected | .ready => (0, dev, [])

/-- One device in a turn of `sys_bt_run`. -/
def sysBtRunOne (dev : BtDevice) (now : ℕ) (gatt : ℤ) :
    BtDevice × List BtCall :=
  match btDeviceState dev now gatt with
  | (state, dev, calls) =>
      if state = 0 then (dev, calls)
      else
        ({ (btResetDevice dev .connected).1 with stateTime := now },
          calls ++ (btResetDevice dev .connected).2)

/-- The loop of `sys_bt_run` over the devices from number `i` on. -/
def sysBtRunFrom (now : ℕ) (gatt : ℕ → ℤ) :
    ℕ → List BtDevice → List BtDevice × List BtCall
  | _, [] => ([], [])
  | i, dev :: devices =>
      let result := sysBtRunOne dev now (gatt i)
      let rest := sysBtRunFrom now gatt (i + 1) devices
      (result.1 :: rest.1, result.2 ++ rest.2)

/-- `sys_bt_run` of a stack that is running. -/
def sysBtRun (ctx : BtContext) (now : ℕ) (gatt : ℕ → ℤ) :
    BtContext × List BtCall :=
  let result := sysBtRunFrom now gatt 0 ctx.devices
  ({ ctx with devices := result.1 }, result.2)

/-! ## Known devices -/

/-- The arguments of `bt_add_known_device`, and the result of `calloc`. -/
structure KnownDevice where
  addr : BdAddr
  cb : Bool
  alloc : Bool

def btAddKnownDevice (ctx : BtContext) (k : KnownDevice) : ℤ × BtContext :=
  if k.addr = List.replicate 6 0 then (-1, { ctx with forceInit := true })
  else if btMaxDevices ≤ ctx.devices.length ∨ k.alloc = false then (-1, ctx)
  else
    let id := (ctx.devices.length + 1) <<< 16
    (id, { ctx with
      devices := ctx.devices ++
        [{ id := id
           connectionHandle := 0
           btaddress := k.addr
           userCb := k.cb
           state := .disconnected
           discovering := false
           stateTime := 0
           services := noServices
           svcCount := 0
           svcCurrent := 0 }] })

/-- The context after the devices have been made known. -/
def btKnown (known : List KnownDevice) : BtContext :=
  known.foldl (fun ctx k => (btAddKnownDevice ctx k).2) .init

end Herak.Bt
