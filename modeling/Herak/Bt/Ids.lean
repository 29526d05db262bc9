import Herak.Bt.Attribution
import Herak.Support.PackedId

/-!
# The identifiers of Bluetooth objects

Users keep the identifiers of devices, services and characteristics that they
have been told, and look the objects up with them later.  An identifier has the
positions of the object and of what it belongs to; the services of a device are
cleared and discovered again, and those that are being discovered lie behind the
ones that are counted.
-/

namespace Herak.Bt

open PackedId

/-! ## The code -/

/-- `bt_context_t` with `started` and `running`. -/
structure BtStack where
  ctx : BtContext
  started : Bool
  running : Bool

/-- `GET_INDEX_FROM_ID` -/
def getIndexFromId (id : ℕ) : ℤ × ℤ × ℤ :=
  (((id >>> 16 &&& 0xFF : ℕ) : ℤ) - 1, ((id >>> 8 &&& 0xFF : ℕ) : ℤ) - 1,
    ((id &&& 0xFF : ℕ) : ℤ) - 1)

namespace BtStack

def init : BtStack := ⟨.init, false, false⟩

/-- `get_device_by_id` -/
def getDeviceById (x : BtStack) (charId : ℕ) : Option BtDevice :=
  let devIndex := (getIndexFromId charId).1
  if x.running = false then none
  else entry x.ctx.devices x.ctx.devices.length devIndex

/-- `get_service_by_id` -/
def getServiceById (x : BtStack) (svcId : ℕ) : Option BtSvc :=
  let svcIndex := (getIndexFromId svcId).2.1
  (x.getDeviceById svcId).bind fun dev =>
    if dev.state = .disconnected then none
    else entry dev.services dev.svcCount svcIndex

/-- `get_characteristic_by_id` -/
def getCharacteristicById (x : BtStack) (charId : ℕ) : Option BtChar :=
  let charIndex := (getIndexFromId charId).2.2
  (x.getServiceById charId).bind fun svc =>
    entry svc.chars svc.chars.length charIndex

/-- `sys_bt_run`; `power` is what `hci_power_control` returns. -/
def sysBtRun (x : BtStack) (power : ℤ) (now : ℕ) (gatt : ℕ → ℤ) : BtStack :=
  if x.ctx.devices.length = 0 ∧ x.ctx.forceInit = false then x
  else if x.started = false then { x with started := power = 0 }
  else if x.running = false then x
  else { x with ctx := (Bt.sysBtRun x.ctx now gatt).1 }

end BtStack

/-- A user makes a device known, the stack reports that it works, or one of the
inputs of the devices. -/
inductive BtStackEvent
  | addKnownDevice (k : KnownDevice)
  | stateWorking
  | packet (packet : HciPacket) (now : ℕ)
  | gatt (packet : GattPacket) (now : ℕ)
  | run (power : ℤ) (now : ℕ) (gatt : ℕ → ℤ)

def BtStack.step (x : BtStack) : BtStackEvent → BtStack
  | .addKnownDevice k => { x with ctx := (btAddKnownDevice x.ctx k).2 }
  | .stateWorking =>
      { x with running := true, ctx := triggerScanning x.ctx }
  | .packet packet now =>
      { x with ctx := (btPacketHandler x.ctx packet now).1 }
  | .gatt packet now =>
      { x with ctx := (handleGattClientEvent x.ctx packet now).1 }
  | .run power now gatt => x.sysBtRun power now gatt

/-- Events come in any order. -/
def btStackMachine : EventMachine BtStack BtStackEvent where
  step := BtStack.step
  enabled := fun _ _ => True

/-! ## The property -/

/-- The identifiers of a service and its characteristics. -/
def BtSvc.ids (svc : BtSvc) : List ℕ :=
  svc.id :: svc.chars.map (·.id)

/-- The identifiers of the counted services of a device and of their
characteristics. -/
def BtDevice.ids (dev : BtDevice) : List ℕ :=
  (dev.services.take dev.svcCount).flatMap BtSvc.ids

/-- The service is number `k` of the counted services of device number `i`. -/
def BtContext.Registered (ctx : BtContext) (i k : ℕ) (dev : BtDevice)
    (svc : BtSvc) : Prop :=
  ctx.devices[i]? = some dev ∧ k < dev.svcCount ∧ dev.services[k]? = some svc

/-- The two identifiers have the same byte. -/
def SameByte (level id id' : ℕ) : Prop := byte level id = byte level id'

/-- Identifiers name one object each, and a lookup finds what they name. -/
structure IdsSound (x : BtStack) : Prop where
  nodup : (x.ctx.devices.flatMap BtDevice.ids).Nodup
  deviceAgrees : ∀ id dev, x.getDeviceById id = some dev →
    (∃ i : ℕ, x.ctx.devices[i]? = some dev) ∧ SameByte 2 dev.id id
  serviceAgrees : ∀ id svc, x.getServiceById id = some svc →
    (∃ i k dev, x.ctx.Registered i k dev svc) ∧
      SameByte 2 svc.id id ∧ SameByte 1 svc.id id
  characteristicAgrees : ∀ id charc, x.getCharacteristicById id = some charc →
    (∃ i k dev svc, x.ctx.Registered i k dev svc ∧ charc ∈ svc.chars) ∧
      SameByte 2 charc.id id ∧ SameByte 1 charc.id id ∧ SameByte 0 charc.id id
  deviceFound : x.running = true →
    ∀ (i : ℕ) dev, x.ctx.devices[i]? = some dev →
    x.getDeviceById dev.id = some dev
  serviceFound : x.running = true → ∀ i k dev svc, x.ctx.Registered i k dev svc →
    dev.state ≠ .disconnected → x.getServiceById svc.id = some svc
  characteristicFound : x.running = true →
    ∀ i k dev svc, x.ctx.Registered i k dev svc → dev.state ≠ .disconnected →
      ∀ charc ∈ svc.chars, x.getCharacteristicById charc.id = some charc

/-! ## The invariant -/

/-- The identifiers of the characteristics of a service. -/
structure SvcIds (svc : BtSvc) : Prop where
  room : svc.chars.length ≤ btMaxServices
  charId : ∀ j charc, svc.chars[j]? = some charc →
    charc.id = svc.id ||| (j + 1)

/-- The identifiers of the objects of device number `i`. -/
structure DeviceIds (i id : ℕ) (services : List BtSvc) (svcCount : ℕ) :
    Prop where
  devId : id = (i + 1) <<< 16
  slots : services.length = btMaxServices
  room : svcCount ≤ btMaxServices
  svcId : ∀ k svc, k < svcCount → services[k]? = some svc →
    svc.id = id ||| ((k + 1) <<< 8)
  chars : ∀ svc ∈ services, SvcIds svc

def BtDevice.Ids (dev : BtDevice) (i : ℕ) : Prop :=
  DeviceIds i dev.id dev.services dev.svcCount

structure IdsInv (ctx : BtContext) : Prop where
  room : ctx.devices.length ≤ btMaxDevices
  ids : ∀ (i : ℕ) dev, ctx.devices[i]? = some dev → dev.Ids i

theorem deviceIds_noServices (i : ℕ) :
    DeviceIds i ((i + 1) <<< 16) noServices 0 where
  devId := rfl
  slots := List.length_replicate
  room := Nat.zero_le _
  svcId := nofun
  chars := fun svc hsvc => by
    rw [List.eq_of_mem_replicate hsvc]
    exact ⟨Nat.zero_le _, nofun⟩

namespace DeviceIds

variable {i id count : ℕ} {services : List BtSvc}

/-- The services are cleared. -/
theorem cleared (h : DeviceIds i id services count) :
    DeviceIds i id noServices 0 := by
  rw [h.devId]
  exact deviceIds_noServices i

/-- A slot is filled, which may be counted from now on. -/
theorem set (h : DeviceIds i id services count) {n count' : ℕ} {svc : BtSvc}
    (hsvc : SvcIds svc) (hroom : count' ≤ btMaxServices)
    (hid : n < count' → svc.id = id ||| ((n + 1) <<< 8))
    (hcount : ∀ k < count', k ≠ n → k < count) :
    DeviceIds i id (services.set n svc) count' where
  devId := h.devId
  slots := List.length_set.trans h.slots
  room := hroom
  svcId := fun k svc' hk hget => by
    by_cases hkn : k = n
    · subst hkn
      rw [List.getElem?_set_self'] at hget
      obtain ⟨_, -, rfl⟩ := Option.map_eq_some_iff.mp hget
      exact hid hk
    · rw [List.getElem?_set_ne (Ne.symm hkn)] at hget
      exact h.svcId k svc' (hcount k hk hkn) hget
  chars := fun svc' hmem => by
    rcases List.mem_or_eq_of_mem_set hmem with hmem | rfl
    · exact h.chars svc' hmem
    · exact hsvc

end DeviceIds

/-! ## One device -/

/-- A function that keeps the identifiers in order. -/
def KeepsIds (f : BtDevice → BtDevice × List BtCall) : Prop :=
  ∀ dev i, dev.Ids i → (f dev).1.Ids i

theorem keepsIds_btNewService (svc : GattService) (now : ℕ) :
    KeepsIds (btNewService · svc now) := by
  intro dev i h
  have hnew : ∀ primary, SvcIds
      ⟨dev.id ||| ((dev.svcCount + 1) <<< 8), primary, svc, []⟩ :=
    fun primary => ⟨Nat.zero_le _, nofun⟩
  simp only [btNewService]
  split
  · exact h
  · rename_i hroom
    have hlt : dev.svcCount < btMaxServices := by
      simpa using (not_or.mp hroom).2
    have hcounted : ∀ k < dev.svcCount + 1, k ≠ dev.svcCount →
        k < dev.svcCount := fun k hk hne => by omega
    split
    · exact h.set (hnew _) hlt (fun _ => rfl) hcounted
    · exact h.set (hnew _) hlt (fun _ => rfl) hcounted
    · exact h.set (hnew _) h.room (fun hn => (lt_irrefl _ hn).elim)
        fun k hk _ => hk

theorem keepsIds_btNewCharacteristic (gchar : GattCharacteristic) (now : ℕ) :
    KeepsIds (btNewCharacteristic · gchar now) := by
  intro dev i h
  simp only [btNewCharacteristic]
  split
  · exact h
  · split
    · exact h
    · rename_i btsvc hget
      split
      · exact h
      · rename_i hroom
        split
        · exact h
        · have hold := h.chars btsvc (List.mem_of_getElem? hget)
          refine h.set ⟨?_, ?_⟩ h.room
            (fun hn => h.svcId _ btsvc hn hget) fun k hk _ => hk
          · rw [List.length_append]
            exact not_le.mp hroom
          · intro j charc hj
            rw [List.getElem?_append] at hj
            split at hj
            · exact hold.charId j charc hj
            · rename_i hlen
              obtain ⟨hj', rfl⟩ : j - btsvc.chars.length = 0 ∧
                  ⟨btsvc.id ||| (btsvc.chars.length + 1), gchar⟩ = charc := by
                simpa [List.getElem?_singleton] using hj
              have hjlen : j = btsvc.chars.length := by omega
              rw [hjlen]

theorem keepsIds_btValue (valueHandle : UInt16) (data : List UInt8)
    (valLong : Bool) : KeepsIds (btValue · valueHandle data valLong) := by
  intro dev i h
  simp only [btValue]
  split
  · exact h
  · exact h

theorem keepsIds_btResetDevice (state : BtDevState) :
    KeepsIds (btResetDevice · state) :=
  fun _ _ h => h.cleared

theorem keepsIds_btConnected (handle : HciConHandle) (now : ℕ) :
    KeepsIds (btConnected · handle now) :=
  fun _ _ h => h.cleared

theorem keepsIds_gattPacket (now : ℕ) (packet : GattPacket) :
    KeepsIds (packet.apply now) := by
  cases packet with
  | serviceQueryResult _ svc => exact keepsIds_btNewService svc now
  | characteristicQueryResult _ characteristic =>
      exact keepsIds_btNewCharacteristic characteristic now
  | queryComplete _ => exact fun _ _ h => h
  | notification _ valueHandle value =>
      exact keepsIds_btValue valueHandle value false
  | valueQueryResult _ valueHandle value valLong =>
      exact keepsIds_btValue valueHandle value valLong

theorem ids_btDiscoverNextChar {dev : BtDevice} {i : ℕ} (h : dev.Ids i)
    (now : ℕ) (gatt : ℤ) : (btDiscoverNextChar dev now gatt).2.Ids i := by
  simp only [btDiscoverNextChar]
  split
  · exact h
  · exact h

theorem ids_btDeviceState {dev : BtDevice} {i : ℕ} (h : dev.Ids i)
    (now : ℕ) (gatt : ℤ) : (btDeviceState dev now gatt).2.1.Ids i := by
  have hnext (d : BtDevice) (hd : d.Ids i) := ids_btDiscoverNextChar hd now gatt
  unfold btDeviceState
  dsimp only
  repeat' split
  all_goals first | exact h | exact hnext _ h

theorem keepsIds_sysBtRunOne (now : ℕ) (gatt : ℤ) :
    KeepsIds (sysBtRunOne · now gatt) := by
  intro dev i h
  have hstate := ids_btDeviceState h now gatt
  simp only [sysBtRunOne]
  split
  · exact hstate
  · exact hstate.cleared

/-! ## All devices -/

theorem IdsInv.onDevice {ctx : BtContext} (h : IdsInv ctx) (n : Option ℕ)
    {f : BtDevice → BtDevice × List BtCall} (hf : KeepsIds f) :
    IdsInv (ctx.onDevice n f).1 := by
  obtain ⟨k, dev, -, hk, hon⟩ | ⟨-, hon⟩ := ctx.onDevice_cases n f
  · rw [hon]
    refine ⟨List.length_set.trans_le h.room, fun i dev' hi => ?_⟩
    by_cases hik : i = k
    · subst hik
      rw [List.getElem?_set_self', hk] at hi
      rw [← Option.some.inj hi]
      exact hf dev i (h.ids i dev hk)
    · rw [List.getElem?_set_ne (Ne.symm hik)] at hi
      exact h.ids i dev' hi
  · rwa [hon]

theorem sysBtRunFrom_getElem? (now : ℕ) (gatt : ℕ → ℤ) (n : ℕ)
    (devices : List BtDevice) (i : ℕ) :
    (sysBtRunFrom now gatt n devices).1[i]? =
      (devices[i]?).map fun dev => (sysBtRunOne dev now (gatt (n + i))).1 := by
  induction devices generalizing n i with
  | nil => rfl
  | cons dev devices ih =>
      cases i with
      | zero => rfl
      | succ i =>
          have hn : n + 1 + i = n + (i + 1) := by omega
          rw [sysBtRunFrom, List.getElem?_cons_succ, List.getElem?_cons_succ, ih,
            hn]

theorem sysBtRunFrom_length (now : ℕ) (gatt : ℕ → ℤ) (n : ℕ)
    (devices : List BtDevice) :
    (sysBtRunFrom now gatt n devices).1.length = devices.length := by
  induction devices generalizing n with
  | nil => rfl
  | cons dev devices ih => exact congrArg (· + 1) (ih (n + 1))

theorem IdsInv.sysBtRun {ctx : BtContext} (h : IdsInv ctx) (now : ℕ)
    (gatt : ℕ → ℤ) : IdsInv (sysBtRun ctx now gatt).1 := by
  refine ⟨(sysBtRunFrom_length now gatt 0 _).trans_le h.room, ?_⟩
  intro i dev' hi
  rw [Bt.sysBtRun, sysBtRunFrom_getElem?, Option.map_eq_some_iff] at hi
  obtain ⟨dev, hdev, rfl⟩ := hi
  exact keepsIds_sysBtRunOne now _ dev i (h.ids i dev hdev)

theorem IdsInv.btAddKnownDevice {ctx : BtContext} (h : IdsInv ctx)
    (k : KnownDevice) : IdsInv (btAddKnownDevice ctx k).2 := by
  unfold Bt.btAddKnownDevice
  split
  · exact ⟨h.room, h.ids⟩
  · split
    · exact h
    · rename_i hroom
      have hlt : ctx.devices.length < btMaxDevices := by
        simpa using (not_or.mp hroom).1
      refine ⟨?_, fun i dev hi => ?_⟩
      · rw [List.length_append]
        exact hlt
      · dsimp only at hi
        rw [List.getElem?_append] at hi
        split at hi
        · exact h.ids i dev hi
        · rename_i hlen
          rw [List.getElem?_singleton] at hi
          split at hi
          · rename_i hi0
            have hilen : i = ctx.devices.length := by omega
            rw [← Option.some.inj hi, hilen]
            exact deviceIds_noServices _
          · exact (Option.some_ne_none dev hi.symm).elim

theorem idsInv_step (x : BtStack) (e : BtStackEvent) (h : IdsInv x.ctx) :
    IdsInv (btStackMachine.step x e).ctx := by
  cases e with
  | addKnownDevice k => exact h.btAddKnownDevice k
  | stateWorking => exact ⟨h.room, h.ids⟩
  | packet packet now =>
      cases packet with
      | leConnectionComplete status peer handle =>
          have hdev := h.onDevice (btGetDeviceByAddress x.ctx peer)
            (keepsIds_btConnected handle now)
          exact ⟨hdev.room, hdev.ids⟩
      | disconnectionComplete status handle =>
          have hdev := h.onDevice (btGetDeviceByHandle x.ctx handle)
            (keepsIds_btResetDevice .disconnected)
          exact ⟨hdev.room, hdev.ids⟩
  | gatt packet now =>
      change IdsInv (handleGattClientEvent x.ctx packet now).1
      rw [handleGattClientEvent_eq]
      exact h.onDevice _ (keepsIds_gattPacket now packet)
  | run power now gatt =>
      change IdsInv (x.sysBtRun power now gatt).ctx
      unfold BtStack.sysBtRun
      split_ifs
      · exact h
      · exact h
      · exact h
      · exact h.sysBtRun now gatt

/-! ## Identifiers and positions -/

namespace IdsInv

variable {ctx : BtContext} (h : IdsInv ctx) {i k : ℕ} {dev : BtDevice}
  {svc : BtSvc}

include h

theorem index_lt (hdev : ctx.devices[i]? = some dev) : i + 1 < 256 := by
  have hlt := (List.getElem?_eq_some_iff.mp hdev).1
  have hroom := h.room
  rw [btMaxDevices] at hroom
  omega

theorem devId_byte (hdev : ctx.devices[i]? = some dev) :
    byte 2 dev.id = i + 1 := by
  have hpack : dev.id = pack (i + 1) 0 0 := by
    rw [(h.ids i dev hdev).devId, pack]
    simp
  rw [hpack]
  exact byte_two_pack (h.index_lt hdev) (by decide) (by decide)

/-- The identifier at a place of a counted service. -/
theorem id_pack (hreg : ctx.Registered i k dev svc) {j y : ℕ}
    (hy : svc.ids[j]? = some y) : y = pack (i + 1) (k + 1) j := by
  obtain ⟨hdev, hk, hget⟩ := hreg
  have hids := h.ids i dev hdev
  have hsvc : svc.id = (i + 1) <<< 16 ||| (k + 1) <<< 8 := by
    rw [hids.svcId k svc hk hget, hids.devId]
  cases j with
  | zero =>
      obtain rfl : svc.id = y := Option.some.inj hy
      rw [hsvc, pack, Nat.or_zero]
  | succ j =>
      rw [BtSvc.ids, List.getElem?_cons_succ, List.getElem?_map,
        Option.map_eq_some_iff] at hy
      obtain ⟨charc, hcharc, rfl⟩ := hy
      rw [(hids.chars svc (List.mem_of_getElem? hget)).charId j charc hcharc,
        hsvc, pack]

theorem id_bytes (hreg : ctx.Registered i k dev svc) {j y : ℕ}
    (hy : svc.ids[j]? = some y) :
    byte 2 y = i + 1 ∧ byte 1 y = k + 1 ∧ byte 0 y = j := by
  have hids := h.ids i dev hreg.1
  have hi := h.index_lt hreg.1
  have hk : k + 1 < 256 := by
    have hroom := hids.room
    have hlt := hreg.2.1
    rw [btMaxServices] at hroom
    omega
  have hj : j < 256 := by
    have hroom := (hids.chars svc (List.mem_of_getElem? hreg.2.2)).room
    have hlt := (List.getElem?_eq_some_iff.mp hy).1
    rw [btMaxServices] at hroom
    rw [BtSvc.ids, List.length_cons, List.length_map] at hlt
    omega
  rw [h.id_pack hreg hy]
  exact ⟨byte_two_pack hi hk hj, byte_one_pack hk hj, byte_zero_pack hk hj⟩

theorem svcId_bytes (hreg : ctx.Registered i k dev svc) :
    byte 2 svc.id = i + 1 ∧ byte 1 svc.id = k + 1 := by
  obtain ⟨htwo, hone, -⟩ := h.id_bytes (j := 0) hreg rfl
  exact ⟨htwo, hone⟩

theorem charId_bytes (hreg : ctx.Registered i k dev svc) {j : ℕ}
    {charc : BtChar} (hcharc : svc.chars[j]? = some charc) :
    byte 2 charc.id = i + 1 ∧ byte 1 charc.id = k + 1 ∧
      byte 0 charc.id = j + 1 := by
  apply h.id_bytes hreg
  rw [BtSvc.ids, List.getElem?_cons_succ, List.getElem?_map, hcharc]
  rfl

/-- No identifier is given twice. -/
theorem nodup : (ctx.devices.flatMap BtDevice.ids).Nodup := by
  have hcounted : ∀ {i : ℕ} {dev : BtDevice}, ctx.devices[i]? = some dev →
      ∀ {k : ℕ} {svc : BtSvc}, (dev.services.take dev.svcCount)[k]? = some svc →
        ctx.Registered i k dev svc := by
    intro i dev hdev k svc hsvc
    rw [List.getElem?_take] at hsvc
    split at hsvc
    · rename_i hk
      exact ⟨hdev, hk, hsvc⟩
    · exact (Option.some_ne_none svc hsvc.symm).elim
  apply nodup_flatMap_of_tag (byte 2) 1
  · intro dev hmem
    obtain ⟨i, hdev⟩ := List.mem_iff_getElem?.mp hmem
    apply nodup_flatMap_of_tag (byte 1) 1
    · intro svc hmem
      obtain ⟨k, hsvc⟩ := List.mem_iff_getElem?.mp hmem
      apply nodup_of_tag (byte 0) 0
      intro j y hy
      exact (h.id_bytes (hcounted hdev hsvc) hy).2.2
    · intro k svc hsvc y hmem
      obtain ⟨j, hy⟩ := List.mem_iff_getElem?.mp hmem
      exact (h.id_bytes (hcounted hdev hsvc) hy).2.1
  · intro i dev hdev y hmem
    obtain ⟨svc, hmem, hmem'⟩ := List.mem_flatMap.mp hmem
    obtain ⟨k, hsvc⟩ := List.mem_iff_getElem?.mp hmem
    obtain ⟨j, hy⟩ := List.mem_iff_getElem?.mp hmem'
    exact (h.id_bytes (hcounted hdev hsvc) hy).1

end IdsInv

/-! ## Lookups -/

theorem getIndexFromId_eq (id : ℕ) :
    getIndexFromId id = (index 2 id, index 1 id, index 0 id) := rfl

namespace BtStack

variable {x : BtStack} {id : ℕ}

theorem getDeviceById_eq_some_iff {dev : BtDevice} :
    x.getDeviceById id = some dev ↔
      x.running = true ∧ ∃ i, byte 2 id = i + 1 ∧
        x.ctx.devices[i]? = some dev := by
  rw [getDeviceById, getIndexFromId_eq]
  dsimp only
  cases x.running with
  | false => simp
  | true =>
      rw [if_neg Bool.noConfusion, entry_eq_some_iff]
      constructor
      · rintro ⟨i, -, hi, hdev⟩
        exact ⟨rfl, i, index_eq_iff.mp hi, hdev⟩
      · rintro ⟨-, i, hi, hdev⟩
        exact ⟨i, (List.getElem?_eq_some_iff.mp hdev).1, index_eq_iff.mpr hi,
          hdev⟩

theorem getServiceById_eq_some_iff {svc : BtSvc} :
    x.getServiceById id = some svc ↔
      x.running = true ∧ ∃ i k dev, byte 2 id = i + 1 ∧ byte 1 id = k + 1 ∧
        dev.state ≠ .disconnected ∧ x.ctx.Registered i k dev svc := by
  rw [getServiceById, getIndexFromId_eq, Option.bind_eq_some_iff]
  constructor
  · rintro ⟨dev, hdev, hsvc⟩
    obtain ⟨hrun, i, hi, hdev⟩ := getDeviceById_eq_some_iff.mp hdev
    dsimp only at hsvc
    split at hsvc
    · exact (Option.some_ne_none svc hsvc.symm).elim
    · rename_i hstate
      obtain ⟨k, hk, hindex, hget⟩ := entry_eq_some_iff.mp hsvc
      exact ⟨hrun, i, k, dev, hi, index_eq_iff.mp hindex, hstate, hdev, hk, hget⟩
  · rintro ⟨hrun, i, k, dev, hi, hk, hstate, hdev, hlt, hget⟩
    refine ⟨dev, getDeviceById_eq_some_iff.mpr ⟨hrun, i, hi, hdev⟩, ?_⟩
    dsimp only
    rw [if_neg hstate]
    exact entry_eq_some_iff.mpr ⟨k, hlt, index_eq_iff.mpr hk, hget⟩

theorem getCharacteristicById_eq_some_iff {charc : BtChar} :
    x.getCharacteristicById id = some charc ↔
      ∃ svc j, x.getServiceById id = some svc ∧ byte 0 id = j + 1 ∧
        svc.chars[j]? = some charc := by
  rw [getCharacteristicById, getIndexFromId_eq, Option.bind_eq_some_iff]
  constructor
  · rintro ⟨svc, hsvc, hcharc⟩
    obtain ⟨j, -, hindex, hget⟩ := entry_eq_some_iff.mp hcharc
    exact ⟨svc, j, hsvc, index_eq_iff.mp hindex, hget⟩
  · rintro ⟨svc, j, hsvc, hj, hget⟩
    refine ⟨svc, hsvc, entry_eq_some_iff.mpr ⟨j, ?_, index_eq_iff.mpr hj, hget⟩⟩
    exact (List.getElem?_eq_some_iff.mp hget).1

end BtStack

theorem IdsInv.sound {x : BtStack} (h : IdsInv x.ctx) : IdsSound x where
  nodup := h.nodup
  deviceAgrees := fun id dev hget => by
    obtain ⟨-, i, hi, hdev⟩ := BtStack.getDeviceById_eq_some_iff.mp hget
    exact ⟨⟨i, hdev⟩, (h.devId_byte hdev).trans hi.symm⟩
  serviceAgrees := fun id svc hget => by
    obtain ⟨-, i, k, dev, hi, hk, -, hreg⟩ :=
      BtStack.getServiceById_eq_some_iff.mp hget
    obtain ⟨htwo, hone⟩ := h.svcId_bytes hreg
    exact ⟨⟨i, k, dev, hreg⟩, htwo.trans hi.symm, hone.trans hk.symm⟩
  characteristicAgrees := fun id charc hget => by
    obtain ⟨svc, j, hsvc, hj, hcharc⟩ :=
      BtStack.getCharacteristicById_eq_some_iff.mp hget
    obtain ⟨-, i, k, dev, hi, hk, -, hreg⟩ :=
      BtStack.getServiceById_eq_some_iff.mp hsvc
    obtain ⟨htwo, hone, hzero⟩ := h.charId_bytes hreg hcharc
    exact ⟨⟨i, k, dev, svc, hreg, List.mem_of_getElem? hcharc⟩,
      htwo.trans hi.symm, hone.trans hk.symm, hzero.trans hj.symm⟩
  deviceFound := fun hrun i dev hdev =>
    BtStack.getDeviceById_eq_some_iff.mpr ⟨hrun, i, h.devId_byte hdev, hdev⟩
  serviceFound := fun hrun i k dev svc hreg hstate => by
    obtain ⟨htwo, hone⟩ := h.svcId_bytes hreg
    exact BtStack.getServiceById_eq_some_iff.mpr
      ⟨hrun, i, k, dev, htwo, hone, hstate, hreg⟩
  characteristicFound := fun hrun i k dev svc hreg hstate charc hmem => by
    obtain ⟨j, hcharc⟩ := List.mem_iff_getElem?.mp hmem
    obtain ⟨htwo, hone, hzero⟩ := h.charId_bytes hreg hcharc
    have hsvc := BtStack.getServiceById_eq_some_iff.mpr
      ⟨hrun, i, k, dev, htwo, hone, hstate, hreg⟩
    exact BtStack.getCharacteristicById_eq_some_iff.mpr
      ⟨svc, j, hsvc, hzero, hcharc⟩

theorem idsInv_init : IdsInv BtContext.init :=
  ⟨Nat.zero_le _, nofun⟩

/-- In every run the registered objects have different identifiers, and a lookup
finds what an identifier names or nothing. -/
theorem bt_ids_sound (es : List BtStackEvent) :
    IdsSound (btStackMachine.run .init es) :=
  IdsInv.sound (EventMachine.invariant (I := fun x : BtStack => IdsInv x.ctx) idsInv_step
    idsInv_init es)

end Herak.Bt
