import Herak.Bt.Device
import Herak.Support.EventMachine

/-!
# Whose event is it

Events of a connection carry its handle, and the controller may give the handle
of a closed connection to another device.  The code looks for the first known
device that has noted the handle, and a device keeps what it noted when its
connection is closed.  Here the devices are followed together with the open
connections of the controller.
-/

namespace Herak.Bt

/-- What happens to the module, with the time: events of the stack and turns of
the main loop. -/
inductive BtInput
  | packet (packet : HciPacket) (now : ℕ)
  | gatt (packet : GattPacket) (now : ℕ)
  | run (now : ℕ) (gatt : ℕ → ℤ)

/-- The devices with the controller: `peer` tells with whom a connection of this
handle is open, and `last` is the handle of the last connection event of a
device. -/
structure BtLink where
  ctx : BtContext
  peer : HciConHandle → Option BdAddr
  last : ℕ → HciConHandle

namespace BtLink

def init (known : List KnownDevice) : BtLink :=
  ⟨btKnown known, fun _ => none, fun _ => 0⟩

/-- The known device that is connected with the handle. -/
def connectedDevice (x : BtLink) (handle : HciConHandle) : Option ℕ :=
  (x.peer handle).bind (btGetDeviceByAddress x.ctx)

/-- The handle that the device of a connection event has from now on. -/
def noteHandle (x : BtLink) (peer : BdAddr) (handle : HciConHandle) :
    ℕ → HciConHandle :=
  match btGetDeviceByAddress x.ctx peer with
  | some i => Function.update x.last i handle
  | none => x.last

/-- A connection event with an error opens nothing, a disconnection event with
an error closes nothing. -/
def step (x : BtLink) : BtInput → BtLink
  | .packet (.leConnectionComplete status peer handle) now =>
      { ctx :=
          (btPacketHandler x.ctx (.leConnectionComplete status peer handle)
            now).1
        peer :=
          if status = 0 then Function.update x.peer handle (some peer)
          else x.peer
        last := x.noteHandle peer handle }
  | .packet (.disconnectionComplete status handle) now =>
      { x with
        ctx := (btPacketHandler x.ctx (.disconnectionComplete status handle)
          now).1
        peer :=
          if status = 0 then Function.update x.peer handle none else x.peer }
  | .gatt packet now =>
      { x with ctx := (handleGattClientEvent x.ctx packet now).1 }
  | .run now gatt => { x with ctx := (sysBtRun x.ctx now gatt).1 }

/-- A connection is opened with a device that has none, under a handle that is
not in use. -/
def Enabled (x : BtLink) : BtInput → Prop
  | .packet (.leConnectionComplete status peer handle) _ =>
      (∀ h, x.peer h ≠ some peer) ∧ (status = 0 → x.peer handle = none)
  | _ => True

end BtLink

def btMachine : EventMachine BtLink BtInput where
  step := BtLink.step
  enabled := BtLink.Enabled

/-! ## The property and the condition -/

/-- The handle of an event of the GATT client. -/
def GattPacket.handle : GattPacket → HciConHandle
  | .serviceQueryResult handle _ => handle
  | .characteristicQueryResult handle _ => handle
  | .queryComplete handle => handle
  | .notification handle _ _ => handle
  | .valueQueryResult handle _ _ _ => handle

/-- Nothing but the device `i` is changed, and no handler but that of the
device is called. -/
def OnlyDevice (ctx : BtContext) (i : Option ℕ)
    (result : BtContext × List BtCall) : Prop :=
  (∀ j, i ≠ some j → result.1.devices[j]? = ctx.devices[j]?) ∧
    ∀ call ∈ result.2, ∃ j dev, i = some j ∧ ctx.devices[j]? = some dev ∧
      call.device = dev.id

/-- An event with a handle is applied to the device that is connected with it,
and to no device if none is. -/
def Attributed (x : BtLink) : BtInput → Prop
  | .packet (.disconnectionComplete status handle) now =>
      btGetDeviceByHandle x.ctx handle = x.connectedDevice handle ∧
        OnlyDevice x.ctx (x.connectedDevice handle)
          (btPacketHandler x.ctx (.disconnectionComplete status handle) now)
  | .gatt packet now =>
      btGetDeviceByHandle x.ctx packet.handle =
          x.connectedDevice packet.handle ∧
        OnlyDevice x.ctx (x.connectedDevice packet.handle)
          (handleGattClientEvent x.ctx packet now)
  | _ => True

/-- The device that is connected with the handle had it in its last connection
event, and any other known device that had it in its last one comes later in
the list. -/
def NoStaleHandle (x : BtLink) (handle : HciConHandle) : Prop :=
  (∀ i, x.connectedDevice handle = some i → x.last i = handle) ∧
    ∀ i < x.ctx.devices.length, x.last i = handle →
      x.connectedDevice handle ≠ some i →
      ∃ j < i, x.connectedDevice handle = some j

/-- Events carry no handle that a device has kept from a closed connection. -/
def HandleFresh (x : BtLink) : BtInput → Prop
  | .packet (.disconnectionComplete _ handle) _ => NoStaleHandle x handle
  | .gatt packet _ => NoStaleHandle x packet.handle
  | _ => True

/-! ## One device -/

/-- A function that leaves the handle of the device alone and calls no handler
but its own. -/
def KeepsHandle (f : BtDevice → BtDevice × List BtCall) : Prop :=
  ∀ dev, (f dev).1.connectionHandle = dev.connectionHandle ∧
    ∀ call ∈ (f dev).2, call.device = dev.id

theorem BtDevice.notify_device {dev : BtDevice} {e : BtEvent} {call : BtCall}
    (h : call ∈ dev.notify e) : call.device = dev.id := by
  unfold notify at h
  split at h
  · rw [List.mem_singleton.mp h]
  · exact nomatch h

theorem keepsHandle_btNewService (svc : GattService) (now : ℕ) :
    KeepsHandle (btNewService · svc now) := by
  intro dev
  simp only [btNewService]
  split
  · exact ⟨rfl, nofun⟩
  · split
    · exact ⟨rfl, fun _ => BtDevice.notify_device⟩
    · exact ⟨rfl, fun _ => BtDevice.notify_device⟩
    · exact ⟨rfl, nofun⟩

theorem keepsHandle_btNewCharacteristic (gchar : GattCharacteristic) (now : ℕ) :
    KeepsHandle (btNewCharacteristic · gchar now) := by
  intro dev
  simp only [btNewCharacteristic]
  split
  · exact ⟨rfl, nofun⟩
  · split
    · exact ⟨rfl, nofun⟩
    · split
      · exact ⟨rfl, nofun⟩
      · split
        · exact ⟨rfl, nofun⟩
        · exact ⟨rfl, fun _ => BtDevice.notify_device⟩

theorem keepsHandle_btValue (valueHandle : UInt16) (data : List UInt8)
    (valLong : Bool) : KeepsHandle (btValue · valueHandle data valLong) := by
  intro dev
  simp only [btValue]
  split
  · exact ⟨rfl, nofun⟩
  · exact ⟨rfl, fun _ => BtDevice.notify_device⟩

theorem keepsHandle_btResetDevice (state : BtDevState) :
    KeepsHandle (btResetDevice · state) := by
  intro dev
  refine ⟨rfl, fun call hcall => ?_⟩
  simp only [btResetDevice] at hcall
  split at hcall
  · exact BtDevice.notify_device hcall
  · exact nomatch hcall

theorem btDiscoverNextChar_handle (dev : BtDevice) (now : ℕ) (gatt : ℤ) :
    (btDiscoverNextChar dev now gatt).2.connectionHandle =
      dev.connectionHandle := by
  simp only [btDiscoverNextChar]
  split
  · rfl
  · rfl

theorem btDeviceState_handle (dev : BtDevice) (now : ℕ) (gatt : ℤ) :
    (btDeviceState dev now gatt).2.1.connectionHandle =
      dev.connectionHandle := by
  have hnext (d : BtDevice) := btDiscoverNextChar_handle d now gatt
  unfold btDeviceState
  dsimp only
  repeat' split
  all_goals first | rfl | exact hnext _

theorem sysBtRunOne_handle (dev : BtDevice) (now : ℕ) (gatt : ℤ) :
    (sysBtRunOne dev now gatt).1.connectionHandle = dev.connectionHandle := by
  simp only [sysBtRunOne]
  split
  · exact btDeviceState_handle dev now gatt
  · exact btDeviceState_handle dev now gatt

/-! ## The list of devices -/

/-- The handles that the devices have noted. -/
def BtContext.handles (ctx : BtContext) : List HciConHandle :=
  ctx.devices.map (·.connectionHandle)

theorem sysBtRun_handles (ctx : BtContext) (now : ℕ) (gatt : ℕ → ℤ) :
    (sysBtRun ctx now gatt).1.handles = ctx.handles := by
  have hfrom (i : ℕ) (devices : List BtDevice) :
      (sysBtRunFrom now gatt i devices).1.map (·.connectionHandle) =
        devices.map (·.connectionHandle) := by
    induction devices generalizing i with
    | nil => rfl
    | cons dev devices ih =>
        simp only [sysBtRunFrom, List.map_cons, sysBtRunOne_handle, ih]
  exact hfrom 0 ctx.devices

/-- What `onDevice` does, by cases on whether the device is there. -/
theorem BtContext.onDevice_cases (ctx : BtContext) (i : Option ℕ)
    (f : BtDevice → BtDevice × List BtCall) :
    (∃ k dev, i = some k ∧ ctx.devices[k]? = some dev ∧
      ctx.onDevice i f =
        ({ ctx with devices := ctx.devices.set k (f dev).1 }, (f dev).2)) ∨
    ((∀ k, i = some k → ctx.devices[k]? = none) ∧
      ctx.onDevice i f = (ctx, [])) := by
  unfold onDevice
  cases i with
  | none => exact .inr ⟨nofun, rfl⟩
  | some k =>
      cases hk : ctx.devices[k]? with
      | none =>
          refine .inr ⟨fun k' hk' => ?_, by simp [hk]⟩
          rw [← Option.some.inj hk']
          exact hk
      | some dev => exact .inl ⟨k, dev, rfl, hk, by simp [hk]⟩

theorem BtContext.onDevice_handles (ctx : BtContext) (i : Option ℕ)
    {f : BtDevice → BtDevice × List BtCall} (hf : KeepsHandle f) :
    (ctx.onDevice i f).1.handles = ctx.handles := by
  obtain ⟨k, dev, -, hk, hon⟩ | ⟨-, hon⟩ := ctx.onDevice_cases i f
  · obtain ⟨hlt, rfl⟩ := List.getElem?_eq_some_iff.mp hk
    rw [hon, handles, List.map_set, (hf _).1, ← List.map_set,
      List.set_getElem_self]
    rfl
  · rw [hon]

theorem BtContext.onDevice_only (ctx : BtContext) (i : Option ℕ)
    {f : BtDevice → BtDevice × List BtCall} (hf : KeepsHandle f) :
    OnlyDevice ctx i (ctx.onDevice i f) := by
  obtain ⟨k, dev, rfl, hk, hon⟩ | ⟨-, hon⟩ := ctx.onDevice_cases i f
  · rw [hon]
    refine ⟨fun j hj => ?_, fun call hcall => ?_⟩
    · exact List.getElem?_set_ne fun hkj => hj (congrArg some hkj)
    · exact ⟨k, dev, rfl, hk, (hf dev).2 call hcall⟩
  · rw [hon]
    exact ⟨fun _ _ => rfl, nofun⟩

/-- What an event of the GATT client does to its device. -/
def GattPacket.apply (now : ℕ) : GattPacket → BtDevice → BtDevice × List BtCall
  | .serviceQueryResult _ svc => (btNewService · svc now)
  | .characteristicQueryResult _ characteristic =>
      (btNewCharacteristic · characteristic now)
  | .queryComplete _ => fun dev => ({ dev with discovering := false }, [])
  | .notification _ valueHandle value => (btValue · valueHandle value false)
  | .valueQueryResult _ valueHandle value valLong =>
      (btValue · valueHandle value valLong)

theorem handleGattClientEvent_eq (ctx : BtContext) (packet : GattPacket)
    (now : ℕ) :
    handleGattClientEvent ctx packet now =
      ctx.onDevice (btGetDeviceByHandle ctx packet.handle)
        (packet.apply now) := by
  cases packet <;> rfl

theorem keepsHandle_gattPacket (now : ℕ) (packet : GattPacket) :
    KeepsHandle (packet.apply now) := by
  cases packet with
  | serviceQueryResult _ svc => exact keepsHandle_btNewService svc now
  | characteristicQueryResult _ characteristic =>
      exact keepsHandle_btNewCharacteristic characteristic now
  | queryComplete _ => exact fun dev => ⟨rfl, nofun⟩
  | notification _ valueHandle value =>
      exact keepsHandle_btValue valueHandle value false
  | valueQueryResult _ valueHandle value valLong =>
      exact keepsHandle_btValue valueHandle value valLong

/-- The handles are those before, but for the device of the event. -/
theorem connected_handles (ctx : BtContext) (status : UInt8) (peer : BdAddr)
    (handle : HciConHandle) (now : ℕ) {i : ℕ}
    (h : btGetDeviceByAddress ctx peer = some i) :
    (btPacketHandler ctx (.leConnectionComplete status peer handle)
      now).1.handles = ctx.handles.set i handle := by
  show (ctx.onDevice (btGetDeviceByAddress ctx peer)
    (btConnected · handle now)).1.handles = _
  obtain ⟨k, dev, hk, -, hon⟩ | ⟨hnone, hon⟩ :=
    ctx.onDevice_cases (btGetDeviceByAddress ctx peer) (btConnected · handle now)
  · obtain rfl := Option.some.inj (h.symm.trans hk)
    rw [hon, BtContext.handles, List.map_set]
    rfl
  · rw [hon, List.set_eq_of_length_le]
    rw [BtContext.handles, List.length_map]
    exact List.getElem?_eq_none_iff.mp (hnone i h)

theorem connected_unknown (ctx : BtContext) (status : UInt8) (peer : BdAddr)
    (handle : HciConHandle) (now : ℕ)
    (h : btGetDeviceByAddress ctx peer = none) :
    (btPacketHandler ctx (.leConnectionComplete status peer handle)
      now).1.handles = ctx.handles := by
  show (ctx.onDevice (btGetDeviceByAddress ctx peer)
    (btConnected · handle now)).1.handles = _
  rw [h]
  rfl

/-! ## The run -/

/-- A device has noted the handle of its last connection event. -/
def NotedLast (x : BtLink) : Prop :=
  ∀ i h, x.ctx.handles[i]? = some h → h = x.last i

theorem BtContext.handles_append (ctx : BtContext) (dev : BtDevice) :
    ({ ctx with devices := ctx.devices ++ [dev] } : BtContext).handles =
      ctx.handles ++ [dev.connectionHandle] := by
  simp [handles]

theorem btAddKnownDevice_handles (ctx : BtContext) (k : KnownDevice)
    (h : ∀ handle ∈ ctx.handles, handle = 0) :
    ∀ handle ∈ (btAddKnownDevice ctx k).2.handles, handle = 0 := by
  unfold btAddKnownDevice
  split
  · exact h
  · split
    · exact h
    · intro handle hmem
      rw [BtContext.handles_append, List.mem_append] at hmem
      obtain hmem | hmem := hmem
      · exact h handle hmem
      · exact List.mem_singleton.mp hmem

/-- No device has connected yet. -/
theorem btKnown_handles (known : List KnownDevice) :
    ∀ handle ∈ (btKnown known).handles, handle = 0 := by
  have hfold (ctx : BtContext) (h : ∀ handle ∈ ctx.handles, handle = 0) :
      ∀ handle ∈ (known.foldl (fun ctx k => (btAddKnownDevice ctx k).2)
        ctx).handles, handle = 0 := by
    induction known generalizing ctx with
    | nil => exact h
    | cons k known ih => exact ih _ (btAddKnownDevice_handles ctx k h)
  exact hfold .init nofun

theorem notedLast_init (known : List KnownDevice) :
    NotedLast (BtLink.init known) := by
  intro i h hi
  exact btKnown_handles known h (List.mem_of_getElem? hi)

theorem notedLast_step {x : BtLink} (hx : NotedLast x) (e : BtInput) :
    NotedLast (x.step e) := by
  cases e with
  | packet packet now =>
      cases packet with
      | leConnectionComplete status peer handle =>
          intro i h hi
          simp only [BtLink.step, BtLink.noteHandle] at hi ⊢
          cases hpeer : btGetDeviceByAddress x.ctx peer with
          | none =>
              rw [connected_unknown _ _ _ _ _ hpeer] at hi
              exact hx i h hi
          | some k =>
              rw [connected_handles _ _ _ _ _ hpeer] at hi
              dsimp only
              by_cases hik : i = k
              · subst hik
                obtain ⟨hlt, rfl⟩ := List.getElem?_eq_some_iff.mp hi
                rw [Function.update_self, List.getElem_set_self]
              · rw [Function.update_of_ne hik]
                rw [List.getElem?_set_ne (Ne.symm hik)] at hi
                exact hx i h hi
      | disconnectionComplete status handle =>
          intro i h hi
          have hkeep : (btPacketHandler x.ctx
              (.disconnectionComplete status handle) now).1.handles =
                x.ctx.handles :=
            x.ctx.onDevice_handles _ (keepsHandle_btResetDevice .disconnected)
          simp only [BtLink.step] at hi ⊢
          exact hx i h (hkeep ▸ hi)
  | gatt packet now =>
      intro i h hi
      simp only [BtLink.step, handleGattClientEvent_eq] at hi ⊢
      rw [x.ctx.onDevice_handles _ (keepsHandle_gattPacket now packet)] at hi
      exact hx i h hi
  | run now gatt =>
      intro i h hi
      simp only [BtLink.step, sysBtRun_handles] at hi ⊢
      exact hx i h hi

/-- The search finds the device that is connected, if and only if no device has
kept the handle. -/
theorem getDeviceByHandle_iff {x : BtLink} (hx : NotedLast x)
    (handle : HciConHandle) :
    btGetDeviceByHandle x.ctx handle = x.connectedDevice handle ↔
      NoStaleHandle x handle := by
  have hnoted (i : ℕ) (hi : i < x.ctx.devices.length) :
      x.ctx.devices[i].connectionHandle = x.last i :=
    hx i _ (by rw [BtContext.handles, List.getElem?_map,
      List.getElem?_eq_getElem hi]; rfl)
  constructor
  · intro hfound
    rw [NoStaleHandle, ← hfound, btGetDeviceByHandle]
    refine ⟨fun i hi => ?_, fun i hi hlast hne => ?_⟩
    · obtain ⟨hlt, hhandle, -⟩ := List.findIdx?_eq_some_iff_getElem.mp hi
      rw [← hnoted i hlt]
      exact of_decide_eq_true hhandle
    · obtain ⟨j, hj⟩ := Option.isSome_iff_exists.mp
        (List.findIdx?_isSome.trans ((List.any_eq_true
          (p := fun dev => dev.connectionHandle = handle)).mpr
            ⟨x.ctx.devices[i], List.getElem_mem hi,
              decide_eq_true ((hnoted i hi).trans hlast)⟩))
      obtain ⟨hlt, -, hfirst⟩ := List.findIdx?_eq_some_iff_getElem.mp hj
      refine ⟨j, ?_, hj⟩
      by_contra hij
      obtain hij | rfl := Nat.lt_or_eq_of_le (Nat.not_lt.mp hij)
      · exact hfirst i hij (decide_eq_true ((hnoted i hi).trans hlast))
      · exact hne hj
  · rintro ⟨hlast, hother⟩
    cases hc : x.connectedDevice handle with
    | none =>
        rw [btGetDeviceByHandle, List.findIdx?_eq_none_iff]
        intro dev hdev
        obtain ⟨i, hi, rfl⟩ := List.getElem_of_mem hdev
        rw [decide_eq_false_iff_not, hnoted i hi]
        intro heq
        obtain ⟨j, -, hj⟩ := hother i hi heq (by rw [hc]; exact nofun)
        exact nomatch hc.symm.trans hj
    | some i =>
        obtain ⟨peer, -, hi⟩ := Option.bind_eq_some_iff.mp hc
        obtain ⟨hlt, -, -⟩ := List.findIdx?_eq_some_iff_getElem.mp hi
        refine List.findIdx?_eq_some_iff_getElem.mpr
          ⟨hlt, decide_eq_true ((hnoted i hlt).trans (hlast i hc)), ?_⟩
        intro j hj hsame
        have hjlen := hj.trans hlt
        have hne : x.connectedDevice handle ≠ some j := by
          rw [hc]
          exact fun h => (Nat.ne_of_gt hj) (Option.some.inj h)
        obtain ⟨k, hk, hck⟩ := hother j hjlen
          ((hnoted j hjlen).symm.trans (of_decide_eq_true hsame)) hne
        have := Option.some.inj (hc.symm.trans hck)
        omega

theorem attributed_iff {x : BtLink} (hx : NotedLast x) (e : BtInput) :
    Attributed x e ↔ HandleFresh x e := by
  cases e with
  | packet packet now =>
      cases packet with
      | leConnectionComplete status peer handle => exact Iff.rfl
      | disconnectionComplete status handle =>
          rw [HandleFresh, ← getDeviceByHandle_iff hx handle, Attributed,
            and_iff_left_iff_imp]
          intro hfound
          rw [← hfound]
          exact x.ctx.onDevice_only _ (keepsHandle_btResetDevice .disconnected)
  | gatt packet now =>
      rw [HandleFresh, ← getDeviceByHandle_iff hx packet.handle, Attributed,
        and_iff_left_iff_imp]
      intro hfound
      rw [← hfound, handleGattClientEvent_eq]
      exact x.ctx.onDevice_only _ (keepsHandle_gattPacket now packet)
  | run now gatt => exact Iff.rfl

/-- In every run of any known devices, each event with a handle is applied to
the device that is connected with it and to no other, if and only if no event
carries a handle that a device has kept from a closed connection. -/
theorem event_attribution_iff (known : List KnownDevice) (es : List BtInput) :
    btMachine.Along Attributed (.init known) es ↔
      btMachine.Along HandleFresh (.init known) es := by
  constructor
  · intro h
    exact h.mono_of_invariant (I := NotedLast)
      (fun x e hx _ => notedLast_step hx e)
      (fun x e hx => (attributed_iff hx e).mp) (notedLast_init known)
  · intro h
    exact h.mono_of_invariant (I := NotedLast)
      (fun x e hx _ => notedLast_step hx e)
      (fun x e hx => (attributed_iff hx e).mpr) (notedLast_init known)

/-! ## A handle that is used again -/

def twoBatteries : List KnownDevice :=
  [⟨[1, 2, 3, 4, 5, 6], true, true⟩, ⟨[1, 2, 3, 4, 5, 7], true, true⟩]

/-- The first battery connects with handle 64 and disconnects, then the second
one connects with the same handle. -/
def handleAgain : List BtInput :=
  [.packet (.leConnectionComplete 0 [1, 2, 3, 4, 5, 6] 64) 1000,
    .packet (.disconnectionComplete 0 64) 2000,
    .packet (.leConnectionComplete 0 [1, 2, 3, 4, 5, 7] 64) 3000]

/-- When the second battery disconnects, the handler of the first one is
called, and the second one stays connected. -/
theorem handle_again_wrong_battery :
    btMachine.Admits (.init twoBatteries)
        (handleAgain ++ [.packet (.disconnectionComplete 0 64) 4000]) ∧
      (btMachine.run (.init twoBatteries) handleAgain).connectedDevice 64 =
        some 1 ∧
      (btPacketHandler (btMachine.run (.init twoBatteries) handleAgain).ctx
          (.disconnectionComplete 0 64) 4000).2 =
        [⟨1 <<< 16, .disconnected⟩] ∧
      ((btMachine.run (.init twoBatteries) (handleAgain ++
          [.packet (.disconnectionComplete 0 64) 4000])).ctx.devices.map
            (·.state)) = [.disconnected, .connected] ∧
      ¬btMachine.Along Attributed (.init twoBatteries)
        (handleAgain ++ [.packet (.disconnectionComplete 0 64) 4000]) := by
  refine ⟨?_, by decide +kernel, by decide +kernel, by decide +kernel, ?_⟩
  · have hclosed : ((btMachine.run (.init twoBatteries)
        (handleAgain.take 2))).peer = fun _ => none := by
      show Function.update (Function.update (fun _ => (none : Option BdAddr)) 64
        (some [1, 2, 3, 4, 5, 6])) 64 none = fun _ => none
      rw [Function.update_idem]
      exact Function.update_eq_self 64 fun _ => none
    refine ⟨⟨nofun, fun _ => rfl⟩, trivial, ⟨fun h => ?_, fun _ => ?_⟩, trivial,
      trivial⟩
    · exact (congrFun hclosed h).trans_ne nofun
    · exact congrFun hclosed 64
  · intro h
    have hlast := (btMachine.along_append.mp h).2.1
    exact absurd hlast.1 (by decide +kernel)

end Herak.Bt
