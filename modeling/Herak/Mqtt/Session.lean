import Herak.Mqtt.Client
import Herak.Support.EventMachine

/-!
# Sessions of the MQTT client

The client, the broker's side of the connection as lwIP presents it, and the
history of the run.  lwIP announces one message after the other and hands the
payload of each over in consecutive fragments, of which the one that completes
the announced length carries the `LAST` flag; a lost connection cuts the
message on the wire short.  The history variables record which publish opened
a buffer, which publish every stored byte came with, and what the hooks were
called with.  No function of the client reads them.
-/

namespace Herak.Mqtt

/-- The publish whose payload lwIP is receiving, and the bytes still due. -/
inductive Wire
  | idle
  | message (id left : ℕ)
  deriving DecidableEq

/-- One publish of the history: the buffer and the topic it was accepted into,
if any, what it announced and what has arrived. -/
structure Arrival where
  slot : Option (BuffIdx × ℕ)
  topic : CStr
  totLen : ℕ
  payload : List UInt8
  complete : Bool

structure MqttSession (Hook Json : Type*) where
  ctx : MqttContext Hook
  wire : Wire
  published : ℕ
  arrival : ℕ → Arrival
  owner : BuffIdx → ℕ
  source : BuffIdx → List ℕ
  handed : List ℕ
  calls : List (ℕ × HookCall Hook Json)

inductive MqttEvent
  | publish (topic : CStr) (totLen : ℕ)
  | data (bytes : List UInt8) (flags : UInt8)
  | ready
  | hook (status : MqttConnectionStatus)
  | reconnect

/-- The events that concern the connection and not a message. -/
def MqttEvent.isConnection : MqttEvent → Bool
  | .hook _ | .reconnect => true
  | _ => false

variable {Hook Json : Type*}

def MqttSession.init (topics : List (MqttTopic Hook)) :
    MqttSession Hook Json where
  ctx := MqttContext.init topics
  wire := .idle
  published := 0
  arrival := fun _ => ⟨none, [], 0, [], false⟩
  owner := fun _ => 0
  source := fun _ => []
  handed := []
  calls := []

namespace MqttSession

abbrev listen (s : MqttSession Hook Json) : MqttListen Hook := s.ctx.listen

/-- Extend the history by a publish and the buffer it was accepted into. -/
def recordPublish
    (s : MqttSession Hook Json) (topic : CStr) (totLen : ℕ) :
    MqttSession Hook Json :=
  let slot := s.listen.publishSlot topic totLen
  let s := { s with
    wire := .message s.published totLen
    published := s.published + 1
    arrival := Function.update s.arrival s.published
      ⟨slot, topic, totLen, [], false⟩ }
  match slot with
  | none => s
  | some (i, _) =>
      { s with
        owner := Function.update s.owner i (s.published - 1)
        source := Function.update s.source i [] }

/-- Extend the history by a fragment and the buffer that stored it. -/
def recordData (s : MqttSession Hook Json) (bytes : List UInt8) :
    MqttSession Hook Json :=
  match s.wire with
  | .idle => s
  | .message id left =>
      let a := s.arrival id
      let slot := s.listen.dataSlot bytes.length
      let s := { s with
        wire := if bytes.length = left then .idle
          else .message id (left - bytes.length)
        arrival := Function.update s.arrival id
          { a with
            payload := a.payload ++ bytes
            complete := bytes.length = left } }
      match slot with
      | none => s
      | some i =>
          { s with
            source := Function.update s.source i
              (s.source i ++ List.replicate bytes.length id) }

/-- Extend the history by the hand-over of the complete message in a
buffer. -/
def recordReady
    (s : MqttSession Hook Json) (calls : List (HookCall Hook Json)) :
    MqttSession Hook Json :=
  match s.listen.readyBuff with
  | none => s
  | some i =>
      { s with
        handed := s.handed ++ [s.owner i]
        calls := s.calls ++ calls.map fun c => (s.owner i, c)
        source := Function.update s.source i [] }

/-- The events after which no further byte of the message on the wire
arrives. -/
def losesConnection (s : MqttSession Hook Json) : MqttEvent → Bool
  | .hook .accepted | .hook .unknown => false
  | .hook _ => true
  | .reconnect => s.ctx.state ≠ .init
  | _ => false

def setListen (s : MqttSession Hook Json) (l : MqttListen Hook) :
    MqttSession Hook Json :=
  { s with ctx := { s.ctx with listen := l } }

/-- The client does its step and the history follows. -/
def step (lwjson : List UInt8 → Option Json)
    (s : MqttSession Hook Json) : MqttEvent → MqttSession Hook Json
  | .publish topic totLen =>
      (s.recordPublish topic totLen).setListen
        (mqttIncomingPublish s.listen topic totLen)
  | .data bytes flags =>
      (s.recordData bytes).setListen (mqttIncomingData s.listen bytes flags)
  | .ready =>
      let result := mqttIncomingReady lwjson s.listen
      (s.recordReady result.1).setListen result.2.1
  | .hook status =>
      { s with
        ctx := mqttHook s.ctx status
        wire := if s.losesConnection (.hook status) then .idle else s.wire }
  | .reconnect =>
      { s with
        ctx := sysMqttReconnect s.ctx
        wire := if s.losesConnection .reconnect then .idle else s.wire }

/-- What lwIP may do: announce a message when none is on the wire, deliver a
fragment of the one that is, with the `LAST` flag on exactly the fragment that
completes it.  The main loop and the connection are free. -/
def Enabled (s : MqttSession Hook Json) : MqttEvent → Prop
  | .publish _ _ => s.wire = .idle
  | .data bytes flags =>
      ∃ id left, s.wire = .message id left ∧ bytes.length ≤ left ∧
        (flags &&& mqttDataFlagLast ≠ 0 ↔ bytes.length = left)
  | .ready | .hook _ | .reconnect => True

/-- The sessions of a client that parses JSON with `lwjson`. -/
def machine (lwjson : List UInt8 → Option Json) :
    EventMachine (MqttSession Hook Json) MqttEvent where
  step := step lwjson
  enabled := Enabled

instance decidableEnabled (s : MqttSession Hook Json) :
    ∀ e, Decidable (s.Enabled e)
  | .publish _ _ => inferInstanceAs (Decidable (s.wire = .idle))
  | .data bytes flags =>
      match h : s.wire with
      | .idle => .isFalse (by simp [Enabled, h])
      | .message _ left =>
          decidable_of_iff
            (bytes.length ≤ left ∧
              (flags &&& mqttDataFlagLast ≠ 0 ↔ bytes.length = left))
            (by simp [Enabled, h])
  | .ready | .hook _ | .reconnect => .isTrue trivial

instance (lwjson : List UInt8 → Option Json) (s : MqttSession Hook Json)
    (e : MqttEvent) : Decidable ((machine lwjson).enabled s e) :=
  decidableEnabled s e

/-! ## The steps case by case -/

variable {lwjson : List UInt8 → Option Json} {s : MqttSession Hook Json}

/-- The session after a publish that is not accepted. -/
def rejected (s : MqttSession Hook Json) (topic : CStr) (n : ℕ) :
    MqttSession Hook Json :=
  { s with
    wire := .message s.published n
    published := s.published + 1
    arrival := Function.update s.arrival s.published
      ⟨none, topic, n, [], false⟩ }

theorem step_publish_rejected {topic : CStr} {n : ℕ}
    (h : s.listen.publishSlot topic n = none) :
    step lwjson s (.publish topic n) = s.rejected topic n := by
  simp [step, recordPublish, mqttIncomingPublish, setListen, rejected, h]

/-- A buffer as an accepted publish opens it. -/
def opened (b : MqttListenBuff) (n j : ℕ) : MqttListenBuff :=
  { b with
    inProgress := true, ready := false, size := 0, totLen := n,
    topic := some j }

/-- The session after a publish that is accepted into buffer `i`. -/
def accepted (s : MqttSession Hook Json) (topic : CStr) (n : ℕ)
    (i : BuffIdx) (j : ℕ) : MqttSession Hook Json :=
  { s with
    ctx := { s.ctx with
      listen := { s.listen.setBuff i (opened (s.listen.buffers i) n j) with
        current := some i } }
    wire := .message s.published n
    published := s.published + 1
    arrival := Function.update s.arrival s.published
      ⟨some (i, j), topic, n, [], false⟩
    owner := Function.update s.owner i s.published
    source := Function.update s.source i [] }

theorem step_publish_accepted {topic : CStr} {n j : ℕ} {i : BuffIdx}
    (h : s.listen.publishSlot topic n = some (i, j)) :
    step lwjson s (.publish topic n) = s.accepted topic n i j := by
  simp [step, recordPublish, mqttIncomingPublish, setListen, accepted, opened,
    h]

/-- The history after a fragment of publish `id`. -/
def received (s : MqttSession Hook Json) (id left : ℕ) (bytes : List UInt8) :
    MqttSession Hook Json :=
  { s with
    wire := if bytes.length = left then .idle
      else .message id (left - bytes.length)
    arrival := Function.update s.arrival id
      { s.arrival id with
        payload := (s.arrival id).payload ++ bytes
        complete := bytes.length = left } }

theorem step_data_ignored {id left : ℕ} {bytes : List UInt8} {flags : UInt8}
    (hw : s.wire = .message id left) (hc : s.listen.current = none) :
    step lwjson s (.data bytes flags) = s.received id left bytes := by
  simp [step, recordData, mqttIncomingData, setListen, received,
    MqttListen.dataSlot, hw, hc]

/-- The current buffer after a fragment. -/
def filled (b : MqttListenBuff) (bytes : List UInt8) (flags : UInt8) :
    MqttListenBuff :=
  if flags &&& mqttDataFlagLast ≠ 0 then (b.append bytes).finish
  else b.append bytes

/-- The session after a fragment of publish `id` that goes to buffer `i`. -/
def stored (s : MqttSession Hook Json) (id left : ℕ) (bytes : List UInt8)
    (flags : UInt8) (i : BuffIdx) : MqttSession Hook Json :=
  { s.received id left bytes with
    ctx := { s.ctx with
      listen := { s.listen.setBuff i
          (filled (s.listen.buffers i) bytes flags) with
        current := if flags &&& mqttDataFlagLast ≠ 0 then none
          else some i } }
    source :=
      if (s.listen.buffers i).size + bytes.length <
          mqttOutputRingbufSize - 1
      then Function.update s.source i
        (s.source i ++ List.replicate bytes.length id)
      else s.source }

theorem step_data_stored {id left : ℕ} {bytes : List UInt8} {flags : UInt8}
    {i : BuffIdx} (hw : s.wire = .message id left)
    (hc : s.listen.current = some i)
    (hi : (s.listen.buffers i).inProgress = true) :
    step lwjson s (.data bytes flags) = s.stored id left bytes flags i := by
  have hrecord : s.recordData bytes =
      { s.received id left bytes with
        source :=
          if (s.listen.buffers i).size + bytes.length <
              mqttOutputRingbufSize - 1
          then Function.update s.source i
            (s.source i ++ List.replicate bytes.length id)
          else s.source } := by
    by_cases hfit : (s.listen.buffers i).size + bytes.length <
        mqttOutputRingbufSize - 1
    · have hslot : s.listen.dataSlot bytes.length = some i := by
        simp [MqttListen.dataSlot, hc, hi, hfit]
      simp [recordData, received, hw, hslot, hfit]
    · have hslot : s.listen.dataSlot bytes.length = none := by
        simp [MqttListen.dataSlot, hc, hi, hfit]
      simp [recordData, received, hw, hslot, hfit]
  have hlisten : mqttIncomingData s.listen bytes flags =
      { s.listen.setBuff i (filled (s.listen.buffers i) bytes flags) with
        current := if flags &&& mqttDataFlagLast ≠ 0 then none
          else some i } := by
    by_cases hlast : flags &&& mqttDataFlagLast = 0
    · have hset (b : MqttListenBuff) :
          s.listen.setBuff i b =
            { s.listen.setBuff i b with current := some i } := by
        rw [← hc]
        rfl
      simpa [mqttIncomingData, filled, hc, hi, hlast] using hset _
    · simp [mqttIncomingData, filled, hc, hi, hlast]
  simp only [step, hrecord, hlisten, setListen]
  rfl

theorem step_ready_idle (h : s.listen.readyBuff = none) :
    step lwjson s .ready = s := by
  simp [step, recordReady, mqttIncomingReady, setListen, h]

/-- A buffer as a hand-over leaves it. -/
def freed (b : MqttListenBuff) : MqttListenBuff :=
  { b with
    inProgress := false, ready := false, totLen := 0, size := 0,
    topic := none }

/-- The session after the message in buffer `i` is handed over. -/
def handedOver (lwjson : List UInt8 → Option Json)
    (s : MqttSession Hook Json) (i : BuffIdx) : MqttSession Hook Json :=
  { s with
    ctx := { s.ctx with
      listen := s.listen.setBuff i (freed (s.listen.buffers i)) }
    handed := s.handed ++ [s.owner i]
    calls := s.calls ++
      (s.listen.hookCalls lwjson i).map fun c => (s.owner i, c)
    source := Function.update s.source i [] }

theorem step_ready_handed {i : BuffIdx} (h : s.listen.readyBuff = some i) :
    step lwjson s .ready = handedOver lwjson s i := by
  simp [step, recordReady, mqttIncomingReady, setListen, handedOver, freed, h]

/-- A connection event changes nothing of the receive half and of the history;
it may clear the wire. -/
theorem step_connection {e : MqttEvent} (he : e.isConnection = true) :
    ∃ ctx : MqttContext Hook, ctx.listen = s.listen ∧
      step lwjson s e =
        { s with
          ctx := ctx
          wire := if s.losesConnection e then .idle else s.wire } := by
  cases e with
  | hook status => exact ⟨mqttHook s.ctx status, mqttHook_listen _ _, rfl⟩
  | reconnect =>
      exact ⟨sysMqttReconnect s.ctx, sysMqttReconnect_listen _, rfl⟩
  | publish | data | ready => simp [MqttEvent.isConnection] at he

/-! ## The fields after a step -/

/-- The hook calls that handed publish `id` over. -/
def callsOf (s : MqttSession Hook Json) (id : ℕ) : List (HookCall Hook Json) :=
  (s.calls.filter fun c => c.1 = id).map Prod.snd

section Fields

variable {topic : CStr} {n j id left k : ℕ} {i i' : BuffIdx}
  {bytes : List UInt8} {flags : UInt8}

theorem rejected_arrival_of_ne (hk : k ≠ s.published) :
    (s.rejected topic n).arrival k = s.arrival k :=
  Function.update_of_ne hk _ _

@[simp] theorem rejected_arrival_self :
    (s.rejected topic n).arrival s.published =
      ⟨none, topic, n, [], false⟩ :=
  Function.update_self _ _ _

theorem accepted_arrival_of_ne (hk : k ≠ s.published) :
    (s.accepted topic n i j).arrival k = s.arrival k :=
  Function.update_of_ne hk _ _

@[simp] theorem accepted_arrival_self :
    (s.accepted topic n i j).arrival s.published =
      ⟨some (i, j), topic, n, [], false⟩ :=
  Function.update_self _ _ _

@[simp] theorem accepted_buffers_self :
    (s.accepted topic n i j).listen.buffers i =
      opened (s.listen.buffers i) n j :=
  MqttListen.setBuff_same _ _ _

theorem accepted_buffers_of_ne (h : i' ≠ i) :
    (s.accepted topic n i j).listen.buffers i' = s.listen.buffers i' :=
  MqttListen.setBuff_of_ne _ _ h

@[simp] theorem accepted_owner_self :
    (s.accepted topic n i j).owner i = s.published :=
  Function.update_self _ _ _

theorem accepted_owner_of_ne (h : i' ≠ i) :
    (s.accepted topic n i j).owner i' = s.owner i' :=
  Function.update_of_ne h _ _

@[simp] theorem received_slot :
    ((s.received id left bytes).arrival k).slot = (s.arrival k).slot := by
  by_cases hk : k = id
  · subst hk
    simp [received]
  · simp [received, hk]

@[simp] theorem received_totLen :
    ((s.received id left bytes).arrival k).totLen = (s.arrival k).totLen := by
  by_cases hk : k = id
  · subst hk
    simp [received]
  · simp [received, hk]

@[simp] theorem received_topic :
    ((s.received id left bytes).arrival k).topic = (s.arrival k).topic := by
  by_cases hk : k = id
  · subst hk
    simp [received]
  · simp [received, hk]

theorem received_of_ne (hk : k ≠ id) :
    (s.received id left bytes).arrival k = s.arrival k := by
  simp [received, hk]

@[simp] theorem received_payload :
    ((s.received id left bytes).arrival id).payload =
      (s.arrival id).payload ++ bytes := by
  simp [received]

@[simp] theorem received_complete :
    ((s.received id left bytes).arrival id).complete =
      decide (bytes.length = left) := by
  simp [received]

@[simp] theorem stored_arrival :
    (s.stored id left bytes flags i).arrival =
      (s.received id left bytes).arrival := rfl

@[simp] theorem stored_buffers_self :
    (s.stored id left bytes flags i).listen.buffers i =
      filled (s.listen.buffers i) bytes flags :=
  MqttListen.setBuff_same _ _ _

theorem stored_buffers_of_ne (h : i' ≠ i) :
    (s.stored id left bytes flags i).listen.buffers i' =
      s.listen.buffers i' :=
  MqttListen.setBuff_of_ne _ _ h

@[simp] theorem handedOver_buffers_self :
    (handedOver lwjson s i).listen.buffers i = freed (s.listen.buffers i) :=
  MqttListen.setBuff_same _ _ _

theorem handedOver_buffers_of_ne (h : i' ≠ i) :
    (handedOver lwjson s i).listen.buffers i' = s.listen.buffers i' :=
  MqttListen.setBuff_of_ne _ _ h

@[simp] theorem handedOver_handed :
    (handedOver lwjson s i).handed = s.handed ++ [s.owner i] := rfl

/-- The calls of one hand-over are filed under its publish only. -/
theorem handedOver_callsOf :
    (handedOver lwjson s i).callsOf k =
      s.callsOf k ++
        if s.owner i = k then s.listen.hookCalls lwjson i else [] := by
  simp only [handedOver, callsOf, List.filter_append, List.map_append]
  congr 1
  by_cases hk : s.owner i = k
  · simp [hk, List.filter_map, Function.comp_def]
  · simp [hk, List.filter_map, Function.comp_def]

end Fields

end MqttSession

end Herak.Mqtt
