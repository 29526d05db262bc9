import Mathlib.Data.Fintype.Basic
import Mathlib.Logic.Function.Basic
import Herak.Support.CString
import Herak.Support.Memory

/-!
# Incoming MQTT messages

The receive half of the MQTT client.  lwIP announces a message with one call of
`mqttIncomingPublish` and hands its payload over in calls of
`mqttIncomingData`; the main loop hands complete messages to the registered
hooks with `mqttIncomingReady`.  In between a message lives in one of a fixed
pool of reassembly buffers.
-/

namespace Herak.Mqtt

open CString Memory

def mqttOutputRingbufSize : ℕ := 1024
abbrev mqttListenBuffers : ℕ := 2

def mqttDataFlagLast : UInt8 := 1

/-- Number of a reassembly buffer. -/
abbrev BuffIdx := Fin mqttListenBuffers

/-- `mqtt_topic_t`; `hooks` are in the order in which the callback list is
walked. -/
structure MqttTopic (Hook : Type*) where
  topic : CStr
  subscribed : Bool
  json : Bool
  hooks : List Hook

/-- `mqtt_listen_buff_t`; the topic pointer is an index into the topic
table. -/
structure MqttListenBuff where
  totLen : ℕ
  inProgress : Bool
  ready : Bool
  topic : Option ℕ
  msg : List UInt8
  size : ℕ

/-- `mqtt_listen_t`; `topics` are the leading non-NULL entries of the table
and `current` is the buffer that the message on the wire goes to. -/
structure MqttListen (Hook : Type*) where
  topics : List (MqttTopic Hook)
  current : Option BuffIdx
  buffers : BuffIdx → MqttListenBuff

/-- One call of a hook: `func(arg, topic, msg, size, lwjson)`. -/
structure HookCall (Hook Json : Type*) where
  hook : Hook
  topic : CStr
  msg : List UInt8
  size : ℕ
  json : Option Json

def emptyBuff : MqttListenBuff where
  totLen := 0
  inProgress := false
  ready := false
  topic := none
  msg := List.replicate mqttOutputRingbufSize 0
  size := 0

/-- The context as `calloc` leaves it, with a topic table. -/
def MqttListen.init {Hook : Type*} (topics : List (MqttTopic Hook)) :
    MqttListen Hook where
  topics := topics
  current := none
  buffers := fun _ => emptyBuff

namespace MqttListen

variable {Hook Json : Type*}

def setBuff (l : MqttListen Hook) (i : BuffIdx) (b : MqttListenBuff) :
    MqttListen Hook :=
  { l with buffers := Function.update l.buffers i b }

@[simp] theorem setBuff_topics
    (l : MqttListen Hook) (i : BuffIdx) (b : MqttListenBuff) :
    (l.setBuff i b).topics = l.topics := rfl

@[simp] theorem setBuff_current
    (l : MqttListen Hook) (i : BuffIdx) (b : MqttListenBuff) :
    (l.setBuff i b).current = l.current := rfl

@[simp] theorem setBuff_same
    (l : MqttListen Hook) (i : BuffIdx) (b : MqttListenBuff) :
    (l.setBuff i b).buffers i = b := by
  simp [setBuff]

theorem setBuff_of_ne
    (l : MqttListen Hook) {i k : BuffIdx} (b : MqttListenBuff) (h : k ≠ i) :
    (l.setBuff i b).buffers k = l.buffers k := by
  simp [setBuff, h]

/-- The first buffer that no message occupies. -/
def freeBuff (l : MqttListen Hook) : Option BuffIdx :=
  (List.finRange mqttListenBuffers).find? fun i => !(l.buffers i).inProgress

/-- The first buffer with a complete message. -/
def readyBuff (l : MqttListen Hook) : Option BuffIdx :=
  (List.finRange mqttListenBuffers).find? fun i => (l.buffers i).ready

/-- Buffer `i` is the lowest-numbered one with a complete message. -/
def LowestReady (l : MqttListen Hook) (i : BuffIdx) : Prop :=
  (l.buffers i).ready = true ∧ ∀ k < i, (l.buffers k).ready = false

def findTopic (l : MqttListen Hook) (topic : CStr) : Option ℕ :=
  l.topics.findIdx? fun t =>
    strlen topic == strlen t.topic && strcmp topic t.topic == 0

/-- The buffer and the topic that a publish is accepted into.  It needs a free
buffer, a length below the buffer size and a topic that is listened to. -/
def publishSlot (l : MqttListen Hook) (topic : CStr) (totLen : ℕ) :
    Option (BuffIdx × ℕ) :=
  match l.freeBuff with
  | none => none
  | some i =>
      if mqttOutputRingbufSize ≤ totLen then none
      else (l.findTopic topic).map fun j => (i, j)

/-- The buffer that takes a fragment.  A fragment that would fill the buffer
up to its last two bytes is dropped. -/
def dataSlot (l : MqttListen Hook) (len : ℕ) : Option BuffIdx :=
  match l.current with
  | none => none
  | some i =>
      if (l.buffers i).inProgress ∧
          (l.buffers i).size + len < mqttOutputRingbufSize - 1
      then some i else none

end MqttListen

open MqttListen

variable {Hook Json : Type*}

/-- A publish that is not accepted leaves the context alone, the current
buffer included. -/
def mqttIncomingPublish
    (l : MqttListen Hook) (topic : CStr) (totLen : ℕ) : MqttListen Hook :=
  match l.publishSlot topic totLen with
  | none => l
  | some (i, j) =>
      { l.setBuff i
          { l.buffers i with
            inProgress := true
            ready := false
            size := 0
            totLen := totLen
            topic := some j } with
        current := some i }

/-- Append a fragment to a buffer if it fits. -/
def MqttListenBuff.append
    (b : MqttListenBuff) (data : List UInt8) : MqttListenBuff :=
  if b.size + data.length < mqttOutputRingbufSize - 1 then
    { b with
      msg := memcpy b.msg b.size data
      size := b.size + data.length }
  else b

/-- Terminate the message of a buffer and mark it complete. -/
def MqttListenBuff.finish (b : MqttListenBuff) : MqttListenBuff :=
  { b with msg := b.msg.set b.size 0, ready := true }

def mqttIncomingData
    (l : MqttListen Hook) (data : List UInt8) (flags : UInt8) :
    MqttListen Hook :=
  match l.current with
  | none => l
  | some i =>
      if (l.buffers i).inProgress = false then l
      else
        let b := (l.buffers i).append data
        if flags &&& mqttDataFlagLast ≠ 0 then
          { l.setBuff i b.finish with current := none }
        else l.setBuff i b

/-- The hook calls that hand a complete message over.  The JSON parser sees
the message only for the topics that ask for it. -/
def MqttListen.hookCalls
    (lwjson : List UInt8 → Option Json) (l : MqttListen Hook) (i : BuffIdx) :
    List (HookCall Hook Json) :=
  let b := l.buffers i
  match b.topic.bind (l.topics[·]?) with
  | none => []
  | some t =>
      let json := if t.json then lwjson (b.msg.take b.size) else none
      t.hooks.map fun hook =>
        { hook := hook, topic := t.topic, msg := b.msg, size := b.size,
          json := json }

/-- Hand the complete message in the lowest-numbered buffer to its hooks and
free the buffer.  The last component is the result of the call. -/
def mqttIncomingReady
    (lwjson : List UInt8 → Option Json) (l : MqttListen Hook) :
    List (HookCall Hook Json) × MqttListen Hook × Bool :=
  match l.readyBuff with
  | none => ([], l, false)
  | some i =>
      (l.hookCalls lwjson i,
        l.setBuff i
          { l.buffers i with
            inProgress := false
            ready := false
            totLen := 0
            size := 0
            topic := none },
        true)

/-! ## What the lookups say -/

theorem freeBuff_free {l : MqttListen Hook} {i : BuffIdx}
    (h : l.freeBuff = some i) : (l.buffers i).inProgress = false := by
  have hi := List.find?_some h
  simpa using hi

theorem readyBuff_ready {l : MqttListen Hook} {i : BuffIdx}
    (h : l.readyBuff = some i) : (l.buffers i).ready = true := by
  simpa using List.find?_some h

theorem readyBuff_eq_none {l : MqttListen Hook} :
    l.readyBuff = none ↔ ∀ i, (l.buffers i).ready = false := by
  simp [readyBuff, List.find?_eq_none]

/-- The buffer handed over is the lowest-numbered complete one. -/
theorem readyBuff_eq_some {l : MqttListen Hook} {i : BuffIdx} :
    l.readyBuff = some i ↔ l.LowestReady i := by
  rw [readyBuff, ← Fin.find?_eq_find?_finRange, Fin.find?_eq_some_iff]
  exact Iff.rfl

/-- A topic that is found has exactly the name asked for. -/
theorem findTopic_spec {l : MqttListen Hook} {topic : CStr} {j : ℕ}
    (h : l.findTopic topic = some j) :
    ∃ t, l.topics[j]? = some t ∧ t.topic = topic := by
  obtain ⟨hj, hp, -⟩ := List.findIdx?_eq_some_iff_getElem.mp h
  refine ⟨l.topics[j], List.getElem?_eq_getElem hj, ?_⟩
  simp only [Bool.and_eq_true, beq_iff_eq] at hp
  exact ((strcmp_eq_zero_iff _ _).mp hp.2).symm

theorem publishSlot_spec {l : MqttListen Hook} {topic : CStr} {n : ℕ}
    {i : BuffIdx} {j : ℕ} (h : l.publishSlot topic n = some (i, j)) :
    l.freeBuff = some i ∧ n < mqttOutputRingbufSize ∧
      l.findTopic topic = some j := by
  unfold publishSlot at h
  split at h
  · simp at h
  next i' hfree =>
    split at h
    · simp at h
    next hn =>
      obtain ⟨j', hj', heq⟩ := Option.map_eq_some_iff.mp h
      obtain ⟨rfl, rfl⟩ := Prod.mk.inj heq
      exact ⟨hfree, Nat.lt_of_not_ge hn, hj'⟩

/-! ## Appending -/

theorem MqttListenBuff.append_of_fits
    {b : MqttListenBuff} {data : List UInt8}
    (h : b.size + data.length < mqttOutputRingbufSize - 1) :
    b.append data =
      { b with
        msg := memcpy b.msg b.size data
        size := b.size + data.length } := if_pos h

theorem MqttListenBuff.append_of_not_fits
    {b : MqttListenBuff} {data : List UInt8}
    (h : ¬b.size + data.length < mqttOutputRingbufSize - 1) :
    b.append data = b := if_neg h

end Herak.Mqtt
