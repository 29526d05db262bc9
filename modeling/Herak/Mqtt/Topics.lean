import Herak.Mqtt.Client
import Herak.Support.CString

/-!
# The table of topics

`mqtt_listen.c`: the topics that the client listens to are the leading entries
of an array of pointers, which is scanned up to its first NULL.  A read behind
the array has no meaning in C; the functions here return `none` when it
happens, unless they are told what the read finds.
-/

namespace Herak.Mqtt

open CString

/-- `MQTT_MAX_TOPICS` -/
abbrev mqttMaxTopics : ℕ := 20

/-- `MQTT_MAX_TOPIC_SIZE` -/
def mqttMaxTopicSize : ℕ := 96

/-- The part of `mqtt_context_t` that the functions of the topics use. -/
structure MqttTopics (Hook : Type*) where
  topics : Fin mqttMaxTopics → Option (MqttTopic Hook)
  count : ℕ
  subscribe : ℕ
  state : MqttClientState

variable {Hook : Type*}

/-- What is found behind the array: nothing that C gives a meaning to, or a
pointer that the caller names. -/
abbrev Beyond (Hook : Type*) := Option (Option (MqttTopic Hook))

namespace MqttTopics

/-- The context as `calloc` leaves it. -/
def init : MqttTopics Hook := ⟨fun _ => none, 0, 0, .init⟩

/-- The pointer `topics[i]`, for `i` in the array. -/
def entry (c : MqttTopics Hook) (i : ℕ) : Option (MqttTopic Hook) :=
  if h : i < mqttMaxTopics then c.topics ⟨i, h⟩ else none

/-- The read of `topics[i]`, for any `i`. -/
def read (beyond : Beyond Hook) (c : MqttTopics Hook) (i : ℕ) : Beyond Hook :=
  if i < mqttMaxTopics then some (c.entry i) else beyond

def set (c : MqttTopics Hook) (i : ℕ) (t : MqttTopic Hook) : MqttTopics Hook :=
  { c with topics := fun j => if j.val = i then some t else c.topics j }

/-- `while (topics[i] && inRange(i)) { if (stop(topics[i])) break; i++; }` in
`fuel` rounds. -/
def scanFrom (beyond : Beyond Hook) (c : MqttTopics Hook)
    (inRange : ℕ → Bool) (stop : MqttTopic Hook → Bool) : ℕ → ℕ → Option ℕ
  | 0, i => some i
  | fuel + 1, i =>
      match c.read beyond i with
      | none => none
      | some none => some i
      | some (some t) =>
          if inRange i then
            if stop t then some i
            else scanFrom beyond c inRange stop fuel (i + 1)
          else some i

/-- The scan from the first entry; it leaves the array in its last round. -/
def scan (beyond : Beyond Hook) (c : MqttTopics Hook)
    (inRange : ℕ → Bool) (stop : MqttTopic Hook → Bool) : Option ℕ :=
  c.scanFrom beyond inRange stop (mqttMaxTopics + 1) 0

/-- The loop of `mqtt_subscribe_all` in `fuel` rounds. -/
def clearFrom : ℕ → ℕ → MqttTopics Hook → Option (MqttTopics Hook)
  | 0, _, c => some c
  | fuel + 1, i, c =>
      match c.read none i with
      | none => none
      | some none => some c
      | some (some t) =>
          if i ≤ mqttMaxTopics then
            clearFrom fuel (i + 1) (c.set i { t with subscribed := false })
          else some c

/-- The end of `mqtt_topic_listen`: the hook is put in front of the hooks of
its topic. -/
def addHook (c : MqttTopics Hook) (i : ℕ) (hook : Hook) (json : Bool)
    (allocHook : Bool) : ℤ × MqttTopics Hook :=
  match c.entry i with
  | none => (-1, c)
  | some t =>
      if allocHook = false then (-1, c)
      else (0, c.set i { t with
        hooks := hook :: t.hooks
        json := json || t.json })

end MqttTopics

/-- The test for a topic in the scans. -/
def sameTopic (topic : CStr) (t : MqttTopic Hook) : Bool :=
  strlen topic == strlen t.topic && strcmp topic t.topic == 0

/-- The entry of a new topic, which `strncpy` copies into an array of zeros. -/
def newTopic (topic : CStr) : MqttTopic Hook where
  topic := strncpy topic (mqttMaxTopicSize - 1) []
  subscribed := false
  json := false
  hooks := []

/-- `mqtt_topic_listen`; the two flags are the results of `calloc`. -/
def mqttTopicListen (beyond : Beyond Hook) (c : MqttTopics Hook)
    (topic : CStr) (hook : Hook) (json allocTopic allocHook : Bool) :
    Option (ℤ × MqttTopics Hook) :=
  match c.scan beyond (· < mqttMaxTopics) (sameTopic topic) with
  | none => none
  | some i =>
      if mqttMaxTopics ≤ i ∨ c.entry i = none then
        if mqttMaxTopics ≤ c.count ∨ c.entry c.count ≠ none then some (-1, c)
        else if allocTopic = false then some (-1, c)
        else
          let c' := { c.set c.count (newTopic topic) with count := c.count + 1 }
          some (c'.addHook c.count hook json allocHook)
      else some (c.addHook i hook json allocHook)

/-- `mqtt_subscribe_all` -/
def mqttSubscribeAll (c : MqttTopics Hook) : Option (MqttTopics Hook) :=
  (c.clearFrom (mqttMaxTopics + 1) 0).map fun c => { c with subscribe := 0 }

/-- `mqtt_send_subscribe`; `ret` is what `mqtt_subscribe` returns, if it is
called.  The second result is the entry whose topic it is called for. -/
def mqttSendSubscribe (c : MqttTopics Hook) (ret : ℤ) :
    Option (ℤ × Option ℕ × MqttTopics Hook) :=
  if c.state ≠ .connected then some (-1, none, c)
  else
    match c.scan none (· ≤ mqttMaxTopics) (!·.subscribed) with
    | none => none
    | some i =>
        match c.entry i with
        | none => some (-1, none, c)
        | some t =>
            if strlen t.topic < 1 then some (-1, none, c)
            else if ret = 0 then
              some (0, some i,
                { c.set i { t with subscribed := true } with
                  subscribe := c.subscribe + 1 })
            else some (ret, some i, c)

end Herak.Mqtt
