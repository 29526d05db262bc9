import Herak.Mqtt.Discovery
import Herak.Support.BoundedPrint

/-!
# The buffers of a discovery message

`mqtt_discovery_generate_component` and `mqtt_discovery_generate_device` byte
by byte.  The chain of prints into `discovery.buff` counts what is left of the
buffer, and a message that does not fit is refused.  The print into
`discovery.topic` is only tested for an error, so that a topic which does not
fit is cut and its message accepted.
-/

namespace Herak.Mqtt

open BoundedPrint CInt CString

/-- The buffers of the context. -/
structure DiscoveryBuffers where
  topic : PrintArray
  buff : PrintArray

/-- `ADD_STR` for each piece; the size that is left is converted to `size_t`. -/
def printStrs (a : PrintArray) (count : ℕ) (size : ℤ) :
    List CStr → ℤ × PrintArray
  | [] => (size, a)
  | piece :: pieces =>
      let a := a.snprintfAt count (toUInt32 size) piece
      let left := size - strlen piece
      if left < 0 then (left, a)
      else printStrs a (count + strlen piece) left pieces

namespace DiscoveryBuffers

/-- The common body of the two functions, in the buffers. -/
def generate (b : DiscoveryBuffers) (topic : CStr) (pieces : List CStr) :
    ℤ × DiscoveryBuffers :=
  let buff := b.buff.store 0 [0]
  let topicBuff := b.topic.snprintfAt 0 mqttMaxTopicSize topic
  if strlen topic ≤ 0 then (-1, ⟨topicBuff, buff⟩)
  else
    let printed := printStrs buff 0 mqttDiscoveryBuffSize pieces
    (printed.1, ⟨topicBuff, printed.2⟩)

/-- `mqtt_discovery_generate_component` -/
def generateComponent (b : DiscoveryBuffers) (names : MqttNames)
    (c : MqttComponent) : ℤ × DiscoveryBuffers :=
  b.generate (componentTopicText names c) (componentPieces names c)

/-- `mqtt_discovery_generate_device` -/
def generateDevice (b : DiscoveryBuffers) (names : MqttNames)
    (web : WebAddress) : ℤ × DiscoveryBuffers :=
  b.generate (deviceTopicText names) (deviceMessagePieces names web)

/-- The arrays of the context, before anything is written. -/
structure Fresh (b : DiscoveryBuffers) : Prop where
  topicSize : b.topic.bytes.length = mqttMaxTopicSize
  buffSize : b.buff.bytes.length = mqttDiscoveryBuffSize
  topicWritten : b.topic.written = []
  buffWritten : b.buff.written = []

/-- No write has left the arrays. -/
def Inside (b : DiscoveryBuffers) : Prop :=
  b.topic.Inside mqttMaxTopicSize ∧ b.buff.Inside mqttDiscoveryBuffSize

/-- The arrays hold a whole topic and a whole text with their NUL. -/
def HoldsWhole (b : DiscoveryBuffers) (topic text : CStr) : Prop :=
  topic ++ [0] <+: b.topic.bytes ∧ text ++ [0] <+: b.buff.bytes

end DiscoveryBuffers

/-- A positive result stands for a whole message, and no write leaves the
buffers. -/
def GeneratedWhole (generated : ℤ × DiscoveryBuffers) (topic text : CStr) :
    Prop :=
  (0 < generated.1 → generated.2.HoldsWhole topic text) ∧ generated.2.Inside

/-! ## The chain of prints -/

/-- The texts of the chain and what the buffer holds of them. -/
theorem printStrs_spec {n : ℕ} (hpos : 0 < n) (hn : n < 2 ^ 32)
    (pieces : List CStr) :
    ∀ (a : PrintArray) (text : CStr), a.Holds n text → text.length ≤ n →
      let printed := printStrs a text.length (n - text.length : ℤ) pieces
      ∃ text', printed.2.Holds n text' ∧
        addStrs (snprintf n text) (n - text.length : ℤ) pieces =
          (snprintf n text', printed.1) ∧
        (0 ≤ printed.1 → text' = text ++ pieces.flatten ∧
          printed.1 = n - (text ++ pieces.flatten).length) := by
  induction pieces with
  | nil =>
      intro a text h _
      exact ⟨text, h, rfl, fun _ => by simp [printStrs]⟩
  | cons piece pieces ih =>
      intro a text h hlen
      have hsize : toUInt32 (n - text.length : ℤ) = n - text.length := by
        simp only [toUInt32]
        omega
      have hnext := h.snprintfAt hpos hlen piece
      have hleft : (n - text.length : ℤ) - strlen piece =
          n - (text ++ piece).length := by
        rw [strlen_eq, List.length_append]
        omega
      have hkept : snprintf n text ++
          snprintf (n - text.length : ℤ).toNat piece =
            snprintf n (text ++ piece) := by
        have hroom : (n - text.length : ℤ).toNat - 1 = n - 1 - text.length := by
          omega
        rw [snprintf, snprintf, snprintf, List.take_append, hroom]
      simp only [printStrs, addStrs, addStr, hsize, hleft, hkept]
      by_cases hneg : (n - (text ++ piece).length : ℤ) < 0
      · rw [if_pos hneg, if_pos hneg]
        exact ⟨text ++ piece, hnext, rfl, fun h => absurd h (not_le.mpr hneg)⟩
      · rw [if_neg hneg, if_neg hneg, strlen_eq, ← List.length_append]
        obtain ⟨text', hholds, hadd, hwhole⟩ :=
          ih _ (text ++ piece) hnext (by omega)
        refine ⟨text', hholds, hadd, fun h => ?_⟩
        rw [List.flatten_cons, ← List.append_assoc]
        exact hwhole h

/-! ## The two messages -/

variable {b : DiscoveryBuffers} {topic : CStr} {pieces : List CStr}

/-- The buffers behind a call: the result is the one that is computed for the
texts, the topic is cut to its buffer, and the text is whole if the result is
not negative. -/
theorem DiscoveryBuffers.generate_spec (hb : b.Fresh) (htopic : topic ≠ [])
    (hpieces : pieces.flatten ≠ []) :
    let generated := b.generate topic pieces
    generated.1 = (mqttDiscoveryGenerate topic pieces).1 ∧
      generated.2.Inside ∧
      generated.2.topic.bytes.length = mqttMaxTopicSize ∧
      snprintf mqttMaxTopicSize topic ++ [0] <+: generated.2.topic.bytes ∧
      (0 < generated.1 → pieces.flatten ++ [0] <+: generated.2.buff.bytes) := by
  have hlen : ¬strlen topic ≤ 0 := by
    rw [strlen_eq]
    exact Nat.not_le.mpr (List.length_pos_of_ne_nil htopic)
  have htopicHolds : b.topic.Holds mqttMaxTopicSize [] :=
    PrintArray.holds_nil hb.topicSize.ge fun k hk => by
      simp [hb.topicWritten] at hk
  have htopicPrinted := htopicHolds.snprintfAt (by decide) (Nat.zero_le _) topic
  have htopicSize : (b.topic.snprintfAt 0 mqttMaxTopicSize
      topic).bytes.length = mqttMaxTopicSize := by
    have hdata : (snprintf mqttMaxTopicSize topic ++ [0]).length ≤
        mqttMaxTopicSize := by
      rw [List.length_append, snprintf, List.length_take,
        List.length_singleton, mqttMaxTopicSize]
      omega
    rw [PrintArray.snprintfAt, if_neg (by decide), PrintArray.length_store]
    · exact hb.topicSize
    · rw [hb.topicSize, Nat.zero_add]
      exact hdata
  have hbuff : (b.buff.store 0 [0]).Holds mqttDiscoveryBuffSize [] := by
    have hroom : 0 + [(0 : UInt8)].length ≤ mqttDiscoveryBuffSize := by decide
    have hinside : b.buff.Inside mqttDiscoveryBuffSize := fun k hk => by
      simp [hb.buffWritten] at hk
    refine PrintArray.holds_nil ?_ (hinside.store hroom)
    rw [PrintArray.length_store (hb.buffSize ▸ hroom)]
    exact hb.buffSize.ge
  obtain ⟨text, hholds, hadd, hwhole⟩ := printStrs_spec (by decide) (by decide)
    pieces _ [] hbuff (Nat.zero_le _)
  simp only [List.length_nil, Nat.cast_zero, Int.sub_zero, List.nil_append,
    Nat.sub_zero] at hholds hadd hwhole htopicPrinted
  simp only [generate, mqttDiscoveryGenerate, if_neg hlen]
  have hnil : snprintf mqttDiscoveryBuffSize ([] : CStr) = [] := List.take_nil
  rw [hnil] at hadd
  refine ⟨(congrArg Prod.snd hadd).symm, ⟨htopicPrinted.inside, hholds.inside⟩,
    htopicSize, htopicPrinted.shown htopic, fun hpositive => ?_⟩
  obtain ⟨rfl, hsize⟩ := hwhole hpositive.le
  have hfits : pieces.flatten.length < mqttDiscoveryBuffSize := by omega
  have hshown := hholds.shown hpieces
  rwa [snprintf_of_lt hfits] at hshown

/-- A message is generated whole, or refused, exactly if its topic fits or its
text does not. -/
theorem DiscoveryBuffers.generatedWhole_iff (hb : b.Fresh)
    (htopic : topic ≠ []) (hpieces : pieces.flatten ≠ []) :
    GeneratedWhole (b.generate topic pieces) topic pieces.flatten ↔
      topic.length < mqttMaxTopicSize ∨
        mqttDiscoveryBuffSize ≤ pieces.flatten.length := by
  obtain ⟨hret, hinside, hsize, hcut, hshown⟩ :=
    generate_spec hb htopic hpieces
  have hpositive := (mqttDiscoveryGenerate_spec htopic pieces).1
  rw [← hret, DiscoveryMessage.Fits] at hpositive
  constructor
  · intro h
    by_contra hnot
    rw [not_or, Nat.not_le] at hnot
    have hwhole := (h.1 (hpositive.mpr hnot.2)).1.length_le
    rw [List.length_append, hsize, List.length_singleton] at hwhole
    exact hnot.1 hwhole
  · intro hfits
    refine ⟨fun hgenerated => ⟨?_, hshown hgenerated⟩, hinside⟩
    have htext := hpositive.mp hgenerated
    rcases hfits with hfits | hfits
    · rwa [snprintf_of_lt hfits] at hcut
    · exact absurd htext (Nat.not_lt.mpr hfits)

theorem flatten_componentPieces_ne_nil (names : MqttNames)
    (c : MqttComponent) : (componentPieces names c).flatten ≠ [] := by
  simp [componentPieces, devicePieces, lit]

theorem flatten_deviceMessagePieces_ne_nil (names : MqttNames)
    (web : WebAddress) : (deviceMessagePieces names web).flatten ≠ [] := by
  simp [deviceMessagePieces, devicePieces, lit]

theorem discoveryMessages_whole_iff (hb : b.Fresh) (names : MqttNames)
    (c : MqttComponent) (web : WebAddress) :
    (GeneratedWhole (b.generateComponent names c) (componentTopicText names c)
        (componentPieces names c).flatten ↔
      (componentTopicText names c).length < mqttMaxTopicSize ∨
        mqttDiscoveryBuffSize ≤ (componentPieces names c).flatten.length) ∧
    (GeneratedWhole (b.generateDevice names web) (deviceTopicText names)
        (deviceMessagePieces names web).flatten ↔
      (deviceTopicText names).length < mqttMaxTopicSize ∨
        mqttDiscoveryBuffSize ≤
          (deviceMessagePieces names web).flatten.length) :=
  ⟨DiscoveryBuffers.generatedWhole_iff hb (componentTopicText_ne_nil names c)
      (flatten_componentPieces_ne_nil names c),
    DiscoveryBuffers.generatedWhole_iff hb (deviceTopicText_ne_nil names)
      (flatten_deviceMessagePieces_ne_nil names web)⟩

/-! ## A topic that does not fit -/

/-- The buffers at the start of the client. -/
def discoveryBuffersStart : DiscoveryBuffers where
  topic := ⟨List.replicate mqttMaxTopicSize 0, []⟩
  buff := ⟨List.replicate mqttDiscoveryBuffSize 0, []⟩

theorem discoveryBuffersStart_fresh : discoveryBuffersStart.Fresh :=
  ⟨List.length_replicate, List.length_replicate, rfl, rfl⟩

/-- The client of a device with the given topic. -/
def relayNames (stateTopic : String) : MqttNames where
  clientId := lit "relay"
  stateTopic := lit stateTopic

def relayComponent (stateTopic : String) : MqttComponent where
  moduleName := lit "ssr"
  name := lit "ssr_state"
  platform := lit "binary_sensor"
  devClass := none
  unit := none
  valueTemplate := lit "\x7b\x7b value_json.ssr_state \x7d\x7d"
  payloadOn := some (lit "1")
  payloadOff := some (lit "0")
  stateTopic := some (lit stateTopic ++ lit "/ssr/ssr_state/status")

def relayWeb : WebAddress where
  port := 80
  address := lit "192.168.1.20"

theorem discoveryMessages_whole_relay :
    GeneratedWhole (discoveryBuffersStart.generateComponent
        (relayNames "home/relay") (relayComponent "home/relay"))
        (componentTopicText (relayNames "home/relay")
          (relayComponent "home/relay"))
        (componentPieces (relayNames "home/relay")
          (relayComponent "home/relay")).flatten ∧
      GeneratedWhole (discoveryBuffersStart.generateDevice
        (relayNames "home/relay") relayWeb)
        (deviceTopicText (relayNames "home/relay"))
        (deviceMessagePieces (relayNames "home/relay") relayWeb).flatten := by
  have hwhole := discoveryMessages_whole_iff discoveryBuffersStart_fresh
    (relayNames "home/relay") (relayComponent "home/relay") relayWeb
  exact ⟨hwhole.1.mpr (by decide +kernel), hwhole.2.mpr (by decide +kernel)⟩

/-- A topic of 105 characters is cut, and its message accepted. -/
theorem not_discoveryMessages_whole :
    ¬∀ (b : DiscoveryBuffers) (names : MqttNames) (c : MqttComponent),
      b.Fresh → GeneratedWhole (b.generateComponent names c)
        (componentTopicText names c) (componentPieces names c).flatten := by
  intro h
  have hwhole := h discoveryBuffersStart
    (relayNames "home/cottage/basement/boiler-room/controller/relay-board")
    (relayComponent "home/cottage/basement/boiler-room/controller/relay-board")
    discoveryBuffersStart_fresh
  have hfits := (DiscoveryBuffers.generatedWhole_iff
    discoveryBuffersStart_fresh (componentTopicText_ne_nil _ _)
    (flatten_componentPieces_ne_nil _ _)).mp hwhole
  revert hfits
  decide +kernel

end Herak.Mqtt
