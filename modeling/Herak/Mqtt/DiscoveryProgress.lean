import Herak.Mqtt.DiscoverySent
import Herak.Mqtt.Subscriptions
import Herak.Support.BlockingQueue

/-!
# Discovery progress

A round of `mqtt_config_send` has an order: the status, the device, the
components and the topics.  A call tries what is next in this order, and what
does not succeed is tried again with the next call, so that a message that
never fits its buffer keeps everything behind it from being sent.
-/

namespace Herak.Mqtt

open BlockingQueue CInt CString

variable {Hook : Type*}

/-! ## What a round sends -/

def MqttNames.statusRequest (names : MqttNames) : BrokerRequest :=
  .publish names.statusTopic onlineMsg

/-- A message that does not fit cannot be sent. -/
def DiscoveryMessage.piece (msg : DiscoveryMessage) : Option BrokerRequest :=
  if msg.Fits then some msg.request else none

/-- Neither can the subscription of an empty topic. -/
def topicPiece (topic : CStr) : Option BrokerRequest :=
  if topic ≠ [] then some (.subscribe topic) else none

/-- What a round sends, in its order. -/
def roundPlan (names : MqttNames) (web : WebAddress)
    (components : List MqttComponent) (topics : List CStr) :
    List (Option BrokerRequest) :=
  some names.statusRequest :: (names.deviceMessage web).piece ::
    (components.map (fun c => (names.componentMessage c).piece) ++
      topics.map topicPiece)

/-- `mqtt_publish` and `mqtt_subscribe` succeed, and the device has its
address. -/
structure ConfigCall.Succeeds (call : ConfigCall) (web : WebAddress) : Prop where
  publish : call.publish = 0
  subscribe : call.subscribe = 0
  web : call.web = web

namespace MqttSender

/-- The status, the device, every component whose message fits and every topic
have been sent since the connection was accepted. -/
structure ConfigSent (x : MqttSender Hook) (web : WebAddress) : Prop where
  status : x.names.statusRequest ∈ x.accepted
  device : (x.names.deviceMessage web).request ∈ x.accepted
  components : ∀ c ∈ x.components.list,
    (x.names.componentMessage c).Fits → x.Announced c
  topics : ∀ t ∈ x.topics.listed, .subscribe t.topic ∈ x.accepted

/-- Nothing that a round cannot send stands before something that it has to
send. -/
structure NothingBlocks (x : MqttSender Hook) (web : WebAddress) : Prop where
  device : (x.names.deviceMessage web).Fits
  room : x.topics.listed.length < mqttMaxTopics
  topics : ∀ t ∈ x.topics.listed, t.topic ≠ []
  components : (∀ c ∈ x.components.list, (x.names.componentMessage c).Fits) ∨
    x.topics.listed = [] ∧ ∀ c ∈ x.components.list,
      (x.names.componentMessage c).Fits →
      ∃ d ∈ x.components.list.takeWhile
          (fun d => decide (x.names.componentMessage d).Fits),
        x.names.componentMessage d = x.names.componentMessage c

/-- What is left of the round. -/
def queue (x : MqttSender Hook) (web : WebAddress) :
    List (Option BrokerRequest) :=
  (if x.status then [some x.names.statusRequest] else []) ++
    ((if x.discoveryDev then [(x.names.deviceMessage web).piece] else []) ++
      ((if x.discoveryComp then (x.components.list.drop x.sendIdx).map
          fun c => (x.names.componentMessage c).piece
        else []) ++
        (x.topics.listed.filter (!·.subscribed)).map
          fun t => topicPiece t.topic))

/-! ## The invariant of the context -/

/-- Table, counter and index agree, whatever has been called. -/
structure Sound (x : MqttSender Hook) : Prop where
  table : ∃ done l, Agrees x.topics done l
  index : x.discoveryComp = true → x.sendIdx < x.cmpCount

end MqttSender

theorem Agrees.call {c c' : MqttTopics Hook} {done : List ℕ}
    {l : List (MqttTopic Hook)} (h : Agrees c done l) {e : TopicEvent Hook}
    (hcall : e.call c = some c') : ∃ done' l', Agrees c' done' l' := by
  by_cases hstay : StaysInTable (some c) e
  · obtain ⟨c₁, l', hcall₁, hagrees, -⟩ := h.step hstay
    obtain rfl : c₁ = c' := Option.some.inj (hcall₁.symm.trans hcall)
    exact ⟨_, l', hagrees⟩
  · rw [h.step_out_of_bounds hstay] at hcall
    cases hcall

theorem Agrees.setState {c : MqttTopics Hook} {done : List ℕ}
    {l : List (MqttTopic Hook)} (h : Agrees c done l)
    (state : MqttClientState) : Agrees { c with state := state } done l :=
  ⟨⟨h.represents.count_eq, h.represents.entry_eq⟩, h.counted, h.nodup,
    h.mem_done⟩

namespace MqttSender

variable {x y : MqttSender Hook}

theorem sound_init (names : MqttNames) : Sound (init names : MqttSender Hook) :=
  ⟨⟨[], [], agrees_init⟩, Bool.noConfusion⟩

theorem Sound.mqttMsgSend (h : Sound x) (topic message : CStr)
    (call : ConfigCall) : Sound (x.mqttMsgSend topic message call).2 := by
  unfold MqttSender.mqttMsgSend
  split
  · exact h
  · exact ⟨h.table, h.index⟩

theorem Sound.sendGenerated (h : Sound x) (msg : ℤ × DiscoveryMessage)
    (call : ConfigCall) : Sound (x.sendGenerated msg call).2 := by
  unfold MqttSender.sendGenerated
  split
  · exact h.mqttMsgSend _ _ _
  · exact h

theorem Sound.configStatus (h : Sound x) (call : ConfigCall) :
    Sound (x.configStatus call).2 := by
  have hsend := h.mqttMsgSend x.names.statusTopic onlineMsg call
  unfold MqttSender.configStatus
  dsimp only
  split
  · exact ⟨hsend.table, hsend.index⟩
  · exact hsend

theorem Sound.configDevice (h : Sound x) (call : ConfigCall) :
    Sound (x.configDevice call).2 := by
  have hsend : Sound (x.mqttMsgDiscoverySendDevice call).2 :=
    h.sendGenerated _ call
  unfold MqttSender.configDevice
  generalize x.mqttMsgDiscoverySendDevice call = result at hsend
  dsimp only
  split
  · exact ⟨hsend.table, hsend.index⟩
  · exact hsend

theorem sound_endComponents (h : ∃ done l, Agrees x.topics done l) :
    Sound x.endComponents := by
  unfold endComponents
  split
  · exact ⟨h, Bool.noConfusion⟩
  · rename_i hidx
    exact ⟨h, fun _ => Nat.lt_of_not_le hidx⟩

theorem Sound.configComponent (h : Sound x) (call : ConfigCall) :
    Sound (x.configComponent call).2 := by
  have hsend : Sound (x.mqttMsgDiscoverySend call).2 := by
    unfold MqttSender.mqttMsgDiscoverySend
    split
    · exact h
    · exact h.sendGenerated _ call
  unfold MqttSender.configComponent
  generalize x.mqttMsgDiscoverySend call = result at hsend
  dsimp only
  split
  · exact sound_endComponents hsend.table
  · exact sound_endComponents hsend.table

theorem Sound.configSubscribe (h : Sound x) {call : ConfigCall}
    {result : Bool × MqttSender Hook}
    (hsub : x.configSubscribe call = some result) : Sound result.2 := by
  unfold MqttSender.configSubscribe at hsub
  split at hsub
  · obtain ⟨sub, hsend, rfl⟩ := Option.map_eq_some_iff.mp hsub
    obtain ⟨raw, hraw, rfl⟩ := Option.map_eq_some_iff.mp hsend
    obtain ⟨done, l, hagrees⟩ := h.table
    have hcall : (TopicEvent.sendSubscribe call.subscribe).call
        { x.topics with state := x.conn.state } = some raw.2.2 := by
      rw [TopicEvent.call, hraw, Option.map_some]
    exact ⟨(hagrees.setState _).call hcall, h.index⟩
  · obtain rfl := Option.some.inj hsub
    exact h

theorem Sound.configPhase (h : Sound x) {call : ConfigCall}
    {result : Bool × MqttSender Hook}
    (hphase : x.configPhase call = some result) : Sound result.2 := by
  unfold MqttSender.configPhase at hphase
  split at hphase
  · obtain rfl := Option.some.inj hphase
    exact h.configStatus call
  · split at hphase
    · obtain rfl := Option.some.inj hphase
      exact h.configDevice call
    · split at hphase
      · obtain rfl := Option.some.inj hphase
        exact h.configComponent call
      · exact h.configSubscribe hphase

theorem statusTopic_ne_nil (names : MqttNames) : names.statusTopic ≠ [] := by
  simp [MqttNames.statusTopic, snprintf, mqttMaxTopicSize, lit]

/-- What the begin of a round does. -/
theorem beginRound_eq (x : MqttSender Hook) :
    x.beginRound =
      (if x.topics.count ≠ 0 then mqttSubscribeAll x.topics
        else some x.topics).map fun t =>
        { x with
          topics := t
          sendIdx := if 0 < x.cmpCount then 0 else x.sendIdx
          discoveryDev := true
          discoveryComp := decide (0 < x.cmpCount) || x.discoveryComp
          status := true } := by
  have hstatus := statusTopic_ne_nil x.names
  unfold beginRound cmpCount
  by_cases hcmp : 0 < x.components.list.length <;>
    by_cases hcount : x.topics.count = 0 <;> simp [hcmp, hcount, hstatus]

theorem Sound.beginRound (h : Sound x) (hbegin : x.beginRound = some y) :
    Sound y := by
  rw [beginRound_eq] at hbegin
  obtain ⟨t, ht, rfl⟩ := Option.map_eq_some_iff.mp hbegin
  refine ⟨?_, ?_⟩
  · obtain ⟨done, l, hagrees⟩ := h.table
    split at ht
    · exact hagrees.call (e := .subscribeAll) ht
    · obtain rfl := Option.some.inj ht
      exact ⟨done, l, hagrees⟩
  · intro hcomp
    change (if 0 < x.cmpCount then 0 else x.sendIdx) < x.cmpCount
    by_cases hcmp : 0 < x.cmpCount
    · rw [if_pos hcmp]
      exact hcmp
    · rw [if_neg hcmp]
      exact h.index (by simpa [hcmp] using hcomp)

theorem Sound.noteRound {now : ℕ} {result : Bool × MqttSender Hook}
    (h : Sound result.2) : Sound (noteRound now result) := by
  unfold MqttSender.noteRound
  split
  · exact ⟨h.table, h.index⟩
  · exact h

theorem Sound.mqttConfigSend (h : Sound x) {call : ConfigCall}
    (hsend : x.mqttConfigSend call = some y) : Sound y := by
  unfold MqttSender.mqttConfigSend at hsend
  split at hsend
  · obtain rfl := Option.some.inj hsend
    exact h
  · obtain ⟨w, hw, hmap⟩ := Option.bind_eq_some_iff.mp hsend
    obtain ⟨result, hphase, rfl⟩ := Option.map_eq_some_iff.mp hmap
    have hsound : Sound w := by
      split at hw
      · exact h.beginRound hw
      · obtain rfl := Option.some.inj hw
        exact h
    exact (hsound.configPhase hphase).noteRound

theorem Sound.call (h : Sound x) {e : SenderEvent Hook}
    (hcall : e.call x = some y) : Sound y := by
  cases e with
  | register c =>
      obtain rfl := Option.some.inj hcall
      unfold mqttMsgComponentRegister
      split
      · exact h
      · refine ⟨h.table, fun hcomp => (h.index hcomp).trans ?_⟩
        simp [cmpCount]
  | listen r =>
      obtain ⟨result, hresult, rfl⟩ := Option.map_eq_some_iff.mp hcall
      obtain ⟨done, l, hagrees⟩ := h.table
      have hlisten : (TopicEvent.listen r).call x.topics = some result.2 := by
        rw [TopicEvent.call, hresult, Option.map_some]
      exact ⟨hagrees.call hlisten, h.index⟩
  | connect =>
      obtain rfl := Option.some.inj hcall
      exact ⟨h.table, h.index⟩
  | report status =>
      obtain rfl := Option.some.inj hcall
      exact ⟨h.table, h.index⟩
  | reconnect =>
      obtain rfl := Option.some.inj hcall
      exact ⟨h.table, h.index⟩
  | configSend call => exact h.mqttConfigSend hcall

end MqttSender

theorem senderAfter_sound {names : MqttNames} {es : List (SenderEvent Hook)}
    {x : MqttSender Hook} (h : senderAfter names es = some x) : x.Sound := by
  have hall : ∀ y : MqttSender Hook, y ∈ senderAfter names es → y.Sound := by
    refine EventMachine.invariant (I := fun s => ∀ y : MqttSender Hook, y ∈ s → y.Sound) ?_ ?_ es
    · rintro s e hs y hy
      obtain ⟨w, rfl, hcall⟩ := Option.bind_eq_some_iff.mp hy
      exact (hs w rfl).call hcall
    · rintro y hy
      obtain rfl := Option.some.inj hy
      exact MqttSender.sound_init names
  exact hall x h

/-! ## A round -/

/-- The first topic that is not subscribed to is the next one. -/
theorem filter_unsubscribed {l : List (MqttTopic Hook)} {k : ℕ}
    (h : l.findIdx? (!·.subscribed) = some k) :
    ∃ t, l[k]? = some t ∧
      l.filter (!·.subscribed) =
        t :: (l.modify k (·.subscribe)).filter (!·.subscribed) := by
  obtain ⟨hk, hstop, hbefore⟩ := List.findIdx?_eq_some_iff_getElem.mp h
  refine ⟨l[k], List.getElem?_eq_getElem hk, ?_⟩
  have htake : (l.take k).filter (!·.subscribed) = [] := by
    rw [List.filter_eq_nil_iff]
    intro t ht
    obtain ⟨j, hj, rfl⟩ := List.mem_take_iff_getElem.mp ht
    simpa using hbefore j (by omega)
  have hsplit : l = l.take k ++ l[k] :: l.drop (k + 1) := by
    rw [List.getElem_cons_drop, List.take_append_drop]
  have hmodify : l.modify k (·.subscribe) =
      l.take k ++ l[k].subscribe :: l.drop (k + 1) := by
    rw [List.modify_eq_take_cons_drop hk]
  rw [hmodify, List.filter_append, htake, List.nil_append,
    List.filter_cons_of_neg (by simp [MqttTopic.subscribe])]
  conv_lhs => rw [hsplit]
  rw [List.filter_append, htake, List.nil_append]
  exact List.filter_cons_of_pos hstop

theorem map_topic_modify (l : List (MqttTopic Hook)) (k : ℕ) :
    (l.modify k (·.subscribe)).map (·.topic) = l.map (·.topic) := by
  refine List.ext_getElem? fun i => ?_
  simp only [List.getElem?_map, List.getElem?_modify]
  split <;> cases l[i]? <;> rfl

namespace MqttSender

variable {x y z : MqttSender Hook} {web : WebAddress} {call : ConfigCall}

/-- The connection is up and a round goes on. -/
structure InRound (x : MqttSender Hook) : Prop where
  connected : x.mqttIsConnected = true
  state : x.conn.state = .connected
  room : x.topics.listed.length < mqttMaxTopics
  sound : x.Sound

/-- A call serves the queue. -/
structure RoundStep (web : WebAddress) (x y : MqttSender Hook) : Prop where
  inRound : y.InRound
  names : y.names = x.names
  components : y.components = x.components
  topics : y.topics.listed.map (·.topic) = x.topics.listed.map (·.topic)
  queue : y.queue web = rest (x.queue web)
  accepted : y.accepted = x.accepted ++ served (x.queue web)

/-- The context after a request that succeeds. -/
def requested (x : MqttSender Hook) (r : BrokerRequest)
    (conn : MqttContext Hook) : MqttSender Hook :=
  { x with conn := conn, client := x.client.map (·.request r 0) }

theorem requested_accepted (hconn : x.mqttIsConnected = true)
    (r : BrokerRequest) (conn : MqttContext Hook) :
    (x.requested r conn).accepted = x.accepted ++ [r] := by
  cases hclient : x.client with
  | none => simp [mqttIsConnected, hclient] at hconn
  | some client => simp [requested, accepted, hclient, BrokerClient.request]

theorem requested_connected (r : BrokerRequest) (conn : MqttContext Hook) :
    (x.requested r conn).mqttIsConnected = x.mqttIsConnected := by
  cases hclient : x.client <;>
    simp [requested, mqttIsConnected, hclient, BrokerClient.request]

theorem InRound.requested (h : InRound x) (r : BrokerRequest)
    {conn : MqttContext Hook} (hstate : conn.state = x.conn.state) :
    InRound (x.requested r conn) where
  connected := (requested_connected r conn).trans h.connected
  state := hstate.trans h.state
  room := h.room
  sound := ⟨h.sound.table, h.sound.index⟩

theorem mqttMsgSend_succeeds (h : InRound x) (hcall : call.Succeeds web)
    (topic message : CStr) :
    x.mqttMsgSend topic message call =
      (0, x.requested (.publish topic message)
        (x.conn.noteSend 0 call.sentAt)) := by
  rw [mqttMsgSend, if_neg (by simp [h.connected]), hcall.publish, if_pos rfl,
    MqttSender.requested]

/-- A message that fits is sent, and another one is not. -/
theorem sendGenerated_succeeds (h : InRound x) (hcall : call.Succeeds web)
    {topic : CStr} (htopic : topic ≠ []) (pieces : List CStr) :
    x.sendGenerated (mqttDiscoveryGenerate topic pieces) call =
      if (discoveryMessage topic pieces).Fits then
        (0, x.requested (discoveryMessage topic pieces).request
          (x.conn.noteSend 0 call.sentAt))
      else (-1, x) := by
  rw [sendGenerated_eq x htopic, mqttMsgSend_succeeds h hcall]
  rfl

theorem RoundStep.refl (h : InRound x)
    (hq : x.queue web = rest (x.queue web))
    (hs : served (x.queue web) = []) : RoundStep web x x :=
  ⟨h, rfl, rfl, rfl, hq, by rw [hs, List.append_nil]⟩

theorem configStatus_step (h : InRound x) (hcall : call.Succeeds web)
    (hstatus : x.status = true) :
    RoundStep web x (x.configStatus call).2 := by
  have hreq := h.requested x.names.statusRequest
    (MqttContext.noteSend_state x.conn 0 call.sentAt)
  have hstep : (x.configStatus call).2 =
      { x.requested x.names.statusRequest (x.conn.noteSend 0 call.sentAt) with
        status := false } := by
    rw [configStatus, mqttMsgSend_succeeds h hcall]
    rfl
  rw [hstep]
  refine ⟨⟨hreq.connected, hreq.state, hreq.room, hreq.sound.table,
    hreq.sound.index⟩, rfl, rfl, rfl, ?_, ?_⟩
  · simp [queue, hstatus, MqttSender.requested, rest]
  · rw [queue, hstatus]
    exact requested_accepted h.connected _ (x.conn.noteSend 0 call.sentAt)

theorem configDevice_step (h : InRound x) (hcall : call.Succeeds web)
    (hstatus : x.status = false) (hdev : x.discoveryDev = true) :
    RoundStep web x (x.configDevice call).2 := by
  have hreq := h.requested (x.names.deviceMessage web).request
    (MqttContext.noteSend_state x.conn 0 call.sentAt)
  have hsend : x.mqttMsgDiscoverySendDevice call =
      if (x.names.deviceMessage web).Fits then
        (0, x.requested (x.names.deviceMessage web).request
          (x.conn.noteSend 0 call.sentAt))
      else (-1, x) := by
    rw [mqttMsgDiscoverySendDevice, mqttDiscoveryGenerateDevice, hcall.web,
      sendGenerated_succeeds h hcall (deviceTopicText_ne_nil x.names)]
    rfl
  by_cases hfits : (x.names.deviceMessage web).Fits
  · have hstep : (x.configDevice call).2 =
        { x.requested (x.names.deviceMessage web).request
            (x.conn.noteSend 0 call.sentAt) with discoveryDev := false } := by
      rw [configDevice, hsend, if_pos hfits]
      rfl
    rw [hstep]
    refine ⟨⟨hreq.connected, hreq.state, hreq.room, hreq.sound.table,
      hreq.sound.index⟩, rfl, rfl, rfl, ?_, ?_⟩
    · simp [queue, hstatus, hdev, MqttSender.requested, rest,
        DiscoveryMessage.piece, hfits]
    · rw [queue, hstatus, hdev, DiscoveryMessage.piece, if_pos hfits]
      exact requested_accepted h.connected _ (x.conn.noteSend 0 call.sentAt)
  · have hstep : (x.configDevice call).2 = x := by
      rw [configDevice, hsend, if_neg hfits]
      rfl
    rw [hstep]
    apply RoundStep.refl h <;>
      simp [queue, hstatus, hdev, rest, served, DiscoveryMessage.piece, hfits]

/-- The end of the component phase leaves nothing of it out. -/
theorem endComponents_queue (x : MqttSender Hook) (web : WebAddress) :
    x.endComponents.queue web = x.queue web := by
  unfold endComponents
  split
  · rename_i hend
    have hnone : x.components.list.drop x.sendIdx = [] :=
      List.drop_eq_nil_iff.mpr hend
    cases hcomp : x.discoveryComp <;> simp [queue, hnone, hcomp]
  · rfl

/-- It changes nothing else. -/
theorem RoundStep.endComponents (hy : y.mqttIsConnected = true)
    (hstate : y.conn.state = .connected)
    (hroom : y.topics.listed.length < mqttMaxTopics)
    (htable : ∃ done l, Agrees y.topics done l)
    (hnames : y.names = x.names) (hcomponents : y.components = x.components)
    (htopics : y.topics = x.topics) (hqueue : y.queue web = rest (x.queue web))
    (haccepted : y.accepted = x.accepted ++ served (x.queue web)) :
    RoundStep web x y.endComponents := by
  have hsound := sound_endComponents htable
  rw [← endComponents_queue] at hqueue
  unfold MqttSender.endComponents at hqueue hsound ⊢
  split at hqueue
  all_goals
    rename_i hend
    simp only [hend, if_true, if_false] at hsound ⊢
    exact ⟨⟨hy, hstate, hroom, hsound⟩, hnames, hcomponents, by rw [htopics],
      hqueue, haccepted⟩

theorem configComponent_step (h : InRound x) (hcall : call.Succeeds web)
    (hstatus : x.status = false) (hdev : x.discoveryDev = false)
    (hcomp : x.discoveryComp = true) :
    RoundStep web x (x.configComponent call).2 := by
  have hidx : x.sendIdx < x.components.list.length := h.sound.index hcomp
  obtain ⟨c, hc⟩ : ∃ c, c = x.components.list[x.sendIdx] := ⟨_, rfl⟩
  have hget : x.components.list[x.sendIdx]? = some c := by
    rw [hc, List.getElem?_eq_getElem hidx]
  have hdrop : x.components.list.drop x.sendIdx =
      c :: x.components.list.drop (x.sendIdx + 1) := by
    rw [hc, List.getElem_cons_drop]
  have hsend : x.mqttMsgDiscoverySend call =
      if (x.names.componentMessage c).Fits then
        (0, x.requested (x.names.componentMessage c).request
          (x.conn.noteSend 0 call.sentAt))
      else (-1, x) := by
    rw [mqttMsgDiscoverySend, hget]
    exact sendGenerated_succeeds h hcall (componentTopicText_ne_nil x.names c) _
  by_cases hfits : (x.names.componentMessage c).Fits
  · have hreq := h.requested (x.names.componentMessage c).request
      (MqttContext.noteSend_state x.conn 0 call.sentAt)
    have hstep : (x.configComponent call).2 =
        (x.requested (x.names.componentMessage c).request
          (x.conn.noteSend 0 call.sentAt)).countComponent.endComponents := by
      rw [configComponent, hsend, if_pos hfits]
      rfl
    rw [hstep]
    refine RoundStep.endComponents hreq.connected hreq.state hreq.room
      hreq.sound.table rfl rfl rfl ?_ ?_
    · simp [queue, hstatus, hdev, hcomp, hdrop, rest, MqttSender.requested,
        countComponent, DiscoveryMessage.piece, hfits]
    · have hserved : served (x.queue web) =
          [(x.names.componentMessage c).request] := by
        simp [queue, hstatus, hdev, hcomp, hdrop, served,
          DiscoveryMessage.piece, hfits]
      rw [hserved]
      exact requested_accepted h.connected _ (x.conn.noteSend 0 call.sentAt)
  · have hstep : (x.configComponent call).2 = x := by
      rw [configComponent, hsend, if_neg hfits]
      exact if_neg (Nat.not_le_of_lt hidx)
    rw [hstep]
    apply RoundStep.refl h <;>
      simp [queue, hstatus, hdev, hcomp, hdrop, rest, served,
        DiscoveryMessage.piece, hfits]

theorem configSubscribe_step (h : InRound x) (hcall : call.Succeeds web)
    (hstatus : x.status = false) (hdev : x.discoveryDev = false)
    (hcomp : x.discoveryComp = false) :
    ∃ result, x.configSubscribe call = some result ∧
      RoundStep web x result.2 := by
  obtain ⟨done, l, hagrees⟩ := h.sound.table
  have hlisted : x.topics.listed = l := hagrees.represents.listed_eq
  have hqueue : x.queue web =
      (l.filter (!·.subscribed)).map fun t => topicPiece t.topic := by
    simp [queue, hstatus, hdev, hcomp, hlisted]
  have hcount : x.topics.subscribe + l.countP (!·.subscribed) =
      x.topics.count := by
    have hlen := List.length_eq_countP_add_countP (l := l) (·.subscribed)
    rw [hagrees.counted, hagrees.represents.count_eq, ← countP_subscribed]
    simpa using hlen.symm
  cases hk : l.findIdx? (!·.subscribed) with
  | none =>
      have hnone : l.filter (!·.subscribed) = [] := by
        rw [List.findIdx?_eq_none_iff] at hk
        rw [List.filter_eq_nil_iff]
        simpa using hk
      have hidle : ¬(x.topics.count ≠ 0 ∧
          x.topics.subscribe < x.topics.count) := by
        rw [List.countP_eq_length_filter, hnone] at hcount
        simp only [List.length_nil] at hcount
        omega
      refine ⟨_, if_neg hidle, ?_⟩
      apply RoundStep.refl h <;> simp [hqueue, hnone, rest, served]
  | some k =>
      obtain ⟨t, ht, hfilter⟩ := filter_unsubscribed hk
      have hdue : x.topics.count ≠ 0 ∧ x.topics.subscribe < x.topics.count := by
        rw [List.countP_eq_length_filter, hfilter, List.length_cons] at hcount
        omega
      rw [hfilter, List.map_cons] at hqueue
      have hstate := hagrees.setState x.conn.state
      have hraw := hstate.represents.sendSubscribe_eq h.state hk ht
        call.subscribe
      rw [configSubscribe, if_pos hdue, sendSubscribe]
      by_cases hempty : t.topic = []
      · rw [if_pos (by simp [hempty])] at hraw
        rw [hraw]
        refine ⟨_, rfl, ⟨h.connected, h.state, h.room, ⟨done, l, hstate⟩,
          h.sound.index⟩, rfl, rfl, rfl, ?_, ?_⟩
        · change x.queue web = rest (x.queue web)
          simp [hqueue, topicPiece, hempty, rest]
        · rw [hqueue]
          simp [topicPiece, hempty, served, accepted]
      · have hlen : ¬strlen t.topic < 1 := by
          rw [strlen_eq, Nat.lt_one_iff]
          exact mt List.length_eq_zero_iff.mp hempty
        rw [if_neg hlen, hcall.subscribe, if_pos rfl] at hraw
        have hreq := h.requested (.subscribe t.topic)
          (rfl : x.conn.state = x.conn.state)
        have haccepted := requested_accepted h.connected (.subscribe t.topic)
          x.conn
        have hentry : x.topics.entry k = some t := by
          rw [hagrees.represents.entry_eq, ht]
        have hmodify := hstate.represents.modify ht (·.subscribe)
        obtain ⟨c, hc⟩ : ∃ c, c =
            { MqttTopics.set { x.topics with state := x.conn.state } k
                t.subscribe with
              subscribe := x.topics.subscribe + 1 } := ⟨_, rfl⟩
        have hsub : c.listed = l.modify k (·.subscribe) := by
          refine MqttTopics.Represents.listed_eq ?_
          rw [hc]
          exact ⟨hmodify.count_eq, hmodify.entry_eq⟩
        rw [← hc] at hraw
        have hnext : (TopicEvent.sendSubscribe 0).call
            { x.topics with state := x.conn.state } = some c := by
          rw [TopicEvent.call, hraw]
          rfl
        have htable := hstate.call hnext
        rw [hcall.subscribe, hraw]
        simp only [Option.map_some, Option.bind_some, hentry, Option.elim_some]
        refine ⟨_, rfl, ⟨hreq.connected, h.state, ?_, htable, h.sound.index⟩,
          rfl, rfl, ?_, ?_, ?_⟩
        · rw [hsub, List.length_modify, ← hlisted]
          exact h.room
        · rw [hsub, hlisted, map_topic_modify]
        · rw [hqueue, topicPiece, if_pos hempty, rest]
          simp [queue, hstatus, hdev, hcomp, hsub]
        · rw [hqueue, topicPiece, if_pos hempty]
          exact haccepted

theorem configPhase_step (h : InRound x) (hcall : call.Succeeds web) :
    ∃ result, x.configPhase call = some result ∧
      RoundStep web x result.2 := by
  unfold configPhase
  cases hstatus : x.status with
  | true => exact ⟨_, rfl, configStatus_step h hcall hstatus⟩
  | false =>
      cases hdev : x.discoveryDev with
      | true => exact ⟨_, rfl, configDevice_step h hcall hstatus hdev⟩
      | false =>
          cases hcomp : x.discoveryComp with
          | true => exact ⟨_, rfl, configComponent_step h hcall hstatus hdev hcomp⟩
          | false => exact configSubscribe_step h hcall hstatus hdev hcomp

theorem RoundStep.noteRound {result : Bool × MqttSender Hook}
    (h : RoundStep web x result.2) (now : ℕ) :
    RoundStep web x (noteRound now result) := by
  unfold MqttSender.noteRound
  split
  · exact ⟨⟨h.inRound.connected, h.inRound.state, h.inRound.room,
      h.inRound.sound.table, h.inRound.sound.index⟩, h.names, h.components,
      h.topics, h.queue, h.accepted⟩
  · exact h

/-- A call in which no round begins. -/
theorem mqttConfigSend_step (h : InRound x) (hcall : call.Succeeds web)
    (hround : x.roundDue call.now = false) :
    ∃ y, x.mqttConfigSend call = some y ∧ RoundStep web x y := by
  obtain ⟨result, hphase, hstep⟩ := configPhase_step h hcall
  refine ⟨_, ?_, hstep.noteRound call.now⟩
  rw [mqttConfigSend, if_neg (by simp [h.connected]), hround]
  simp [hphase]

/-- The begin of a round puts everything into the queue. -/
theorem Sound.beginRound_queue (h : Sound x)
    (hconn : x.mqttIsConnected = true) (hstate : x.conn.state = .connected)
    (hroom : x.topics.listed.length < mqttMaxTopics) (web : WebAddress) :
    ∃ y, x.beginRound = some y ∧ InRound y ∧ y.names = x.names ∧
      y.components = x.components ∧
      y.topics.listed.map (·.topic) = x.topics.listed.map (·.topic) ∧
      y.queue web = roundPlan x.names web x.components.list
        (x.topics.listed.map (·.topic)) ∧
      y.accepted = x.accepted := by
  obtain ⟨done, l, hagrees⟩ := h.table
  have hlisted : x.topics.listed = l := hagrees.represents.listed_eq
  obtain ⟨t, ht, htopics, hall⟩ : ∃ t,
      (if x.topics.count ≠ 0 then mqttSubscribeAll x.topics
        else some x.topics) = some t ∧
      t.listed.map (·.topic) = l.map (·.topic) ∧
      t.listed.filter (!·.subscribed) = t.listed := by
    by_cases hcount : x.topics.count ≠ 0
    · obtain ⟨t, ht, hrep, -, -⟩ :=
        hagrees.represents.subscribeAll (hlisted ▸ hroom)
      refine ⟨t, by rw [if_pos hcount, ht], ?_, ?_⟩
      · rw [hrep.listed_eq, List.map_map]
        rfl
      · rw [hrep.listed_eq, List.filter_eq_self]
        simp [MqttTopic.unsubscribe]
    · have hnil : l = [] := by
        rw [not_not, hagrees.represents.count_eq] at hcount
        exact List.length_eq_zero_iff.mp hcount
      exact ⟨x.topics, if_neg hcount, by rw [hlisted], by rw [hlisted, hnil]; rfl⟩
  have hbegin := beginRound_eq x
  rw [ht, Option.map_some] at hbegin
  have hlen : t.listed.length = l.length := by
    simpa using congrArg List.length htopics
  refine ⟨_, hbegin, ⟨hconn, hstate, ?_, h.beginRound hbegin⟩, rfl, rfl, ?_, ?_,
    rfl⟩
  · rw [hlen, ← hlisted]
    exact hroom
  · rw [htopics, hlisted]
  · have hmap : (t.listed.map fun t => topicPiece t.topic) =
        (l.map (·.topic)).map topicPiece := by
      rw [← htopics, List.map_map]
      rfl
    rw [hlisted, roundPlan, ← hmap]
    by_cases hcmp : 0 < x.cmpCount
    · simp [queue, hall, hcmp]
    · have hnil : x.components.list = [] :=
        List.length_eq_zero_iff.mp (Nat.eq_zero_of_not_pos hcmp)
      simp [queue, hall, hnil, cmpCount]

/-- A full table is scanned past its end. -/
theorem Sound.beginRound_full (h : Sound x)
    (hfull : ¬x.topics.listed.length < mqttMaxTopics) : x.beginRound = none := by
  obtain ⟨done, l, hagrees⟩ := h.table
  rw [hagrees.represents.listed_eq] at hfull
  have hlen : l.length = mqttMaxTopics :=
    le_antisymm hagrees.represents.length_le (Nat.le_of_not_lt hfull)
  have hcount : x.topics.count ≠ 0 := by
    rw [hagrees.represents.count_eq, hlen]
    decide
  rw [beginRound_eq, if_pos hcount,
    hagrees.represents.subscribeAll_out_of_bounds hlen, Option.map_none]

/-! ## Runs of a round -/

/-- What stays as it is in a round, what is left of it and what was accepted. -/
def Shows (x : MqttSender Hook) (web : WebAddress)
    (s : Option (MqttSender Hook)) (q : List (Option BrokerRequest))
    (done : List BrokerRequest) : Prop :=
  ∃ y, s = some y ∧ y.InRound ∧ y.names = x.names ∧
    y.components = x.components ∧
    y.topics.listed.map (·.topic) = x.topics.listed.map (·.topic) ∧
    y.queue web = q ∧ y.accepted = done

theorem Shows.step {s : Option (MqttSender Hook)}
    {q : List (Option BrokerRequest)} {done : List BrokerRequest}
    (h : Shows x web s q done) (hcall : call.Succeeds web)
    (hround : ∀ y ∈ s, y.roundDue call.now = false) :
    Shows x web (senderMachine.step s (.configSend call)) (rest q)
      (done ++ served q) := by
  obtain ⟨y, rfl, hy, hnames, hcomponents, htopics, rfl, rfl⟩ := h
  obtain ⟨z, hz, hstep⟩ := mqttConfigSend_step hy hcall (hround y rfl)
  exact ⟨z, hz, hstep.inRound, hstep.names.trans hnames,
    hstep.components.trans hcomponents, hstep.topics.trans htopics,
    hstep.queue, hstep.accepted⟩

/-- The first call on a new connection begins a round and serves it. -/
theorem Sound.shows_first (h : Sound x) (hconn : x.mqttIsConnected = true)
    (hstate : x.conn.state = .connected) (hlast : x.conn.configLastSend = 0)
    (hroom : x.topics.listed.length < mqttMaxTopics)
    (hcall : call.Succeeds web) :
    Shows x web (senderMachine.step (some x) (.configSend call))
      (rest (roundPlan x.names web x.components.list
        (x.topics.listed.map (·.topic))))
      (x.accepted ++ served (roundPlan x.names web x.components.list
        (x.topics.listed.map (·.topic)))) := by
  obtain ⟨y, hbegin, hy, hnames, hcomponents, htopics, hqueue, haccepted⟩ :=
    h.beginRound_queue hconn hstate hroom web
  obtain ⟨result, hphase, hstep⟩ := configPhase_step hy hcall
  have hnoted := hstep.noteRound call.now
  have hdue : x.roundDue call.now = true := by
    simp [roundDue, hlast]
  have hsend : x.mqttConfigSend call =
      some (MqttSender.noteRound call.now result) := by
    rw [MqttSender.mqttConfigSend, if_neg (by simp [hconn]), if_pos hdue,
      hbegin, Option.bind_some, hphase, Option.map_some]
  rw [← hqueue, ← haccepted]
  exact ⟨_, hsend, hnoted.inRound, hnoted.names.trans hnames,
    hnoted.components.trans hcomponents, hnoted.topics.trans htopics,
    hnoted.queue, hnoted.accepted⟩

end MqttSender

/-! ## What a round gets done -/

section RoundPlan

variable (names : MqttNames) (web : WebAddress)

theorem onlineMsg_ne_device : (names.deviceMessage web).text ≠ onlineMsg := by
  intro h
  have hhead := congrArg List.head? h
  have hdevice : (names.deviceMessage web).text.head? = some 123 := rfl
  rw [hdevice] at hhead
  revert hhead
  decide

theorem onlineMsg_ne_component (c : MqttComponent) :
    (names.componentMessage c).text ≠ onlineMsg := by
  intro h
  have hhead := congrArg List.head? h
  have hcomponent : (names.componentMessage c).text.head? = some 123 := rfl
  rw [hcomponent] at hhead
  revert hhead
  decide

/-- The messages of the device and of a component differ behind the section
that they have in common. -/
theorem device_ne_component (c : MqttComponent) :
    (names.deviceMessage web).text ≠ (names.componentMessage c).text := by
  have hdevice : ∃ tail, (names.deviceMessage web).text =
      (devicePieces names).flatten ++ tail ∧ tail[2]? = some 111 :=
    ⟨_, List.flatten_append, rfl⟩
  have hcomponent : ∃ tail, (names.componentMessage c).text =
      (devicePieces names).flatten ++ tail ∧ tail[2]? ≠ some 111 := by
    refine ⟨_, List.flatten_append, ?_⟩
    cases c.devClass with
    | some devClass => exact ne_of_beq_false rfl
    | none =>
        cases c.unit with
        | some unit => exact ne_of_beq_false rfl
        | none => exact ne_of_beq_false rfl
  obtain ⟨device, hdevice, hsame⟩ := hdevice
  obtain ⟨component, hcomponent, hother⟩ := hcomponent
  intro h
  rw [hdevice, hcomponent, List.append_cancel_left_eq] at h
  exact hother (h ▸ hsame)

theorem DiscoveryMessage.request_inj {msg msg' : DiscoveryMessage}
    (h : msg.request = msg'.request) : msg = msg' := by
  cases msg
  cases msg'
  simpa [request] using h

theorem statusRequest_ne {msg : DiscoveryMessage} (h : msg.text ≠ onlineMsg) :
    msg.request ≠ names.statusRequest := by
  intro heq
  exact h (BrokerRequest.publish.inj heq).2

theorem reach_components (components : List MqttComponent) :
    reach (components.map fun c => (names.componentMessage c).piece) =
      (components.takeWhile fun c =>
        decide (names.componentMessage c).Fits).map
        fun c => (names.componentMessage c).request :=
  reach_map_ite _ _ components

theorem reach_topics (topics : List CStr) :
    reach (topics.map topicPiece) =
      (topics.takeWhile (decide <| · ≠ [])).map .subscribe :=
  reach_map_ite _ _ topics

/-- With a device message that fits, and components that fit, only a topic can
stop the round. -/
theorem reach_roundPlan_of_fits {components : List MqttComponent}
    (hdevice : (names.deviceMessage web).Fits)
    (hall : ∀ c ∈ components, (names.componentMessage c).Fits)
    (topics : List CStr) :
    reach (roundPlan names web components topics) =
      names.statusRequest :: (names.deviceMessage web).request ::
        (components.map (fun c => (names.componentMessage c).request) ++
          (topics.takeWhile (decide <| · ≠ [])).map .subscribe) := by
  have hsome : ∀ o ∈ components.map fun c => (names.componentMessage c).piece,
      o.isSome := by
    intro o ho
    obtain ⟨c, hc, rfl⟩ := List.mem_map.mp ho
    simp [DiscoveryMessage.piece, hall c hc]
  have htake : (components.takeWhile fun c =>
      decide (names.componentMessage c).Fits) = components := by
    rw [List.takeWhile_eq_self_iff]
    exact fun c hc => decide_eq_true (hall c hc)
  rw [roundPlan, DiscoveryMessage.piece, if_pos hdevice, reach_some_cons,
    reach_some_cons, reach_append_of_isSome hsome, reach_components,
    reach_topics, htake]

/-- A component that does not fit stops it before the topics. -/
theorem reach_roundPlan_of_not_fits {components : List MqttComponent}
    (hdevice : (names.deviceMessage web).Fits)
    (hall : ¬∀ c ∈ components, (names.componentMessage c).Fits)
    (topics : List CStr) :
    reach (roundPlan names web components topics) =
      names.statusRequest :: (names.deviceMessage web).request ::
        (components.takeWhile fun c =>
          decide (names.componentMessage c).Fits).map
          fun c => (names.componentMessage c).request := by
  have hnone : none ∈ components.map fun c =>
      (names.componentMessage c).piece := by
    push Not at hall
    obtain ⟨c, hc, hfits⟩ := hall
    exact List.mem_map.mpr ⟨c, hc, if_neg hfits⟩
  rw [roundPlan, DiscoveryMessage.piece, if_pos hdevice, reach_some_cons,
    reach_some_cons, reach_append_of_none_mem hnone, reach_components]

/-- Everything is done in a round exactly if nothing that cannot be done stands
before something that has to be done. -/
theorem reach_roundPlan_iff (components : List MqttComponent)
    (topics : List CStr) :
    (names.statusRequest ∈ reach (roundPlan names web components topics) ∧
      (names.deviceMessage web).request ∈
        reach (roundPlan names web components topics) ∧
      (∀ c ∈ components, (names.componentMessage c).Fits →
        (names.componentMessage c).request ∈
          reach (roundPlan names web components topics)) ∧
      ∀ t ∈ topics, .subscribe t ∈
        reach (roundPlan names web components topics)) ↔
    (names.deviceMessage web).Fits ∧ (∀ t ∈ topics, t ≠ []) ∧
      ((∀ c ∈ components, (names.componentMessage c).Fits) ∨
        topics = [] ∧ ∀ c ∈ components, (names.componentMessage c).Fits →
          ∃ d ∈ components.takeWhile
              (fun d => decide (names.componentMessage d).Fits),
            names.componentMessage d = names.componentMessage c) := by
  by_cases hdevice : (names.deviceMessage web).Fits
  · by_cases hall : ∀ c ∈ components, (names.componentMessage c).Fits
    · rw [reach_roundPlan_of_fits names web hdevice hall]
      constructor
      · rintro ⟨-, -, -, htopics⟩
        refine ⟨hdevice, fun t ht => ?_, .inl hall⟩
        have hsub : t ∈ topics.takeWhile (decide <| · ≠ []) := by
          simpa [MqttNames.statusRequest, DiscoveryMessage.request] using
            htopics t ht
        simpa using List.mem_takeWhile_imp hsub
      · rintro ⟨-, hne, -⟩
        have htake : topics.takeWhile (decide <| · ≠ []) = topics := by
          rw [List.takeWhile_eq_self_iff]
          exact fun t ht => decide_eq_true (hne t ht)
        rw [htake]
        refine ⟨by simp, by simp, fun c hc _ => ?_, fun t ht => ?_⟩
        · simp only [List.mem_cons, List.mem_append]
          exact .inr (.inr (.inl (List.mem_map_of_mem hc)))
        · simp only [List.mem_cons, List.mem_append]
          exact .inr (.inr (.inr (List.mem_map_of_mem ht)))
    · rw [reach_roundPlan_of_not_fits names web hdevice hall]
      constructor
      · rintro ⟨-, -, hcomponents, htopics⟩
        have hnil : topics = [] := by
          rw [List.eq_nil_iff_forall_not_mem]
          intro t ht
          simpa [MqttNames.statusRequest, DiscoveryMessage.request] using
            htopics t ht
        refine ⟨hdevice, by simp [hnil], .inr ⟨hnil, fun c hc hfits => ?_⟩⟩
        rcases List.mem_cons.mp (hcomponents c hc hfits) with h | h
        · exact (statusRequest_ne names (onlineMsg_ne_component names c) h).elim
        · rcases List.mem_cons.mp h with h | h
          · have hsame := DiscoveryMessage.request_inj h
            exact (device_ne_component names web c
              (congrArg DiscoveryMessage.text hsame).symm).elim
          · obtain ⟨d, hd, hsame⟩ := List.mem_map.mp h
            exact ⟨d, hd, DiscoveryMessage.request_inj hsame⟩
      · rintro ⟨-, -, hor⟩
        obtain ⟨rfl, hbefore⟩ := hor.resolve_left hall
        refine ⟨by simp, by simp, fun c hc hfits => ?_, by simp⟩
        obtain ⟨d, hd, hsame⟩ := hbefore c hc hfits
        rw [← hsame]
        exact List.mem_cons_of_mem _
          (List.mem_cons_of_mem _ (List.mem_map_of_mem hd))
  · refine iff_of_false ?_ fun h => hdevice h.1
    rintro ⟨-, h, -⟩
    rw [roundPlan, DiscoveryMessage.piece, if_neg hdevice, reach_some_cons,
      reach_none_cons, List.mem_singleton] at h
    exact statusRequest_ne names (onlineMsg_ne_device names web) h

end RoundPlan

/-! ## Progress -/

/-- The calls send everything that there is to send. -/
def DiscoveryProgress (x : MqttSender Hook) (web : WebAddress)
    (calls : List ConfigCall) : Prop :=
  ∃ y ∈ senderMachine.run (some x) (calls.map .configSend), y.ConfigSent web

/-- No round begins with the call. -/
def RoundGoesOn (s : Option (MqttSender Hook)) : SenderEvent Hook → Prop
  | .configSend call => ∀ x ∈ s, x.roundDue call.now = false
  | _ => True

instance (s : Option (MqttSender Hook)) :
    DecidablePred (RoundGoesOn s)
  | .configSend call =>
      inferInstanceAs (Decidable (∀ x ∈ s, x.roundDue call.now = false))
  | .register _ | .listen _ | .connect | .report _ | .reconnect => .isTrue trivial

/-- A context whose connection has just been accepted. -/
theorem senderAfter_accepted {names : MqttNames} {es : List (SenderEvent Hook)}
    {x : MqttSender Hook}
    (hx : senderAfter names (es ++ [.report .accepted]) = some x) :
    x.Sound ∧ x.conn.state = .connected ∧ x.conn.configLastSend = 0 ∧
      x.accepted = [] := by
  refine ⟨senderAfter_sound hx, ?_⟩
  rw [senderAfter, EventMachine.run_append] at hx
  obtain ⟨w, -, hw⟩ := Option.bind_eq_some_iff.mp hx
  obtain rfl := Option.some.inj hw
  refine ⟨rfl, rfl, ?_⟩
  cases hclient : w.client <;>
    simp [MqttSender.report, MqttSender.accepted, hclient, BrokerClient.report]

/-- A call that serves the round. -/
def ServesRound (web : WebAddress) (s : Option (MqttSender Hook))
    (e : SenderEvent Hook) : Prop :=
  ∃ call, e = .configSend call ∧ call.Succeeds web ∧
    ∀ y ∈ s, y.roundDue call.now = false

theorem along_servesRound {web : WebAddress} {calls : List ConfigCall}
    (hcalls : ∀ call ∈ calls, call.Succeeds web)
    {s : Option (MqttSender Hook)}
    (h : senderMachine.Along RoundGoesOn s (calls.map .configSend)) :
    senderMachine.Along (ServesRound web) s (calls.map .configSend) := by
  induction calls generalizing s with
  | nil => trivial
  | cons call calls ih =>
      obtain ⟨hcall, hcalls⟩ := List.forall_mem_cons.mp hcalls
      exact ⟨⟨call, rfl, hcall, h.1⟩, ih hcalls h.2⟩

/-- What has been accepted after enough calls in one round. -/
theorem shows_round {x : MqttSender Hook} {web : WebAddress}
    {first : ConfigCall} {calls : List ConfigCall} (h : x.Sound)
    (hup : x.mqttIsConnected = true) (hstate : x.conn.state = .connected)
    (hlast : x.conn.configLastSend = 0) (haccepted : x.accepted = [])
    (hroom : x.topics.listed.length < mqttMaxTopics)
    (hcalls : ∀ call ∈ first :: calls, call.Succeeds web)
    (hround : senderMachine.Along RoundGoesOn
      (senderMachine.step (some x) (.configSend first))
      (calls.map .configSend))
    (hlen : x.cmpCount + x.topics.listed.length + 2 ≤
      (first :: calls).length) :
    ∃ q, MqttSender.Shows x web
      (senderMachine.run (some x) ((first :: calls).map .configSend)) q
      (reach (roundPlan x.names web x.components.list
        (x.topics.listed.map (·.topic)))) := by
  obtain ⟨hfirst, hcalls⟩ := List.forall_mem_cons.mp hcalls
  have hshows := h.shows_first hup hstate hlast hroom hfirst
  rw [haccepted, List.nil_append] at hshows
  have hstep : ∀ s e q done, MqttSender.Shows x web s q done →
      ServesRound web s e →
      MqttSender.Shows x web (senderMachine.step s e) (rest q)
        (done ++ served q) := by
    rintro s e q done hs ⟨call, rfl, hcall, hgoes⟩
    exact hs.step hcall hgoes
  obtain ⟨q, hrun⟩ := run_reach hstep (along_servesRound hcalls hround) hshows
  refine ⟨q, ?_⟩
  have hleft := reach_length_le (rest (roundPlan x.names web x.components.list
    (x.topics.listed.map (·.topic))))
  have hall : (reach (rest (roundPlan x.names web x.components.list
      (x.topics.listed.map (·.topic))))).length ≤ calls.length := by
    refine hleft.trans ?_
    simp only [roundPlan, rest, List.length_cons, List.length_append,
      List.length_map, MqttSender.cmpCount] at hlen ⊢
    omega
  rw [List.length_map, List.take_of_length_le hall] at hrun
  exact hrun

/-- There is no way back into the array. -/
theorem senderMachine_run_none (es : List (SenderEvent Hook)) :
    senderMachine.run none es = none :=
  EventMachine.invariant (I := (· = none)) (by rintro _ e rfl; rfl) rfl es

/-- Enough calls of `mqtt_config_send` in one round send everything that there
is to send, exactly if nothing blocks the round. -/
theorem discovery_progress_iff {names : MqttNames}
    {es : List (SenderEvent Hook)} {x : MqttSender Hook} {web : WebAddress}
    {first : ConfigCall} {calls : List ConfigCall}
    (hx : senderAfter names (es ++ [.report .accepted]) = some x)
    (hup : x.mqttIsConnected = true)
    (hcalls : ∀ call ∈ first :: calls, call.Succeeds web)
    (hround : senderMachine.Along RoundGoesOn
      (senderMachine.step (some x) (.configSend first))
      (calls.map .configSend))
    (hlen : x.cmpCount + x.topics.listed.length + 2 ≤
      (first :: calls).length) :
    DiscoveryProgress x web (first :: calls) ↔ x.NothingBlocks web := by
  obtain ⟨hsound, hstate, hlast, haccepted⟩ := senderAfter_accepted hx
  by_cases hroom : x.topics.listed.length < mqttMaxTopics
  · obtain ⟨q, y, hy, -, hnames, hcomponents, htopics, -, hdone⟩ :=
      shows_round hsound hup hstate hlast haccepted hroom hcalls hround hlen
    have hplan := reach_roundPlan_iff x.names web x.components.list
      (x.topics.listed.map (·.topic))
    rw [← hdone] at hplan
    have htexts : ∀ p : CStr → Prop, (∀ t ∈ y.topics.listed, p t.topic) ↔
        ∀ t ∈ x.topics.listed.map (·.topic), p t := by
      intro p
      rw [← htopics, List.forall_mem_map]
    have hsent : y.ConfigSent web ↔ x.NothingBlocks web := by
      constructor
      · rintro ⟨hstatus, hdevice, hsent, htopics⟩
        rw [hnames] at hstatus hdevice
        simp only [hcomponents, MqttSender.Announced, hnames] at hsent
        obtain ⟨hfits, hne, hblocks⟩ := hplan.mp
          ⟨hstatus, hdevice, hsent, (htexts _).mp htopics⟩
        exact ⟨hfits, hroom, fun t ht => hne _ (List.mem_map_of_mem ht),
          hblocks.imp_right (And.imp_left List.map_eq_nil_iff.mp)⟩
      · rintro ⟨hfits, -, hne, hblocks⟩
        obtain ⟨hstatus, hdevice, hsent, htopics⟩ := hplan.mpr
          ⟨hfits, List.forall_mem_map.mpr hne,
            hblocks.imp_right (And.imp_left List.map_eq_nil_iff.mpr)⟩
        rw [← hnames] at hstatus hdevice
        simp only [← hcomponents, ← hnames] at hsent
        exact ⟨hstatus, hdevice, hsent, (htexts _).mpr htopics⟩
    rw [← hsent]
    constructor
    · rintro ⟨z, hz, h⟩
      obtain rfl : z = y := Option.some.inj (hz.symm.trans hy)
      exact h
    · exact fun h => ⟨y, hy, h⟩
  · have hnone : senderMachine.step (some x) (.configSend first) = none := by
      have hdue : x.roundDue first.now = true := by
        simp [MqttSender.roundDue, hlast]
      change x.mqttConfigSend first = none
      rw [MqttSender.mqttConfigSend, if_neg (by simp [hup]), if_pos hdue,
        hsound.beginRound_full hroom, Option.bind_none]
    refine iff_of_false ?_ fun h => hroom h.room
    rintro ⟨y, hy, -⟩
    rw [List.map_cons, EventMachine.run_cons, hnone, senderMachine_run_none] at hy
    cases hy

/-! ## Two connections -/

/-- The address of the calls of `quickCall`. -/
def quickWeb : WebAddress := ⟨80, lit "10.0.0.2"⟩

def laterCalls : List ConfigCall :=
  [quickCall 1001, quickCall 1002, quickCall 1003]

theorem quickCalls_succeed :
    ∀ call ∈ quickCall 1000 :: laterCalls, call.Succeeds quickWeb := by
  intro call hcall
  obtain ⟨now, -, rfl⟩ : ∃ now ∈ [1000, 1001, 1002, 1003], quickCall now = call :=
    List.mem_map.mp hcall
  exact ⟨rfl, rfl, rfl⟩

/-- A sensor and a topic are registered before the connection. -/
def sensorAndTopic : List (SenderEvent Unit) :=
  [.register (plainSensor (lit "a")),
    .listen ⟨lit "t/cmd", (), false, true, true⟩, .connect]

theorem discovery_progress_sensorAndTopic :
    ∃ x ∈ senderAfter ⟨lit "id", lit "t"⟩
        (sensorAndTopic ++ [.report .accepted]),
      DiscoveryProgress x quickWeb (quickCall 1000 :: laterCalls) := by
  have hrun : ∃ x ∈ senderAfter ⟨lit "id", lit "t"⟩
        (sensorAndTopic ++ [.report .accepted]),
      x.mqttIsConnected = true ∧
        senderMachine.Along RoundGoesOn
          (senderMachine.step (some x) (.configSend (quickCall 1000)))
          (laterCalls.map .configSend) ∧
        x.cmpCount + x.topics.listed.length + 2 ≤
          (quickCall 1000 :: laterCalls).length ∧
        (x.names.deviceMessage quickWeb).Fits ∧
        x.topics.listed.length < mqttMaxTopics ∧
        (∀ t ∈ x.topics.listed, t.topic ≠ []) ∧
        ∀ c ∈ x.components.list, (x.names.componentMessage c).Fits := by
    decide +kernel
  obtain ⟨x, hx, hup, hround, hlen, hdevice, hroom, htopics, hcomponents⟩ := hrun
  exact ⟨x, hx,
    (discovery_progress_iff hx hup quickCalls_succeed hround hlen).mpr
      ⟨hdevice, hroom, htopics, .inl hcomponents⟩⟩

/-- A sensor with a template that is longer than the buffer. -/
def wideSensor : MqttComponent :=
  { plainSensor (lit "a") with
    valueTemplate := List.replicate mqttDiscoveryBuffSize 120 }

/-- The wide sensor is registered before another one. -/
def wideSensorFirst : List (SenderEvent Unit) :=
  [.register wideSensor, .register (plainSensor (lit "b")), .connect]

/-- The sensor behind the wide one is never announced. -/
theorem not_discovery_progress :
    ¬∀ (names : MqttNames) (es : List (SenderEvent Unit))
        (x : MqttSender Unit) (web : WebAddress) (first : ConfigCall)
        (calls : List ConfigCall),
      senderAfter names (es ++ [.report .accepted]) = some x →
      x.mqttIsConnected = true →
      (∀ call ∈ first :: calls, call.Succeeds web) →
      senderMachine.Along RoundGoesOn
        (senderMachine.step (some x) (.configSend first))
        (calls.map .configSend) →
      x.cmpCount + x.topics.listed.length + 2 ≤ (first :: calls).length →
      DiscoveryProgress x web (first :: calls) := by
  intro h
  have hrun : ∃ x ∈ senderAfter ⟨lit "id", lit "t"⟩
        (wideSensorFirst ++ [.report .accepted]),
      x.mqttIsConnected = true ∧
        senderMachine.Along RoundGoesOn
          (senderMachine.step (some x) (.configSend (quickCall 1000)))
          (laterCalls.map .configSend) ∧
        x.cmpCount + x.topics.listed.length + 2 ≤
          (quickCall 1000 :: laterCalls).length ∧
        ∀ y ∈ senderMachine.run (some x)
            ((quickCall 1000 :: laterCalls).map .configSend),
          ∃ c ∈ y.components.list,
            (y.names.componentMessage c).Fits ∧ ¬y.Announced c := by
    decide +kernel
  obtain ⟨x, hx, hup, hround, hlen, hlost⟩ := hrun
  obtain ⟨y, hy, hsent⟩ := h _ _ x _ _ _ hx hup quickCalls_succeed hround hlen
  obtain ⟨c, hc, hfits, hnot⟩ := hlost y hy
  exact hnot (hsent.components c hc hfits)

end Herak.Mqtt
