import Herak.Mqtt.Discovery

/-!
# Discovery before data

`mqtt_is_discovery_sent` compares a count of the discovery messages that were
sent with the number of components.  A round that begins again counts the first
components a second time, so that the count says something about the components
only as long as no round begins in the middle of the sending.
-/

namespace Herak.Mqtt

open CInt CString

variable {Hook : Type*}

namespace MqttSender

/-- The broker client has accepted the message of the component. -/
def Announced (x : MqttSender Hook) (c : MqttComponent) : Prop :=
  (x.names.componentMessage c).request ∈ x.accepted

instance (x : MqttSender Hook) (c : MqttComponent) : Decidable (x.Announced c) :=
  inferInstanceAs (Decidable (_ ∈ _))

end MqttSender

/-- What is asked of a schedule: while the client is connected, discovery is
called sent only if every component is announced. -/
def DiscoveryBeforeData (names : MqttNames) (es : List (SenderEvent Hook)) :
    Prop :=
  ∀ before x, before <+: es → senderAfter names before = some x →
    x.mqttIsConnected = true → x.mqttIsDiscoverySent = true →
    ∀ c ∈ x.components.list, x.Announced c

/-- No component is registered after more messages have been counted than there
are components, and no round begins after some messages have been counted, but
fewer than there are components. -/
def MqttSender.Undisturbed (x : MqttSender Hook) : SenderEvent Hook → Prop
  | .register _ =>
      x.cmpCount < mqttDiscoveryMaxCount → x.conn.discoverySend ≤ x.cmpCount
  | .configSend call =>
      x.roundDue call.now = true →
        x.conn.discoverySend = 0 ∨ x.cmpCount ≤ x.conn.discoverySend
  | _ => True

/-- The sending is not disturbed while the client is connected. -/
def Undisturbed (s : Option (MqttSender Hook)) (e : SenderEvent Hook) : Prop :=
  ∀ x ∈ s, x.mqttIsConnected = true → x.Undisturbed e

instance (x : MqttSender Hook) :
    ∀ e : SenderEvent Hook, Decidable (x.Undisturbed e)
  | .register _ => inferInstanceAs (Decidable (_ < _ → _ ≤ _))
  | .configSend call =>
      inferInstanceAs (Decidable (x.roundDue call.now = true → _ ∨ _))
  | .listen _ | .connect | .report _ | .reconnect => .isTrue trivial

instance (s : Option (MqttSender Hook)) (e : SenderEvent Hook) :
    Decidable (Undisturbed s e) :=
  inferInstanceAs (Decidable (∀ x ∈ s, _))

namespace MqttSender

variable {x y z : MqttSender Hook}

/-! ## Calls that announce no component -/

/-- The progress of the components is the same, and what was accepted is
accepted. -/
structure Keeps (x y : MqttSender Hook) : Prop where
  names : y.names = x.names
  components : y.components = x.components
  discoverySend : y.conn.discoverySend = x.conn.discoverySend
  sendIdx : y.sendIdx = x.sendIdx
  connected : y.mqttIsConnected = x.mqttIsConnected
  accepted : x.accepted ⊆ y.accepted

theorem Keeps.refl (x : MqttSender Hook) : Keeps x x :=
  ⟨rfl, rfl, rfl, rfl, rfl, List.Subset.refl _⟩

/-- The flags say nothing about the components. -/
theorem Keeps.setStatus (h : Keeps x y) (status : Bool) :
    Keeps x { y with status := status } :=
  ⟨h.names, h.components, h.discoverySend, h.sendIdx, h.connected, h.accepted⟩

theorem Keeps.setDiscoveryDev (h : Keeps x y) (dev : Bool) :
    Keeps x { y with discoveryDev := dev } :=
  ⟨h.names, h.components, h.discoverySend, h.sendIdx, h.connected, h.accepted⟩

/-- A request to the broker client, whatever it returns. -/
theorem keeps_request {conn : MqttContext Hook} (r : BrokerRequest) (err : ℤ)
    (hconn : conn.discoverySend = x.conn.discoverySend) :
    Keeps x { x with
      conn := conn
      client := x.client.map (·.request r err) } := by
  refine ⟨rfl, rfl, hconn, rfl, ?_, ?_⟩
  · simp only [mqttIsConnected]
    cases x.client with
    | none => rfl
    | some client =>
        simp only [Option.map_some, Option.any_some, BrokerClient.request]
        split <;> rfl
  · simp only [accepted]
    cases x.client with
    | none => exact List.Subset.refl _
    | some client =>
        simp only [Option.map_some, Option.elim_some, BrokerClient.request]
        split
        · exact List.subset_append_left _ _
        · exact List.Subset.refl _

theorem keeps_mqttMsgSend (topic message : CStr) (call : ConfigCall) :
    Keeps x (x.mqttMsgSend topic message call).2 := by
  unfold mqttMsgSend
  split
  · exact Keeps.refl x
  · exact keeps_request _ _ (MqttContext.noteSend_discoverySend ..)

theorem keeps_sendGenerated (msg : ℤ × DiscoveryMessage) (call : ConfigCall) :
    Keeps x (x.sendGenerated msg call).2 := by
  unfold sendGenerated
  split
  · exact keeps_mqttMsgSend _ _ _
  · exact Keeps.refl x

theorem keeps_configStatus (call : ConfigCall) :
    Keeps x (x.configStatus call).2 := by
  have hsend := keeps_mqttMsgSend (x := x) x.names.statusTopic onlineMsg call
  unfold configStatus
  dsimp only
  split
  · exact hsend.setStatus false
  · exact hsend

theorem keeps_configDevice (call : ConfigCall) :
    Keeps x (x.configDevice call).2 := by
  have hsend : Keeps x (x.mqttMsgDiscoverySendDevice call).2 :=
    keeps_sendGenerated _ call
  unfold configDevice
  generalize x.mqttMsgDiscoverySendDevice call = result at hsend
  dsimp only
  split
  · exact hsend.setDiscoveryDev false
  · exact hsend

theorem keeps_configSubscribe {call : ConfigCall}
    {result : Bool × MqttSender Hook}
    (h : x.configSubscribe call = some result) : Keeps x result.2 := by
  unfold configSubscribe at h
  split at h
  · obtain ⟨sub, hsub, rfl⟩ := Option.map_eq_some_iff.mp h
    obtain ⟨raw, -, rfl⟩ := Option.map_eq_some_iff.mp hsub
    dsimp only
    cases raw.2.1.bind x.topics.entry with
    | none => exact ⟨rfl, rfl, rfl, rfl, rfl, List.Subset.refl _⟩
    | some t =>
        have hreq := keeps_request (x := x) (.subscribe t.topic) call.subscribe
          rfl
        exact ⟨rfl, rfl, rfl, rfl, hreq.connected, hreq.accepted⟩
  · obtain rfl := Option.some.inj h
    exact Keeps.refl x

/-! ## The progress of a round -/

/-- The components that are counted are the first ones, and announced, or all
components are. -/
inductive Progress (x : MqttSender Hook) : Prop
  | all (h : ∀ c ∈ x.components.list, x.Announced c)
  | upTo (hcount : x.conn.discoverySend = x.sendIdx)
      (h : ∀ c ∈ x.components.list.take x.sendIdx, x.Announced c)

/-- A round begins with the next call, and discovery is not called sent. -/
def Pending (x : MqttSender Hook) : Prop :=
  x.conn.discoverySend < x.cmpCount ∧ x.conn.configLastSend = 0

theorem Keeps.announced (h : Keeps x y) {c : MqttComponent}
    (hc : x.Announced c) : y.Announced c := by
  rw [Announced, h.names]
  exact h.accepted hc

theorem Keeps.progress (h : Keeps x y) (hx : Progress x) : Progress y := by
  cases hx with
  | all hall =>
      apply Progress.all
      rw [h.components]
      exact fun c hc => h.announced (hall c hc)
  | upTo hcount hupTo =>
      apply Progress.upTo
      · rw [h.discoverySend, h.sendIdx, hcount]
      · rw [h.components, h.sendIdx]
        exact fun c hc => h.announced (hupTo c hc)

theorem Keeps.inv (h : Keeps x y)
    (hlast : y.conn.configLastSend = x.conn.configLastSend)
    (hx : Progress x ∨ Pending x) : Progress y ∨ Pending y := by
  rcases hx with hx | ⟨hlt, hzero⟩
  · exact .inl (h.progress hx)
  · refine .inr ⟨?_, hlast.trans hzero⟩
    rw [h.discoverySend, cmpCount, h.components]
    exact hlt

theorem Progress.endComponents (hx : Progress x) : Progress x.endComponents := by
  unfold MqttSender.endComponents
  split
  · rename_i hend
    apply Progress.all
    cases hx with
    | all hall => exact hall
    | upTo _ hupTo =>
        rw [List.take_of_length_le hend] at hupTo
        exact hupTo
  · exact hx

/-- A component that is sent is counted and announced. -/
theorem Progress.countComponent (hx : Progress x) (hxy : Keeps x y)
    {c : MqttComponent} (hget : x.components.list[x.sendIdx]? = some c)
    (hc : y.Announced c) : Progress y.countComponent := by
  cases hx with
  | all hall =>
      apply Progress.all
      change ∀ c ∈ y.components.list, y.Announced c
      rw [hxy.components]
      exact fun c hc => hxy.announced (hall c hc)
  | upTo hcount hupTo =>
      have hidx : x.sendIdx < x.components.list.length :=
        (List.getElem?_eq_some_iff.mp hget).1
      have hmax := x.components.length_le
      rw [mqttDiscoveryMaxCount] at hmax
      apply Progress.upTo
      · have hnext : (toUInt32 (y.conn.discoverySend + 1) : ℤ) =
            y.conn.discoverySend + 1 := by
          apply toUInt32_of_range
          · omega
          · rw [hxy.discoverySend]
            omega
        have hcount' : y.conn.discoverySend = y.sendIdx := by
          rw [hxy.discoverySend, hxy.sendIdx, hcount]
        change toUInt32 (y.conn.discoverySend + 1) = y.sendIdx + 1
        omega
      · change ∀ c ∈ y.components.list.take (y.sendIdx + 1), y.Announced c
        rw [hxy.components, hxy.sendIdx, List.take_add_one, hget]
        intro d hd
        rcases List.mem_append.mp hd with hd | hd
        · exact hxy.announced (hupTo d hd)
        · obtain rfl := List.mem_singleton.mp hd
          exact hc

theorem mqttMsgSend_accepted {topic message : CStr} {call : ConfigCall}
    (h : (x.mqttMsgSend topic message call).1 = 0) :
    BrokerRequest.publish topic message ∈
      (x.mqttMsgSend topic message call).2.accepted := by
  unfold mqttMsgSend at h ⊢
  split at h
  · cases h
  · rename_i hconn
    have hok : call.publish = 0 := by
      by_contra hfail
      rw [if_neg hfail] at h
      cases h
    rw [if_neg hconn, hok]
    cases hclient : x.client with
    | none => simp [mqttIsConnected, hclient] at hconn
    | some client => simp [accepted, BrokerClient.request]

variable (x) in
theorem mqttMsgDiscoverySend_announced (call : ConfigCall)
    (h : (x.mqttMsgDiscoverySend call).1 = 0) :
    ∃ c, x.components.list[x.sendIdx]? = some c ∧
      (x.mqttMsgDiscoverySend call).2.Announced c := by
  unfold mqttMsgDiscoverySend at h ⊢
  cases hget : x.components.list[x.sendIdx]? with
  | none =>
      rw [hget] at h
      cases h
  | some c =>
      rw [hget] at h
      dsimp only at h ⊢
      refine ⟨c, rfl, ?_⟩
      rw [mqttDiscoveryGenerateComponent,
        sendGenerated_eq x (componentTopicText_ne_nil x.names c)] at h ⊢
      split at h
      · rename_i hfits
        rw [if_pos hfits, Announced, (keeps_mqttMsgSend _ _ _).names]
        exact mqttMsgSend_accepted h
      · cases h

theorem keeps_mqttMsgDiscoverySend (call : ConfigCall) :
    Keeps x (x.mqttMsgDiscoverySend call).2 := by
  unfold mqttMsgDiscoverySend
  split
  · exact Keeps.refl x
  · exact keeps_sendGenerated _ call

theorem Progress.configComponent (hx : Progress x) (call : ConfigCall) :
    Progress (x.configComponent call).2 := by
  have hkeeps := keeps_mqttMsgDiscoverySend (x := x) call
  have hsent := mqttMsgDiscoverySend_announced x call
  unfold MqttSender.configComponent
  generalize x.mqttMsgDiscoverySend call = result at hkeeps hsent
  dsimp only
  split
  · rename_i hzero
    obtain ⟨c, hget, hc⟩ := hsent hzero
    exact (hx.countComponent hkeeps hget hc).endComponents
  · exact (hkeeps.progress hx).endComponents

theorem Progress.configPhase (hx : Progress x) {call : ConfigCall}
    {result : Bool × MqttSender Hook}
    (h : x.configPhase call = some result) : Progress result.2 := by
  unfold MqttSender.configPhase at h
  split at h
  · obtain rfl := Option.some.inj h
    exact (keeps_configStatus call).progress hx
  · split at h
    · obtain rfl := Option.some.inj h
      exact (keeps_configDevice call).progress hx
    · split at h
      · obtain rfl := Option.some.inj h
        exact hx.configComponent call
      · exact (keeps_configSubscribe h).progress hx

theorem Progress.noteRound {now : ℕ} {result : Bool × MqttSender Hook}
    (h : Progress result.2) : Progress (noteRound now result) := by
  unfold MqttSender.noteRound
  split
  · cases h with
    | all hall => exact .all hall
    | upTo hcount hupTo => exact .upTo hcount hupTo
  · exact h

theorem beginRound_spec (h : x.beginRound = some y) :
    y.names = x.names ∧ y.components = x.components ∧ y.conn = x.conn ∧
      y.client = x.client ∧
      y.sendIdx = if 0 < x.cmpCount then 0 else x.sendIdx := by
  have hphases : ∀ {w : MqttSender Hook}, w.names = x.names →
      w.components = x.components → w.conn = x.conn → w.client = x.client →
      w.sendIdx = (if 0 < x.cmpCount then 0 else x.sendIdx) →
      (if w.topics.count ≠ 0 then
        (mqttSubscribeAll w.topics).map fun t => { w with topics := t }
      else some w) = some y →
      y.names = x.names ∧ y.components = x.components ∧ y.conn = x.conn ∧
        y.client = x.client ∧
        y.sendIdx = if 0 < x.cmpCount then 0 else x.sendIdx := by
    intro w hnames hcomponents hconn hclient hidx hw
    split at hw
    · obtain ⟨t, -, rfl⟩ := Option.map_eq_some_iff.mp hw
      exact ⟨hnames, hcomponents, hconn, hclient, hidx⟩
    · obtain rfl := Option.some.inj hw
      exact ⟨hnames, hcomponents, hconn, hclient, hidx⟩
  unfold beginRound at h
  refine hphases ?_ ?_ ?_ ?_ ?_ h
  all_goals
    dsimp only
    split <;> split <;> first | rfl | simp_all [cmpCount]

/-- A call of `mqtt_config_send` in which no round begins in the middle of the
sending. -/
theorem progress_mqttConfigSend {call : ConfigCall}
    (hconn : x.mqttIsConnected = true) (hx : Progress x ∨ Pending x)
    (hround : x.roundDue call.now = true →
      x.conn.discoverySend = 0 ∨ x.cmpCount ≤ x.conn.discoverySend)
    (h : x.mqttConfigSend call = some y) : Progress y := by
  have hphase : ∀ {w : MqttSender Hook}, Progress w →
      (w.configPhase call).map (noteRound call.now) = some y → Progress y := by
    intro w hw hmap
    obtain ⟨result, hresult, rfl⟩ := Option.map_eq_some_iff.mp hmap
    exact (hw.configPhase hresult).noteRound
  rw [mqttConfigSend, if_neg (by simp [hconn])] at h
  obtain ⟨w, hw, hmap⟩ := Option.bind_eq_some_iff.mp h
  refine hphase ?_ hmap
  by_cases hdue : x.roundDue call.now = true
  · rw [if_pos hdue] at hw
    obtain ⟨hnames, hcomponents, hwconn, hclient, hidx⟩ := beginRound_spec hw
    have hannounced : ∀ c, x.Announced c → w.Announced c := by
      intro c hc
      rw [Announced, accepted, hnames, hclient]
      exact hc
    have hfirst : x.conn.discoverySend = 0 → 0 < x.cmpCount → Progress w := by
      intro hzero hpos
      rw [if_pos hpos] at hidx
      apply Progress.upTo
      · rw [hwconn, hidx, hzero]
      · rw [hidx, List.take_zero]
        exact fun c hc => (List.not_mem_nil hc).elim
    have hall : (∀ c ∈ x.components.list, x.Announced c) → Progress w := by
      intro hall
      apply Progress.all
      rw [hcomponents]
      exact fun c hc => hannounced c (hall c hc)
    rcases hround hdue with hzero | hle
    · rcases Nat.eq_zero_or_pos x.cmpCount with hnone | hpos
      · apply hall
        rw [List.length_eq_zero_iff.mp hnone]
        exact fun c hc => (List.not_mem_nil hc).elim
      · exact hfirst hzero hpos
    · rcases hx with hx | hx
      · cases hx with
        | all h => exact hall h
        | upTo hcount hupTo =>
            rw [List.take_of_length_le (hcount ▸ hle)] at hupTo
            exact hall hupTo
      · exact (hx.1.not_ge hle).elim
  · rw [if_neg hdue] at hw
    obtain rfl := Option.some.inj hw
    rcases hx with hx | hx
    · exact hx
    · exact (hdue (by simp [roundDue, hx.2])).elim

/-! ## Runs -/

/-- What holds of the context as long as the sending is undisturbed. -/
def DiscoveryInv (s : Option (MqttSender Hook)) : Prop :=
  ∀ x, s = some x → x.mqttIsConnected = true → Progress x ∨ Pending x

theorem discoveryInv_init (names : MqttNames) :
    DiscoveryInv (some (init names : MqttSender Hook)) := by
  intro x hx hconn
  obtain rfl := Option.some.inj hx
  cases hconn

theorem discoveryInv_register (c : MqttComponent)
    (hx : x.mqttIsConnected = true → Progress x ∨ Pending x)
    (hcount : x.mqttIsConnected = true → x.cmpCount < mqttDiscoveryMaxCount →
      x.conn.discoverySend ≤ x.cmpCount)
    (hconn : (x.mqttMsgComponentRegister c).2.mqttIsConnected = true) :
    Progress (x.mqttMsgComponentRegister c).2 ∨
      Pending (x.mqttMsgComponentRegister c).2 := by
  unfold mqttMsgComponentRegister at hconn ⊢
  split
  · rename_i hfull
    rw [dif_pos hfull] at hconn
    exact hx hconn
  · rename_i hfree
    rw [dif_neg hfree] at hconn
    refine .inr ⟨?_, rfl⟩
    have hle := hcount hconn (Nat.lt_of_not_le hfree)
    have hcmp : ∀ c : MqttComponent,
        x.cmpCount < (x.components.list ++ [c]).length := by
      intro c
      rw [List.length_append, List.length_singleton]
      exact Nat.lt_succ_self x.cmpCount
    exact hle.trans_lt (hcmp _)

theorem discoveryInv_report (status : MqttConnectionStatus)
    (hconn : (x.report status).mqttIsConnected = true) :
    Progress (x.report status) ∨ Pending (x.report status) := by
  cases status with
  | accepted =>
      rcases Nat.eq_zero_or_pos x.cmpCount with hnone | hpos
      · refine .inl (.all ?_)
        change ∀ c ∈ x.components.list, _
        rw [List.length_eq_zero_iff.mp hnone]
        exact fun c hc => (List.not_mem_nil hc).elim
      · exact .inr ⟨hpos, rfl⟩
  | _ =>
      cases hclient : x.client <;>
        simp [report, mqttIsConnected, hclient, BrokerClient.report] at hconn

theorem keeps_reconnect (hconn : x.reconnect.mqttIsConnected = true) :
    Keeps x x.reconnect := by
  unfold reconnect at hconn ⊢
  by_cases hinit : x.conn.state = .init
  · have hsame : (sysMqttReconnect x.conn).discoverySend =
        x.conn.discoverySend := by
      simp [sysMqttReconnect, hinit]
    rw [if_pos hinit]
    exact ⟨rfl, rfl, hsame, rfl, rfl, List.Subset.refl _⟩
  · rw [if_neg hinit] at hconn
    cases hclient : x.client <;>
      simp [mqttIsConnected, hclient, BrokerClient.disconnect] at hconn

end MqttSender

open MqttSender

theorem DiscoveryInv.step {s : Option (MqttSender Hook)} {e : SenderEvent Hook}
    (hs : DiscoveryInv s) (he : Undisturbed s e) :
    DiscoveryInv (senderMachine.step s e) := by
  intro y hy hconn
  obtain ⟨x, rfl, hcall⟩ := Option.bind_eq_some_iff.mp hy
  have hx := hs x rfl
  cases e with
  | register c =>
      obtain rfl := Option.some.inj hcall
      exact discoveryInv_register c hx (he x rfl) hconn
  | listen r =>
      obtain ⟨result, -, rfl⟩ := Option.map_eq_some_iff.mp hcall
      have hkeeps : Keeps x { x with topics := result.2 } :=
        ⟨rfl, rfl, rfl, rfl, rfl, List.Subset.refl _⟩
      exact hkeeps.inv rfl (hx hconn)
  | connect =>
      obtain rfl := Option.some.inj hcall
      cases hconn
  | report status =>
      obtain rfl := Option.some.inj hcall
      exact discoveryInv_report status hconn
  | reconnect =>
      obtain rfl := Option.some.inj hcall
      have hkeeps := keeps_reconnect hconn
      have hlast : x.reconnect.conn.configLastSend = x.conn.configLastSend := by
        simp only [reconnect, sysMqttReconnect]
        split <;> rfl
      exact hkeeps.inv hlast (hx (hkeeps.connected ▸ hconn))
  | configSend call =>
      by_cases hdown : x.mqttIsConnected = false
      · obtain rfl : x = y := by
          simpa [SenderEvent.call, mqttConfigSend, hdown] using hcall
        exact hx hconn
      · have hup : x.mqttIsConnected = true := Bool.eq_true_of_not_eq_false hdown
        exact .inl (progress_mqttConfigSend hup (hx hup) (he x rfl hup) hcall)

/-- Discovery is called sent only with every component announced, as long as
no component comes and no round begins in the middle of the sending. -/
theorem discovery_before_data {names : MqttNames}
    {es : List (SenderEvent Hook)}
    (h : senderMachine.Along Undisturbed (some (.init names)) es) :
    DiscoveryBeforeData names es := by
  intro before x hbefore hx hconn hsent c hc
  have hinv : DiscoveryInv (senderAfter names before) :=
    (h.of_prefix hbefore).invariant (fun _ _ => DiscoveryInv.step)
      (discoveryInv_init names)
  have hle : x.cmpCount ≤ x.conn.discoverySend := by
    simp only [mqttIsDiscoverySent, Bool.and_eq_true, decide_eq_true_eq] at hsent
    exact hsent.2
  rcases hinv x hx hconn with hprogress | hpending
  · cases hprogress with
    | all hall => exact hall c hc
    | upTo hcount hupTo =>
        rw [List.take_of_length_le (hcount ▸ hle)] at hupTo
        exact hupTo c hc
  · exact (hpending.1.not_ge hle).elim

/-- A sensor with its texts as short as they can be. -/
def plainSensor (name : CStr) : MqttComponent :=
  ⟨lit "s", name, lit "sensor", none, none, lit "x", none, none, none⟩

/-- A call at a time at which everything succeeds. -/
def quickCall (now : ℕ) : ConfigCall :=
  ⟨now, now, ⟨80, lit "10.0.0.2"⟩, 0, 0⟩

/-- A connection over which one sensor is announced, with the first call a
second after the start of the device. -/
def oneSensorRun : List (SenderEvent Unit) :=
  [.register (plainSensor (lit "a")), .connect, .report .accepted,
    .configSend (quickCall 1000), .configSend (quickCall 1001),
    .configSend (quickCall 1002)]

theorem discovery_before_data_oneSensor :
    DiscoveryBeforeData ⟨lit "id", lit "t"⟩ oneSensorRun :=
  discovery_before_data (by decide +kernel)

/-- A second sensor is registered after the first one has been counted. -/
def secondSensorRun : List (SenderEvent Unit) :=
  oneSensorRun ++
    [.register (plainSensor (lit "b")), .configSend (quickCall 1003),
      .configSend (quickCall 1004), .configSend (quickCall 1005)]

/-- The round begins again, and the first sensor is counted twice. -/
theorem not_discovery_before_data :
    ¬∀ (names : MqttNames) (es : List (SenderEvent Unit)),
      DiscoveryBeforeData names es := by
  intro h
  have hrun : ∃ x ∈ senderAfter ⟨lit "id", lit "t"⟩ secondSensorRun,
      (x.mqttIsConnected && x.mqttIsDiscoverySent) = true ∧
        ∃ c ∈ x.components.list, ¬x.Announced c :=
    by decide +kernel
  obtain ⟨x, hx, hsent, c, hc, hnot⟩ := hrun
  rw [Bool.and_eq_true] at hsent
  exact hnot (h _ _ _ x (List.prefix_refl _) hx hsent.1 hsent.2 c hc)

end Herak.Mqtt
