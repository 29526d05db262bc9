import Herak.Mqtt.Reassembly

/-!
# Leaks and mixtures in the receive buffers

The connection callback and `sysMqttReconnect` reset the sending half of the
context and leave the receive half as it is.  A session keeps its buffers in
order exactly as long as no connection is lost while a buffer is being filled.
-/

namespace Herak.Mqtt.MqttSession

variable {Hook Json : Type*} {s : MqttSession Hook Json}
  {lwjson : List UInt8 → Option Json}

/-- The bytes stored in an open buffer came with the publish that opened
it. -/
def Unmixed (s : MqttSession Hook Json) : Prop :=
  ∀ i, (s.listen.buffers i).inProgress = true →
    ∀ id ∈ s.source i, id = s.owner i

/-- The buffers are in order: one that is being filled is the current one, no
buffer mixes two publishes, and between two messages all of them come free. -/
structure Healthy (lwjson : List UInt8 → Option Json)
    (s : MqttSession Hook Json) : Prop where
  current : ∀ i, (s.listen.buffers i).inProgress = true →
    (s.listen.buffers i).ready = false → s.listen.current = some i
  unmixed : s.Unmixed
  returned : s.wire = .idle → ∀ i,
    (((machine lwjson).run s drain).listen.buffers i).inProgress = false

/-! ## Runs without a cut -/

theorem unmixed_init (topics : List (MqttTopic Hook)) :
    (MqttSession.init topics : MqttSession Hook Json).Unmixed := by
  simp [Unmixed, MqttSession.init]

theorem unmixed_publish (h : s.Unmixed) (topic : CStr) (n : ℕ) :
    (step lwjson s (.publish topic n)).Unmixed := by
  cases hslot : s.listen.publishSlot topic n with
  | none =>
      rw [step_publish_rejected hslot]
      exact h
  | some ij =>
      rw [step_publish_accepted (i := ij.1) (j := ij.2) hslot]
      intro k hk id hid
      by_cases hki : k = ij.1
      · subst hki
        simp [accepted] at hid
      · rw [accepted_buffers_of_ne hki] at hk
        rw [accepted_owner_of_ne hki]
        exact h k hk id (by simpa [accepted, hki] using hid)

theorem unmixed_data (h : s.Unmixed) (ho : OrderInv s) (hs : SessionInv s)
    {bytes : List UInt8} {flags : UInt8}
    (he : s.Enabled (.data bytes flags)) :
    (step lwjson s (.data bytes flags)).Unmixed := by
  obtain ⟨id, left, hw, -, -⟩ := he
  cases hcur : s.listen.current with
  | none =>
      rw [step_data_ignored hw hcur]
      exact h
  | some i =>
      obtain ⟨hopen, hready⟩ := hs.current_open i hcur
      obtain ⟨left', hw'⟩ := ho.in_flight i hopen hready
      obtain ⟨rfl, -⟩ := Wire.message.inj (hw'.symm.trans hw)
      rw [step_data_stored hw hcur hopen]
      intro k hk src hsrc
      change src = s.owner k
      by_cases hki : k = i
      · subst hki
        have hmem : src ∈ s.source k ++
            List.replicate bytes.length (s.owner k) := by
          by_cases hfit : (s.listen.buffers k).size + bytes.length <
              mqttOutputRingbufSize - 1
          · simpa [stored, hfit] using hsrc
          · have hsrc : src ∈ s.source k := by
              simpa [stored, hfit] using hsrc
            exact List.mem_append_left _ hsrc
        rcases List.mem_append.mp hmem with hmem | hmem
        · exact h k hopen src hmem
        · exact List.eq_of_mem_replicate hmem
      · have hsrc : src ∈ s.source k := by
          by_cases hfit : (s.listen.buffers i).size + bytes.length <
              mqttOutputRingbufSize - 1
          · simpa [stored, hfit, hki] using hsrc
          · simpa [stored, hfit] using hsrc
        rw [stored_buffers_of_ne hki] at hk
        exact h k hk src hsrc

theorem unmixed_ready (h : s.Unmixed) : (step lwjson s .ready).Unmixed := by
  cases hfirst : s.listen.readyBuff with
  | none =>
      rw [step_ready_idle hfirst]
      exact h
  | some i =>
      rw [step_ready_handed hfirst]
      intro k hk id hid
      by_cases hki : k = i
      · subst hki
        simp [handedOver] at hid
      · rw [handedOver_buffers_of_ne hki] at hk
        exact h k hk id (by simpa [handedOver, hki] using hid)

theorem unmixed_step (h : s.Unmixed) (ho : OrderInv s) (hs : SessionInv s)
    {e : MqttEvent} (he : s.Enabled e) : (step lwjson s e).Unmixed := by
  cases e with
  | publish topic n => exact unmixed_publish h topic n
  | data bytes flags => exact unmixed_data h ho hs he
  | ready => exact unmixed_ready h
  | hook status =>
      intro i hi
      exact h i (by simpa [listen, step] using hi)
  | reconnect =>
      intro i hi
      exact h i (by simpa [listen, step] using hi)

theorem unmixed_run {es : List MqttEvent} (h : s.Unmixed) (ho : OrderInv s)
    (hs : SessionInv s) (hes : (machine lwjson).Admits s es)
    (hwhole : (machine lwjson).Along Whole s es) :
    ((machine lwjson).run s es).Unmixed := by
  induction es generalizing s with
  | nil => exact h
  | cons e es ih =>
      exact ih (unmixed_step h ho hs hes.1) (orderInv_step ho hs hes.1 hwhole.1)
        (sessionInv_step hs hes.1) hes.2 hwhole.2

/-! ## A drain -/

theorem whole_replicate_ready (n : ℕ) :
    (machine lwjson).Along Whole s (List.replicate n .ready) := by
  induction n generalizing s with
  | zero => trivial
  | succ n ih => exact ⟨fun hl => by simp [losesConnection] at hl, ih⟩

variable (lwjson) in
/-- Handing messages over does not touch the wire, nor a buffer that is being
filled. -/
theorem replicate_ready_frame (n : ℕ) :
    ((machine lwjson).run s (List.replicate n .ready)).wire = s.wire ∧
      ∀ i, (s.listen.buffers i).ready = false →
        ((machine lwjson).run s (List.replicate n .ready)).listen.buffers i =
          s.listen.buffers i := by
  induction n generalizing s with
  | zero => exact ⟨rfl, fun _ _ => rfl⟩
  | succ n ih =>
      obtain ⟨hwire, hbuffers⟩ := ih (s := step lwjson s .ready)
      cases hfirst : s.listen.readyBuff with
      | none =>
          rw [step_ready_idle hfirst] at hwire hbuffers
          have hstep : (machine lwjson).step s .ready = s :=
            step_ready_idle hfirst
          rw [List.replicate_succ, EventMachine.run_cons, hstep]
          exact ⟨hwire, hbuffers⟩
      | some i =>
          rw [step_ready_handed hfirst] at hwire hbuffers
          have hstep : (machine lwjson).step s .ready = handedOver lwjson s i :=
            step_ready_handed hfirst
          rw [List.replicate_succ, EventMachine.run_cons, hstep]
          refine ⟨hwire, fun k hk => ?_⟩
          have hki : k ≠ i := by
            rintro rfl
            simp [readyBuff_ready hfirst] at hk
          rw [hbuffers k (by rwa [handedOver_buffers_of_ne hki]),
            handedOver_buffers_of_ne hki]

theorem OrderInv.returned (h : OrderInv s) (hs : SessionInv s)
    (hw : s.wire = .idle) (i : BuffIdx) :
    (((machine lwjson).run s drain).listen.buffers i).inProgress = false := by
  have h' : OrderInv ((machine lwjson).run s drain) :=
    (orderInv_run h hs (admits_replicate_ready _) (whole_replicate_ready _)).1
  have hw' : ((machine lwjson).run s drain).wire = .idle :=
    (replicate_ready_frame lwjson _).1.trans hw
  by_contra hopen
  have hready := h'.ready_of_idle hw' (i := i) (by simpa using hopen)
  have hnone := readyBuff_eq_none.mp (readyBuff_drain lwjson s) i
  simp [hready] at hnone

/-! ## Health -/

theorem healthy_of_whole (topics : List (MqttTopic Hook))
    {es : List MqttEvent}
    (hes : (machine lwjson).Admits (MqttSession.init topics) es)
    (hwhole : (machine lwjson).Along Whole (MqttSession.init topics) es) :
    Healthy lwjson ((machine lwjson).run (MqttSession.init topics) es) := by
  have hinit : (init topics : MqttSession Hook Json).SessionInv :=
    sessionInv_init topics
  obtain ⟨ho, hs⟩ := orderInv_run (orderInv_init topics) hinit hes hwhole
  exact
    { current := fun i hi hready => ho.current_of_open hs hi hready
      unmixed := unmixed_run (unmixed_init topics) (orderInv_init topics) hinit
        hes hwhole
      returned := fun hw i => ho.returned hs hw i }

/-- A connection lost while a buffer is being filled leaves that buffer
taken. -/
theorem not_healthy_of_cut (hs : SessionInv s) {e : MqttEvent}
    (hcut : ¬s.Whole e) : ¬Healthy lwjson (step lwjson s e) := by
  obtain ⟨hl, hcur⟩ := Classical.not_imp.mp hcut
  obtain ⟨i, hi⟩ := Option.ne_none_iff_exists'.mp hcur
  obtain ⟨hopen, hready⟩ := hs.current_open i hi
  have he : e.isConnection = true := by
    cases e with
    | hook | reconnect => rfl
    | publish | data | ready => simp [losesConnection] at hl
  obtain ⟨ctx, hctx, hstep⟩ := step_connection (s := s) he
  have hlisten : (step lwjson s e).listen = s.listen := by
    rw [hstep]
    exact hctx
  have hwire : (step lwjson s e).wire = .idle := by
    rw [hstep]
    exact if_pos hl
  intro hhealthy
  have hfree := hhealthy.returned hwire i
  have hkept := (replicate_ready_frame lwjson
    (s := step lwjson s e) mqttListenBuffers).2 i (by rwa [hlisten])
  rw [drain, hkept, hlisten, hopen] at hfree
  simp at hfree

/-- The buffers are in order in every state of a run exactly if the run never
loses the connection while `listen.current` is set. -/
theorem buffers_healthy_iff (topics : List (MqttTopic Hook))
    (lwjson : List UInt8 → Option Json) (es : List MqttEvent)
    (hes : (machine lwjson).Admits (MqttSession.init topics) es) :
    (∀ es', es' <+: es →
        Healthy lwjson
          ((machine lwjson).run (MqttSession.init topics) es')) ↔
      (machine lwjson).Along Whole (MqttSession.init topics) es := by
  constructor
  · intro hall
    by_contra hfail
    obtain ⟨before, e, after, rfl, -, hcut⟩ :=
      EventMachine.exists_first_failure hfail
    obtain ⟨hbefore, -⟩ := (machine lwjson).along_append.mp hes
    have hhealthy := hall (before ++ [e]) ⟨after, by simp⟩
    rw [EventMachine.run_append] at hhealthy
    exact not_healthy_of_cut (sessionInv_run topics hbefore) hcut hhealthy
  · intro hwhole es' hprefix
    exact healthy_of_whole topics (hes.of_prefix hprefix)
      (hwhole.of_prefix hprefix)

/-! ## A connection lost in the middle of a message -/

/-- A message is cut short after its first byte. -/
def cutRun : List MqttEvent :=
  [.hook .accepted, .publish (CString.lit "cmd") 2, .data [97] 0,
    .hook .disconnected, .hook .accepted]

/-- The payload of a topic nobody listens to is appended to the cut message,
and a message that is listened to leaves its buffer taken for good. -/
theorem cut_message_leaks :
    (machine withoutJson).Admits (MqttSession.init boundaryTopics)
        (cutRun ++ [.publish (CString.lit "other") 1, .data [98] 1]) ∧
      (let s := (machine withoutJson).run (MqttSession.init boundaryTopics)
          (cutRun ++ [.publish (CString.lit "other") 1, .data [98] 1]);
        s.owner 0 = 0 ∧ s.source 0 = [0, 1] ∧
          ((s.listen.buffers 0).msg.take (s.listen.buffers 0).size) =
            [97, 98]) ∧
      (machine withoutJson).Admits (MqttSession.init boundaryTopics)
        (cutRun ++ [.publish (CString.lit "cmd") 1]) ∧
      (let s := (machine withoutJson).run (MqttSession.init boundaryTopics)
          (cutRun ++ [.publish (CString.lit "cmd") 1]);
        (s.listen.buffers 0).inProgress = true ∧
          (s.listen.buffers 0).ready = false ∧
          s.listen.current = some 1) := by
  decide

theorem buffers_healthy_iff_fragmentedRun :
    (machine withoutJson).Admits (MqttSession.init boundaryTopics)
        fragmentedRun ∧
      ∀ es', es' <+: fragmentedRun →
        Healthy withoutJson
          ((machine withoutJson).run (MqttSession.init boundaryTopics) es') :=
  ⟨by decide,
    (buffers_healthy_iff boundaryTopics withoutJson fragmentedRun
      (by decide)).mpr (by decide)⟩

end Herak.Mqtt.MqttSession
