import Mathlib.Data.Finset.Card
import Mathlib.Data.Fintype.Card
import Herak.Mqtt.Order

/-!
# Exact reassembly

A publish is accepted when its length is below the buffer size, but a fragment
is stored only when the bytes received so far stay two below it.  Whatever the
fragmentation and whatever happens around it, a complete message therefore
reaches the hooks byte for byte exactly when it is not of the one length
between the two bounds.
-/

namespace Herak.Mqtt.MqttSession

variable {Hook Json : Type*} {s : MqttSession Hook Json}
  {lwjson : List UInt8 → Option Json}

/-! ## What a step leaves of the topics and of the complete publishes -/

@[simp] theorem topics_step (s : MqttSession Hook Json) (e : MqttEvent) :
    (step lwjson s e).listen.topics = s.listen.topics := by
  cases e with
  | publish topic n =>
      change (mqttIncomingPublish s.listen topic n).topics = _
      unfold mqttIncomingPublish
      split <;> rfl
  | data bytes flags =>
      change (mqttIncomingData s.listen bytes flags).topics = _
      unfold mqttIncomingData
      split
      · rfl
      · split
        · rfl
        · dsimp only
          split <;> rfl
  | ready =>
      change (mqttIncomingReady lwjson s.listen).2.1.topics = _
      unfold mqttIncomingReady
      split <;> rfl
  | hook status => exact congrArg _ (mqttHook_listen _ _)
  | reconnect => exact congrArg _ (sysMqttReconnect_listen _)

theorem topics_run (es : List MqttEvent) :
    ((machine lwjson).run s es).listen.topics = s.listen.topics := by
  induction es generalizing s with
  | nil => rfl
  | cons e es ih => exact (ih (s := step lwjson s e)).trans (topics_step s e)

variable (lwjson) in
theorem arrival_complete_step (h : SessionInv s) {e : MqttEvent}
    (he : s.Enabled e) {id : ℕ} (hc : (s.arrival id).complete = true) :
    (step lwjson s e).arrival id = s.arrival id := by
  have hid := (h.complete_lt id hc).1
  cases e with
  | publish topic n =>
      cases hslot : s.listen.publishSlot topic n with
      | none =>
          rw [step_publish_rejected hslot]
          exact rejected_arrival_of_ne (Nat.ne_of_lt hid)
      | some ij =>
          rw [step_publish_accepted (i := ij.1) (j := ij.2) hslot]
          exact accepted_arrival_of_ne (Nat.ne_of_lt hid)
  | data bytes flags =>
      obtain ⟨id', left, hw, -, -⟩ := he
      have hne : id ≠ id' := by
        rintro rfl
        simp [(h.wire_open id left hw).2.1] at hc
      cases hcur : s.listen.current with
      | none =>
          rw [step_data_ignored hw hcur]
          exact received_of_ne hne
      | some i =>
          rw [step_data_stored hw hcur (h.current_open i hcur).1]
          exact received_of_ne hne
  | ready =>
      cases hfirst : s.listen.readyBuff with
      | none => rw [step_ready_idle hfirst]
      | some i => rw [step_ready_handed hfirst]; rfl
  | hook status => rfl
  | reconnect => rfl

theorem arrival_complete_run {es : List MqttEvent} (h : SessionInv s)
    (hes : (machine lwjson).Admits s es) {id : ℕ}
    (hc : (s.arrival id).complete = true) :
    ((machine lwjson).run s es).arrival id = s.arrival id ∧
      SessionInv ((machine lwjson).run s es) := by
  induction es generalizing s with
  | nil => exact ⟨rfl, h⟩
  | cons e es ih =>
      have hsame := arrival_complete_step lwjson h hes.1 hc
      obtain ⟨hrun, hinv⟩ := ih (sessionInv_step h hes.1) hes.2
        ((congrArg Arrival.complete hsame).trans hc)
      exact ⟨hrun.trans hsame, hinv⟩

/-! ## Draining the pool -/

def readyCount (s : MqttSession Hook Json) : ℕ :=
  (Finset.univ.filter fun i => (s.listen.buffers i).ready = true).card

/-- As many calls of `mqttIncomingReady` as there are buffers. -/
def drain : List MqttEvent := List.replicate mqttListenBuffers .ready

variable (lwjson) in
theorem readyCount_step_ready (s : MqttSession Hook Json) :
    (step lwjson s .ready).readyCount ≤ s.readyCount - 1 := by
  cases hfirst : s.listen.readyBuff with
  | none =>
      have hzero : s.readyCount = 0 := by
        rw [readyCount, Finset.card_eq_zero, Finset.filter_eq_empty_iff]
        intro i _
        simp [readyBuff_eq_none.mp hfirst i]
      rw [step_ready_idle hfirst, hzero]
  | some i =>
      have hmem : i ∈ Finset.univ.filter fun k =>
          (s.listen.buffers k).ready = true := by
        simp [readyBuff_ready hfirst]
      rw [step_ready_handed hfirst, readyCount, readyCount,
        ← Finset.card_erase_of_mem hmem]
      refine Finset.card_le_card fun k hk => ?_
      have hk := (Finset.mem_filter.mp hk).2
      have hki : k ≠ i := by
        rintro rfl
        simp [freed] at hk
      rw [handedOver_buffers_of_ne hki] at hk
      simp [hki, hk]

variable (lwjson) in
theorem readyCount_replicate_ready (n : ℕ) :
    ((machine lwjson).run s (List.replicate n .ready)).readyCount ≤
      s.readyCount - n := by
  induction n generalizing s with
  | zero => exact Nat.le_refl _
  | succ n ih =>
      calc
        _ ≤ (step lwjson s .ready).readyCount - n := ih
        _ ≤ s.readyCount - (n + 1) := by
          have := readyCount_step_ready lwjson s
          omega

variable (lwjson) in
/-- After a drain no buffer is ready. -/
theorem readyBuff_drain (s : MqttSession Hook Json) :
    ((machine lwjson).run s drain).listen.readyBuff = none := by
  have hle : s.readyCount ≤ mqttListenBuffers :=
    (Finset.card_filter_le _ _).trans_eq (Finset.card_univ.trans (Fintype.card_fin _))
  have hzero : ((machine lwjson).run s drain).readyCount = 0 := by
    have := readyCount_replicate_ready lwjson (s := s)
      mqttListenBuffers
    have hsub := Nat.sub_eq_zero_of_le hle
    rw [hsub] at this
    exact Nat.le_zero.mp this
  rw [readyBuff_eq_none]
  rw [readyCount, Finset.card_eq_zero, Finset.filter_eq_empty_iff] at hzero
  intro i
  simpa using hzero (Finset.mem_univ i)

theorem admits_replicate_ready (n : ℕ) :
    (machine lwjson).Admits s (List.replicate n .ready) := by
  induction n generalizing s with
  | zero => trivial
  | succ n ih => exact ⟨trivial, ih⟩

/-! ## Exactness -/

/-- Every hook of the topic was called once, with the payload of the publish
and with its announced length. -/
def CalledExactly (s : MqttSession Hook Json) (id : ℕ) (t : MqttTopic Hook) :
    Prop :=
  (s.callsOf id).map (·.hook) = t.hooks ∧
    ∀ c ∈ s.callsOf id, c.topic = t.topic ∧
      c.size = (s.arrival id).totLen ∧
      c.msg.take c.size = (s.arrival id).payload

/-- The publish waits for its hand-over: no hook was called for it, and its
buffer is ready. -/
def Waiting (s : MqttSession Hook Json) (id : ℕ) : Prop :=
  s.callsOf id = [] ∧ ∃ i j, (s.arrival id).slot = some (i, j) ∧
    s.owner i = id ∧ (s.listen.buffers i).ready = true

theorem calledExactly_or_waiting (h : SessionInv s) {id j : ℕ} {i : BuffIdx}
    {t : MqttTopic Hook} (hslot : (s.arrival id).slot = some (i, j))
    (ht : s.listen.topics[j]? = some t)
    (hc : (s.arrival id).complete = true)
    (hlen : (s.arrival id).totLen < mqttOutputRingbufSize - 1 ∨
      t.hooks = []) :
    s.CalledExactly id t ∨ s.Waiting id := by
  by_cases hmem : id ∈ s.handed
  · left
    obtain ⟨i', j', t', hslot', ht', hcalls⟩ := h.handed_calls id hmem
    obtain ⟨rfl, rfl⟩ :=
      Prod.mk.inj (Option.some.inj (hslot.symm.trans hslot'))
    obtain rfl := Option.some.inj (ht.symm.trans ht')
    refine ⟨hcalls.hooks, fun c hc' => ⟨hcalls.topic c hc', ?_⟩⟩
    rcases hlen with hshort | hnone
    · exact hcalls.exact hc hshort c hc'
    · have hempty : s.callsOf id = [] := by
        simpa [hnone] using hcalls.hooks
      simp [hempty] at hc'
  · right
    obtain ⟨hready, hown, -⟩ := h.complete_slot id i j hc hslot hmem
    exact ⟨h.unhanded_calls id hmem, i, j, hslot, hown, hready⟩

variable (lwjson) in
/-- Nothing waits after a drain. -/
theorem not_waiting_drain (s : MqttSession Hook Json) (id : ℕ) :
    ¬((machine lwjson).run s drain).Waiting id := by
  rintro ⟨-, i, -, -, -, hready⟩
  rw [readyBuff_eq_none.mp (readyBuff_drain lwjson s) i] at hready
  cases hready

/-- A hook is never called with as many bytes as the longest accepted message
has. -/
theorem not_calledExactly_of_long (h : SessionInv s) {id : ℕ}
    {t : MqttTopic Hook}
    (hlong : ¬(s.arrival id).totLen < mqttOutputRingbufSize - 1)
    (hhooks : t.hooks ≠ []) : ¬s.CalledExactly id t := by
  rintro ⟨hmap, hcalls⟩
  have hne : s.callsOf id ≠ [] := by
    intro hempty
    rw [hempty] at hmap
    exact hhooks hmap.symm
  obtain ⟨c, hc⟩ := List.exists_mem_of_ne_nil _ hne
  have hmem : id ∈ s.handed := by
    by_contra hnot
    exact hne (h.unhanded_calls id hnot)
  obtain ⟨-, -, t', -, -, hspec⟩ := h.handed_calls id hmem
  have hsize := hspec.size_lt c hc
  rw [(hcalls c hc).2.1] at hsize
  exact hlong hsize

/-- Take any session and any accepted publish of it whose fragments have all
arrived.  In every continuation its hooks have been called exactly, or its
buffer is still ready and they have not been called at all, and as many calls
of `mqttIncomingReady` as there are buffers call them exactly, if and only if
the message is shorter than the fragment test allows or has no hook. -/
theorem reassembly_exact_iff (topics : List (MqttTopic Hook))
    (lwjson : List UInt8 → Option Json) (es : List MqttEvent)
    (hes : (machine lwjson).Admits (MqttSession.init topics) es)
    (id j : ℕ) (i : BuffIdx) (t : MqttTopic Hook)
    (hslot : (((machine lwjson).run (MqttSession.init topics) es).arrival
      id).slot = some (i, j))
    (ht : topics[j]? = some t)
    (hc : (((machine lwjson).run (MqttSession.init topics) es).arrival
      id).complete = true) :
    (∀ ys, (machine lwjson).Admits
        ((machine lwjson).run (MqttSession.init topics) es) ys →
      (((machine lwjson).run (MqttSession.init topics)
          (es ++ ys)).CalledExactly id t ∨
        ((machine lwjson).run (MqttSession.init topics)
          (es ++ ys)).Waiting id) ∧
      ((machine lwjson).run (MqttSession.init topics)
        (es ++ ys ++ drain)).CalledExactly id t) ↔
      (((machine lwjson).run (MqttSession.init topics) es).arrival id).totLen <
          mqttOutputRingbufSize - 1 ∨
        t.hooks = [] := by
  have hinv := sessionInv_run topics hes
  constructor
  · intro hall
    by_contra hcond
    obtain ⟨hlong, hhooks⟩ := not_or.mp hcond
    have hexact := (hall [] trivial).2
    rw [List.append_nil, EventMachine.run_append] at hexact
    obtain ⟨harrival, hinv'⟩ := arrival_complete_run hinv
      (admits_replicate_ready mqttListenBuffers) hc
    exact not_calledExactly_of_long hinv' (by rwa [harrival]) hhooks hexact
  · intro hcond
    have hexact : ∀ ys, (machine lwjson).Admits
        ((machine lwjson).run (MqttSession.init topics) es) ys →
        ((machine lwjson).run (MqttSession.init topics)
            (es ++ ys)).CalledExactly id t ∨
          ((machine lwjson).run (MqttSession.init topics)
            (es ++ ys)).Waiting id := by
      intro ys hys
      obtain ⟨harrival, hinv'⟩ := arrival_complete_run hinv hys hc
      rw [EventMachine.run_append]
      refine calledExactly_or_waiting hinv' (i := i) (j := j) ?_ ?_ ?_ ?_
      · rw [harrival, hslot]
      · rw [topics_run, topics_run]
        exact ht
      · rw [harrival, hc]
      · rwa [harrival]
    intro ys hys
    refine ⟨hexact ys hys, ?_⟩
    have hdrain := hexact (ys ++ drain) ((machine lwjson).along_append.mpr
      ⟨hys, admits_replicate_ready mqttListenBuffers⟩)
    rw [← List.append_assoc, EventMachine.run_append] at hdrain
    rw [EventMachine.run_append]
    exact hdrain.resolve_right (not_waiting_drain lwjson _ id)

/-! ## The boundary length -/

def boundaryTopics : List (MqttTopic ℕ) :=
  [⟨CString.lit "cmd", true, false, [0]⟩]

/-- The longest message that is accepted, in one fragment. -/
def boundaryRun : List MqttEvent :=
  [.publish (CString.lit "cmd") 1023, .data (List.replicate 1023 97) 1]

/-- It is accepted and complete, and its hook is called with no byte of it. -/
theorem boundary_message_dropped :
    (machine withoutJson).Admits (MqttSession.init boundaryTopics)
        (boundaryRun ++ drain) ∧
      (((machine withoutJson).run (MqttSession.init boundaryTopics)
        boundaryRun).arrival 0).slot = some (0, 0) ∧
      (((machine withoutJson).run (MqttSession.init boundaryTopics)
        boundaryRun).arrival 0).complete = true ∧
      (((machine withoutJson).run (MqttSession.init boundaryTopics)
        (boundaryRun ++ drain)).callsOf 0).map (·.size) = [0] := by
  decide +kernel

def fragmentedRun : List MqttEvent :=
  [.publish (CString.lit "cmd") 3, .data [97] 0, .data [98, 99] 1]

theorem reassembly_exact_iff_fragmentedRun :
    (machine withoutJson).Admits (MqttSession.init boundaryTopics)
        fragmentedRun ∧
      ∀ ys, (machine withoutJson).Admits
          ((machine withoutJson).run (MqttSession.init boundaryTopics)
            fragmentedRun) ys →
        (((machine withoutJson).run (MqttSession.init boundaryTopics)
            (fragmentedRun ++ ys)).CalledExactly 0
              ⟨CString.lit "cmd", true, false, [0]⟩ ∨
          ((machine withoutJson).run (MqttSession.init boundaryTopics)
            (fragmentedRun ++ ys)).Waiting 0) ∧
        ((machine withoutJson).run (MqttSession.init boundaryTopics)
          (fragmentedRun ++ ys ++ drain)).CalledExactly 0
            ⟨CString.lit "cmd", true, false, [0]⟩ :=
  ⟨by decide,
    (reassembly_exact_iff boundaryTopics withoutJson fragmentedRun (by decide)
      0 0 0 _ (by decide) rfl (by decide)).mpr (Or.inl (by decide))⟩

end Herak.Mqtt.MqttSession
