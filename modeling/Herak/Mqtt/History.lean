import Herak.Mqtt.Session

/-!
# The session invariant

What every session keeps, whatever is published and however often the
connection is lost: which buffers are open, which publish each of them belongs
to, what a buffer holds of it, and what the hooks have been called with.  A
buffer whose message was cut short is not described any further; it may take
bytes of a later publish.
-/

namespace Herak.Mqtt

open CString Memory

/-! ## One buffer -/

/-- A buffer that `calloc` or the three functions of the receive half left. -/
structure BuffInv (b : MqttListenBuff) : Prop where
  msg_length : b.msg.length = mqttOutputRingbufSize
  size_lt : b.size < mqttOutputRingbufSize - 1
  ready_open : b.ready = true → b.inProgress = true

/-- The buffer holds exactly `payload`. -/
def Holds (b : MqttListenBuff) (payload : List UInt8) : Prop :=
  b.size = payload.length ∧ b.msg.take b.size = payload

theorem buffInv_empty : BuffInv emptyBuff where
  msg_length := List.length_replicate
  size_lt := by decide
  ready_open := by simp [emptyBuff]

namespace MqttListenBuff

variable {b : MqttListenBuff}

@[simp] theorem append_inProgress (data : List UInt8) :
    (b.append data).inProgress = b.inProgress := by
  unfold append
  split <;> rfl

@[simp] theorem append_ready (data : List UInt8) :
    (b.append data).ready = b.ready := by
  unfold append
  split <;> rfl

@[simp] theorem append_topic (data : List UInt8) :
    (b.append data).topic = b.topic := by
  unfold append
  split <;> rfl

theorem append_inv (h : BuffInv b) (data : List UInt8) :
    BuffInv (b.append data) := by
  by_cases hfit : b.size + data.length < mqttOutputRingbufSize - 1
  · rw [append_of_fits hfit]
    have hlen : b.size + data.length ≤ b.msg.length := by
      rw [h.msg_length]
      omega
    exact ⟨by rw [length_memcpy hlen, h.msg_length], hfit, h.ready_open⟩
  · rw [append_of_not_fits hfit]
    exact h

/-- A fragment that fits is appended to what the buffer holds. -/
theorem append_holds {payload data : List UInt8} (hb : BuffInv b)
    (h : Holds b payload)
    (hfit : payload.length + data.length < mqttOutputRingbufSize - 1) :
    Holds (b.append data) (payload ++ data) := by
  obtain ⟨hsize, htake⟩ := h
  have hroom : b.size ≤ b.msg.length := by
    have := hb.size_lt
    rw [hb.msg_length]
    omega
  rw [append_of_fits (by rwa [hsize])]
  constructor
  · simp [hsize]
  · simp only
    rw [take_memcpy hroom, htake]

theorem finish_inv (h : BuffInv b) (hopen : b.inProgress = true) :
    BuffInv b.finish where
  msg_length := by simpa [finish] using h.msg_length
  size_lt := h.size_lt
  ready_open := fun _ => hopen

/-- Terminating the message leaves its bytes alone. -/
theorem finish_holds {payload : List UInt8} (h : Holds b payload) :
    Holds b.finish payload := by
  refine ⟨h.1, ?_⟩
  calc
    (b.msg.set b.size 0).take b.size = b.msg.take b.size := by
      rw [List.take_set_of_le (Nat.le_refl _)]
    _ = payload := h.2

end MqttListenBuff

namespace MqttSession

open MqttListenBuff

theorem opened_inv {b : MqttListenBuff} (h : BuffInv b) (n j : ℕ) :
    BuffInv (opened b n j) where
  msg_length := h.msg_length
  size_lt := by simp [opened, mqttOutputRingbufSize]
  ready_open := by simp [opened]

theorem opened_holds (b : MqttListenBuff) (n j : ℕ) :
    Holds (opened b n j) [] := ⟨rfl, rfl⟩

theorem freed_inv {b : MqttListenBuff} (h : BuffInv b) : BuffInv (freed b) where
  msg_length := h.msg_length
  size_lt := by simp [freed, mqttOutputRingbufSize]
  ready_open := by simp [freed]

@[simp] theorem filled_inProgress
    (b : MqttListenBuff) (bytes : List UInt8) (flags : UInt8) :
    (filled b bytes flags).inProgress = b.inProgress := by
  unfold filled
  split <;> simp [finish]

@[simp] theorem filled_topic
    (b : MqttListenBuff) (bytes : List UInt8) (flags : UInt8) :
    (filled b bytes flags).topic = b.topic := by
  unfold filled
  split <;> simp [finish]

theorem filled_ready
    (b : MqttListenBuff) (bytes : List UInt8) {flags : UInt8}
    (hlast : flags &&& mqttDataFlagLast ≠ 0) :
    (filled b bytes flags).ready = true := by
  simp [filled, hlast, finish]

theorem filled_not_ready
    {b : MqttListenBuff} (hb : b.ready = false)
    (bytes : List UInt8) {flags : UInt8}
    (hlast : ¬flags &&& mqttDataFlagLast ≠ 0) :
    (filled b bytes flags).ready = false := by
  rw [filled, if_neg hlast, append_ready, hb]

theorem filled_inv {b : MqttListenBuff} (h : BuffInv b)
    (hopen : b.inProgress = true) (bytes : List UInt8) (flags : UInt8) :
    BuffInv (filled b bytes flags) := by
  unfold filled
  split
  · exact finish_inv (append_inv h bytes) (by simpa using hopen)
  · exact append_inv h bytes

theorem filled_holds {b : MqttListenBuff} {payload bytes : List UInt8}
    (hb : BuffInv b) (h : Holds b payload)
    (hfit : payload.length + bytes.length < mqttOutputRingbufSize - 1)
    (flags : UInt8) :
    Holds (filled b bytes flags) (payload ++ bytes) := by
  unfold filled
  split
  · exact finish_holds (append_holds hb h hfit)
  · exact append_holds hb h hfit

/-- A step that rewrites one buffer has only that one to answer for. -/
theorem buffInv_of_one {bs bs' : BuffIdx → MqttListenBuff} {i : BuffIdx}
    (h : ∀ k, BuffInv (bs k)) (hself : BuffInv (bs' i))
    (hother : ∀ {k}, k ≠ i → bs' k = bs k) (k : BuffIdx) : BuffInv (bs' k) := by
  by_cases hk : k = i
  · exact hk ▸ hself
  · rw [hother hk]
    exact h k

/-! ## The whole session -/

variable {Hook Json : Type*}

/-- What is known of the calls that handed a publish over: every hook of its
topic once, with what the buffer held. -/
structure CallsSpec (t : MqttTopic Hook) (a : Arrival)
    (calls : List (HookCall Hook Json)) : Prop where
  hooks : calls.map (·.hook) = t.hooks
  topic : ∀ c ∈ calls, c.topic = t.topic
  size_lt : ∀ c ∈ calls, c.size < mqttOutputRingbufSize - 1
  exact : a.complete = true → a.totLen < mqttOutputRingbufSize - 1 →
    ∀ c ∈ calls, c.size = a.totLen ∧ c.msg.take c.size = a.payload

structure SessionInv (s : MqttSession Hook Json) : Prop where
  buff : ∀ i, BuffInv (s.listen.buffers i)
  current_open : ∀ i, s.listen.current = some i →
    (s.listen.buffers i).inProgress = true ∧
      (s.listen.buffers i).ready = false
  slot_topic : ∀ id i j, (s.arrival id).slot = some (i, j) →
    (s.arrival id).totLen < mqttOutputRingbufSize ∧
      ∃ t, s.listen.topics[j]? = some t ∧ t.topic = (s.arrival id).topic
  owned : ∀ i, (s.listen.buffers i).inProgress = true →
    s.owner i < s.published ∧
      ∃ j, (s.arrival (s.owner i)).slot = some (i, j) ∧
        (s.listen.buffers i).topic = some j
  wire_open : ∀ id left, s.wire = .message id left →
    id < s.published ∧ (s.arrival id).complete = false ∧
      (s.arrival id).payload.length + left = (s.arrival id).totLen
  wire_slot : ∀ id left i j, s.wire = .message id left →
    (s.arrival id).slot = some (i, j) →
      s.listen.current = some i ∧ s.owner i = id ∧
        ((s.arrival id).totLen < mqttOutputRingbufSize - 1 →
          Holds (s.listen.buffers i) (s.arrival id).payload)
  complete_lt : ∀ id, (s.arrival id).complete = true →
    id < s.published ∧
      (s.arrival id).payload.length = (s.arrival id).totLen
  complete_slot : ∀ id i j, (s.arrival id).complete = true →
    (s.arrival id).slot = some (i, j) → id ∉ s.handed →
      (s.listen.buffers i).ready = true ∧ s.owner i = id ∧
        ((s.arrival id).totLen < mqttOutputRingbufSize - 1 →
          Holds (s.listen.buffers i) (s.arrival id).payload)
  handed_lt : ∀ id ∈ s.handed, id < s.published
  handed_gone : ∀ i, (s.listen.buffers i).inProgress = true →
    s.owner i ∉ s.handed
  handed_calls : ∀ id ∈ s.handed, ∃ i j t,
    (s.arrival id).slot = some (i, j) ∧ s.listen.topics[j]? = some t ∧
      CallsSpec t (s.arrival id) (s.callsOf id)
  unhanded_calls : ∀ id, id ∉ s.handed → s.callsOf id = []

theorem sessionInv_init (topics : List (MqttTopic Hook)) :
    SessionInv (MqttSession.init topics : MqttSession Hook Json) where
  buff := fun _ => buffInv_empty
  current_open := by simp [MqttSession.init, MqttContext.init, MqttListen.init]
  slot_topic := by simp [MqttSession.init]
  owned := by
    simp [MqttSession.init, MqttContext.init, MqttListen.init, emptyBuff]
  wire_open := by simp [MqttSession.init]
  wire_slot := by simp [MqttSession.init]
  complete_lt := by simp [MqttSession.init]
  complete_slot := by simp [MqttSession.init]
  handed_lt := by simp [MqttSession.init]
  handed_gone := by simp [MqttSession.init]
  handed_calls := by simp [MqttSession.init]
  unhanded_calls := by simp [MqttSession.init, callsOf]

variable {s : MqttSession Hook Json} {lwjson : List UInt8 → Option Json}

/-- Different open buffers belong to different publishes. -/
theorem SessionInv.owner_injective (h : SessionInv s) {i k : BuffIdx}
    (hi : (s.listen.buffers i).inProgress = true)
    (hk : (s.listen.buffers k).inProgress = true)
    (heq : s.owner i = s.owner k) : i = k := by
  obtain ⟨-, j, hj, -⟩ := h.owned i hi
  obtain ⟨-, j', hj', -⟩ := h.owned k hk
  rw [heq, hj'] at hj
  exact (Prod.mk.inj (Option.some.inj hj)).1.symm

/-- The publish on the wire has not been handed over. -/
theorem SessionInv.wire_unhanded (h : SessionInv s) {id left : ℕ}
    (hw : s.wire = .message id left) : id ∉ s.handed := by
  intro hmem
  obtain ⟨i, j, t, hslot, -, -⟩ := h.handed_calls id hmem
  obtain ⟨hcur, hown, -⟩ := h.wire_slot id left i j hw hslot
  exact h.handed_gone i (h.current_open i hcur).1 (hown ▸ hmem)

theorem inv_publish_rejected (h : SessionInv s) {topic : CStr} {n : ℕ}
    (hslot : s.listen.publishSlot topic n = none) :
    SessionInv (step lwjson s (.publish topic n)) := by
  rw [step_publish_rejected hslot]
  have hold : ∀ {id}, id < s.published →
      (s.rejected topic n).arrival id = s.arrival id :=
    fun hid => rejected_arrival_of_ne (Nat.ne_of_lt hid)
  refine
    { buff := h.buff
      current_open := h.current_open
      slot_topic := ?_
      owned := ?_
      wire_open := ?_
      wire_slot := ?_
      complete_lt := ?_
      complete_slot := ?_
      handed_lt := fun id hid => Nat.lt_succ_of_lt (h.handed_lt id hid)
      handed_gone := h.handed_gone
      handed_calls := ?_
      unhanded_calls := h.unhanded_calls }
  · intro id i j hij
    by_cases hid : id = s.published
    · subst hid
      simp at hij
    · rw [rejected_arrival_of_ne hid] at hij ⊢
      exact h.slot_topic id i j hij
  · intro i hi
    obtain ⟨hlt, j, hj, ht⟩ := h.owned i hi
    exact ⟨Nat.lt_succ_of_lt hlt, j, (congrArg _ (hold hlt)).trans hj, ht⟩
  · intro id left hw
    obtain ⟨rfl, rfl⟩ := Wire.message.inj hw
    simp [rejected]
  · intro id left i j hw hij
    obtain ⟨rfl, rfl⟩ := Wire.message.inj hw
    simp at hij
  · intro id hc
    by_cases hid : id = s.published
    · subst hid
      simp at hc
    · rw [rejected_arrival_of_ne hid] at hc ⊢
      obtain ⟨hlt, hlen⟩ := h.complete_lt id hc
      exact ⟨Nat.lt_succ_of_lt hlt, hlen⟩
  · intro id i j hc hij hnot
    by_cases hid : id = s.published
    · subst hid
      simp at hc
    · rw [rejected_arrival_of_ne hid] at hc hij ⊢
      exact h.complete_slot id i j hc hij hnot
  · intro id hid
    rw [hold (h.handed_lt id hid)]
    exact h.handed_calls id hid

theorem inv_publish_accepted (h : SessionInv s) {topic : CStr} {n j : ℕ}
    {i : BuffIdx} (hslot : s.listen.publishSlot topic n = some (i, j)) :
    SessionInv (step lwjson s (.publish topic n)) := by
  obtain ⟨hfree, hn, htopic⟩ := publishSlot_spec hslot
  have hclosed := freeBuff_free hfree
  rw [step_publish_accepted hslot]
  have hold : ∀ {id}, id < s.published →
      (s.accepted topic n i j).arrival id = s.arrival id :=
    fun hid => accepted_arrival_of_ne (Nat.ne_of_lt hid)
  -- every other buffer is untouched, and no open buffer is this one
  have hne : ∀ {k}, (s.listen.buffers k).inProgress = true → k ≠ i := by
    rintro k hk rfl
    simp [hclosed] at hk
  refine
    { buff := ?_
      current_open := ?_
      slot_topic := ?_
      owned := ?_
      wire_open := ?_
      wire_slot := ?_
      complete_lt := ?_
      complete_slot := ?_
      handed_lt := fun id hid => Nat.lt_succ_of_lt (h.handed_lt id hid)
      handed_gone := ?_
      handed_calls := ?_
      unhanded_calls := h.unhanded_calls }
  · apply buffInv_of_one h.buff _ accepted_buffers_of_ne
    rw [accepted_buffers_self]
    exact opened_inv (h.buff i) n j
  · intro k hk
    obtain rfl : i = k := Option.some.inj hk
    rw [accepted_buffers_self]
    exact ⟨rfl, rfl⟩
  · intro id k j' hij
    by_cases hid : id = s.published
    · subst hid
      rw [accepted_arrival_self] at hij ⊢
      obtain ⟨rfl, rfl⟩ := Prod.mk.inj (Option.some.inj hij)
      exact ⟨hn, findTopic_spec htopic⟩
    · rw [accepted_arrival_of_ne hid] at hij ⊢
      exact h.slot_topic id k j' hij
  · intro k hk
    by_cases hki : k = i
    · subst hki
      rw [accepted_owner_self, accepted_buffers_self, accepted_arrival_self]
      exact ⟨Nat.lt_succ_self _, j, rfl, rfl⟩
    · rw [accepted_buffers_of_ne hki] at hk ⊢
      obtain ⟨hlt, j', hj', ht⟩ := h.owned k hk
      rw [accepted_owner_of_ne hki, hold hlt]
      exact ⟨Nat.lt_succ_of_lt hlt, j', hj', ht⟩
  · intro id left hw
    obtain ⟨rfl, rfl⟩ := Wire.message.inj hw
    simp [accepted]
  · intro id left k j' hw hij
    obtain ⟨rfl, rfl⟩ := Wire.message.inj hw
    rw [accepted_arrival_self] at hij ⊢
    obtain ⟨rfl, rfl⟩ := Prod.mk.inj (Option.some.inj hij)
    refine ⟨rfl, accepted_owner_self, fun _ => ?_⟩
    rw [accepted_buffers_self]
    exact opened_holds (s.listen.buffers i) n j
  · intro id hc
    by_cases hid : id = s.published
    · subst hid
      simp at hc
    · rw [accepted_arrival_of_ne hid] at hc ⊢
      obtain ⟨hlt, hlen⟩ := h.complete_lt id hc
      exact ⟨Nat.lt_succ_of_lt hlt, hlen⟩
  · intro id k j' hc hij hnot
    by_cases hid : id = s.published
    · subst hid
      simp at hc
    · rw [accepted_arrival_of_ne hid] at hc hij ⊢
      obtain ⟨hready, hown, hholds⟩ := h.complete_slot id k j' hc hij hnot
      have hki : k ≠ i := hne ((h.buff k).ready_open hready)
      rw [accepted_buffers_of_ne hki, accepted_owner_of_ne hki]
      exact ⟨hready, hown, hholds⟩
  · intro k hk
    by_cases hki : k = i
    · subst hki
      rw [accepted_owner_self]
      exact fun hmem => Nat.lt_irrefl _ (h.handed_lt _ hmem)
    · rw [accepted_buffers_of_ne hki] at hk
      rw [accepted_owner_of_ne hki]
      exact h.handed_gone k hk
  · intro id hid
    rw [hold (h.handed_lt id hid)]
    exact h.handed_calls id hid

/-- A fragment that is not the last leaves its publish on the wire. -/
theorem received_wire {id left id' left' : ℕ} {bytes : List UInt8}
    (hw : (s.received id left bytes).wire = .message id' left') :
    bytes.length ≠ left ∧ id' = id ∧ left' = left - bytes.length := by
  by_cases hlast : bytes.length = left
  · simp [received, hlast] at hw
  · simp only [received, if_neg hlast] at hw
    obtain ⟨rfl, rfl⟩ := Wire.message.inj hw
    exact ⟨hlast, rfl, rfl⟩

theorem received_slot_topic (h : SessionInv s) {id left : ℕ}
    {bytes : List UInt8} :
    ∀ k i j, ((s.received id left bytes).arrival k).slot = some (i, j) →
      ((s.received id left bytes).arrival k).totLen < mqttOutputRingbufSize ∧
        ∃ t, s.listen.topics[j]? = some t ∧
          t.topic = ((s.received id left bytes).arrival k).topic := by
  intro k i j hij
  rw [received_totLen, received_topic]
  rw [received_slot] at hij
  exact h.slot_topic k i j hij

theorem received_owned (h : SessionInv s) {id left : ℕ}
    {bytes : List UInt8} :
    ∀ i, (s.listen.buffers i).inProgress = true →
      s.owner i < s.published ∧
        ∃ j, ((s.received id left bytes).arrival (s.owner i)).slot =
            some (i, j) ∧
          (s.listen.buffers i).topic = some j := by
  intro i hi
  rw [received_slot]
  exact h.owned i hi

theorem received_wire_open (h : SessionInv s) {id left : ℕ}
    {bytes : List UInt8} (hw : s.wire = .message id left)
    (hle : bytes.length ≤ left) :
    ∀ id' left', (s.received id left bytes).wire = .message id' left' →
      id' < s.published ∧
        ((s.received id left bytes).arrival id').complete = false ∧
        ((s.received id left bytes).arrival id').payload.length + left' =
          ((s.received id left bytes).arrival id').totLen := by
  intro id' left' hw'
  obtain ⟨hlast, rfl, rfl⟩ := received_wire hw'
  obtain ⟨hlt, -, hlen⟩ := h.wire_open id' left hw
  refine ⟨hlt, by simpa using hlast, ?_⟩
  simp only [received_payload, received_totLen, List.length_append]
  omega

theorem received_complete_lt (h : SessionInv s) {id left : ℕ}
    {bytes : List UInt8} (hw : s.wire = .message id left) :
    ∀ k, ((s.received id left bytes).arrival k).complete = true →
      k < s.published ∧
        ((s.received id left bytes).arrival k).payload.length =
          ((s.received id left bytes).arrival k).totLen := by
  intro k hc
  by_cases hk : k = id
  · subst hk
    obtain ⟨hlt, -, hlen⟩ := h.wire_open k left hw
    simp only [received_complete, decide_eq_true_eq] at hc
    refine ⟨hlt, ?_⟩
    simp only [received_payload, received_totLen, List.length_append]
    omega
  · rw [received_of_ne hk] at hc ⊢
    exact h.complete_lt k hc

theorem received_handed_calls (h : SessionInv s) {id left : ℕ}
    {bytes : List UInt8} (hw : s.wire = .message id left) :
    ∀ k ∈ s.handed, ∃ i j t,
      ((s.received id left bytes).arrival k).slot = some (i, j) ∧
        s.listen.topics[j]? = some t ∧
        CallsSpec t ((s.received id left bytes).arrival k) (s.callsOf k) := by
  intro k hk
  have hne : k ≠ id := by
    rintro rfl
    exact h.wire_unhanded hw hk
  simpa only [received_of_ne hne] using h.handed_calls k hk

/-- A fragment of a publish that no buffer takes. -/
theorem inv_data_ignored (h : SessionInv s) {id left : ℕ}
    {bytes : List UInt8} {flags : UInt8}
    (hw : s.wire = .message id left) (hle : bytes.length ≤ left)
    (hcur : s.listen.current = none) :
    SessionInv (step lwjson s (.data bytes flags)) := by
  rw [step_data_ignored hw hcur]
  -- without a current buffer the publish on the wire was rejected
  have hrej : ∀ i j, (s.arrival id).slot ≠ some (i, j) := by
    intro i j hslot
    have := (h.wire_slot id left i j hw hslot).1
    rw [hcur] at this
    simp at this
  exact
    { buff := h.buff
      current_open := h.current_open
      slot_topic := received_slot_topic h
      owned := received_owned h
      wire_open := received_wire_open h hw hle
      wire_slot := fun k left' i j hw' hij => by
        obtain ⟨-, rfl, -⟩ := received_wire hw'
        exact absurd (by simpa using hij) (hrej i j)
      complete_lt := received_complete_lt h hw
      complete_slot := fun k i j hc hij hnot => by
        have hne : k ≠ id := by
          rintro rfl
          exact hrej i j (by simpa using hij)
        rw [received_of_ne hne] at hc hij ⊢
        exact h.complete_slot k i j hc hij hnot
      handed_lt := h.handed_lt
      handed_gone := h.handed_gone
      handed_calls := received_handed_calls h hw
      unhanded_calls := h.unhanded_calls }

/-- A fragment that goes to the current buffer. -/
theorem inv_data_stored (h : SessionInv s) {id left : ℕ}
    {bytes : List UInt8} {flags : UInt8} {i : BuffIdx}
    (hw : s.wire = .message id left) (hle : bytes.length ≤ left)
    (hflags : flags &&& mqttDataFlagLast ≠ 0 ↔ bytes.length = left)
    (hcur : s.listen.current = some i) :
    SessionInv (step lwjson s (.data bytes flags)) := by
  obtain ⟨hopen, hready⟩ := h.current_open i hcur
  rw [step_data_stored hw hcur hopen]
  -- a publish with a buffer of its own is the one that owns this buffer
  have hown : ∀ k j, (s.arrival id).slot = some (k, j) →
      k = i ∧ s.owner i = id ∧
        ((s.arrival id).totLen < mqttOutputRingbufSize - 1 →
          Holds (filled (s.listen.buffers i) bytes flags)
            ((s.arrival id).payload ++ bytes)) := by
    intro k j hslot
    obtain ⟨hcur', hk, hholds⟩ := h.wire_slot id left k j hw hslot
    obtain rfl : i = k := Option.some.inj (hcur.symm.trans hcur')
    refine ⟨rfl, hk, fun hshort => ?_⟩
    apply filled_holds (h.buff i) (hholds hshort)
    have := (h.wire_open id left hw).2.2
    omega
  refine
    { buff := ?_
      current_open := ?_
      slot_topic := received_slot_topic h
      owned := ?_
      wire_open := received_wire_open h hw hle
      wire_slot := ?_
      complete_lt := received_complete_lt h hw
      complete_slot := ?_
      handed_lt := h.handed_lt
      handed_gone := ?_
      handed_calls := received_handed_calls h hw
      unhanded_calls := h.unhanded_calls }
  · apply buffInv_of_one h.buff _ stored_buffers_of_ne
    rw [stored_buffers_self]
    exact filled_inv (h.buff i) hopen bytes flags
  · intro k hk
    by_cases hlast : flags &&& mqttDataFlagLast ≠ 0
    · simp [stored, hlast] at hk
    · obtain rfl : i = k := by simpa [stored, hlast] using hk
      rw [stored_buffers_self]
      exact ⟨by rw [filled_inProgress, hopen],
        filled_not_ready hready bytes hlast⟩
  · intro k hk
    by_cases hki : k = i
    · subst hki
      rw [stored_buffers_self, filled_topic]
      exact received_owned h k hopen
    · rw [stored_buffers_of_ne hki] at hk ⊢
      exact received_owned h k hk
  · intro k left' i' j hw' hij
    obtain ⟨hlast, rfl, -⟩ := received_wire (s := s) hw'
    rw [stored_arrival] at hij ⊢
    rw [received_slot] at hij
    obtain ⟨rfl, hk, hholds⟩ := hown i' j hij
    refine ⟨if_neg (fun hf => hlast (hflags.mp hf)), hk, fun hshort => ?_⟩
    rw [received_totLen] at hshort
    rw [stored_buffers_self, received_payload]
    exact hholds hshort
  · intro k i' j hc hij hnot
    rw [stored_arrival] at hc hij ⊢
    by_cases hk : k = id
    · subst hk
      rw [received_slot] at hij
      obtain ⟨rfl, hk, hholds⟩ := hown i' j hij
      have hlast : bytes.length = left := by
        simpa using hc
      rw [stored_buffers_self, received_payload, received_totLen]
      exact ⟨filled_ready _ bytes (hflags.mpr hlast), hk, hholds⟩
    · rw [received_of_ne hk] at hc hij ⊢
      obtain ⟨hr, ho, hholds⟩ := h.complete_slot k i' j hc hij hnot
      have hne : i' ≠ i := by
        rintro rfl
        simp [hready] at hr
      rw [stored_buffers_of_ne hne]
      exact ⟨hr, ho, hholds⟩
  · intro k hk
    by_cases hki : k = i
    · subst hki
      exact h.handed_gone k hopen
    · rw [stored_buffers_of_ne hki] at hk
      exact h.handed_gone k hk

/-- What a hand-over calls. -/
theorem hookCalls_spec (h : SessionInv s) {i : BuffIdx}
    (hready : (s.listen.buffers i).ready = true) :
    ∃ j t, (s.arrival (s.owner i)).slot = some (i, j) ∧
      s.listen.topics[j]? = some t ∧
      (s.listen.hookCalls lwjson i).map (·.hook) = t.hooks ∧
      ∀ c ∈ s.listen.hookCalls lwjson i, c.topic = t.topic ∧
        c.msg = (s.listen.buffers i).msg ∧
        c.size = (s.listen.buffers i).size := by
  obtain ⟨-, j, hslot, htopic⟩ := h.owned i ((h.buff i).ready_open hready)
  obtain ⟨-, t, ht, -⟩ := h.slot_topic _ i j hslot
  refine ⟨j, t, hslot, ht, ?_, ?_⟩
  · simp [MqttListen.hookCalls, htopic, ht, Function.comp_def]
  · intro c hc
    simp only [MqttListen.hookCalls, htopic, Option.bind_some, ht,
      List.mem_map] at hc
    obtain ⟨hook, -, rfl⟩ := hc
    exact ⟨rfl, rfl, rfl⟩

/-- A hand-over calls as the publish that owns the buffer asks for. -/
theorem hookCalls_callsSpec (lwjson : List UInt8 → Option Json)
    (h : SessionInv s) {i : BuffIdx}
    (hready : (s.listen.buffers i).ready = true) :
    ∃ j t, (s.arrival (s.owner i)).slot = some (i, j) ∧
      s.listen.topics[j]? = some t ∧
      CallsSpec t (s.arrival (s.owner i)) (s.listen.hookCalls lwjson i) := by
  have hopen := (h.buff i).ready_open hready
  obtain ⟨j, t, hslot, ht, hhooks, hcalls⟩ := hookCalls_spec h hready
  refine ⟨j, t, hslot, ht, hhooks, fun c hc => (hcalls c hc).1,
    fun c hc => ?_, ?_⟩
  · rw [(hcalls c hc).2.2]
    exact (h.buff i).size_lt
  · intro hcomplete hshort c hc
    obtain ⟨-, hlen⟩ := h.complete_lt _ hcomplete
    obtain ⟨-, -, hholds⟩ :=
      h.complete_slot _ i j hcomplete hslot (h.handed_gone i hopen)
    obtain ⟨hsize, htake⟩ := hholds hshort
    obtain ⟨-, hmsg, hcsize⟩ := hcalls c hc
    rw [hmsg, hcsize]
    exact ⟨hsize.trans hlen, htake⟩

theorem inv_ready_handed (h : SessionInv s) {i : BuffIdx}
    (hfirst : s.listen.readyBuff = some i) :
    SessionInv (step lwjson s .ready) := by
  have hready := readyBuff_ready hfirst
  have hopen := (h.buff i).ready_open hready
  rw [step_ready_handed hfirst]
  have hcur : ∀ {k}, s.listen.current = some k → k ≠ i := by
    rintro k hk rfl
    have := (h.current_open k hk).2
    simp [hready] at this
  have hother : ∀ {k},
      ((handedOver lwjson s i).listen.buffers k).inProgress = true →
      k ≠ i ∧ (s.listen.buffers k).inProgress = true := by
    intro k hk
    by_cases hki : k = i
    · subst hki
      simp [freed] at hk
    · rw [handedOver_buffers_of_ne hki] at hk
      exact ⟨hki, hk⟩
  refine
    { buff := ?_
      current_open := ?_
      slot_topic := h.slot_topic
      owned := ?_
      wire_open := h.wire_open
      wire_slot := ?_
      complete_lt := h.complete_lt
      complete_slot := ?_
      handed_lt := ?_
      handed_gone := ?_
      handed_calls := ?_
      unhanded_calls := ?_ }
  · apply buffInv_of_one h.buff _ handedOver_buffers_of_ne
    rw [handedOver_buffers_self]
    exact freed_inv (h.buff i)
  · intro k hk
    rw [handedOver_buffers_of_ne (hcur hk)]
    exact h.current_open k hk
  · intro k hk
    obtain ⟨hki, hk⟩ := hother hk
    rw [handedOver_buffers_of_ne hki]
    exact h.owned k hk
  · intro id left k j' hw hij
    obtain ⟨hc, ho, hholds⟩ := h.wire_slot id left k j' hw hij
    rw [handedOver_buffers_of_ne (hcur hc)]
    exact ⟨hc, ho, hholds⟩
  · intro id k j' hc hij hnot
    simp only [handedOver_handed, List.mem_append, List.mem_singleton,
      not_or] at hnot
    obtain ⟨hr, ho, hholds⟩ := h.complete_slot id k j' hc hij hnot.1
    have hki : k ≠ i := by
      rintro rfl
      exact hnot.2 ho.symm
    rw [handedOver_buffers_of_ne hki]
    exact ⟨hr, ho, hholds⟩
  · intro id hid
    rcases List.mem_append.mp hid with hid | hid
    · exact h.handed_lt id hid
    · obtain rfl := List.mem_singleton.mp hid
      exact (h.owned i hopen).1
  · intro k hk
    obtain ⟨hki, hk⟩ := hother hk
    simp only [handedOver_handed, List.mem_append, List.mem_singleton, not_or]
    exact ⟨h.handed_gone k hk,
      fun heq => hki (h.owner_injective hk hopen heq)⟩
  · intro id hid
    rw [handedOver_callsOf]
    by_cases heq : s.owner i = id
    · subst heq
      obtain ⟨j, t, hslot, ht, hcalls⟩ := hookCalls_callsSpec lwjson h hready
      refine ⟨i, j, t, hslot, ht, ?_⟩
      rw [h.unhanded_calls _ (h.handed_gone i hopen), if_pos rfl,
        List.nil_append]
      exact hcalls
    · rw [if_neg heq, List.append_nil]
      simp only [handedOver_handed, List.mem_append, List.mem_singleton,
        Ne.symm heq, or_false] at hid
      exact h.handed_calls id hid
  · intro id hid
    simp only [handedOver_handed, List.mem_append, List.mem_singleton,
      not_or] at hid
    rw [handedOver_callsOf, h.unhanded_calls id hid.1, if_neg (Ne.symm hid.2),
      List.append_nil]

/-- The invariant speaks of the receive half and the history only, and an idle
wire has no obligations. -/
theorem SessionInv.of_connection (h : SessionInv s) {ctx : MqttContext Hook}
    (hctx : ctx.listen = s.listen) {wire : Wire}
    (hwire : ∀ id left, wire = .message id left → s.wire = .message id left) :
    SessionInv { s with ctx := ctx, wire := wire } := by
  have hlisten : ({ s with ctx := ctx, wire := wire } :
      MqttSession Hook Json).listen = s.listen := hctx
  refine
    { buff := ?_
      current_open := ?_
      slot_topic := ?_
      owned := ?_
      wire_open := fun id left hw => h.wire_open id left (hwire id left hw)
      wire_slot := ?_
      complete_lt := h.complete_lt
      complete_slot := ?_
      handed_lt := h.handed_lt
      handed_gone := ?_
      handed_calls := ?_
      unhanded_calls := h.unhanded_calls }
  all_goals rw [hlisten]
  · exact h.buff
  · exact h.current_open
  · exact h.slot_topic
  · exact h.owned
  · exact fun id left i j hw hij =>
      h.wire_slot id left i j (hwire id left hw) hij
  · exact h.complete_slot
  · exact h.handed_gone
  · exact h.handed_calls

theorem inv_connection (h : SessionInv s) {e : MqttEvent}
    (he : e.isConnection = true) : SessionInv (step lwjson s e) := by
  obtain ⟨ctx, hctx, hstep⟩ := step_connection (s := s) he
  rw [hstep]
  refine h.of_connection hctx fun id left hw => ?_
  by_cases hl : s.losesConnection e = true
  · simp [hl] at hw
  · simpa [hl] using hw

theorem sessionInv_step (h : SessionInv s) {e : MqttEvent}
    (he : s.Enabled e) : SessionInv (step lwjson s e) := by
  cases e with
  | publish topic n =>
      cases hslot : s.listen.publishSlot topic n with
      | none => exact inv_publish_rejected h hslot
      | some ij => exact inv_publish_accepted h (i := ij.1) (j := ij.2) hslot
  | data bytes flags =>
      obtain ⟨id, left, hw, hle, hflags⟩ := he
      cases hcur : s.listen.current with
      | none => exact inv_data_ignored h hw hle hcur
      | some i => exact inv_data_stored h hw hle hflags hcur
  | ready =>
      cases hfirst : s.listen.readyBuff with
      | none =>
          rw [step_ready_idle hfirst]
          exact h
      | some i => exact inv_ready_handed h hfirst
  | hook status => exact inv_connection h rfl
  | reconnect => exact inv_connection h rfl

/-- Every session keeps the invariant. -/
theorem sessionInv_run (topics : List (MqttTopic Hook))
    {es : List MqttEvent}
    (hes : (machine lwjson).Admits
      (MqttSession.init topics) es) :
    SessionInv ((machine lwjson).run (MqttSession.init topics) es) := by
  have hstep : ∀ (s : MqttSession Hook Json) e, SessionInv s →
      (machine lwjson).enabled s e → SessionInv ((machine lwjson).step s e) :=
    fun _ _ hs he => sessionInv_step hs he
  exact hes.invariant hstep (sessionInv_init topics)

end MqttSession

end Herak.Mqtt
