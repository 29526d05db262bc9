import Mathlib.Data.List.Range
import Mathlib.Order.Basic
import Herak.Mqtt.History

/-!
# The order of delivery

Nothing in the receive half orders the complete messages; the main loop takes
the lowest-numbered ready buffer of the pool.  While every message arrives whole, the
hooks see the messages in the order of their publishes exactly in the runs in
which no ready buffer is passed over for one with a later message.  Only the
loss of a connection can cut an accepted message short.
-/

namespace Herak.Mqtt.MqttSession

variable {Hook Json : Type*} {s : MqttSession Hook Json}
  {lwjson : List UInt8 → Option Json}

/-- The publishes that were accepted, in the order of their arrival. -/
def acceptedIds (s : MqttSession Hook Json) : List ℕ :=
  (List.range s.published).filter fun id => (s.arrival id).slot.isSome

/-- No lost connection cuts an accepted message short. -/
def Whole (s : MqttSession Hook Json) (e : MqttEvent) : Prop :=
  s.losesConnection e = true → s.listen.current = none

instance (s : MqttSession Hook Json) (e : MqttEvent) : Decidable (s.Whole e) :=
  inferInstanceAs
    (Decidable (s.losesConnection e = true → s.listen.current = none))

/-- The step hands a message over while an earlier one is complete in another
buffer. -/
def Overtakes (s : MqttSession Hook Json) : MqttEvent → Prop
  | .ready => ∃ i k, s.listen.LowestReady i ∧
      (s.listen.buffers k).ready = true ∧ s.owner k < s.owner i
  | _ => False

/-- `mqttIncomingReady` takes the lowest-numbered ready buffer: it calls the
hooks with its message and frees it, and does nothing if no buffer is ready. -/
def TakesLowest (lwjson : List UInt8 → Option Json)
    (s : MqttSession Hook Json) : Prop :=
  (∀ i, s.listen.LowestReady i → step lwjson s .ready = handedOver lwjson s i) ∧
    ((∀ i, (s.listen.buffers i).ready = false) → step lwjson s .ready = s)

theorem mem_acceptedIds {id : ℕ} :
    id ∈ s.acceptedIds ↔
      id < s.published ∧ ∃ i j, (s.arrival id).slot = some (i, j) := by
  simp [acceptedIds, Option.isSome_iff_exists]

theorem acceptedIds_sorted (s : MqttSession Hook Json) :
    s.acceptedIds.Pairwise (· < ·) :=
  List.pairwise_lt_range.filter _

/-! ## Growth of the history -/

/-- A step keeps what earlier publishes were accepted into. -/
theorem slot_step (h : SessionInv s) {e : MqttEvent} (he : s.Enabled e) :
    s.published ≤ (step lwjson s e).published ∧
      ∀ id < s.published,
        ((step lwjson s e).arrival id).slot = (s.arrival id).slot := by
  cases e with
  | publish topic n =>
      cases hslot : s.listen.publishSlot topic n with
      | none =>
          rw [step_publish_rejected hslot]
          refine ⟨Nat.le_succ _, fun id hid => ?_⟩
          rw [rejected_arrival_of_ne (Nat.ne_of_lt hid)]
      | some ij =>
          rw [step_publish_accepted (i := ij.1) (j := ij.2) hslot]
          refine ⟨Nat.le_succ _, fun id hid => ?_⟩
          rw [accepted_arrival_of_ne (Nat.ne_of_lt hid)]
  | data bytes flags =>
      obtain ⟨id, left, hw, -, -⟩ := he
      cases hcur : s.listen.current with
      | none =>
          rw [step_data_ignored hw hcur]
          exact ⟨Nat.le_refl _, fun _ _ => received_slot⟩
      | some i =>
          rw [step_data_stored hw hcur (h.current_open i hcur).1]
          exact ⟨Nat.le_refl _, fun _ _ => received_slot⟩
  | ready =>
      cases hfirst : s.listen.readyBuff with
      | none =>
          rw [step_ready_idle hfirst]
          exact ⟨Nat.le_refl _, fun _ _ => rfl⟩
      | some i =>
          rw [step_ready_handed hfirst]
          exact ⟨Nat.le_refl _, fun _ _ => rfl⟩
  | hook status => exact ⟨Nat.le_refl _, fun _ _ => rfl⟩
  | reconnect => exact ⟨Nat.le_refl _, fun _ _ => rfl⟩

theorem acceptedIds_prefix_step (h : SessionInv s) {e : MqttEvent}
    (he : s.Enabled e) :
    s.acceptedIds <+: (step lwjson s e).acceptedIds := by
  obtain ⟨hle, hslot⟩ := slot_step h he
  obtain ⟨d, hd⟩ := Nat.exists_eq_add_of_le hle
  have hsame : s.acceptedIds =
      (List.range s.published).filter fun id =>
        ((step lwjson s e).arrival id).slot.isSome := by
    refine List.filter_congr fun id hid => ?_
    rw [hslot id (List.mem_range.mp hid)]
  rw [hsame, acceptedIds, hd, List.range_add, List.filter_append]
  exact List.prefix_append _ _

/-- A step hands over at most the message of the first ready buffer. -/
theorem handed_step (h : SessionInv s) {e : MqttEvent} (he : s.Enabled e) :
    (step lwjson s e).handed = s.handed ∨
      ∃ i, e = .ready ∧ s.listen.readyBuff = some i ∧
        (step lwjson s e).handed = s.handed ++ [s.owner i] := by
  cases e with
  | publish topic n =>
      left
      cases hslot : s.listen.publishSlot topic n with
      | none => rw [step_publish_rejected hslot]; rfl
      | some ij =>
          rw [step_publish_accepted (i := ij.1) (j := ij.2) hslot]
          rfl
  | data bytes flags =>
      left
      obtain ⟨id, left, hw, -, -⟩ := he
      cases hcur : s.listen.current with
      | none => rw [step_data_ignored hw hcur]; rfl
      | some i =>
          rw [step_data_stored hw hcur (h.current_open i hcur).1]
          rfl
  | ready =>
      cases hfirst : s.listen.readyBuff with
      | none =>
          left
          rw [step_ready_idle hfirst]
      | some i =>
          right
          exact ⟨i, rfl, rfl, by rw [step_ready_handed hfirst]; rfl⟩
  | hook status => exact Or.inl rfl
  | reconnect => exact Or.inl rfl

theorem handed_prefix_step (h : SessionInv s) {e : MqttEvent}
    (he : s.Enabled e) : s.handed <+: (step lwjson s e).handed := by
  rcases handed_step h he with heq | ⟨i, -, -, heq⟩
  · rw [heq]
  · rw [heq]
    exact List.prefix_append _ _

/-- Both histories only grow along a run. -/
theorem history_prefix_run {es : List MqttEvent} (h : SessionInv s)
    (hes : (machine lwjson).Admits s es) :
    s.acceptedIds <+: ((machine lwjson).run s es).acceptedIds ∧
      s.handed <+: ((machine lwjson).run s es).handed := by
  induction es generalizing s with
  | nil => exact ⟨List.prefix_rfl, List.prefix_rfl⟩
  | cons e es ih =>
      obtain ⟨he, hes⟩ := hes
      obtain ⟨ha, hh⟩ := ih (sessionInv_step h he) hes
      exact ⟨(acceptedIds_prefix_step h he).trans ha,
        (handed_prefix_step h he).trans hh⟩

/-! ## What is not handed over yet -/

/-- While every message arrives whole, an accepted publish is handed over or
owns an open buffer, and an open buffer without a complete message is the one
the publish on the wire, the latest of all, goes to. -/
structure OrderInv (s : MqttSession Hook Json) : Prop where
  wire_last : ∀ id left, s.wire = .message id left → id + 1 = s.published
  in_flight : ∀ i, (s.listen.buffers i).inProgress = true →
    (s.listen.buffers i).ready = false →
      ∃ left, s.wire = .message (s.owner i) left
  pending : ∀ id ∈ s.acceptedIds, id ∈ s.handed ∨
    ∃ i, (s.listen.buffers i).inProgress = true ∧ s.owner i = id

theorem orderInv_init (topics : List (MqttTopic Hook)) :
    OrderInv (MqttSession.init topics : MqttSession Hook Json) where
  wire_last := by simp [MqttSession.init]
  in_flight := by
    simp [MqttSession.init, MqttContext.init, MqttListen.init, emptyBuff]
  pending := by simp [MqttSession.init, acceptedIds]

/-- With an idle wire every open buffer holds a complete message. -/
theorem OrderInv.ready_of_idle (h : OrderInv s) (hw : s.wire = .idle)
    {i : BuffIdx} (hi : (s.listen.buffers i).inProgress = true) :
    (s.listen.buffers i).ready = true := by
  by_contra hready
  obtain ⟨left, hwire⟩ := h.in_flight i hi (by simpa using hready)
  simp [hw] at hwire

/-- An open buffer without a complete message is the current one. -/
theorem OrderInv.current_of_open (h : OrderInv s) (hs : SessionInv s)
    {i : BuffIdx} (hi : (s.listen.buffers i).inProgress = true)
    (hready : (s.listen.buffers i).ready = false) :
    s.listen.current = some i := by
  obtain ⟨left, hw⟩ := h.in_flight i hi hready
  obtain ⟨-, j, hj, -⟩ := hs.owned i hi
  exact (hs.wire_slot _ left i j hw hj).1

theorem order_publish_rejected (h : OrderInv s) (hw : s.wire = .idle)
    {topic : CStr} {n : ℕ} (hslot : s.listen.publishSlot topic n = none) :
    OrderInv (step lwjson s (.publish topic n)) := by
  rw [step_publish_rejected hslot]
  refine ⟨?_, ?_, ?_⟩
  · intro id left hwire
    obtain ⟨rfl, rfl⟩ := Wire.message.inj hwire
    rfl
  · intro i hi hready
    have := h.ready_of_idle hw hi
    simp [show (s.listen.buffers i).ready = false from hready] at this
  · intro id hid
    obtain ⟨hlt, i, j, hij⟩ := mem_acceptedIds.mp hid
    have hne : id ≠ s.published := by
      rintro rfl
      simp at hij
    rw [rejected_arrival_of_ne hne] at hij
    have hold : id < s.published :=
      lt_of_le_of_ne (Nat.le_of_lt_succ hlt) hne
    exact h.pending id (mem_acceptedIds.mpr ⟨hold, i, j, hij⟩)

theorem order_publish_accepted (h : OrderInv s) (hw : s.wire = .idle)
    {topic : CStr} {n j : ℕ} {i : BuffIdx}
    (hslot : s.listen.publishSlot topic n = some (i, j)) :
    OrderInv (step lwjson s (.publish topic n)) := by
  have hclosed := freeBuff_free (publishSlot_spec hslot).1
  rw [step_publish_accepted hslot]
  refine ⟨?_, ?_, ?_⟩
  · intro id left hwire
    obtain ⟨rfl, rfl⟩ := Wire.message.inj hwire
    rfl
  · intro k hk hready
    by_cases hki : k = i
    · subst hki
      exact ⟨n, by rw [accepted_owner_self]; rfl⟩
    · rw [accepted_buffers_of_ne hki] at hk hready
      have := h.ready_of_idle hw hk
      simp [hready] at this
  · intro id hid
    obtain ⟨hlt, k, j', hij⟩ := mem_acceptedIds.mp hid
    by_cases hne : id = s.published
    · subst hne
      refine Or.inr ⟨i, ?_, accepted_owner_self⟩
      rw [accepted_buffers_self]
      rfl
    · rw [accepted_arrival_of_ne hne] at hij
      have hold : id < s.published :=
        lt_of_le_of_ne (Nat.le_of_lt_succ hlt) hne
      rcases h.pending id (mem_acceptedIds.mpr ⟨hold, k, j', hij⟩) with
        hmem | ⟨k, hk, hown⟩
      · exact Or.inl hmem
      · have hki : k ≠ i := by
          rintro rfl
          simp [hclosed] at hk
        refine Or.inr ⟨k, ?_, ?_⟩
        · rwa [accepted_buffers_of_ne hki]
        · rwa [accepted_owner_of_ne hki]

theorem received_acceptedIds (id left : ℕ) (bytes : List UInt8) :
    (s.received id left bytes).acceptedIds = s.acceptedIds := by
  simp only [acceptedIds, received_slot]
  rfl

theorem order_data (h : OrderInv s) (hs : SessionInv s)
    {bytes : List UInt8} {flags : UInt8}
    (he : s.Enabled (.data bytes flags)) :
    OrderInv (step lwjson s (.data bytes flags)) := by
  obtain ⟨id, left, hw, -, hflags⟩ := he
  have hlast : ∀ id' left', (s.received id left bytes).wire =
      .message id' left' → id' + 1 = s.published := by
    intro id' left' hw'
    obtain ⟨-, rfl, -⟩ := received_wire hw'
    exact h.wire_last id' left hw
  cases hcur : s.listen.current with
  | none =>
      rw [step_data_ignored hw hcur]
      refine ⟨hlast, ?_, ?_⟩
      · intro i hi hready
        have := h.current_of_open hs hi hready
        simp [hcur] at this
      · rw [received_acceptedIds]
        exact h.pending
  | some i =>
      obtain ⟨hopen, hready⟩ := hs.current_open i hcur
      rw [step_data_stored hw hcur hopen]
      refine ⟨hlast, ?_, ?_⟩
      · intro k hk hkready
        by_cases hki : k = i
        · subst hki
          obtain ⟨left', hwire⟩ := h.in_flight k hopen hready
          obtain ⟨rfl, rfl⟩ := Wire.message.inj (hw.symm.trans hwire)
          rw [stored_buffers_self] at hkready
          have hnot : bytes.length ≠ left := by
            intro hlen
            rw [filled_ready _ bytes (hflags.mpr hlen)] at hkready
            simp at hkready
          exact ⟨left - bytes.length, if_neg hnot⟩
        · rw [stored_buffers_of_ne hki] at hk hkready
          have := h.current_of_open hs hk hkready
          exact absurd (Option.some.inj (hcur.symm.trans this)).symm hki
      · intro id' hid'
        have hid' : id' ∈ s.acceptedIds := by
          rw [← received_acceptedIds id left bytes]
          exact hid'
        rcases h.pending id' hid' with hmem | ⟨k, hk, hown⟩
        · exact Or.inl hmem
        · refine Or.inr ⟨k, ?_, hown⟩
          by_cases hki : k = i
          · subst hki
            rwa [stored_buffers_self, filled_inProgress]
          · rwa [stored_buffers_of_ne hki]

theorem order_ready (h : OrderInv s) :
    OrderInv (step lwjson s .ready) := by
  cases hfirst : s.listen.readyBuff with
  | none =>
      rw [step_ready_idle hfirst]
      exact h
  | some i =>
      rw [step_ready_handed hfirst]
      refine ⟨h.wire_last, ?_, ?_⟩
      · intro k hk hready
        by_cases hki : k = i
        · subst hki
          simp [freed] at hk
        · rw [handedOver_buffers_of_ne hki] at hk hready
          exact h.in_flight k hk hready
      · intro id hid
        rcases h.pending id hid with hmem | ⟨k, hk, hown⟩
        · exact Or.inl (List.mem_append_left _ hmem)
        · by_cases hki : k = i
          · subst hki
            exact Or.inl (by simp [hown])
          · refine Or.inr ⟨k, ?_, hown⟩
            rwa [handedOver_buffers_of_ne hki]

theorem order_connection (h : OrderInv s) (hs : SessionInv s) {e : MqttEvent}
    (he : e.isConnection = true) (hwhole : s.Whole e) :
    OrderInv (step lwjson s e) := by
  obtain ⟨ctx, hctx, hstep⟩ := step_connection (s := s) he
  have hlisten : (step lwjson s e).listen = s.listen := by
    rw [hstep]
    exact hctx
  refine ⟨?_, ?_, ?_⟩
  · rw [hstep]
    intro id left hw
    by_cases hl : s.losesConnection e = true
    · simp [hl] at hw
    · exact h.wire_last id left (by simpa [hl] using hw)
  · rw [hlisten]
    intro i hi hready
    have hcur := h.current_of_open hs hi hready
    have hl : ¬s.losesConnection e = true := by
      intro hl
      simp [hwhole hl] at hcur
    obtain ⟨left, hw⟩ := h.in_flight i hi hready
    rw [hstep]
    exact ⟨left, (if_neg hl).trans hw⟩
  · rw [hlisten, hstep]
    exact h.pending

theorem orderInv_step (h : OrderInv s) (hs : SessionInv s) {e : MqttEvent}
    (he : s.Enabled e) (hwhole : s.Whole e) : OrderInv (step lwjson s e) := by
  cases e with
  | publish topic n =>
      cases hslot : s.listen.publishSlot topic n with
      | none => exact order_publish_rejected h he hslot
      | some ij => exact order_publish_accepted h he (i := ij.1) (j := ij.2) hslot
  | data bytes flags => exact order_data h hs he
  | ready => exact order_ready h
  | hook status => exact order_connection h hs rfl hwhole
  | reconnect => exact order_connection h hs rfl hwhole

/-! ## The order -/

theorem takesLowest (lwjson : List UInt8 → Option Json)
    (s : MqttSession Hook Json) : s.TakesLowest lwjson :=
  ⟨fun _ hlow => step_ready_handed (readyBuff_eq_some.mpr hlow),
    fun hnone => step_ready_idle (readyBuff_eq_none.mpr hnone)⟩

/-- The first ready buffer holds the oldest message that was not handed over,
unless a ready buffer with an older one is passed over. -/
theorem owner_le_of_not_overtakes (h : OrderInv s) (hs : SessionInv s)
    {i : BuffIdx} (hfirst : s.listen.readyBuff = some i)
    (hnot : ¬s.Overtakes .ready) {id : ℕ} (hid : id ∈ s.acceptedIds)
    (hunhanded : id ∉ s.handed) : s.owner i ≤ id := by
  obtain ⟨k, hk, rfl⟩ := (h.pending id hid).resolve_left hunhanded
  by_cases hready : (s.listen.buffers k).ready = true
  · by_contra hlt
    exact hnot ⟨i, k, readyBuff_eq_some.mp hfirst, hready, Nat.lt_of_not_le hlt⟩
  · obtain ⟨left, hw⟩ := h.in_flight k hk (by simpa using hready)
    have hlast := h.wire_last _ left hw
    have hopen := (hs.buff i).ready_open (readyBuff_ready hfirst)
    have := (hs.owned i hopen).1
    omega

/-- A sorted list continues a prefix of it with its least other element. -/
theorem prefix_concat_of_least {l : List ℕ} {before : List ℕ} {x : ℕ}
    (hl : l.Pairwise (· < ·)) (hp : before <+: l) (hx : x ∈ l)
    (hnew : x ∉ before) (hleast : ∀ y ∈ l, y ∉ before → x ≤ y) :
    before ++ [x] <+: l := by
  obtain ⟨rest, rfl⟩ := hp
  have hxr : x ∈ rest := (List.mem_append.mp hx).resolve_left hnew
  obtain ⟨-, hrest, hcross⟩ := List.pairwise_append.mp hl
  cases rest with
  | nil => simp at hxr
  | cons y rest =>
      have hy : y ∉ before := fun hy =>
        Nat.lt_irrefl y (hcross y hy y List.mem_cons_self)
      have hle : x ≤ y := hleast y (by simp) hy
      have hxy : x = y := by
        rcases List.mem_cons.mp hxr with rfl | hmem
        · rfl
        · have := (List.pairwise_cons.mp hrest).1 x hmem
          omega
      subst hxy
      exact ⟨rest, by simp⟩

theorem handed_prefix_step_of_not_overtakes (h : OrderInv s)
    (hs : SessionInv s) {e : MqttEvent} (he : s.Enabled e)
    (hnot : ¬s.Overtakes e) (hp : s.handed <+: s.acceptedIds) :
    (step lwjson s e).handed <+: (step lwjson s e).acceptedIds := by
  rcases handed_step hs he with
    heq | ⟨i, rfl, hfirst, heq⟩
  · rw [heq]
    exact hp.trans (acceptedIds_prefix_step hs he)
  · have hopen := (hs.buff i).ready_open (readyBuff_ready hfirst)
    obtain ⟨hlt, j, hj, -⟩ := hs.owned i hopen
    have hnext : s.handed ++ [s.owner i] <+: s.acceptedIds :=
      prefix_concat_of_least (acceptedIds_sorted s) hp
        (mem_acceptedIds.mpr ⟨hlt, i, j, hj⟩) (hs.handed_gone i hopen)
        fun id hid hunhanded =>
          owner_le_of_not_overtakes h hs hfirst hnot hid hunhanded
    rw [heq]
    exact hnext.trans (acceptedIds_prefix_step hs he)

/-- A message that overtakes another leaves a gap that no later hand-over can
close. -/
theorem not_prefix_of_overtakes (hs : SessionInv s) {e : MqttEvent}
    (hover : s.Overtakes e) {ids : List ℕ} (hids : ids.Pairwise (· < ·))
    (hacc : s.acceptedIds <+: ids) : ¬(step lwjson s e).handed <+: ids := by
  cases e with
  | ready =>
      obtain ⟨i, k, hlow, hready, hlt⟩ := hover
      have hopen := (hs.buff k).ready_open hready
      obtain ⟨hk, j, hj, -⟩ := hs.owned k hopen
      have hmem : s.owner k ∈ ids :=
        hacc.subset (mem_acceptedIds.mpr ⟨hk, k, j, hj⟩)
      have hgone := hs.handed_gone k hopen
      rw [step_ready_handed (readyBuff_eq_some.mpr hlow), handedOver_handed]
      rintro ⟨rest, rfl⟩
      rw [List.append_assoc] at hids hmem
      have htail := (List.pairwise_append.mp hids).2.1
      rcases List.mem_cons.mp ((List.mem_append.mp hmem).resolve_left hgone)
        with heq | hin
      · omega
      · have := (List.pairwise_cons.mp htail).1 _ hin
        omega
  | publish | data | hook | reconnect => exact hover.elim

theorem orderInv_run {es : List MqttEvent} (h : OrderInv s)
    (hs : SessionInv s) (hes : (machine lwjson).Admits s es)
    (hwhole : (machine lwjson).Along Whole s es) :
    OrderInv ((machine lwjson).run s es) ∧
      SessionInv ((machine lwjson).run s es) := by
  have hstep : ∀ (s : MqttSession Hook Json) e, OrderInv s ∧ SessionInv s →
      (machine lwjson).enabled s e ∧ s.Whole e →
      OrderInv ((machine lwjson).step s e) ∧
        SessionInv ((machine lwjson).step s e) :=
    fun _ _ hI he =>
      ⟨orderInv_step hI.1 hI.2 he.1 he.2, sessionInv_step hI.2 he.1⟩
  exact (EventMachine.along_and.mpr ⟨hes, hwhole⟩).invariant hstep ⟨h, hs⟩

theorem handed_prefix_run {es : List MqttEvent} (h : OrderInv s)
    (hs : SessionInv s) (hp : s.handed <+: s.acceptedIds)
    (hes : (machine lwjson).Admits s es)
    (hwhole : (machine lwjson).Along Whole s es)
    (hnot : (machine lwjson).Along (fun s e => ¬s.Overtakes e) s es) :
    ((machine lwjson).run s es).handed <+:
      ((machine lwjson).run s es).acceptedIds := by
  induction es generalizing s with
  | nil => exact hp
  | cons e es ih =>
      exact ih (orderInv_step h hs hes.1 hwhole.1) (sessionInv_step hs hes.1)
        (handed_prefix_step_of_not_overtakes h hs hes.1 hnot.1 hp)
        hes.2 hwhole.2 hnot.2

/-- In every state the lowest-numbered ready buffer is the one handed over.  In
every run in which each message arrives whole, the messages handed over are
therefore the first of those accepted, in their order, exactly if no step of
the run hands a message over while an earlier one is complete in another
buffer. -/
theorem handed_in_order_iff (topics : List (MqttTopic Hook))
    (lwjson : List UInt8 → Option Json) :
    (∀ s : MqttSession Hook Json, s.TakesLowest lwjson) ∧
      ∀ es : List MqttEvent,
        (machine lwjson).Admits (MqttSession.init topics) es →
        (machine lwjson).Along Whole (MqttSession.init topics) es →
        (((machine lwjson).run (MqttSession.init topics) es).handed <+:
            ((machine lwjson).run (MqttSession.init topics) es).acceptedIds ↔
          (machine lwjson).Along (fun s e => ¬s.Overtakes e)
            (MqttSession.init topics) es) := by
  have hinit : (init topics : MqttSession Hook Json).SessionInv :=
    sessionInv_init topics
  refine ⟨takesLowest lwjson, fun es hes hwhole => ⟨fun hp => ?_, fun hnot => ?_⟩⟩
  · by_contra hfail
    obtain ⟨before, e, after, rfl, -, hover⟩ :=
      EventMachine.exists_first_failure hfail
    obtain ⟨hbefore, he, hafter⟩ := (machine lwjson).along_append.mp hes
    have hs := (orderInv_run (orderInv_init topics) hinit hbefore
      (hwhole.of_prefix (List.prefix_append _ _))).2
    obtain ⟨hacc, hhanded⟩ := history_prefix_run (sessionInv_step hs he) hafter
    rw [EventMachine.run_append, EventMachine.run_cons] at hp
    exact not_prefix_of_overtakes hs (not_not.mp hover) (acceptedIds_sorted _)
      ((acceptedIds_prefix_step hs he).trans hacc) (hhanded.trans hp)
  · exact handed_prefix_run (orderInv_init topics) hinit List.nil_prefix hes
      hwhole hnot

/-! ## A run with an overtaking -/

/-- Two messages are complete, the first is handed over, and a third one takes
its buffer before the second is handed over. -/
def overtakingRun : List MqttEvent :=
  [.publish (CString.lit "cmd") 1, .data [97] 1,
    .publish (CString.lit "cmd") 1, .data [98] 1, .ready,
    .publish (CString.lit "cmd") 1, .data [99] 1, .ready, .ready]

def overtakingTopics : List (MqttTopic ℕ) :=
  [⟨CString.lit "cmd", true, false, [0]⟩]

def withoutJson : List UInt8 → Option Unit := fun _ => none

/-- The third message reaches its hook before the second. -/
theorem delivery_not_in_order :
    (machine withoutJson).Admits (MqttSession.init overtakingTopics)
        overtakingRun ∧
      (machine withoutJson).Along Whole (MqttSession.init overtakingTopics)
        overtakingRun ∧
      ((machine withoutJson).run (MqttSession.init overtakingTopics)
        overtakingRun).acceptedIds = [0, 1, 2] ∧
      ((machine withoutJson).run (MqttSession.init overtakingTopics)
        overtakingRun).handed = [0, 2, 1] ∧
      ((machine withoutJson).run (MqttSession.init overtakingTopics)
        overtakingRun).calls.map (fun c => c.2.msg.take c.2.size) =
          [[97], [99], [98]] := by
  decide

theorem handed_in_order_iff_overtakingRun :
    ¬(machine withoutJson).Along (fun s e => ¬s.Overtakes e)
      (MqttSession.init overtakingTopics) overtakingRun := by
  rw [← (handed_in_order_iff overtakingTopics withoutJson).2 overtakingRun
    (by decide) (by decide)]
  decide

end Herak.Mqtt.MqttSession
