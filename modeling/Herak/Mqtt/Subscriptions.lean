import Herak.Mqtt.TopicList
import Herak.Support.EventMachine

/-!
# Subscriptions

The table of topics over every sequence of registrations, resets and
subscriptions.  Two of the three scans look behind the array before they
compare with its size, and the third compares with one entry too many, so that
a full table is scanned safely only as long as the scan stops in it.
-/

namespace Herak.Mqtt

variable {Hook : Type*}

/-! ## Runs -/

/-- A call of one of the functions of the table, with the outcomes of what it
calls, or a change of the connection. -/
inductive TopicEvent (Hook : Type*)
  | listen (r : ListenCall Hook)
  | subscribeAll
  | sendSubscribe (ret : ℤ)
  | connection (state : MqttClientState)

def TopicEvent.call (c : MqttTopics Hook) :
    TopicEvent Hook → Option (MqttTopics Hook)
  | .listen r => (r.call none c).map (·.2)
  | .subscribeAll => mqttSubscribeAll c
  | .sendSubscribe ret => (mqttSendSubscribe c ret).map (·.2.2)
  | .connection state => some { c with state := state }

/-- The table; there is none behind an access outside of the array. -/
def topicMachine :
    EventMachine (Option (MqttTopics Hook)) (TopicEvent Hook) where
  step := fun c e => c.bind (e.call ·)
  enabled := fun _ _ => True

/-- The topic that a successful call of `mqtt_send_subscribe` subscribes to. -/
def TopicEvent.subscribes (c : Option (MqttTopics Hook)) :
    TopicEvent Hook → Option ℕ
  | .sendSubscribe ret =>
      (c.bind (mqttSendSubscribe · ret)).bind fun result =>
        if result.1 = 0 then result.2.1 else none
  | _ => none

/-- The topics subscribed to since the last `mqtt_subscribe_all`. -/
def recordSubscription (c : Option (MqttTopics Hook)) (e : TopicEvent Hook)
    (done : List ℕ) : List ℕ :=
  match e with
  | .subscribeAll => []
  | e => done ++ (e.subscribes c).toList

def tableAfter (es : List (TopicEvent Hook)) :
    Option (MqttTopics Hook) × List ℕ :=
  (topicMachine.recording recordSubscription).run (some .init, []) es

/-- The number of successful calls of `mqtt_send_subscribe`. -/
def successes :
    Option (MqttTopics Hook) → List (TopicEvent Hook) → ℕ
  | _, [] => 0
  | c, e :: es =>
      (e.subscribes c).toList.length + successes (topicMachine.step c e) es

def TopicEvent.IsSend : TopicEvent Hook → Prop
  | .sendSubscribe _ | .connection _ => True
  | _ => False

/-- What is asked of the table along a schedule. -/
structure TableCorrect (es : List (TopicEvent Hook)) : Prop where
  inBounds : ∀ before, before <+: es → (tableAfter before).1.isSome
  counted : ∀ before c, before <+: es → (tableAfter before).1 = some c →
    c.subscribe = c.listed.countP (·.subscribed)
  onceEach : ∀ before sends c c', before ++ sends <+: es →
    (∀ e ∈ sends, e.IsSend) →
    (tableAfter before).1 = some c →
    (tableAfter (before ++ sends)).1 = some c' →
    successes (some c) sends = c.listed.countP (!·.subscribed) →
    ∀ i < c'.listed.length, (tableAfter (before ++ sends)).2.count i = 1

/-- A full table is scanned only for a topic that is in it. -/
def StaysInTable (c : Option (MqttTopics Hook)) (e : TopicEvent Hook) : Prop :=
  ∀ t, c = some t → t.listed.length = mqttMaxTopics →
    match e with
    | .listen r => r.Listens t.listed
    | .subscribeAll => False
    | .sendSubscribe _ =>
        t.state = .connected → ∃ u ∈ t.listed, u.subscribed = false
    | .connection _ => True

/-! ## The flags -/

/-- The flags of the topics of a list. -/
def flags (l : List (MqttTopic Hook)) : List Bool :=
  l.map (·.subscribed)

theorem countP_subscribed (l : List (MqttTopic Hook)) :
    l.countP (·.subscribed) = (flags l).count true := by
  rw [flags, List.count, List.countP_map]
  congr 1
  funext t
  simp

theorem countP_unsubscribed (l : List (MqttTopic Hook)) :
    l.countP (!·.subscribed) = (flags l).count false := by
  rw [flags, List.count, List.countP_map]
  congr 1
  funext t
  simp

/-- A registration keeps the flags; a new topic is not subscribed. -/
theorem ListenCall.flags_onList (r : ListenCall Hook)
    (l : List (MqttTopic Hook)) :
    flags (r.onList l).2 = flags l ∨ flags (r.onList l).2 = flags l ++ [false] := by
  have hmodify (k : ℕ) :
      flags (l.modify k (·.addHook r.hook r.json)) = flags l := by
    refine List.ext_getElem? fun i => ?_
    simp only [flags, List.getElem?_map, List.getElem?_modify]
    cases l[i]? with
    | none => rfl
    | some t =>
        by_cases hi : k = i
        · simp [hi, MqttTopic.addHook]
        · simp [hi]
  unfold ListenCall.onList
  split
  · split
    · exact .inl (hmodify _)
    · exact .inl rfl
  · split
    · split
      · exact .inr (by simp [flags, MqttTopic.addHook, newTopic])
      · exact .inr (by simp [flags, newTopic])
    · exact .inl rfl

theorem flags_modify_subscribe (l : List (MqttTopic Hook)) (k : ℕ) :
    flags (l.modify k (·.subscribe)) = (flags l).set k true := by
  refine List.ext_getElem? fun i => ?_
  simp only [flags, List.getElem?_map, List.getElem?_modify,
    List.getElem?_set, List.length_map]
  by_cases hi : k = i
  · by_cases hlt : i < l.length
    · simp [hi, hlt, MqttTopic.subscribe]
    · simp [hi, Nat.le_of_not_lt hlt]
  · simp [hi]

theorem count_set_flag {fs : List Bool} {k : ℕ} (h : fs[k]? = some false) :
    (fs.set k true).count true = fs.count true + 1 ∧
      (fs.set k true).count false + 1 = fs.count false := by
  obtain ⟨hlt, hget⟩ := List.getElem?_eq_some_iff.mp h
  have hpos : 0 < fs.count false :=
    List.count_pos_iff.mpr (List.mem_of_getElem? h)
  rw [List.count_set hlt, List.count_set hlt, hget]
  simp only [beq_self_eq_true, if_true]
  constructor
  · rfl
  · exact Nat.sub_add_cancel hpos

theorem findIdx?_unsubscribed (l : List (MqttTopic Hook)) (k : ℕ)
    (h : l.findIdx? (!·.subscribed) = some k) :
    (flags l)[k]? = some false := by
  obtain ⟨hk, hp, -⟩ := List.findIdx?_eq_some_iff_getElem.mp h
  simpa [flags, hk] using hp

/-! ## The invariant -/

/-- The table holds the list, and counter, flags and record agree. -/
structure Agrees (c : MqttTopics Hook) (done : List ℕ)
    (l : List (MqttTopic Hook)) : Prop where
  represents : c.Represents l
  counted : c.subscribe = (flags l).count true
  nodup : done.Nodup
  mem_done : ∀ i, i ∈ done ↔ (flags l)[i]? = some true

theorem agrees_init : Agrees (MqttTopics.init : MqttTopics Hook) [] [] where
  represents := MqttTopics.represents_init
  counted := rfl
  nodup := List.nodup_nil
  mem_done := by simp [flags]

namespace Agrees

variable {c : MqttTopics Hook} {done : List ℕ} {l : List (MqttTopic Hook)}

theorem listen (h : Agrees c done l) {r : ListenCall Hook}
    (hroom : l.length < mqttMaxTopics ∨ r.Listens l) :
    ∃ c', (TopicEvent.listen r).call c = some c' ∧
      Agrees c' done (r.onList l).2 := by
  obtain ⟨c', hcall, hrep, hsub, -⟩ := h.represents.listen none (.inr hroom)
  refine ⟨c', by simp [TopicEvent.call, hcall], hrep, ?_, h.nodup, fun i => ?_⟩
  · rw [hsub, h.counted]
    obtain heq | heq := r.flags_onList l
    · rw [heq]
    · simp [heq]
  · rw [h.mem_done]
    obtain heq | heq := r.flags_onList l
    · rw [heq]
    · rw [heq, List.getElem?_append]
      split
      · rfl
      next hi =>
        rw [List.getElem?_eq_none (by omega), List.getElem?_singleton]
        split <;> simp

theorem subscribeAll (h : Agrees c done l) (hlen : l.length < mqttMaxTopics) :
    ∃ c', TopicEvent.subscribeAll.call c = some c' ∧
      Agrees c' [] (l.map (·.unsubscribe)) := by
  obtain ⟨c', hcall, hrep, hsub, -⟩ := h.represents.subscribeAll hlen
  have hflags : flags (l.map (·.unsubscribe)) =
      List.replicate l.length false := by
    rw [flags, List.map_map, List.eq_replicate_iff]
    simp [MqttTopic.unsubscribe]
  refine ⟨c', hcall, hrep, ?_, List.nodup_nil, fun i => ?_⟩
  · rw [hsub, hflags, List.count_replicate]
    rfl
  · rw [hflags, List.getElem?_replicate]
    split <;> simp

/-- A call of `mqtt_send_subscribe` subscribes to the topic that it names, which
had not been subscribed to, and to no other. -/
theorem sendSubscribe (h : Agrees c done l) (ret : ℤ)
    (hroom : c.state = .connected → l.length < mqttMaxTopics ∨
      ∃ u ∈ l, u.subscribed = false) :
    ∃ c' l', (TopicEvent.sendSubscribe ret).call c = some c' ∧
      Agrees c' (done ++
        ((TopicEvent.sendSubscribe ret).subscribes (some c)).toList) l' ∧
      l'.length = l.length ∧
      (flags l').count false +
        ((TopicEvent.sendSubscribe ret).subscribes (some c)).toList.length =
        (flags l).count false := by
  -- A call without success changes nothing.
  have hsame (r : ℤ) (o : Option ℕ) (hr : r ≠ 0)
      (hcall : mqttSendSubscribe c ret = some (r, o, c)) :
      ∃ c' l', (TopicEvent.sendSubscribe ret).call c = some c' ∧
        Agrees c' (done ++
          ((TopicEvent.sendSubscribe ret).subscribes (some c)).toList) l' ∧
        l'.length = l.length ∧
        (flags l').count false +
          ((TopicEvent.sendSubscribe ret).subscribes (some c)).toList.length =
          (flags l).count false := by
    refine ⟨c, l, by simp [TopicEvent.call, hcall], ?_, rfl, ?_⟩
    · simpa [TopicEvent.subscribes, hcall, hr] using h
    · simp [TopicEvent.subscribes, hcall, hr]
  by_cases hconn : c.state = .connected
  · cases hk : l.findIdx? (!·.subscribed) with
    | none =>
        have hall : ¬∃ u ∈ l, u.subscribed = false := by
          simpa [List.findIdx?_eq_none_iff] using hk
        have hcall := h.represents.sendSubscribe_idle hconn hk ret
        rw [if_pos ((hroom hconn).resolve_right hall)] at hcall
        exact hsame (-1) none (by decide) hcall
    | some k =>
        obtain ⟨hlt, -, -⟩ := List.findIdx?_eq_some_iff_getElem.mp hk
        have hget : l[k]? = some l[k] := List.getElem?_eq_getElem hlt
        have hcall := h.represents.sendSubscribe_eq hconn hk hget ret
        by_cases hempty : CString.strlen l[k].topic < 1
        · rw [if_pos hempty] at hcall
          exact hsame (-1) none (by decide) hcall
        · rw [if_neg hempty] at hcall
          by_cases hret : ret = 0
          · rw [if_pos hret] at hcall
            have hflag := findIdx?_unsubscribed l k hk
            have hsubs :
                (TopicEvent.sendSubscribe ret).subscribes (some c) = some k := by
              simp [TopicEvent.subscribes, hcall]
            have hrep := h.represents.modify hget (·.subscribe)
            refine ⟨_, l.modify k (·.subscribe),
              by simp only [TopicEvent.call, hcall]; rfl, ?_, by simp, ?_⟩
            · rw [hsubs]
              refine ⟨⟨hrep.count_eq, hrep.entry_eq⟩, ?_, ?_, fun i => ?_⟩
              · rw [flags_modify_subscribe, (count_set_flag hflag).1,
                  ← h.counted]
              · have hnew : k ∉ done := by simp [h.mem_done, hflag]
                simpa using h.nodup.concat hnew
              · rw [flags_modify_subscribe, List.getElem?_set]
                by_cases hi : k = i
                · simp [← hi, flags, hlt]
                · simp [hi, Ne.symm hi, h.mem_done]
            · rw [hsubs, flags_modify_subscribe]
              exact (count_set_flag hflag).2
          · rw [if_neg hret] at hcall
            exact hsame ret (some k) hret hcall
  · exact hsame (-1) none (by decide) (if_pos hconn)

/-- What a call does that stays in the table. -/
theorem step (h : Agrees c done l) {e : TopicEvent Hook}
    (hstay : StaysInTable (some c) e) :
    ∃ c' l', e.call c = some c' ∧
      Agrees c' (recordSubscription (some c) e done) l' ∧
      (e.IsSend → l'.length = l.length ∧
        recordSubscription (some c) e done =
          done ++ (e.subscribes (some c)).toList ∧
        (flags l').count false + (e.subscribes (some c)).toList.length =
          (flags l).count false) := by
  have hle := h.represents.length_le
  have hfull := hstay c rfl
  rw [h.represents.listed_eq] at hfull
  cases e with
  | listen r =>
      have hroom : l.length < mqttMaxTopics ∨ r.Listens l :=
        hle.lt_or_eq.imp_right hfull
      obtain ⟨c', hcall, hagrees⟩ := h.listen hroom
      refine ⟨c', (r.onList l).2, hcall, ?_, False.elim⟩
      simpa [recordSubscription, TopicEvent.subscribes] using hagrees
  | subscribeAll =>
      obtain ⟨c', hcall, hagrees⟩ := h.subscribeAll (hle.lt_of_ne hfull)
      exact ⟨c', _, hcall, hagrees, False.elim⟩
  | sendSubscribe ret =>
      obtain ⟨c', l', hcall, hagrees, hlen, hcount⟩ :=
        h.sendSubscribe ret fun hconn =>
          hle.lt_or_eq.imp_right fun hl => hfull hl hconn
      exact ⟨c', l', hcall, hagrees, fun _ => ⟨hlen, rfl, hcount⟩⟩
  | connection state =>
      refine ⟨{ c with state := state }, l, rfl, ?_, fun _ => ⟨rfl, rfl, rfl⟩⟩
      simp only [recordSubscription, TopicEvent.subscribes, Option.toList_none,
        List.append_nil]
      exact ⟨⟨h.represents.count_eq, h.represents.entry_eq⟩, h.counted,
        h.nodup, h.mem_done⟩

/-- A scan that leaves a full table has no meaning. -/
theorem step_out_of_bounds (h : Agrees c done l) {e : TopicEvent Hook}
    (hleave : ¬StaysInTable (some c) e) : e.call c = none := by
  simp only [StaysInTable, Option.some.injEq, forall_eq', Classical.not_imp,
    h.represents.listed_eq] at hleave
  obtain ⟨hfull, hleave⟩ := hleave
  cases e with
  | listen r =>
      rw [TopicEvent.call, h.represents.listen_out_of_bounds hfull hleave]
      rfl
  | subscribeAll => exact h.represents.subscribeAll_out_of_bounds hfull
  | sendSubscribe ret =>
      simp only [Classical.not_imp, not_exists, not_and,
        Bool.not_eq_false] at hleave
      obtain ⟨hconn, hall⟩ := hleave
      have hk : l.findIdx? (!·.subscribed) = none := by
        simpa [List.findIdx?_eq_none_iff] using hall
      have hcall := h.represents.sendSubscribe_idle hconn hk ret
      rw [if_neg hfull.not_lt] at hcall
      rw [TopicEvent.call, hcall, Option.map_none]
  | connection state => exact (hleave trivial).elim

/-- Successful calls take from the topics that are left. -/
theorem sends (h : Agrees c done l) {es : List (TopicEvent Hook)}
    (hsend : ∀ e ∈ es, e.IsSend)
    (hstay : topicMachine.Along StaysInTable (some c) es) :
    ∃ c' l',
      ((topicMachine.recording recordSubscription).run (some c, done) es).1 =
        some c' ∧
      Agrees c' ((topicMachine.recording recordSubscription).run
        (some c, done) es).2 l' ∧
      (flags l').count false + successes (some c) es =
        (flags l).count false := by
  induction es generalizing c done l with
  | nil => exact ⟨c, l, rfl, h, rfl⟩
  | cons e es ih =>
      obtain ⟨c₁, l₁, hcall, hagrees₁, hsent⟩ := h.step hstay.1
      obtain ⟨-, -, hcount₁⟩ := hsent (hsend e List.mem_cons_self)
      have hstep : topicMachine.step (some c) e = some c₁ := hcall
      have hstay₁ := hstay.2
      rw [hstep] at hstay₁
      obtain ⟨c', l', hrun, hagrees, hcount⟩ := ih hagrees₁
        (fun e he => hsend e (List.mem_cons_of_mem _ he)) hstay₁
      have hfirst :
          (topicMachine.recording recordSubscription).step (some c, done) e =
            (some c₁, recordSubscription (some c) e done) :=
        Prod.ext hstep rfl
      refine ⟨c', l', ?_, ?_, ?_⟩
      · rw [EventMachine.run_cons, hfirst, hrun]
      · rw [EventMachine.run_cons, hfirst]
        exact hagrees
      · rw [successes, hstep]
        omega

end Agrees

/-- A schedule that stays in the table keeps the invariant. -/
theorem tableAfter_agrees {es : List (TopicEvent Hook)}
    (h : topicMachine.Along StaysInTable (some .init) es) :
    ∃ c l, (tableAfter es).1 = some c ∧ Agrees c (tableAfter es).2 l := by
  have halong :
      (topicMachine.recording recordSubscription).Along
        (fun x e => StaysInTable x.1 e) (some .init, []) es :=
    EventMachine.recording_along.mpr h
  refine halong.invariant
    (I := fun x => ∃ c l, x.1 = some c ∧ Agrees c x.2 l) ?_
    ⟨.init, [], rfl, agrees_init⟩
  rintro ⟨_, done⟩ e ⟨c, l, rfl, hagrees⟩ hstay
  obtain ⟨c', l', hcall, hagrees', -⟩ := hagrees.step hstay
  exact ⟨c', l', hcall, hagrees'⟩

theorem tableAfter_append (before after : List (TopicEvent Hook)) :
    tableAfter (before ++ after) =
      (topicMachine.recording recordSubscription).run (tableAfter before)
        after :=
  EventMachine.run_append _ _ _ _

theorem tableAfter_fst (es : List (TopicEvent Hook)) :
    (tableAfter es).1 = topicMachine.run (some .init) es :=
  EventMachine.recording_run_fst _ _

/-! ## Correctness -/

theorem tableCorrect_of_stays {es : List (TopicEvent Hook)}
    (h : topicMachine.Along StaysInTable (some .init) es) :
    TableCorrect es where
  inBounds := fun before hbefore => by
    obtain ⟨c, l, hc, -⟩ := tableAfter_agrees (h.of_prefix hbefore)
    simp [hc]
  counted := fun before c hbefore hc => by
    obtain ⟨c₁, l, hc₁, hagrees⟩ := tableAfter_agrees (h.of_prefix hbefore)
    obtain rfl : c = c₁ := Option.some.inj (hc.symm.trans hc₁)
    rw [hagrees.represents.listed_eq, countP_subscribed, hagrees.counted]
  onceEach := fun before sends c c' hprefix hsend hc hc' hall i hi => by
    have hstay := h.of_prefix hprefix
    rw [EventMachine.along_append, ← tableAfter_fst] at hstay
    obtain ⟨c₁, l, hc₁, hagrees⟩ := tableAfter_agrees hstay.1
    obtain rfl : c = c₁ := Option.some.inj (hc.symm.trans hc₁)
    rw [hc] at hstay
    obtain ⟨c₂, l', hc₂, hagrees', hcount⟩ := hagrees.sends hsend hstay.2
    have hbefore : tableAfter before = (some c, (tableAfter before).2) :=
      Prod.ext hc rfl
    rw [← hbefore, ← tableAfter_append] at hc₂ hagrees'
    obtain rfl : c' = c₂ := Option.some.inj (hc'.symm.trans hc₂)
    rw [hagrees.represents.listed_eq, countP_unsubscribed] at hall
    rw [hagrees'.represents.listed_eq] at hi
    have hnone : (flags l').count false = 0 := by omega
    have hflag : (flags l')[i]? = some true := by
      have hlt : i < (flags l').length := by simpa [flags] using hi
      rw [List.getElem?_eq_getElem hlt, Option.some.injEq]
      by_contra hfalse
      rw [Bool.not_eq_true] at hfalse
      exact List.count_eq_zero.mp hnone (hfalse ▸ List.getElem_mem hlt)
    exact List.count_eq_one_of_mem hagrees'.nodup
      ((hagrees'.mem_done i).mpr hflag)

/-- The table is correct along a schedule exactly when a full table is scanned
only for topics that are in it. -/
theorem subscription_table_correct_iff (es : List (TopicEvent Hook)) :
    TableCorrect es ↔ topicMachine.Along StaysInTable (some .init) es := by
  refine ⟨fun h => ?_, tableCorrect_of_stays⟩
  by_contra hnot
  obtain ⟨before, e, after, rfl, hbefore, hleave⟩ :=
    EventMachine.exists_first_failure hnot
  obtain ⟨c, l, hc, hagrees⟩ := tableAfter_agrees hbefore
  rw [← tableAfter_fst, hc] at hleave
  have hin := h.inBounds (before ++ [e])
    ⟨after, by rw [List.append_assoc, List.singleton_append]⟩
  rw [tableAfter_fst, EventMachine.run_append, ← tableAfter_fst, hc] at hin
  have hout : topicMachine.run (some c) [e] = none :=
    hagrees.step_out_of_bounds hleave
  rw [hout] at hin
  exact nomatch hin

/-! ## A full table -/

/-- A registration of as many topics as there is room for. -/
def fullTable : List (TopicEvent Unit) :=
  (List.range mqttMaxTopics).map fun i =>
    .listen ⟨[i.toUInt8 + 97], (), false, true, true⟩

/-- A reset of the subscriptions leaves the array. -/
theorem subscribe_all_leaves_full_table :
    ¬∀ es : List (TopicEvent Unit), TableCorrect es := by
  intro h
  have hin := (h (fullTable ++ [.subscribeAll])).inBounds _ List.prefix_rfl
  have hout : (tableAfter (fullTable ++ [.subscribeAll])).1.isSome = false := by
    decide +kernel
  rw [hout] at hin
  exact nomatch hin

end Herak.Mqtt
