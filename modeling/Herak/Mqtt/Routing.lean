import Herak.Mqtt.Order
import Herak.Mqtt.Reassembly
import Herak.Mqtt.TopicList

/-!
# Routing by topic

Which hooks a message reaches after a sequence of registrations.  A topic is
looked up by its full text and stored in an array of `MQTT_MAX_TOPIC_SIZE`
bytes, and the entry of a new topic is made before the memory of its hook is
asked for; the two are what separates the code from its purpose.
-/

namespace Herak.Mqtt

open CString

variable {Hook Json : Type*}

/-! ## Registrations -/

namespace ListenCall

/-- The result of the call and the table after it.  Whatever a read behind a
full table finds, the scan stops there. -/
def result (behind : Option (MqttTopic Hook)) (c : MqttTopics Hook)
    (r : ListenCall Hook) : ℤ × MqttTopics Hook :=
  (r.call (some behind) c).getD (-1, c)

/-- The text that the entry of a new topic holds. -/
def storedTopic (r : ListenCall Hook) : CStr :=
  (newTopic r.topic : MqttTopic Hook).topic

end ListenCall

def listenMachine (behind : Option (MqttTopic Hook)) :
    EventMachine (MqttTopics Hook) (ListenCall Hook) where
  step := fun c r => (r.result behind c).2
  enabled := fun _ _ => True

/-- The calls that returned 0. -/
def recordAccepted (behind : Option (MqttTopic Hook)) (c : MqttTopics Hook)
    (r : ListenCall Hook) (accepted : List (ListenCall Hook)) :
    List (ListenCall Hook) :=
  if (r.result behind c).1 = 0 then accepted ++ [r] else accepted

/-- The table after a sequence of calls, and the calls that returned 0. -/
def registrations (behind : Option (MqttTopic Hook))
    (rs : List (ListenCall Hook)) :
    MqttTopics Hook × List (ListenCall Hook) :=
  ((listenMachine behind).recording (recordAccepted behind)).run
    (.init, []) rs

/-- A call that returned -1 left the table as it was. -/
def FailuresChangeNothing (behind : Option (MqttTopic Hook))
    (rs : List (ListenCall Hook)) : Prop :=
  (listenMachine behind).Along
    (fun c r => (r.result behind c).1 = -1 → (r.result behind c).2 = c)
    .init rs

/-- A call without memory for its hook makes no entry: its topic is in the
table, or there is no room or no memory for one. -/
def HookOrNoEntry (c : MqttTopics Hook) (r : ListenCall Hook) : Prop :=
  r.allocHook = false →
    r.Listens c.listed ∨ c.listed.length = mqttMaxTopics ∨
      r.allocTopic = false

def NoEntryWithoutHook (behind : Option (MqttTopic Hook))
    (rs : List (ListenCall Hook)) : Prop :=
  (listenMachine behind).Along HookOrNoEntry .init rs

/-- What a call does to the list, case by case. -/
theorem ListenCall.onList_cases (r : ListenCall Hook)
    (l : List (MqttTopic Hook)) :
    (∃ l₁ t l₂, l = l₁ ++ t :: l₂ ∧ t.topic = r.topic ∧
      (∀ u ∈ l₁, u.topic ≠ r.topic) ∧ r.allocHook = true ∧
      r.onList l = (0, l₁ ++ t.addHook r.hook r.json :: l₂)) ∨
    ((∀ t ∈ l, t.topic ≠ r.topic) ∧ r.allocHook = true ∧
      r.onList l = (0, l ++ [(newTopic r.topic).addHook r.hook r.json])) ∨
    ((∀ t ∈ l, t.topic ≠ r.topic) ∧ l.length < mqttMaxTopics ∧
      r.allocTopic = true ∧ r.allocHook = false ∧
      r.onList l = (-1, l ++ [newTopic r.topic])) ∨
    ((r.allocHook = false → r.Listens l ∨ mqttMaxTopics ≤ l.length ∨
        r.allocTopic = false) ∧
      r.onList l = (-1, l)) := by
  unfold ListenCall.onList
  cases hfind : l.findIdx? (sameTopic r.topic) with
  | some k =>
      obtain ⟨hk, hsame, hbefore⟩ := List.findIdx?_eq_some_iff_getElem.mp hfind
      rw [sameTopic_iff] at hsame
      cases hhook : r.allocHook with
      | true =>
          refine .inl ⟨l.take k, l[k], l.drop (k + 1), ?_, hsame, ?_, rfl, ?_⟩
          · rw [List.getElem_cons_drop, List.take_append_drop]
          · intro u hu htopic
            obtain ⟨i, hi, rfl⟩ := List.mem_take_iff_getElem.mp hu
            exact hbefore i (by omega) ((sameTopic_iff _ _).mpr htopic)
          · simp [List.modify_eq_take_cons_drop hk]
      | false =>
          refine .inr (.inr (.inr ⟨fun _ => .inl ?_, rfl⟩))
          exact ⟨l[k], List.getElem_mem hk, hsame⟩
  | none =>
      have hnot := (findIdx?_sameTopic_eq_none _ _).mp hfind
      dsimp only
      split
      next hroom =>
        cases hhook : r.allocHook with
        | true => exact .inr (.inl ⟨hnot, rfl, rfl⟩)
        | false =>
            exact .inr (.inr (.inl ⟨hnot, hroom.1, hroom.2, rfl, rfl⟩))
      next hroom =>
        refine .inr (.inr (.inr ⟨fun _ => .inr ?_, rfl⟩))
        rw [not_and_or, Nat.not_lt, Bool.not_eq_true] at hroom
        exact hroom

/-- The call on the table is the call on its list. -/
theorem MqttTopics.Represents.result {c : MqttTopics Hook}
    {l : List (MqttTopic Hook)} (h : c.Represents l)
    (behind : Option (MqttTopic Hook)) (r : ListenCall Hook) :
    (r.result behind c).1 = (r.onList l).1 ∧
      (r.result behind c).2.Represents (r.onList l).2 ∧
      ((r.onList l).2 = l → (r.result behind c).2 = c) := by
  obtain ⟨c', hcall, hrep, hsub, hstate⟩ :=
    h.listen (some behind) (r := r) (.inl nofun)
  have hresult : r.result behind c = ((r.onList l).1, c') := by
    rw [ListenCall.result, hcall, Option.getD_some]
  rw [hresult]
  refine ⟨rfl, hrep, fun hsame => ?_⟩
  rw [hsame] at hrep
  exact h.unique hrep hsub hstate

theorem failures_change_nothing_step {c : MqttTopics Hook}
    {l : List (MqttTopic Hook)} (h : c.Represents l)
    (behind : Option (MqttTopic Hook)) (r : ListenCall Hook) :
    ((r.result behind c).1 = -1 → (r.result behind c).2 = c) ↔
      HookOrNoEntry c r := by
  obtain ⟨hret, hrep, hsame⟩ := h.result behind r
  rw [HookOrNoEntry, h.listed_eq, hret]
  obtain ⟨l₁, t, l₂, -, -, -, hhook, hcall⟩ | ⟨-, hhook, hcall⟩ |
    ⟨hnot, hroom, htopic, hhook, hcall⟩ | ⟨hcond, hcall⟩ := r.onList_cases l
  · simp [hcall, hhook]
  · simp [hcall, hhook]
  · constructor
    · intro hunchanged
      rw [hunchanged (by rw [hcall])] at hrep
      have hlen := hrep.count_eq.symm.trans h.count_eq
      rw [hcall, List.length_append, List.length_singleton] at hlen
      omega
    · intro hcond
      obtain ⟨t, ht, htop⟩ | hfull | halloc := hcond hhook
      · exact (hnot t ht htop).elim
      · omega
      · rw [htopic] at halloc
        exact nomatch halloc
  · refine ⟨fun _ hfail => ?_, fun _ _ => hsame (by rw [hcall])⟩
    exact (hcond hfail).imp_right (.imp_left (le_antisymm h.length_le))

/-- Every call keeps the topics in the leading entries. -/
theorem represents_step (behind : Option (MqttTopic Hook))
    {c : MqttTopics Hook} (h : ∃ l, c.Represents l) (r : ListenCall Hook) :
    ∃ l, ((listenMachine behind).step c r).Represents l := by
  obtain ⟨l, hl⟩ := h
  exact ⟨_, (hl.result behind r).2.1⟩

theorem failures_change_nothing_iff (behind : Option (MqttTopic Hook))
    (rs : List (ListenCall Hook)) :
    FailuresChangeNothing behind rs ↔ NoEntryWithoutHook behind rs := by
  have hinit : ∃ l, (.init : MqttTopics Hook).Represents l :=
    ⟨[], MqttTopics.represents_init⟩
  constructor
  · intro h
    refine h.mono_of_invariant (I := fun c => ∃ l, c.Represents l)
      (fun c r hc _ => represents_step behind hc r) (fun c r hc hr => ?_) hinit
    exact (failures_change_nothing_step hc.choose_spec behind r).mp hr
  · intro h
    refine h.mono_of_invariant (I := fun c => ∃ l, c.Represents l)
      (fun c r hc _ => represents_step behind hc r) (fun c r hc hr => ?_) hinit
    exact (failures_change_nothing_step hc.choose_spec behind r).mpr hr

/-! ## The hooks of a topic -/

/-- The hooks of the first topic of the list with the text. -/
def hooksFor (l : List (MqttTopic Hook)) (topic : CStr) : List Hook :=
  ((l.find? (sameTopic topic)).map (·.hooks)).getD []

/-- The accepted calls for exactly the topic. -/
def callsFor (accepted : List (ListenCall Hook)) (topic : CStr) :
    List (ListenCall Hook) :=
  accepted.filter (·.topic = topic)

/-- The first accepted call whose topic is stored under the text, if it was for
another topic: the hook that made the entry its own. -/
def foreignHook (accepted : List (ListenCall Hook)) (topic : CStr) :
    List Hook :=
  match accepted.find? (·.storedTopic = topic) with
  | some r => if r.topic = topic then [] else [r.hook]
  | none => []

theorem ListenCall.storedTopic_eq (r : ListenCall Hook) :
    r.storedTopic = r.topic.take (mqttMaxTopicSize - 1) := by
  simp only [storedTopic, newTopic, strncpy, List.append_nil]
  split
  next h => exact (List.take_of_length_le h.le).symm
  · rfl

theorem ListenCall.storedTopic_of_short {r : ListenCall Hook}
    (h : r.topic.length < mqttMaxTopicSize) : r.storedTopic = r.topic := by
  rw [r.storedTopic_eq]
  exact List.take_of_length_le (by omega)

theorem ListenCall.length_storedTopic (r : ListenCall Hook) :
    r.storedTopic.length < mqttMaxTopicSize := by
  rw [r.storedTopic_eq, List.length_take]
  exact Nat.lt_of_le_of_lt (Nat.min_le_left _ _) (by decide)

section

variable {accepted : List (ListenCall Hook)} {r : ListenCall Hook}
  {topic : CStr}

theorem callsFor_append_of_eq (h : r.topic = topic) :
    callsFor (accepted ++ [r]) topic = callsFor accepted topic ++ [r] := by
  simp [callsFor, List.filter_append, h]

theorem callsFor_append_of_ne (h : r.topic ≠ topic) :
    callsFor (accepted ++ [r]) topic = callsFor accepted topic := by
  simp [callsFor, List.filter_append, h]

theorem foreignHook_append (h : ∃ q ∈ accepted, q.storedTopic = topic) :
    foreignHook (accepted ++ [r]) topic = foreignHook accepted topic := by
  obtain ⟨q, hq, htopic⟩ := h
  have hsome : (accepted.find? (·.storedTopic = topic)).isSome := by
    rw [List.find?_isSome]
    exact ⟨q, hq, by simpa using htopic⟩
  obtain ⟨q', hq'⟩ := Option.isSome_iff_exists.mp hsome
  simp only [foreignHook, List.find?_append, hq', Option.some_or]

theorem foreignHook_append_of_ne (h : r.storedTopic ≠ topic) :
    foreignHook (accepted ++ [r]) topic = foreignHook accepted topic := by
  simp [foreignHook, List.find?_append, h]

theorem find?_storedTopic_of_new
    (h : ¬∃ q ∈ accepted, q.storedTopic = topic) :
    accepted.find? (·.storedTopic = topic) = none := by
  rw [List.find?_eq_none]
  intro q hq hstored
  exact h ⟨q, hq, by simpa using hstored⟩

theorem foreignHook_of_new (h : ¬∃ q ∈ accepted, q.storedTopic = topic) :
    foreignHook accepted topic = [] := by
  rw [foreignHook, find?_storedTopic_of_new h]

theorem foreignHook_append_of_new
    (h : ¬∃ q ∈ accepted, q.storedTopic = topic) :
    foreignHook (accepted ++ [r]) topic =
      if r.storedTopic = topic ∧ r.topic ≠ topic then [r.hook] else [] := by
  have hnone := find?_storedTopic_of_new h
  simp only [foreignHook, List.find?_append, hnone, Option.none_or]
  by_cases hstored : r.storedTopic = topic
  · by_cases htopic : r.topic = topic
    · simp [hstored, htopic]
    · simp [hstored, htopic]
  · simp [hstored]

/-- Nothing was registered for a text without an entry. -/
theorem callsFor_of_new (h : ¬∃ q ∈ accepted, q.storedTopic = topic)
    (hlen : topic.length < mqttMaxTopicSize) : callsFor accepted topic = [] := by
  rw [callsFor, List.filter_eq_nil_iff]
  intro q hq htopic
  have heq : q.topic = topic := by simpa using htopic
  exact h ⟨q, hq, (ListenCall.storedTopic_of_short (heq ▸ hlen)).trans heq⟩

end

theorem find?_sameTopic_of_new {l : List (MqttTopic Hook)} {topic : CStr}
    (h : ¬∃ t ∈ l, t.topic = topic) : l.find? (sameTopic topic) = none := by
  rw [List.find?_eq_none]
  intro t ht hsame
  exact h ⟨t, ht, (sameTopic_iff _ _).mp hsame⟩

theorem hooksFor_of_new {l : List (MqttTopic Hook)} {topic : CStr}
    (h : ¬∃ t ∈ l, t.topic = topic) : hooksFor l topic = [] := by
  rw [hooksFor, find?_sameTopic_of_new h]
  rfl

theorem hooksFor_append (l l' : List (MqttTopic Hook)) (topic : CStr) :
    hooksFor (l ++ l') topic =
      if ∃ t ∈ l, t.topic = topic then hooksFor l topic
      else hooksFor l' topic := by
  rw [hooksFor, List.find?_append]
  split
  next h =>
    obtain ⟨t, ht, htopic⟩ := h
    have hsome : (l.find? (sameTopic topic)).isSome := by
      rw [List.find?_isSome]
      exact ⟨t, ht, (sameTopic_iff _ _).mpr htopic⟩
    obtain ⟨u, hu⟩ := Option.isSome_iff_exists.mp hsome
    rw [hooksFor, hu, Option.some_or]
  next h => rw [find?_sameTopic_of_new h, Option.none_or, hooksFor]

theorem hooksFor_cons (t : MqttTopic Hook) (l : List (MqttTopic Hook))
    (topic : CStr) :
    hooksFor (t :: l) topic =
      if t.topic = topic then t.hooks else hooksFor l topic := by
  rw [hooksFor, List.find?_cons]
  by_cases h : t.topic = topic
  · rw [(sameTopic_iff topic t).mpr h, if_pos h]
    rfl
  · rw [Bool.eq_false_iff.mpr (mt (sameTopic_iff topic t).mp h), if_neg h,
      hooksFor]

/-- The list of topics, told by the calls that returned 0: an entry exists for
every text that a topic is stored under, and its hooks are those registered
for the text, with the hook of a longer topic that came first. -/
structure HooksAgree (accepted : List (ListenCall Hook))
    (l : List (MqttTopic Hook)) : Prop where
  made : ∀ topic, (∃ t ∈ l, t.topic = topic) ↔
    ∃ r ∈ accepted, r.storedTopic = topic
  hooks : ∀ topic, topic.length < mqttMaxTopicSize →
    hooksFor l topic =
      ((callsFor accepted topic).map (·.hook)).reverse ++
        foreignHook accepted topic

theorem hooksAgree_nil : HooksAgree ([] : List (ListenCall Hook)) [] where
  made := by simp
  hooks := fun _ _ => rfl

namespace HooksAgree

variable {accepted : List (ListenCall Hook)} {l : List (MqttTopic Hook)}

/-- The texts of the entries fit. -/
theorem topic_length (h : HooksAgree accepted l) {t : MqttTopic Hook}
    (ht : t ∈ l) : t.topic.length < mqttMaxTopicSize := by
  obtain ⟨r, -, hr⟩ := (h.made t.topic).mp ⟨t, ht, rfl⟩
  exact hr ▸ r.length_storedTopic

/-- A hook more for a topic of the list. -/
theorem addHook {l₁ l₂ : List (MqttTopic Hook)} {t : MqttTopic Hook}
    {r : ListenCall Hook} (h : HooksAgree accepted (l₁ ++ t :: l₂))
    (htopic : t.topic = r.topic) (hfirst : ∀ u ∈ l₁, u.topic ≠ r.topic) :
    HooksAgree (accepted ++ [r]) (l₁ ++ t.addHook r.hook r.json :: l₂) := by
  have hshort : r.topic.length < mqttMaxTopicSize :=
    htopic ▸ h.topic_length (List.mem_append_right _ List.mem_cons_self)
  have hstored := ListenCall.storedTopic_of_short hshort
  have hadded : (t.addHook r.hook r.json).topic = r.topic := htopic
  have hmade (topic : CStr) :
      (∃ u ∈ l₁ ++ t.addHook r.hook r.json :: l₂, u.topic = topic) ↔
        ∃ u ∈ l₁ ++ t :: l₂, u.topic = topic := by
    simp only [List.mem_append, List.mem_cons, or_and_right, exists_or,
      exists_eq_left, hadded, htopic]
  obtain ⟨q, hq, hqt⟩ := (h.made r.topic).mp
    ⟨t, List.mem_append_right _ List.mem_cons_self, htopic⟩
  constructor
  · intro topic
    rw [hmade, h.made]
    constructor
    · rintro ⟨q, hq, htop⟩
      exact ⟨q, List.mem_append_left _ hq, htop⟩
    · rintro ⟨q', hq', htop⟩
      obtain hq' | hq' := List.mem_append.mp hq'
      · exact ⟨q', hq', htop⟩
      · obtain rfl := List.mem_singleton.mp hq'
        exact ⟨q, hq, hqt.trans (hstored.symm.trans htop)⟩
  · intro topic hlen
    have hold := h.hooks topic hlen
    have hbefore : ¬∃ u ∈ l₁, u.topic = r.topic := by simpa using hfirst
    rw [hooksFor_append, hooksFor_cons] at hold ⊢
    by_cases heq : r.topic = topic
    · have hentry : ∃ q ∈ accepted, q.storedTopic = topic :=
        ⟨q, hq, hqt.trans heq⟩
      subst heq
      rw [if_neg hbefore, if_pos htopic] at hold
      rw [if_neg hbefore, if_pos hadded, callsFor_append_of_eq rfl,
        foreignHook_append hentry]
      simp [MqttTopic.addHook, hold]
    · rw [hadded, if_neg heq]
      rw [htopic, if_neg heq] at hold
      rw [callsFor_append_of_ne heq, hold,
        foreignHook_append_of_ne (hstored.symm ▸ heq)]

/-- A new topic. -/
theorem addTopic {r : ListenCall Hook} (h : HooksAgree accepted l)
    (hnew : ∀ t ∈ l, t.topic ≠ r.topic) :
    HooksAgree (accepted ++ [r])
      (l ++ [(newTopic r.topic).addHook r.hook r.json]) := by
  have hadded :
      ((newTopic r.topic).addHook r.hook r.json : MqttTopic Hook).topic =
        r.storedTopic := rfl
  constructor
  · intro topic
    simp only [List.mem_append, List.mem_singleton, or_and_right, exists_or,
      exists_eq_left, hadded, h.made]
  · intro topic hlen
    rw [hooksFor_append]
    by_cases hold : ∃ t ∈ l, t.topic = topic
    · have hne : r.topic ≠ topic := by
        rintro rfl
        obtain ⟨t, ht, htopic⟩ := hold
        exact hnew t ht htopic
      rw [if_pos hold, callsFor_append_of_ne hne,
        foreignHook_append ((h.made topic).mp hold), h.hooks topic hlen]
    · have hnone : ¬∃ q ∈ accepted, q.storedTopic = topic :=
        mt (h.made topic).mpr hold
      rw [if_neg hold, hooksFor_cons, hadded, foreignHook_append_of_new hnone]
      by_cases heq : r.topic = topic
      · have hstored : r.storedTopic = topic :=
          (ListenCall.storedTopic_of_short (heq ▸ hlen)).trans heq
        rw [callsFor_append_of_eq heq, callsFor_of_new hnone hlen]
        simp [hstored, heq, MqttTopic.addHook, newTopic]
      · rw [callsFor_append_of_ne heq, callsFor_of_new hnone hlen]
        by_cases hstored : r.storedTopic = topic
        · simp [hstored, heq, MqttTopic.addHook, newTopic]
        · simp [hstored, hooksFor]

end HooksAgree

/-- The table and the accepted calls agree after a sequence of calls none of
which makes an entry without a hook. -/
theorem registrations_agree {behind : Option (MqttTopic Hook)}
    {rs : List (ListenCall Hook)} (h : NoEntryWithoutHook behind rs) :
    ∃ l, (registrations behind rs).1.Represents l ∧
      HooksAgree (registrations behind rs).2 l := by
  have halong :
      ((listenMachine behind).recording (recordAccepted behind)).Along
        (fun x r => HookOrNoEntry x.1 r) (.init, []) rs :=
    EventMachine.recording_along.mpr h
  refine halong.invariant
    (I := fun x => ∃ l, x.1.Represents l ∧ HooksAgree x.2 l) ?_
    ⟨[], MqttTopics.represents_init, hooksAgree_nil⟩
  rintro ⟨c, accepted⟩ r ⟨l, hrep, hagree⟩ hcond
  obtain ⟨hret, hrep', -⟩ := hrep.result behind r
  dsimp only at hcond hrep hagree
  rw [HookOrNoEntry, hrep.listed_eq] at hcond
  refine ⟨(r.onList l).2, hrep', ?_⟩
  change HooksAgree (recordAccepted behind c r accepted) _
  rw [recordAccepted, hret]
  obtain ⟨l₁, t, l₂, rfl, htopic, hfirst, -, hcall⟩ | ⟨hnew, -, hcall⟩ |
    ⟨hnew, hroom, htopic, hhook, hcall⟩ | ⟨-, hcall⟩ := r.onList_cases l
  · rw [hcall]
    exact hagree.addHook htopic hfirst
  · rw [hcall]
    exact hagree.addTopic hnew
  · obtain ⟨t, ht, htop⟩ | hfull | halloc := hcond hhook
    · exact (hnew t ht htop).elim
    · omega
    · rw [htopic] at halloc
      exact nomatch halloc
  · rw [hcall]
    exact hagree

/-! ## Messages -/

/-- The hooks that are called for a message are those of the accepted calls for
its topic, each once. -/
def CallsRegisteredHooks (accepted : List (ListenCall Hook)) (topic : CStr)
    (called : List Hook) : Prop :=
  called.Perm ((callsFor accepted topic).map (·.hook))

/-- The condition on a message, announced while the client is in the state.  A
message that is taken has a topic that fits or that nobody asked for, and the
first accepted call that is stored under its topic was for this topic; nobody
asked for the topic of a message that is not taken. -/
def Routable (accepted : List (ListenCall Hook)) (s : MqttListen Hook)
    (topic : CStr) (totLen : ℕ) : Prop :=
  if s.freeBuff ≠ none ∧ totLen < mqttOutputRingbufSize then
    (callsFor accepted topic ≠ [] → topic.length < mqttMaxTopicSize) ∧
      foreignHook accepted topic = []
  else callsFor accepted topic = []

/-- What a list of topics that agrees with the calls says about a topic. -/
theorem HooksAgree.hooksFor_perm_iff {accepted : List (ListenCall Hook)}
    {l : List (MqttTopic Hook)} (h : HooksAgree accepted l) (topic : CStr) :
    CallsRegisteredHooks accepted topic (hooksFor l topic) ↔
      (callsFor accepted topic ≠ [] → topic.length < mqttMaxTopicSize) ∧
        foreignHook accepted topic = [] := by
  by_cases hlen : topic.length < mqttMaxTopicSize
  · rw [CallsRegisteredHooks, h.hooks topic hlen]
    constructor
    · intro hperm
      refine ⟨fun _ => hlen, ?_⟩
      have hcount := hperm.length_eq
      rw [List.length_append, List.length_reverse] at hcount
      exact List.eq_nil_of_length_eq_zero (by omega)
    · rintro ⟨-, hforeign⟩
      rw [hforeign, List.append_nil]
      exact List.reverse_perm _
  · have hnone : ¬∃ t ∈ l, t.topic = topic := by
      rintro ⟨t, ht, rfl⟩
      exact hlen (h.topic_length ht)
    have hforeign : foreignHook accepted topic = [] :=
      foreignHook_of_new (mt (h.made topic).mpr hnone)
    have hhooks : hooksFor l topic = [] := hooksFor_of_new hnone
    simp only [CallsRegisteredHooks, hhooks, List.nil_perm, List.map_eq_nil_iff,
      hforeign, hlen, and_true]
    tauto

namespace MqttSession

variable {lwjson : List UInt8 → Option Json} {s : MqttSession Hook Json}

/-- What a publish was accepted into does not change. -/
theorem slot_run {es : List MqttEvent} (h : SessionInv s)
    (hes : (machine lwjson).Admits s es) {id : ℕ} (hid : id < s.published) :
    (((machine lwjson).run s es).arrival id).slot = (s.arrival id).slot := by
  induction es generalizing s with
  | nil => rfl
  | cons e es ih =>
      obtain ⟨he, hes⟩ := hes
      have hstep : s.published ≤ (step lwjson s e).published ∧
          ∀ id < s.published,
            ((step lwjson s e).arrival id).slot = (s.arrival id).slot :=
        slot_step h he
      exact (ih (sessionInv_step h he) hes (hid.trans_le hstep.1)).trans
        (hstep.2 id hid)

variable (lwjson) in
theorem publish_slot (s : MqttSession Hook Json) (topic : CStr) (n : ℕ) :
    s.published < (step lwjson s (.publish topic n)).published ∧
      ((step lwjson s (.publish topic n)).arrival s.published).slot =
        s.listen.publishSlot topic n := by
  cases hslot : s.listen.publishSlot topic n with
  | none =>
      rw [step_publish_rejected hslot]
      exact ⟨Nat.lt_succ_self _, by simp [rejected]⟩
  | some ij =>
      rw [step_publish_accepted (i := ij.1) (j := ij.2) hslot]
      exact ⟨Nat.lt_succ_self _, by simp [accepted]⟩

/-- A publish is accepted into a free buffer for the first topic with its
text. -/
theorem publishSlot_hooks {l : MqttListen Hook} {topic : CStr} {n : ℕ}
    {i : BuffIdx} {j : ℕ} {t : MqttTopic Hook}
    (hslot : l.publishSlot topic n = some (i, j))
    (ht : l.topics[j]? = some t) :
    (l.freeBuff ≠ none ∧ n < mqttOutputRingbufSize) ∧
      t.hooks = hooksFor l.topics topic := by
  obtain ⟨hfree, hn, hfind⟩ := publishSlot_spec hslot
  refine ⟨⟨by simp [hfree], hn⟩, ?_⟩
  have hfirst : l.topics.find? (sameTopic topic) = some t := by
    have hindex : l.topics.findIdx? (sameTopic topic) = some j := hfind
    rw [List.find?_eq_bind_findIdx?_getElem?, hindex, Option.bind_some, ht]
  rw [hooksFor, hfirst]
  rfl

/-- A publish that is not accepted finds no buffer or no topic. -/
theorem publishSlot_eq_none {l : MqttListen Hook} {topic : CStr} {n : ℕ}
    (hslot : l.publishSlot topic n = none)
    (htaken : l.freeBuff ≠ none ∧ n < mqttOutputRingbufSize) :
    hooksFor l.topics topic = [] := by
  obtain ⟨i, hfree⟩ := Option.ne_none_iff_exists'.mp htaken.1
  simp only [MqttListen.publishSlot, hfree, Nat.not_le.mpr htaken.2, if_false,
    Option.map_eq_none_iff] at hslot
  have hnone : l.topics.findIdx? (sameTopic topic) = none := hslot
  rw [findIdx?_sameTopic_eq_none] at hnone
  exact hooksFor_of_new fun ⟨t, ht, htopic⟩ => hnone t ht htopic

/-- The hooks called for a message that has arrived, when no complete message
is left: those of the first topic with its text, if the message was taken. -/
theorem hooks_called (h : SessionInv s) {l : MqttListen Hook} {id n : ℕ}
    {topic : CStr} (htopics : s.listen.topics = l.topics)
    (hslot : (s.arrival id).slot = l.publishSlot topic n)
    (hc : (s.arrival id).complete = true)
    (hdrained : s.listen.readyBuff = none) :
    (s.callsOf id).map (·.hook) =
      if l.freeBuff ≠ none ∧ n < mqttOutputRingbufSize
      then hooksFor l.topics topic else [] := by
  cases hsome : l.publishSlot topic n with
  | some ij =>
      obtain ⟨i, j⟩ := ij
      rw [hsome] at hslot
      have hhanded : id ∈ s.handed := by
        by_contra hnot
        have hready := (h.complete_slot id i j hc hslot hnot).1
        rw [readyBuff_eq_none.mp hdrained i] at hready
        exact nomatch hready
      obtain ⟨i', j', t, hslot', ht, hcalls⟩ := h.handed_calls id hhanded
      obtain ⟨-, rfl⟩ :=
        Prod.mk.inj (Option.some.inj (hslot.symm.trans hslot'))
      rw [htopics] at ht
      obtain ⟨htaken, hhooks⟩ := publishSlot_hooks hsome ht
      rw [if_pos htaken, hcalls.hooks, hhooks]
  | none =>
      rw [hsome] at hslot
      have hnot : id ∉ s.handed := by
        intro hhanded
        obtain ⟨i, j, t, hslot', -, -⟩ := h.handed_calls id hhanded
        rw [hslot] at hslot'
        exact nomatch hslot'
      rw [h.unhanded_calls id hnot]
      split
      next htaken => rw [publishSlot_eq_none hsome htaken]; rfl
      · rfl

end MqttSession

open MqttSession

/-- A session of the client with the table that the calls have made. -/
def sessionAfter (behind : Option (MqttTopic Hook))
    (rs : List (ListenCall Hook)) (lwjson : List UInt8 → Option Json)
    (es : List MqttEvent) : MqttSession Hook Json :=
  (machine lwjson).run (MqttSession.init (registrations behind rs).1.listed) es

/-- Take any sequence of registrations, any session of the client with their
table and any message of it that has arrived, when no complete message is left.
Failed registrations changed nothing and the message reached exactly the hooks
registered for its topic, if and only if no call made an entry without a hook
and the message can be routed. -/
theorem topic_routing_iff (behind : Option (MqttTopic Hook))
    (rs : List (ListenCall Hook)) (lwjson : List UInt8 → Option Json)
    (before after : List MqttEvent) (topic : CStr) (totLen : ℕ)
    (hes : (machine lwjson).Admits
      (MqttSession.init (registrations behind rs).1.listed)
      (before ++ .publish topic totLen :: after))
    (hc : ((sessionAfter behind rs lwjson
        (before ++ .publish topic totLen :: after)).arrival
      (sessionAfter behind rs lwjson before).published).complete = true)
    (hdrained : (sessionAfter behind rs lwjson
      (before ++ .publish topic totLen :: after)).listen.readyBuff = none) :
    (FailuresChangeNothing behind rs ∧
      CallsRegisteredHooks (registrations behind rs).2 topic
        (((sessionAfter behind rs lwjson
          (before ++ .publish topic totLen :: after)).callsOf
            (sessionAfter behind rs lwjson before).published).map (·.hook))) ↔
      NoEntryWithoutHook behind rs ∧
        Routable (registrations behind rs).2
          (sessionAfter behind rs lwjson before).listen topic totLen := by
  rw [failures_change_nothing_iff]
  refine and_congr_right fun hentries => ?_
  obtain ⟨l, hrep, hagree⟩ := registrations_agree hentries
  have hlisted := hrep.listed_eq
  have hsplit := (EventMachine.along_append _).mp hes
  have hpub : (sessionAfter behind rs lwjson before).Enabled
      (.publish topic totLen) := hsplit.2.1
  have hinv₀ : (sessionAfter behind rs lwjson before).SessionInv :=
    sessionInv_run _ hsplit.1
  have hinv : (sessionAfter behind rs lwjson
      (before ++ .publish topic totLen :: after)).SessionInv :=
    sessionInv_run _ hes
  have htopics₀ : (sessionAfter behind rs lwjson before).listen.topics = l :=
    (topics_run _).trans hlisted
  have htopics : (sessionAfter behind rs lwjson
      (before ++ .publish topic totLen :: after)).listen.topics = l :=
    (topics_run _).trans hlisted
  obtain ⟨hlt, hslot₀⟩ := publish_slot lwjson
    (sessionAfter behind rs lwjson before) topic totLen
  have hslot : ((sessionAfter behind rs lwjson
      (before ++ .publish topic totLen :: after)).arrival
        (sessionAfter behind rs lwjson before).published).slot =
      (sessionAfter behind rs lwjson before).listen.publishSlot topic totLen := by
    rw [← hslot₀, sessionAfter, EventMachine.run_append]
    exact slot_run (sessionInv_step hinv₀ hpub) hsplit.2.2 hlt
  rw [hooks_called hinv (htopics.trans htopics₀.symm) hslot hc hdrained,
    Routable, htopics₀]
  split
  · exact hagree.hooksFor_perm_iff topic
  · rw [CallsRegisteredHooks, List.nil_perm, List.map_eq_nil_iff]

/-! ## Two hooks of one topic, and a topic that is too long -/

def sharedTopicCalls : List (ListenCall ℕ) :=
  [⟨lit "cmd", 7, false, true, true⟩, ⟨lit "state", 8, true, true, true⟩,
    ⟨lit "cmd", 9, false, true, true⟩]

theorem topic_routing_iff_sharedTopic :
    FailuresChangeNothing none sharedTopicCalls ∧
      CallsRegisteredHooks (registrations none sharedTopicCalls).2 (lit "cmd")
        (((sessionAfter none sharedTopicCalls withoutJson
          ([] ++ .publish (lit "cmd") 2 :: [.data [111, 110] 1, .ready])).callsOf
            (sessionAfter none sharedTopicCalls withoutJson
              []).published).map (·.hook)) := by
  refine (topic_routing_iff none sharedTopicCalls withoutJson []
    [.data [111, 110] 1, .ready] (lit "cmd") 2 (by decide +kernel)
    (by decide +kernel) (by decide +kernel)).mpr ⟨?_, ?_⟩
  · exact ⟨nofun, nofun, nofun, trivial⟩
  · unfold Routable
    decide +kernel

/-- A topic of as many characters as its array has bytes. -/
def longTopic : CStr := List.replicate mqttMaxTopicSize 97

/-- The first call has no memory for its hook. -/
def longTopicCalls : List (ListenCall ℕ) :=
  [⟨lit "cmd", 7, false, true, false⟩, ⟨longTopic, 8, false, true, true⟩]

/-- The failed call leaves an entry behind, and the accepted one is never
called for. -/
theorem long_topic_not_routed :
    ¬FailuresChangeNothing none longTopicCalls ∧
      (machine withoutJson).Admits
        (MqttSession.init (registrations none longTopicCalls).1.listed)
        [.publish longTopic 2, .data [111, 110] 1, .ready] ∧
      ((sessionAfter none longTopicCalls withoutJson
        [.publish longTopic 2, .data [111, 110] 1, .ready]).arrival 0).complete =
          true ∧
      (sessionAfter none longTopicCalls withoutJson
        [.publish longTopic 2, .data [111, 110] 1,
          .ready]).listen.readyBuff = none ∧
      (registrations none longTopicCalls).2.map (·.hook) = [8] ∧
      ¬CallsRegisteredHooks (registrations none longTopicCalls).2 longTopic
        (((sessionAfter none longTopicCalls withoutJson
          [.publish longTopic 2, .data [111, 110] 1, .ready]).callsOf 0).map
            (·.hook)) := by
  refine ⟨fun h => ?_, by decide +kernel, by decide +kernel,
    by decide +kernel, by decide +kernel, ?_⟩
  · have hcount := congrArg MqttTopics.count (h.1 (by decide +kernel))
    exact absurd hcount (by decide +kernel)
  · unfold CallsRegisteredHooks
    decide +kernel

end Herak.Mqtt
