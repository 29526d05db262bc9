import Herak.Mqtt.Topics

/-!
# The table of topics as a list

Every call keeps the topics in the leading entries of the array.  A table of
this kind stands for a list, and here is what the functions of the table do to
that list.  A scan that stops in no entry of a full table is the only one that
leaves the array.
-/

namespace Herak.Mqtt

open CString

variable {Hook : Type*}

namespace MqttTopics

/-- The table holds the topics of the list in its leading entries. -/
structure Represents (c : MqttTopics Hook) (l : List (MqttTopic Hook)) :
    Prop where
  count_eq : c.count = l.length
  entry_eq : ∀ i, c.entry i = l[i]?

/-- The leading entries of the table. -/
def listed (c : MqttTopics Hook) : List (MqttTopic Hook) :=
  (((List.range mqttMaxTopics).map c.entry).takeWhile (·.isSome)).filterMap id

theorem entry_of_le (c : MqttTopics Hook) {i : ℕ} (hi : mqttMaxTopics ≤ i) :
    c.entry i = none :=
  dif_neg (Nat.not_lt.mpr hi)

theorem entry_set (c : MqttTopics Hook) {i : ℕ} (hi : i < mqttMaxTopics)
    (t : MqttTopic Hook) (j : ℕ) :
    (c.set i t).entry j = if j = i then some t else c.entry j := by
  by_cases hj : j < mqttMaxTopics
  · simp [entry, set, hj]
  · have hne : j ≠ i := by omega
    simp [entry, hj, hne]

theorem represents_init : Represents (init : MqttTopics Hook) [] where
  count_eq := rfl
  entry_eq := fun i => by
    simp only [entry, init, List.getElem?_nil]
    split <;> rfl

namespace Represents

variable {c : MqttTopics Hook} {l : List (MqttTopic Hook)}

theorem length_le (h : c.Represents l) : l.length ≤ mqttMaxTopics := by
  by_contra hlong
  have hend := h.entry_eq mqttMaxTopics
  rw [entry_of_le c le_rfl, List.getElem?_eq_getElem (by omega)] at hend
  exact nomatch hend

theorem set (h : c.Represents l) {i : ℕ} (hi : i < l.length)
    (t : MqttTopic Hook) : (c.set i t).Represents (l.set i t) where
  count_eq := by simpa [MqttTopics.set] using h.count_eq
  entry_eq := fun j => by
    rw [entry_set c (hi.trans_le h.length_le), h.entry_eq,
      List.getElem?_set]
    by_cases hj : j = i
    · simp [hj, hi]
    · simp [hj, Ne.symm hj]

theorem modify (h : c.Represents l) {i : ℕ} {t : MqttTopic Hook}
    (hi : l[i]? = some t) (f : MqttTopic Hook → MqttTopic Hook) :
    (c.set i (f t)).Represents (l.modify i f) := by
  obtain ⟨hlt, rfl⟩ := List.getElem?_eq_some_iff.mp hi
  rw [List.modify_eq_set_get f hlt]
  exact h.set hlt _

/-- A new topic goes behind the others. -/
theorem push (h : c.Represents l) (hl : l.length < mqttMaxTopics)
    (t : MqttTopic Hook) :
    ({ c.set c.count t with count := c.count + 1 } :
      MqttTopics Hook).Represents (l ++ [t]) where
  count_eq := by simp [h.count_eq]
  entry_eq := fun j => by
    have hset := entry_set c (h.count_eq ▸ hl) t j
    rw [h.count_eq] at hset
    have hentry :
        ({ c.set c.count t with count := c.count + 1 } :
          MqttTopics Hook).entry j = (c.set l.length t).entry j := by
      rw [← h.count_eq]
      rfl
    rw [hentry, hset, h.entry_eq]
    rcases lt_trichotomy j l.length with hj | rfl | hj
    · rw [if_neg hj.ne, List.getElem?_append_left hj]
    · simp
    · rw [if_neg hj.ne', List.getElem?_eq_none hj.le,
        List.getElem?_eq_none (by simpa using Nat.succ_le_of_lt hj)]

/-- The list says all about the entries and their number. -/
theorem unique (h : c.Represents l) {c' : MqttTopics Hook}
    (h' : c'.Represents l) (hsub : c'.subscribe = c.subscribe)
    (hstate : c'.state = c.state) : c' = c := by
  obtain ⟨topics, count, subscribe, state⟩ := c
  obtain ⟨topics', count', subscribe', state'⟩ := c'
  obtain rfl : count' = count := h'.count_eq.trans h.count_eq.symm
  obtain rfl : subscribe' = subscribe := hsub
  obtain rfl : state' = state := hstate
  congr 1
  funext i
  have hi := (h'.entry_eq i.val).trans (h.entry_eq i.val).symm
  simpa [entry, i.isLt] using hi

theorem map_entry (h : c.Represents l) :
    (List.range mqttMaxTopics).map c.entry =
      l.map some ++ List.replicate (mqttMaxTopics - l.length) none := by
  have hle := h.length_le
  refine List.ext_getElem? fun i => ?_
  rw [List.getElem?_map, List.getElem?_append, List.getElem?_map,
    List.length_map, List.getElem?_replicate]
  by_cases hi : i < mqttMaxTopics
  · rw [List.getElem?_range hi, Option.map_some, h.entry_eq]
    by_cases hl : i < l.length
    · simp [hl]
    · rw [if_neg hl, if_pos (by omega), List.getElem?_eq_none (by omega)]
  · rw [List.getElem?_eq_none (by simpa using hi), if_neg (by omega),
      if_neg (by omega)]
    rfl

/-- A table is read back as the list that it holds. -/
theorem listed_eq (h : c.Represents l) : c.listed = l := by
  rw [listed, h.map_entry, List.takeWhile_append_of_pos (by simp)]
  cases hn : mqttMaxTopics - l.length with
  | zero => simp
  | succ n => simp [List.replicate_succ]

/-! ## Scans -/

/-- A scan from an entry stops where the list says, as long as the scan of a
full table either may look behind the array and stops there, or must not look
at all. -/
theorem scanFrom_eq (h : c.Represents l) (beyond : Beyond Hook)
    (inRange : ℕ → Bool) (stop : MqttTopic Hook → Bool)
    (hin : ∀ i < mqttMaxTopics, inRange i = true)
    (hend : beyond = none ∨ inRange mqttMaxTopics = false)
    (fuel i : ℕ) (hi : i ≤ l.length) (hfuel : mqttMaxTopics < fuel + i) :
    c.scanFrom beyond inRange stop fuel i =
      match (l.drop i).findIdx? stop with
      | some k => some (i + k)
      | none =>
          if l.length < mqttMaxTopics then some l.length
          else beyond.map fun _ => mqttMaxTopics := by
  have hle := h.length_le
  induction fuel generalizing i with
  | zero => omega
  | succ fuel ih =>
      rcases hi.lt_or_eq with hlt | rfl
      · have hread : c.read beyond i = some (some l[i]) := by
          rw [read, if_pos (by omega), h.entry_eq,
            List.getElem?_eq_getElem hlt]
        simp only [scanFrom, hread, hin i (by omega),
          List.drop_eq_getElem_cons hlt, List.findIdx?_cons]
        cases hstop : stop l[i] with
        | true => simp
        | false =>
            have hrest := ih (i + 1) hlt (by omega)
            cases hk : (l.drop (i + 1)).findIdx? stop with
            | none => simpa [hk] using hrest
            | some k =>
                rw [hk] at hrest
                simpa [Nat.add_assoc, Nat.add_comm 1] using hrest
      · rw [List.drop_length, List.findIdx?_nil]
        by_cases hfull : l.length < mqttMaxTopics
        · have hread : c.read beyond l.length = some none := by
            rw [read, if_pos hfull, h.entry_eq, List.getElem?_length]
          simp [scanFrom, hread, hfull]
        · have hread : c.read beyond l.length = beyond := if_neg hfull
          have hlen : l.length = mqttMaxTopics := by omega
          rw [hlen] at hread ⊢
          simp only [scanFrom, hread, lt_irrefl, if_false]
          match beyond, hend with
          | none, _ => rfl
          | some none, _ => rfl
          | some (some t), .inr hout => simp [hout]

/-- Where a scan from the first entry stops. -/
theorem scan_eq (h : c.Represents l) (beyond : Beyond Hook)
    (inRange : ℕ → Bool) (stop : MqttTopic Hook → Bool)
    (hin : ∀ i < mqttMaxTopics, inRange i = true)
    (hend : beyond = none ∨ inRange mqttMaxTopics = false) :
    c.scan beyond inRange stop =
      match l.findIdx? stop with
      | some k => some k
      | none =>
          if l.length < mqttMaxTopics then some l.length
          else beyond.map fun _ => mqttMaxTopics := by
  have := h.scanFrom_eq beyond inRange stop hin hend (mqttMaxTopics + 1) 0
    (by omega) (by omega)
  simpa [scan] using this

end Represents

end MqttTopics

/-! ## Calls on the list -/

/-- The topic with one hook more. -/
def MqttTopic.addHook (t : MqttTopic Hook) (hook : Hook) (json : Bool) :
    MqttTopic Hook :=
  { t with hooks := hook :: t.hooks, json := json || t.json }

def MqttTopic.unsubscribe (t : MqttTopic Hook) : MqttTopic Hook :=
  { t with subscribed := false }

def MqttTopic.subscribe (t : MqttTopic Hook) : MqttTopic Hook :=
  { t with subscribed := true }

/-- A call of `mqtt_topic_listen` with the outcomes of its allocations. -/
structure ListenCall (Hook : Type*) where
  topic : CStr
  hook : Hook
  json : Bool
  allocTopic : Bool
  allocHook : Bool

namespace ListenCall

def call (r : ListenCall Hook) (beyond : Beyond Hook) (c : MqttTopics Hook) :
    Option (ℤ × MqttTopics Hook) :=
  mqttTopicListen beyond c r.topic r.hook r.json r.allocTopic r.allocHook

/-- The topic is in the list. -/
def Listens (r : ListenCall Hook) (l : List (MqttTopic Hook)) : Prop :=
  ∃ t ∈ l, t.topic = r.topic

/-- The list after the call, and its result. -/
def onList (r : ListenCall Hook) (l : List (MqttTopic Hook)) :
    ℤ × List (MqttTopic Hook) :=
  match l.findIdx? (sameTopic r.topic) with
  | some k =>
      if r.allocHook then (0, l.modify k (·.addHook r.hook r.json)) else (-1, l)
  | none =>
      if l.length < mqttMaxTopics ∧ r.allocTopic = true then
        if r.allocHook then
          (0, l ++ [(newTopic r.topic).addHook r.hook r.json])
        else (-1, l ++ [newTopic r.topic])
      else (-1, l)

end ListenCall

theorem sameTopic_iff (topic : CStr) (t : MqttTopic Hook) :
    sameTopic topic t = true ↔ t.topic = topic := by
  simp only [sameTopic, Bool.and_eq_true, beq_iff_eq, strcmp_eq_zero_iff]
  constructor
  · rintro ⟨-, rfl⟩
    rfl
  · rintro rfl
    exact ⟨rfl, rfl⟩

theorem findIdx?_sameTopic_eq_none (topic : CStr) (l : List (MqttTopic Hook)) :
    l.findIdx? (sameTopic topic) = none ↔ ∀ t ∈ l, t.topic ≠ topic := by
  rw [List.findIdx?_eq_none_iff]
  refine forall₂_congr fun t _ => ?_
  rw [ne_eq, ← sameTopic_iff, Bool.not_eq_true]

namespace MqttTopics.Represents

variable {c : MqttTopics Hook} {l : List (MqttTopic Hook)}

theorem addHook_eq (h : c.Represents l) {i : ℕ} {t : MqttTopic Hook}
    (hi : l[i]? = some t) (hook : Hook) (json allocHook : Bool) :
    c.addHook i hook json allocHook =
      if allocHook then (0, c.set i (t.addHook hook json)) else (-1, c) := by
  simp only [addHook, (h.entry_eq i).trans hi]
  cases allocHook <;> rfl

/-- `mqtt_topic_listen` is a call on the list, unless it looks behind a full
table for a topic that is not there. -/
theorem listen (h : c.Represents l) (beyond : Beyond Hook)
    {r : ListenCall Hook}
    (hroom : beyond ≠ none ∨ l.length < mqttMaxTopics ∨ r.Listens l) :
    ∃ c', r.call beyond c = some ((r.onList l).1, c') ∧
      c'.Represents (r.onList l).2 ∧ c'.subscribe = c.subscribe ∧
      c'.state = c.state := by
  have hle := h.length_le
  have hscan := h.scan_eq beyond (· < mqttMaxTopics) (sameTopic r.topic)
    (fun i hi => decide_eq_true hi) (.inr (decide_eq_false (lt_irrefl _)))
  simp only [ListenCall.call, mqttTopicListen, hscan, ListenCall.onList]
  cases hfind : l.findIdx? (sameTopic r.topic) with
  | some k =>
      obtain ⟨hk, -, -⟩ := List.findIdx?_eq_some_iff_getElem.mp hfind
      have hget : l[k]? = some l[k] := List.getElem?_eq_getElem hk
      have hentry : ¬(mqttMaxTopics ≤ k ∨ c.entry k = none) := by
        rw [h.entry_eq, hget]
        simpa using hk.trans_le hle
      simp only [hentry, if_false, h.addHook_eq hget]
      cases r.allocHook with
      | false => exact ⟨c, rfl, h, rfl, rfl⟩
      | true =>
          exact ⟨_, rfl, h.modify hget (·.addHook r.hook r.json), rfl, rfl⟩
  | none =>
      have hnot : ¬r.Listens l := by
        rintro ⟨t, ht, htopic⟩
        exact (findIdx?_sameTopic_eq_none _ _).mp hfind t ht htopic
      by_cases hfull : l.length < mqttMaxTopics
      · have hempty : c.entry l.length = none := by
          rw [h.entry_eq, List.getElem?_length]
        have hfree : ¬(mqttMaxTopics ≤ c.count ∨ c.entry c.count ≠ none) := by
          rw [h.count_eq, hempty]
          simpa using hfull
        simp only [hfull, if_true, hempty, or_true, hfree, if_false]
        cases r.allocTopic with
        | false => exact ⟨c, rfl, h, rfl, rfl⟩
        | true =>
            have hpush := h.push hfull (newTopic r.topic)
            have hlast : (l ++ [newTopic r.topic])[c.count]? =
                some (newTopic r.topic) := by
              rw [h.count_eq, List.getElem?_concat_length]
            simp only [hpush.addHook_eq hlast]
            cases r.allocHook with
            | false => exact ⟨_, rfl, hpush, rfl, rfl⟩
            | true =>
                have hmod := hpush.modify hlast (·.addHook r.hook r.json)
                rw [h.count_eq, List.modify_eq_set_get _ (by simp)] at hmod
                exact ⟨_, rfl, by simpa [h.count_eq] using hmod, rfl, rfl⟩
      · have hend : beyond ≠ none :=
          hroom.resolve_right (not_or.mpr ⟨hfull, hnot⟩)
        obtain ⟨p, rfl⟩ := Option.ne_none_iff_exists'.mp hend
        have hcount : mqttMaxTopics ≤ c.count := by
          rw [h.count_eq]
          exact Nat.le_of_not_lt hfull
        simp only [hfull, if_false, Option.map_some, le_refl, true_or, if_true,
          hcount]
        exact ⟨c, rfl, h, rfl, rfl⟩

theorem listen_out_of_bounds (h : c.Represents l) {r : ListenCall Hook}
    (hfull : l.length = mqttMaxTopics) (hnot : ¬r.Listens l) :
    r.call none c = none := by
  have hscan := h.scan_eq none (· < mqttMaxTopics) (sameTopic r.topic)
    (fun i hi => decide_eq_true hi) (.inl rfl)
  have hfind : l.findIdx? (sameTopic r.topic) = none := by
    rw [findIdx?_sameTopic_eq_none]
    exact fun t ht htopic => hnot ⟨t, ht, htopic⟩
  rw [hfind, if_neg (by omega)] at hscan
  simp only [ListenCall.call, mqttTopicListen, hscan]
  rfl

/-- One round of the loop that clears the flags. -/
theorem clearFrom_round {done todo : List (MqttTopic Hook)}
    {t : MqttTopic Hook} (h : c.Represents (done ++ t :: todo)) (fuel : ℕ) :
    ∃ c', clearFrom (fuel + 1) done.length c =
        clearFrom fuel (done ++ [t.unsubscribe]).length c' ∧
      c'.Represents ((done ++ [t.unsubscribe]) ++ todo) ∧
      c'.state = c.state := by
  have hlt : done.length < mqttMaxTopics := by
    have hle := h.length_le
    rw [List.length_append, List.length_cons] at hle
    omega
  have hget : (done ++ t :: todo)[done.length]? = some t := by simp
  have hread : c.read none done.length = some (some t) := by
    rw [read, if_pos hlt, h.entry_eq, hget]
  refine ⟨c.set done.length t.unsubscribe, ?_, ?_, rfl⟩
  · simp only [clearFrom, hread]
    rw [if_pos hlt.le, List.length_append]
    rfl
  · simpa using h.set (i := done.length) (by simp) t.unsubscribe

/-- The loop clears the flags from an entry on. -/
theorem clearFrom_eq (todo : List (MqttTopic Hook)) :
    ∀ (done : List (MqttTopic Hook)) (c : MqttTopics Hook) (fuel : ℕ),
      c.Represents (done ++ todo) →
      (done ++ todo).length < mqttMaxTopics → todo.length < fuel →
      ∃ c', clearFrom fuel done.length c = some c' ∧
        c'.Represents (done ++ todo.map (·.unsubscribe)) ∧
        c'.state = c.state := by
  induction todo with
  | nil =>
      intro done c fuel h hlen hfuel
      obtain ⟨fuel, rfl⟩ := Nat.exists_eq_succ_of_ne_zero (by omega : fuel ≠ 0)
      rw [List.append_nil] at h hlen
      have hread : c.read none done.length = some none := by
        rw [read, if_pos hlen, h.entry_eq, List.getElem?_length]
      exact ⟨c, by simp [clearFrom, hread], by simpa using h, rfl⟩
  | cons t todo ih =>
      intro done c fuel h hlen hfuel
      obtain ⟨fuel, rfl⟩ := Nat.exists_eq_succ_of_ne_zero (by omega : fuel ≠ 0)
      obtain ⟨c₁, hround, hrep₁, hstate₁⟩ := h.clearFrom_round fuel
      obtain ⟨c', hrun, hrep, hstate⟩ := ih _ c₁ fuel hrep₁
        (by simpa using hlen) (by simpa using hfuel)
      exact ⟨c', hround.trans hrun, by simpa using hrep, hstate.trans hstate₁⟩

/-- `mqtt_subscribe_all`, with room in the table. -/
theorem subscribeAll (h : c.Represents l) (hlen : l.length < mqttMaxTopics) :
    ∃ c', mqttSubscribeAll c = some c' ∧
      c'.Represents (l.map (·.unsubscribe)) ∧ c'.subscribe = 0 ∧
      c'.state = c.state := by
  obtain ⟨c', hrun, hrep, hstate⟩ :=
    clearFrom_eq l [] c (mqttMaxTopics + 1) h hlen (by omega)
  refine ⟨{ c' with subscribe := 0 }, ?_, ⟨hrep.count_eq, hrep.entry_eq⟩, rfl,
    hstate⟩
  rw [mqttSubscribeAll]
  rw [List.length_nil] at hrun
  rw [hrun, Option.map_some]

/-- With a full table the loop goes one entry too far. -/
theorem clearFrom_out_of_bounds (todo : List (MqttTopic Hook)) :
    ∀ (done : List (MqttTopic Hook)) (c : MqttTopics Hook) (fuel : ℕ),
      c.Represents (done ++ todo) →
      (done ++ todo).length = mqttMaxTopics → todo.length < fuel →
      clearFrom fuel done.length c = none := by
  induction todo with
  | nil =>
      intro done c fuel h hlen hfuel
      obtain ⟨fuel, rfl⟩ := Nat.exists_eq_succ_of_ne_zero (by omega : fuel ≠ 0)
      rw [List.append_nil] at hlen
      have hread : c.read none done.length = none := if_neg (by omega)
      simp [clearFrom, hread]
  | cons t todo ih =>
      intro done c fuel h hlen hfuel
      obtain ⟨fuel, rfl⟩ := Nat.exists_eq_succ_of_ne_zero (by omega : fuel ≠ 0)
      obtain ⟨c₁, hround, hrep₁, -⟩ := h.clearFrom_round fuel
      exact hround.trans
        (ih _ c₁ fuel hrep₁ (by simpa using hlen) (by simpa using hfuel))

theorem subscribeAll_out_of_bounds (h : c.Represents l)
    (hlen : l.length = mqttMaxTopics) : mqttSubscribeAll c = none := by
  have hrun := clearFrom_out_of_bounds l [] c (mqttMaxTopics + 1) h hlen
    (by omega)
  rw [List.length_nil] at hrun
  rw [mqttSubscribeAll, hrun, Option.map_none]

/-- `mqtt_send_subscribe` takes the first topic that is not subscribed. -/
theorem sendSubscribe_eq (h : c.Represents l) (hconn : c.state = .connected)
    {k : ℕ} {t : MqttTopic Hook}
    (hk : l.findIdx? (!·.subscribed) = some k) (ht : l[k]? = some t)
    (ret : ℤ) :
    mqttSendSubscribe c ret =
      if strlen t.topic < 1 then some (-1, none, c)
      else if ret = 0 then
        some (0, some k,
          { c.set k t.subscribe with subscribe := c.subscribe + 1 })
      else some (ret, some k, c) := by
  have hscan := h.scan_eq none (· ≤ mqttMaxTopics) (!·.subscribed)
    (fun i hi => decide_eq_true hi.le) (.inl rfl)
  rw [hk] at hscan
  simp only [mqttSendSubscribe, hconn, ne_eq, not_true_eq_false, if_false,
    hscan, (h.entry_eq k).trans ht]
  rfl

/-- With nothing to subscribe to it fails, if the table has room. -/
theorem sendSubscribe_idle (h : c.Represents l) (hconn : c.state = .connected)
    (hk : l.findIdx? (!·.subscribed) = none) (ret : ℤ) :
    mqttSendSubscribe c ret =
      if l.length < mqttMaxTopics then some (-1, none, c) else none := by
  have hscan := h.scan_eq none (· ≤ mqttMaxTopics) (!·.subscribed)
    (fun i hi => decide_eq_true hi.le) (.inl rfl)
  rw [hk] at hscan
  by_cases hlen : l.length < mqttMaxTopics
  · rw [if_pos hlen] at hscan ⊢
    have hentry : c.entry l.length = none := by
      rw [h.entry_eq, List.getElem?_length]
    simp only [mqttSendSubscribe, hconn, ne_eq, not_true_eq_false, if_false,
      hscan, hentry]
  · rw [if_neg hlen] at hscan ⊢
    simp only [mqttSendSubscribe, hconn, ne_eq, not_true_eq_false, if_false,
      hscan]
    rfl

end MqttTopics.Represents

end Herak.Mqtt
