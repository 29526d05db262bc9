import Herak.Mqtt.Payload
import Herak.Ssr.Schedule
import Herak.Support.Decimal

/-!
# Status messages of the relays

`ssrRun` ends with the status message of one relay.  A relay that has changed
what its message says asks for the next one with `force`, which only a message
that was published takes back.  So a relay that does not ask has its present
status in the last message that was published.
-/

namespace Herak.Ssr

open CInt CString
open Mqtt (addMqttMsgs addMqttMsgs_append addMqttMsgs_of_length_le
  mqttPayload)

abbrev mqttDelayMs : ℕ := 20000
abbrev mqttDataLen : ℕ := 256
abbrev timeStr : ℕ := 64

/-- What a status message reports; the times are in seconds. -/
structure SsrStatus where
  on : Bool
  runTime : ℤ
  delay : ℤ
  deriving DecidableEq

def Relay.status (onState : UInt8) (r : Relay) : SsrStatus where
  on := (if r.stateActual then 1 else 0) == onState
  runTime := r.timeRemainMs.tdiv 1000
  delay := r.delayRemainMs.tdiv 1000

/-- The pieces of the message of relay `i`. -/
def statusPieces (timestamp : CStr) (i : RelayIdx) (st : SsrStatus) :
    List CStr :=
  [lit "\x7b",
    lit "\"timestamp\": \"" ++ timestamp ++ lit "\"",
    lit ",\"ssr_id\": \"" ++ decimal i ++ lit "\"",
    lit ",\"ssr_state\": \"" ++ decimal st.on.toNat ++ lit "\"",
    lit ",\"run_time\": \"" ++ decimalInt st.runTime ++ lit "\"",
    lit ",\"delay\": \"" ++ decimalInt st.delay ++ lit "\"",
    lit "\x7d"]

/-- The whole message. -/
def statusText (timestamp : CStr) (i : RelayIdx) (st : SsrStatus) : CStr :=
  (statusPieces timestamp i st).flatten

/-- What a turn of `ssr_mqtt_send` reads and is answered; `published` is the
result of `mqtt_msg_publish`. -/
structure SendTurn where
  discoverySent : Bool
  now : ℕ
  timestamp : CStr
  published : ℤ
  sentAt : ℕ

/-- The relays with the `last_send` of their state components, the relay whose
turn it is, and the last message that was published for each relay. -/
structure SsrMqtt where
  ssr : SsrState
  midx : ℕ
  lastSend : RelayIdx → ℕ
  published : RelayIdx → Option CStr

namespace SsrMqtt

/-- `mqtt_msg_component_publish` for the state component of relay `i`. -/
def mqttMsgComponentPublish (s : SsrMqtt) (turn : SendTurn) (i : RelayIdx)
    (r : Relay) (message : CStr) : ℤ × SsrMqtt :=
  if !turn.discoverySent then (-1, s)
  else if turn.published = 0 then
    (0,
      { s with
        ssr := s.ssr.setRelay i { r with force := false }
        lastSend := Function.update s.lastSend i turn.sentAt
        published := Function.update s.published i (some message) })
  else (turn.published, s)

/-- `ssr_mqtt_data_send` for the state component, the only one it is called
for. -/
def ssrMqttDataSend (s : SsrMqtt) (turn : SendTurn) (idx : ℕ) : ℤ × SsrMqtt :=
  if h : idx < maxSsrCount then
    match s.ssr.relays ⟨idx, h⟩ with
    | none => (-1, s)
    | some r =>
        if !r.force ∧ subU64 turn.now (s.lastSend ⟨idx, h⟩) < mqttDelayMs then
          (-1, s)
        else
          match addMqttMsgs mqttDataLen []
              (statusPieces turn.timestamp ⟨idx, h⟩
                (r.status s.ssr.onState)) with
          | none => (-1, s)
          | some payload =>
              s.mqttMsgComponentPublish turn ⟨idx, h⟩ r
                (mqttPayload mqttDataLen payload)
  else (-1, s)

/-- The loop of `ssr_mqtt_send`, for at most `fuel` rounds. -/
def ssrMqttSendLoop (turn : SendTurn) : ℕ → SsrMqtt → SsrMqtt
  | 0, s => s
  | fuel + 1, s =>
      let s := if maxSsrCount ≤ s.midx then { s with midx := 0 } else s
      let i := s.midx
      let next := { s with midx := i + 1 }
      if ∃ h : i < maxSsrCount, (s.ssr.relays ⟨i, h⟩).isSome then
        (next.ssrMqttDataSend turn i).2
      else ssrMqttSendLoop turn fuel next

/-- `ssr_mqtt_send` -/
def ssrMqttSend (s : SsrMqtt) (turn : SendTurn) : SsrMqtt :=
  if turn.discoverySent then ssrMqttSendLoop turn maxSsrCount s else s

end SsrMqtt

inductive StatusEvent
  | run (now : ℕ) (clock : RelayIdx → ℕ) (turn : SendTurn)
  | set (params : CStr) (clock : ℕ)
  | api (id : UInt8) (state : Bool) (time delay : UInt32) (clock : ℕ)
  | reset (clock : RelayIdx → ℕ)

namespace SsrMqtt

def step (s : SsrMqtt) : StatusEvent → SsrMqtt
  | .run now clock turn =>
      { s with ssr := ssrRun s.ssr now clock }.ssrMqttSend turn
  | .set params clock => { s with ssr := (cmdSsrSet s.ssr params clock).2 }
  | .api id state time delay clock =>
      { s with
        ssr := (ssrApiStateSet s.ssr id.toNat state time.toNat delay.toNat
          clock).2 }
  | .reset clock => { s with ssr := ssrResetAll s.ssr clock }

/-- The text of the time was printed into a buffer of `timeStr` bytes. -/
def Enabled (_ : SsrMqtt) : StatusEvent → Prop
  | .run _ _ turn => turn.timestamp.length < timeStr
  | .set _ _ | .api _ _ _ _ _ | .reset _ => True

instance (s : SsrMqtt) : ∀ e, Decidable (s.Enabled e)
  | .run _ _ turn =>
      inferInstanceAs (Decidable (turn.timestamp.length < timeStr))
  | .set _ _ | .api _ _ _ _ _ | .reset _ => .isTrue trivial

def machine : EventMachine SsrMqtt StatusEvent where
  step := step
  enabled := Enabled

instance (s : SsrMqtt) (e : StatusEvent) : Decidable (machine.enabled s e) :=
  inferInstanceAs (Decidable (s.Enabled e))

/-- The module after its start, when nothing has been published. -/
def init (pins : RelayIdx → Option ℤ) (onState : UInt8) (gpio : ℤ → Bool) :
    SsrMqtt where
  ssr := ssrInit pins onState gpio
  midx := 0
  lastSend := fun _ => 0
  published := fun _ => none

end SsrMqtt

/-! ## The message -/

/-- The remaining times are `int`s that are not negative. -/
def Relay.InRange (r : Relay) : Prop :=
  (0 ≤ r.timeRemainMs ∧ r.timeRemainMs < 2 ^ 31) ∧
    0 ≤ r.delayRemainMs ∧ r.delayRemainMs < 2 ^ 31

/-- The times of a message have at most seven digits. -/
def SsrStatus.Short (st : SsrStatus) : Prop :=
  (0 ≤ st.runTime ∧ st.runTime < 10 ^ 7) ∧ 0 ≤ st.delay ∧ st.delay < 10 ^ 7

theorem Relay.InRange.status_short {r : Relay} (h : r.InRange)
    (onState : UInt8) : (r.status onState).Short := by
  obtain ⟨⟨ht0, ht⟩, hd0, hd⟩ := h
  have hseconds : ∀ ms : ℤ, 0 ≤ ms → ms < 2 ^ 31 →
      0 ≤ ms.tdiv 1000 ∧ ms.tdiv 1000 < 10 ^ 7 := by
    intro ms h0 h
    rw [Int.tdiv_eq_ediv_of_nonneg h0]
    omega
  exact ⟨hseconds _ ht0 ht, hseconds _ hd0 hd⟩

theorem statusText_length {timestamp : CStr} (i : RelayIdx) {st : SsrStatus}
    (htime : timestamp.length < timeStr) (hst : st.Short) :
    (statusText timestamp i st).length < mqttDataLen := by
  obtain ⟨⟨hrun0, hrun⟩, hdelay0, hdelay⟩ := hst
  have hid : (decimal i).length ≤ 2 :=
    (decimal_length_le_iff (by decide)).mpr (i.isLt.trans (by decide))
  have hon : (decimal st.on.toNat).length ≤ 1 :=
    (decimal_length_le_iff (by decide)).mpr
      ((Bool.toNat_le _).trans_lt (by decide))
  have hruntime := decimalInt_length_le (by decide) hrun0 hrun
  have hdelaytime := decimalInt_length_le (by decide) hdelay0 hdelay
  have htime : timestamp.length < 64 := htime
  change (statusText timestamp i st).length < 256
  simp [statusText, statusPieces, lit]
  omega

/-- A message is neither refused nor cut. -/
theorem status_message {timestamp : CStr} (i : RelayIdx) {st : SsrStatus}
    (htime : timestamp.length < timeStr) (hst : st.Short) :
    addMqttMsgs mqttDataLen [] (statusPieces timestamp i st) =
        some (statusText timestamp i st) ∧
      mqttPayload mqttDataLen (statusText timestamp i st) =
        statusText timestamp i st := by
  have hlen := statusText_length i htime hst
  exact ⟨addMqttMsgs_of_length_le [] hlen.le,
    List.take_of_length_le (Nat.le_sub_one_of_lt hlen)⟩

/-! ## What a step changes of a relay -/

/-- Whatever the message of a relay says, it may change only together with a
request for the next message. -/
def Relay.Marks (onState : UInt8) (r r' : Relay) : Prop :=
  r'.force = false → r.force = false ∧ r'.status onState = r.status onState

theorem Relay.Marks.refl (onState : UInt8) (r : Relay) : r.Marks onState r :=
  fun h => ⟨h, rfl⟩

theorem Relay.Marks.trans {onState : UInt8} {r r' r'' : Relay}
    (h : r.Marks onState r') (h' : r'.Marks onState r'') :
    r.Marks onState r'' := by
  intro hforce
  obtain ⟨hforce', hstatus'⟩ := h' hforce
  obtain ⟨hforce, hstatus⟩ := h hforce'
  exact ⟨hforce, hstatus'.trans hstatus⟩

theorem marks_set (onState : UInt8) (r : Relay) (state : Bool)
    (time delay clock : ℕ) :
    r.Marks onState (r.set state time delay clock) := by
  intro hforce
  by_cases hdelay : delay = 0
  · simp only [Relay.set, if_pos hdelay, Bool.or_eq_false_iff, bne_eq_false_iff_eq]
      at hforce
    obtain ⟨⟨hforce, hactual⟩, -⟩ := hforce
    refine ⟨hforce, ?_⟩
    simp [Relay.set, Relay.status, hdelay, hactual]
  · simp only [Relay.set, if_neg hdelay, Bool.or_eq_false_iff] at hforce
    refine ⟨hforce.1, ?_⟩
    simp [Relay.set, Relay.status, hdelay]

theorem marks_remain (onState : UInt8) (r : Relay) (time delay : ℤ) :
    r.Marks onState (r.remain time delay) := by
  intro hforce
  simp only [Relay.remain, Bool.or_eq_false_iff, bne_eq_false_iff_eq] at hforce
  obtain ⟨⟨hforce, htime⟩, hdelay⟩ := hforce
  refine ⟨hforce, ?_⟩
  simp only [Relay.status, Relay.remain, htime, hdelay]

theorem inRange_remain (r : Relay) {time delay : ℤ} (ht : time < 2 ^ 31)
    (hd : delay < 2 ^ 31) : (r.remain time delay).InRange :=
  ⟨⟨le_max_left _ _, max_lt (by decide) ht⟩, le_max_left _ _,
    max_lt (by decide) hd⟩

theorem inRange_set {r : Relay} (h : r.InRange) (state : Bool)
    (time delay clock : ℕ) : (r.set state time delay clock).InRange := by
  unfold Relay.set
  split <;> exact h

/-- The relays of `s'` are those of `s`, and those that say something else ask
for a message. -/
structure Marked (s s' : SsrState) : Prop where
  onState : s'.onState = s.onState
  relays : ∀ i r', s'.relays i = some r' →
    ∃ r, s.relays i = some r ∧ r.Marks s.onState r' ∧
      (r.InRange → r'.InRange)

theorem Marked.refl (s : SsrState) : Marked s s :=
  ⟨rfl, fun _ r h => ⟨r, h, .refl _ r, id⟩⟩

theorem Marked.trans {s s' s'' : SsrState} (h : Marked s s')
    (h' : Marked s' s'') : Marked s s'' := by
  refine ⟨h'.onState.trans h.onState, ?_⟩
  intro i r'' hr''
  obtain ⟨r', hr', hmarks', hrange'⟩ := h'.relays i r'' hr''
  obtain ⟨r, hr, hmarks, hrange⟩ := h.relays i r' hr'
  rw [h.onState] at hmarks'
  exact ⟨r, hr, hmarks.trans hmarks', hrange' ∘ hrange⟩

theorem marked_gpioPut (s : SsrState) (pin : ℤ) (level : Bool) :
    Marked s (s.gpioPut pin level) :=
  ⟨rfl, fun _ r h => ⟨r, h, .refl _ r, id⟩⟩

theorem marked_setRelay {s : SsrState} {i : RelayIdx} {r r' : Relay}
    (hr : s.relays i = some r) (hmarks : r.Marks s.onState r')
    (hrange : r.InRange → r'.InRange) : Marked s (s.setRelay i r') := by
  refine ⟨rfl, ?_⟩
  intro k new hnew
  by_cases hk : k = i
  · subst hk
    rw [setRelay_self] at hnew
    obtain rfl := Option.some.inj hnew
    exact ⟨r, hr, hmarks, hrange⟩
  · rw [setRelay_of_ne _ _ hk] at hnew
    exact ⟨new, hnew, .refl _ new, id⟩

theorem marked_stateSet (s : SsrState) (id : ℕ) (state : Bool)
    (time delay clock : ℕ) :
    Marked s (ssrStateSet s id state time delay clock).2 := by
  by_cases hid : id < maxSsrCount
  · cases hr : s.relays ⟨id, hid⟩ with
    | none =>
        rw [ssrStateSet_none (i := ⟨id, hid⟩) hr]
        exact .refl s
    | some r =>
        rw [ssrStateSet_some (i := ⟨id, hid⟩) hr]
        have hmarks := marks_set s.onState r state time delay clock
        have hrange := fun h : r.InRange => inRange_set h state time delay clock
        split
        · exact (marked_gpioPut s r.gpioPin state).trans
            (marked_setRelay hr hmarks hrange)
        · exact marked_setRelay hr hmarks hrange
  · rw [ssrStateSet, dif_neg hid]
    exact .refl s

theorem marked_remainTimes (s : SsrState) (i : RelayIdx) {time delay : ℤ}
    (ht : time < 2 ^ 31) (hd : delay < 2 ^ 31) :
    Marked s (ssrStateRemainTimes s i time delay) := by
  cases hr : s.relays i with
  | none =>
      simp only [ssrStateRemainTimes, hr]
      exact .refl s
  | some r =>
      rw [ssrStateRemainTimes_some hr]
      exact marked_setRelay hr (marks_remain _ r time delay)
        fun _ => inRange_remain r ht hd

theorem marked_runRelay (now clock : ℕ) (s : SsrState) (i : RelayIdx) :
    Marked s (ssrRunRelay now clock s i) := by
  have hset : ∀ (p : Prop) [Decidable p] state time,
      Marked s (if p then (ssrStateSet s i state time 0 clock).2 else s) := by
    intro p _ state time
    split
    · exact marked_stateSet s i state time 0 clock
    · exact .refl s
  unfold ssrRunRelay
  split
  · exact .refl s
  next r _ =>
    split
    · exact (hset _ _ _).trans
        (marked_remainTimes _ i (toInt32_lt _) (toInt32_lt _))
    · split
      · exact (hset _ _ _).trans
          (marked_remainTimes _ i (toInt32_lt _) (toInt32_lt _))
      · exact marked_remainTimes s i (toInt32_lt _) (toInt32_lt _)

theorem marked_resetRelay (clock : ℕ) (s : SsrState) (i : RelayIdx) :
    Marked s (ssrResetRelay clock s i) := by
  unfold ssrResetRelay
  split
  · exact .refl s
  next r hr =>
    refine (marked_gpioPut s r.gpioPin (s.level false)).trans
      (marked_setRelay hr ?_ id)
    intro hforce
    cases hforce

theorem marked_foldl {f : SsrState → RelayIdx → SsrState}
    (hf : ∀ s i, Marked s (f s i)) (is : List RelayIdx) (s : SsrState) :
    Marked s (is.foldl f s) := by
  induction is generalizing s with
  | nil => exact .refl s
  | cons i is ih => exact (hf s i).trans (ih (f s i))

theorem marked_cmdSet (s : SsrState) (params : CStr) (clock : ℕ) :
    Marked s (cmdSsrSet s params clock).2 := by
  have hset : Marked s (cmdSsrSetState s params clock).2 := by
    unfold cmdSsrSetState
    split
    · exact .refl s
    · exact marked_stateSet s _ _ _ _ clock
  unfold cmdSsrSet
  split
  · exact .refl s
  · dsimp only
    split <;> exact hset

/-! ## The messages along a run -/

/-- Relay `i` asks for a message, or the last one has its present status. -/
def Reported (onState : UInt8) (s : SsrMqtt) (i : RelayIdx) (r : Relay) :
    Prop :=
  r.force = false → ∃ timestamp,
    s.published i = some (statusText timestamp i (r.status onState))

structure StatusInv (onState : UInt8) (s : SsrMqtt) : Prop where
  level : s.ssr.onState = onState
  relays : ∀ i r, s.ssr.relays i = some r → r.InRange ∧ Reported onState s i r

section Run

variable {onState : UInt8} {s : SsrMqtt} {turn : SendTurn}

theorem StatusInv.marked (h : StatusInv onState s) {ssr : SsrState}
    (hssr : Marked s.ssr ssr) : StatusInv onState { s with ssr := ssr } := by
  refine ⟨hssr.onState.trans h.level, ?_⟩
  intro i r' hr'
  obtain ⟨r, hr, hmarks, hrange⟩ := hssr.relays i r' hr'
  obtain ⟨hr, hreported⟩ := h.relays i r hr
  refine ⟨hrange hr, ?_⟩
  intro hforce
  rw [h.level] at hmarks
  obtain ⟨hforce, hstatus⟩ := hmarks hforce
  rw [hstatus]
  exact hreported hforce

/-- A published message has the status of its relay, and concerns no other. -/
theorem statusInv_publish (h : StatusInv onState s) {i : RelayIdx} {r : Relay}
    (hr : s.ssr.relays i = some r) (timestamp : CStr) :
    StatusInv onState (s.mqttMsgComponentPublish turn i r
      (statusText timestamp i (r.status onState))).2 := by
  unfold SsrMqtt.mqttMsgComponentPublish
  split
  · exact h
  · split
    · refine ⟨h.level, ?_⟩
      intro k r' hr'
      change (s.ssr.setRelay i { r with force := false }).relays k =
        some r' at hr'
      by_cases hk : k = i
      · subst hk
        rw [setRelay_self] at hr'
        obtain rfl := Option.some.inj hr'
        exact ⟨(h.relays k r hr).1,
          fun _ => ⟨timestamp, Function.update_self _ _ _⟩⟩
      · rw [setRelay_of_ne _ _ hk] at hr'
        obtain ⟨hrange, hreported⟩ := h.relays k r' hr'
        refine ⟨hrange, ?_⟩
        intro hforce
        obtain ⟨timestamp, hpublished⟩ := hreported hforce
        exact ⟨timestamp, (Function.update_of_ne hk _ _).trans hpublished⟩
    · exact h

theorem statusInv_dataSend (h : StatusInv onState s)
    (hturn : turn.timestamp.length < timeStr) (idx : ℕ) :
    StatusInv onState (s.ssrMqttDataSend turn idx).2 := by
  unfold SsrMqtt.ssrMqttDataSend
  rw [h.level]
  split
  next hidx =>
    split
    · exact h
    next r hr =>
      split
      · exact h
      · have hshort := (h.relays _ r hr).1.status_short onState
        obtain ⟨hall, huncut⟩ := status_message ⟨idx, hidx⟩ hturn hshort
        rw [hall]
        dsimp only
        rw [huncut]
        exact statusInv_publish h hr turn.timestamp
  · exact h

theorem statusInv_sendLoop (hturn : turn.timestamp.length < timeStr)
    (fuel : ℕ) (h : StatusInv onState s) :
    StatusInv onState (s.ssrMqttSendLoop turn fuel) := by
  have hmidx : ∀ (s : SsrMqtt) midx, StatusInv onState s →
      StatusInv onState { s with midx := midx } :=
    fun _ _ hs => ⟨hs.level, hs.relays⟩
  induction fuel generalizing s with
  | zero => exact h
  | succ fuel ih =>
      have hwrap : StatusInv onState
          (if maxSsrCount ≤ s.midx then { s with midx := 0 } else s) := by
        split
        · exact hmidx s 0 h
        · exact h
      unfold SsrMqtt.ssrMqttSendLoop
      generalize (if maxSsrCount ≤ s.midx then { s with midx := 0 } else s) =
        t at hwrap
      dsimp only
      split
      · exact statusInv_dataSend (hmidx t _ hwrap) hturn _
      · exact ih (hmidx t _ hwrap)

theorem statusInv_step (h : StatusInv onState s) {e : StatusEvent}
    (he : s.Enabled e) : StatusInv onState (s.step e) := by
  cases e with
  | run now clock turn =>
      have hrun : StatusInv onState { s with ssr := ssrRun s.ssr now clock } :=
        h.marked (marked_foldl (fun s i => marked_runRelay now (clock i) s i)
          (List.finRange maxSsrCount) s.ssr)
      change StatusInv onState (SsrMqtt.ssrMqttSend _ turn)
      unfold SsrMqtt.ssrMqttSend
      split
      · exact statusInv_sendLoop he maxSsrCount hrun
      · exact hrun
  | set params clock => exact h.marked (marked_cmdSet s.ssr params clock)
  | api id state time delay clock =>
      exact h.marked (marked_stateSet s.ssr _ _ _ _ clock)
  | reset clock =>
      exact h.marked (marked_foldl (fun s i => marked_resetRelay (clock i) s i)
        (List.finRange maxSsrCount) s.ssr)

end Run

theorem statusInv_init (pins : RelayIdx → Option ℤ) (onState : UInt8)
    (gpio : ℤ → Bool) :
    StatusInv onState (SsrMqtt.init pins onState gpio) := by
  have hinit : (ssrInit pins onState gpio).onState = onState ∧
      ∀ i r, (ssrInit pins onState gpio).relays i = some r →
        r.InRange ∧ r.force = true := by
    unfold ssrInit
    refine List.foldlRecOn
      (motive := fun s : SsrState => s.onState = onState ∧
        ∀ i r, s.relays i = some r → r.InRange ∧ r.force = true) _ _ ?_
      fun s h k _ => ?_
    · refine ⟨rfl, ?_⟩
      intro i r hr
      obtain ⟨pin, -, rfl⟩ := Option.map_eq_some_iff.mp hr
      have hzero : (0 : ℤ) < 2 ^ 31 := by decide
      exact ⟨⟨⟨le_rfl, hzero⟩, le_rfl, hzero⟩, rfl⟩
    · cases hk : s.relays k with
      | none => exact h
      | some rk =>
          refine ⟨h.1, ?_⟩
          intro i r hr
          by_cases hik : i = k
          · subst hik
            rw [setRelay_self] at hr
            obtain rfl := Option.some.inj hr
            exact h.2 i rk hk
          · rw [setRelay_of_ne _ _ hik, gpioPut_relays] at hr
            exact h.2 i r hr
  refine ⟨hinit.1, ?_⟩
  intro i r hr
  obtain ⟨hrange, hforce⟩ := hinit.2 i r hr
  exact ⟨hrange, fun hfalse => absurd (hforce.symm.trans hfalse) (by decide)⟩

/-- In every run, a relay that does not ask for a message has its present
state and remaining times in the last message that was published for it. -/
theorem status_not_lost (pins : RelayIdx → Option ℤ) (onState : UInt8)
    (gpio : ℤ → Bool) (es : List StatusEvent)
    (hes : SsrMqtt.machine.Admits (SsrMqtt.init pins onState gpio) es) :
    let run := SsrMqtt.machine.run (SsrMqtt.init pins onState gpio) es
    ∀ i r, run.ssr.relays i = some r → r.force = false →
      ∃ timestamp, run.published i =
        some (statusText timestamp i (r.status onState)) := by
  intro run i r hr
  have hstep : ∀ (s : SsrMqtt) e, StatusInv onState s →
      SsrMqtt.machine.enabled s e →
      StatusInv onState (SsrMqtt.machine.step s e) :=
    fun _ _ hs he => statusInv_step hs he
  have hinv : StatusInv onState run :=
    EventMachine.Along.invariant hstep hes (statusInv_init pins onState gpio)
  exact (hinv.relays i r hr).2

deriving instance DecidableEq for Relay

/-- A turn at which the broker takes the message. -/
def taken (now : ℕ) : SendTurn where
  discoverySent := true
  now := now
  timestamp := lit "Sat  1 Mar 12:00:00 2025"
  published := 0
  sentAt := now

/-- Relay 0 is switched on for a minute; the first message after that is not
published, the second is. -/
def reportedPulse : List StatusEvent :=
  [.run 5 (fun _ => 5) (taken 5), .set (lit ":0:1:60") 10,
    .run 11 (fun _ => 11) { taken 11 with published := -1 },
    .run 12 (fun _ => 12) (taken 12)]

theorem status_not_lost_reportedPulse :
    ∃ timestamp,
      (SsrMqtt.machine.run (SsrMqtt.init onePin 1 fun _ => true)
        reportedPulse).published 0 =
        some (statusText timestamp 0
          { on := true, runTime := 59, delay := 0 }) :=
  status_not_lost onePin 1 (fun _ => true) reportedPulse (by decide +kernel) 0
    { gpioPin := 2, stateDesired := true, stateActual := true,
      lastSwitch := 10, timeMs := 60000, timeRemainMs := 59998, delayMs := 0,
      delayRemainMs := 0, force := false }
    (by decide +kernel) rfl

end Herak.Ssr
