import Herak.Mqtt.Client
import Herak.Support.CInt
import Herak.Support.EventMachine

/-!
# The rate limit of published messages

`mqtt_msg_publish` counts the messages that it hands to the broker client and
starts to count anew when the limit has been reached and its window of a minute
is over.  Here is what that says about the messages of any minute.
-/

namespace Herak.Mqtt

open CInt CString

/-! ## The code -/

/-- `MSEC2MIN` -/
def msec2min : ℕ := 60000

/-- The part of `mqtt_context_t` that `mqtt_msg_publish` uses. -/
structure MqttPublisher where
  state : MqttClientState
  maxPayloadSize : ℕ
  maxPpm : ℕ
  filterPktCount : ℕ
  filterPktSend : ℕ
  lastSend : ℕ
  deriving DecidableEq

namespace MqttPublisher

/-- The context before the first message. -/
def init (state : MqttClientState) (maxPayloadSize maxPpm lastSend : ℕ) :
    MqttPublisher :=
  ⟨state, maxPayloadSize, maxPpm, 0, 0, lastSend⟩

def limitReached (ctx : MqttPublisher) : Bool :=
  ctx.maxPpm ≤ ctx.filterPktCount

def windowOver (ctx : MqttPublisher) (now : ℕ) : Bool :=
  msec2min ≤ now - ctx.filterPktSend

/-- The limiter refuses a message. -/
def limiterRefuses (ctx : MqttPublisher) (now : ℕ) : Bool :=
  ctx.limitReached && !ctx.windowOver now && ctx.lastSend != 0

end MqttPublisher

/-- The end of `mqtt_msg_publish`, behind the call of `mqtt_msg_send`. -/
def MqttPublisher.countSend (ctx : MqttPublisher) (sent : ℤ) (now : ℕ) :
    MqttPublisher :=
  let resetFilter := ctx.limitReached && ctx.windowOver now
  let ctx :=
    if sent = 0 then
      if resetFilter then
        { ctx with lastSend := now, filterPktCount := 0, filterPktSend := now }
      else { ctx with lastSend := now }
    else ctx
  { ctx with filterPktCount := toUInt32 (ctx.filterPktCount + 1) }

/-- `mqtt_msg_publish`; `sent` is what `mqtt_msg_send` returns, if it is
called. -/
def mqttMsgPublish (ctx : MqttPublisher) (message : CStr) (sent : ℤ)
    (now : ℕ) : ℤ × MqttPublisher :=
  if ctx.state ≠ .connected then (-1, ctx)
  else if ctx.maxPayloadSize < strlen message then (-1, ctx)
  else if ctx.limiterRefuses now then (-1, ctx)
  else (sent, ctx.countSend sent now)

/-! ## Runs -/

/-- A call of `mqtt_msg_publish`, an attempt of `mqtt_connect`, which notes its
time in the same field, or a change of the connection. -/
inductive PublishEvent
  | publish (message : CStr) (sent : ℤ) (now : ℕ)
  | connecting (now : ℕ)
  | connection (state : MqttClientState)

def MqttPublisher.step (ctx : MqttPublisher) : PublishEvent → MqttPublisher
  | .publish message sent now => (mqttMsgPublish ctx message sent now).2
  | .connecting now => { ctx with lastSend := now }
  | .connection state => { ctx with state := state }

/-- The limit is a setting. -/
theorem MqttPublisher.step_maxPpm (ctx : MqttPublisher) (e : PublishEvent) :
    (ctx.step e).maxPpm = ctx.maxPpm := by
  cases e with
  | publish message sent now =>
      simp only [step, mqttMsgPublish, countSend]
      split_ifs <;> rfl
  | connecting now => rfl
  | connection state => rfl

/-- The times of the messages that were published, before the last reset of the
counter and since then, and the time of the last call. -/
structure RateRecord where
  earlier : List ℕ
  window : List ℕ
  clock : ℕ

namespace RateRecord

def init : RateRecord := ⟨[], [], 0⟩

def sent (r : RateRecord) : List ℕ := r.earlier ++ r.window

/-- The messages of the list that are less than a minute old. -/
def recent (now : ℕ) (times : List ℕ) : ℕ :=
  times.countP fun t => now < t + msec2min

def next (ctx : MqttPublisher) (e : PublishEvent) (r : RateRecord) :
    RateRecord :=
  match e with
  | .publish message sent now =>
      if (mqttMsgPublish ctx message sent now).1 = 0 then
        if ctx.limitReached && ctx.windowOver now then
          ⟨r.earlier ++ r.window, [now], now⟩
        else ⟨r.earlier, r.window ++ [now], now⟩
      else { r with clock := now }
  | .connecting now => { r with clock := now }
  | .connection _ => r

end RateRecord

/-- The publisher, called at times that do not decrease. -/
def publishMachine : EventMachine (MqttPublisher × RateRecord) PublishEvent where
  step := fun x e => (x.1.step e, x.2.next x.1 e)
  enabled := fun x e =>
    match e with
    | .publish _ _ now | .connecting now => x.2.clock ≤ now
    | .connection _ => True

/-! ## The limit -/

/-- The messages published in the minute that begins at `start`. -/
def RateRecord.published (r : RateRecord) (start : ℕ) : ℕ :=
  r.sent.countP fun t => start ≤ t ∧ t < start + msec2min

/-- What is refused follows as many messages in the minute before as the limit
allows. -/
def NotRefusedEarly (x : MqttPublisher × RateRecord) (e : PublishEvent) :
    Prop :=
  ∀ message sent now, e = .publish message sent now →
    x.1.limiterRefuses now = true →
      x.1.maxPpm ≤ RateRecord.recent now x.2.sent

/-- The condition on a call that reaches the limiter: no send below the limit
fails; below the limit and within a minute of a reset, the messages before the
reset that are less than a minute old leave room for one more; the first reset
is a minute after the first message; at the limit the time of the last message
is not 0; and the counter does not wrap. -/
structure SendMeets (ctx : MqttPublisher) (r : RateRecord) (sent : ℤ)
    (now : ℕ) : Prop where
  counted : ctx.limitReached = false → sent = 0
  forgotten : ctx.limitReached = false → ctx.windowOver now = false →
    ctx.filterPktCount + RateRecord.recent now r.earlier < ctx.maxPpm
  firstReset : ctx.limitReached = true → ctx.windowOver now = true →
    sent = 0 → r.earlier = [] → ∀ t ∈ r.window.head?, t + msec2min ≤ now
  marked : ctx.limitReached = true → ctx.windowOver now = false →
    ctx.lastSend ≠ 0
  noWrap : ctx.limitReached = true → sent ≠ 0 →
    ctx.filterPktCount + 1 < 2 ^ 32

/-- Every call that reaches the limiter meets the condition. -/
def RateMeets (x : MqttPublisher × RateRecord) (e : PublishEvent) : Prop :=
  ∀ message sent now, e = .publish message sent now →
    x.1.state = .connected → strlen message ≤ x.1.maxPayloadSize →
      SendMeets x.1 x.2 sent now

/-! ## The invariant -/

/-- What a run keeps: the counter is the number of messages since the last
reset until the limit is reached, the window starts with the message of the
reset, and no minute has too many messages. -/
structure RateInv (ctx : MqttPublisher) (r : RateRecord) : Prop where
  positive : 0 < ctx.maxPpm
  small : ctx.maxPpm < 2 ^ 32
  start : ctx.filterPktSend ≤ r.clock
  earlier : ∀ t ∈ r.earlier, t ≤ ctx.filterPktSend
  window : ∀ t ∈ r.window, ctx.filterPktSend ≤ t ∧ t ≤ r.clock
  below : ctx.limitReached = false → r.window.length = ctx.filterPktCount
  full : ctx.limitReached = true → r.window.length = ctx.maxPpm
  head : r.earlier ≠ [] → r.window.head? = some ctx.filterPktSend
  limited : ∀ start, r.published start ≤ ctx.maxPpm

namespace RateInv

variable {ctx : MqttPublisher} {r : RateRecord} {now : ℕ}

theorem recent_earlier (h : RateInv ctx r) (hnow : r.clock ≤ now)
    (hover : ctx.windowOver now = true) :
    RateRecord.recent now r.earlier = 0 := by
  have hover' : msec2min ≤ now - ctx.filterPktSend := of_decide_eq_true hover
  have hstart := h.start
  rw [RateRecord.recent, List.countP_eq_zero]
  intro t ht
  have hle := h.earlier t ht
  simp only [decide_eq_true_eq, Nat.not_lt]
  omega

/-- Below the limit there is room for a message. -/
theorem room_below (h : RateInv ctx r) (hnow : r.clock ≤ now)
    (hlimit : ctx.limitReached = false)
    (hforgotten : ctx.windowOver now = false →
      ctx.filterPktCount + RateRecord.recent now r.earlier < ctx.maxPpm) :
    RateRecord.recent now r.sent < ctx.maxPpm := by
  have hcount : ctx.filterPktCount < ctx.maxPpm := by
    simpa [MqttPublisher.limitReached] using hlimit
  have hwindow : RateRecord.recent now r.window ≤ ctx.filterPktCount := by
    rw [← h.below hlimit]
    exact List.countP_le_length
  rw [RateRecord.recent, RateRecord.sent, List.countP_append]
  cases hover : ctx.windowOver now with
  | true =>
      have hearlier := h.recent_earlier hnow hover
      simp only [RateRecord.recent] at hearlier hwindow
      omega
  | false =>
      have hroom := hforgotten hover
      simp only [RateRecord.recent] at hroom hwindow
      omega

/-- A reset makes room for a message: the first one of the window is a minute
old. -/
theorem room_reset (h : RateInv ctx r) (hnow : r.clock ≤ now)
    (hlimit : ctx.limitReached = true) (hover : ctx.windowOver now = true)
    (hfirst : r.earlier = [] → ∀ t ∈ r.window.head?, t + msec2min ≤ now) :
    RateRecord.recent now r.sent < ctx.maxPpm := by
  have hover' : msec2min ≤ now - ctx.filterPktSend := of_decide_eq_true hover
  have hfull := h.full hlimit
  have hearlier := h.recent_earlier hnow hover
  cases hwindow : r.window with
  | nil =>
      have hpos := h.positive
      rw [hwindow] at hfull
      simp only [List.length_nil] at hfull
      omega
  | cons t rest =>
      have hold : t + msec2min ≤ now := by
        by_cases hnil : r.earlier = []
        · exact hfirst hnil t (by rw [hwindow]; rfl)
        · have hhead := h.head hnil
          rw [hwindow] at hhead
          obtain rfl := Option.some.inj hhead
          have hpos : 0 < msec2min := by decide
          omega
      have hrest : rest.countP (fun t => now < t + msec2min) ≤ rest.length :=
        List.countP_le_length
      rw [hwindow] at hfull
      rw [RateRecord.recent] at hearlier
      rw [RateRecord.recent, RateRecord.sent, List.countP_append, hearlier,
        hwindow, List.countP_cons_of_neg (by simpa using hold)]
      simp only [List.length_cons] at hfull
      omega

/-- With room for a message in the minute before, no minute gets too many. -/
theorem published_snoc {sent : List ℕ} {max : ℕ}
    (hlimited : ∀ start,
      sent.countP (fun t => start ≤ t ∧ t < start + msec2min) ≤ max)
    (hroom : RateRecord.recent now sent < max) (start : ℕ) :
    (sent ++ [now]).countP (fun t => start ≤ t ∧ t < start + msec2min) ≤
      max := by
  rw [List.countP_append, List.countP_singleton]
  split
  next hin =>
    have hin' : start ≤ now ∧ now < start + msec2min := of_decide_eq_true hin
    have hle : sent.countP (fun t => start ≤ t ∧ t < start + msec2min) ≤
        RateRecord.recent now sent := by
      refine List.countP_mono_left fun t _ ht => ?_
      have ht' : start ≤ t ∧ t < start + msec2min := of_decide_eq_true ht
      simp only [decide_eq_true_eq]
      omega
    omega
  · exact hlimited start

/-- What is refused follows a full window of the last minute. -/
theorem refused (h : RateInv ctx r) (hrefuse : ctx.limiterRefuses now = true) :
    ctx.maxPpm ≤ RateRecord.recent now r.sent := by
  simp only [MqttPublisher.limiterRefuses, Bool.and_eq_true,
    Bool.not_eq_true', bne_iff_ne] at hrefuse
  obtain ⟨⟨hlimit, hover⟩, -⟩ := hrefuse
  have hover' : ¬msec2min ≤ now - ctx.filterPktSend :=
    of_decide_eq_false hover
  have hall : RateRecord.recent now r.window = r.window.length := by
    rw [RateRecord.recent, List.countP_eq_length]
    intro t ht
    have hle := (h.window t ht).1
    simp only [decide_eq_true_eq]
    omega
  rw [← h.full hlimit, ← hall, RateRecord.recent, RateRecord.recent,
    RateRecord.sent, List.countP_append]
  exact Nat.le_add_left _ _

/-- Time passes. -/
theorem tick (h : RateInv ctx r) (hnow : r.clock ≤ now) :
    RateInv ctx { r with clock := now } where
  positive := h.positive
  small := h.small
  start := h.start.trans hnow
  earlier := h.earlier
  window := fun t ht => ⟨(h.window t ht).1, (h.window t ht).2.trans hnow⟩
  below := h.below
  full := h.full
  head := h.head
  limited := h.limited

/-- A message below the limit. -/
theorem count (h : RateInv ctx r) (hnow : r.clock ≤ now)
    (hlimit : ctx.limitReached = false)
    (hroom : RateRecord.recent now r.sent < ctx.maxPpm) :
    RateInv
      { ctx with
        lastSend := now
        filterPktCount := toUInt32 (ctx.filterPktCount + 1) }
      ⟨r.earlier, r.window ++ [now], now⟩ := by
  have hcount : ctx.filterPktCount < ctx.maxPpm := by
    simpa [MqttPublisher.limitReached] using hlimit
  have hsmall := h.small
  have hnext : toUInt32 (ctx.filterPktCount + 1) = ctx.filterPktCount + 1 := by
    simp only [toUInt32]
    omega
  have hlength := h.below hlimit
  refine ⟨h.positive, h.small, h.start.trans hnow, h.earlier, ?_, ?_, ?_, ?_,
    ?_⟩
  · intro t ht
    rcases List.mem_append.mp ht with ht | ht
    · exact ⟨(h.window t ht).1, (h.window t ht).2.trans hnow⟩
    · obtain rfl := List.mem_singleton.mp ht
      exact ⟨h.start.trans hnow, le_rfl⟩
  · intro _
    simp only [List.length_append, List.length_singleton, hlength, hnext]
  · intro hfull
    simp only [MqttPublisher.limitReached, hnext, decide_eq_true_eq] at hfull
    simp only [List.length_append, List.length_singleton, hlength]
    omega
  · intro hne
    rw [List.head?_append, h.head hne]
    rfl
  · intro start
    simp only [RateRecord.published, RateRecord.sent, ← List.append_assoc]
    exact published_snoc h.limited hroom start

/-- A message that resets the counter. -/
theorem reset (h : RateInv ctx r) (hnow : r.clock ≤ now)
    (hroom : RateRecord.recent now r.sent < ctx.maxPpm) :
    RateInv
      { ctx with lastSend := now, filterPktCount := 1, filterPktSend := now }
      ⟨r.earlier ++ r.window, [now], now⟩ := by
  refine ⟨h.positive, h.small, le_rfl, ?_, ?_, fun _ => rfl, ?_, fun _ => rfl,
    ?_⟩
  · intro t ht
    rcases List.mem_append.mp ht with ht | ht
    · exact (h.earlier t ht).trans (h.start.trans hnow)
    · exact (h.window t ht).2.trans hnow
  · intro t ht
    obtain rfl := List.mem_singleton.mp ht
    exact ⟨le_rfl, le_rfl⟩
  · intro hfull
    have hpos := h.positive
    simp only [MqttPublisher.limitReached, decide_eq_true_eq] at hfull
    simp only [List.length_singleton]
    omega
  · intro start
    exact published_snoc h.limited hroom start

/-- A failed send at the limit. -/
theorem fail (h : RateInv ctx r) (hnow : r.clock ≤ now)
    (hlimit : ctx.limitReached = true)
    (hwrap : ctx.filterPktCount + 1 < 2 ^ 32) :
    RateInv
      { ctx with filterPktCount := toUInt32 (ctx.filterPktCount + 1) }
      { r with clock := now } := by
  have hnext : toUInt32 (ctx.filterPktCount + 1) = ctx.filterPktCount + 1 := by
    simp only [toUInt32]
    omega
  have hstill : MqttPublisher.limitReached
      { ctx with filterPktCount := toUInt32 (ctx.filterPktCount + 1) } =
        true := by
    have hcount : ctx.maxPpm ≤ ctx.filterPktCount := of_decide_eq_true hlimit
    simp only [MqttPublisher.limitReached, hnext, decide_eq_true_eq]
    omega
  have htick := h.tick hnow
  exact ⟨h.positive, h.small, htick.start, h.earlier, htick.window,
    fun hbelow => absurd (hstill.symm.trans hbelow) (by decide),
    fun _ => h.full hlimit, h.head, h.limited⟩

/-- A call that meets the condition keeps the invariant. -/
theorem publish (h : RateInv ctx r) (hnow : r.clock ≤ now) {message : CStr}
    {sent : ℤ}
    (hmeets : ctx.state = .connected →
      strlen message ≤ ctx.maxPayloadSize → SendMeets ctx r sent now) :
    RateInv (mqttMsgPublish ctx message sent now).2
      (r.next ctx (.publish message sent now)) := by
  have hrejected : ∀ x : ℤ × MqttPublisher, x = (-1, ctx) →
      mqttMsgPublish ctx message sent now = x →
        RateInv (mqttMsgPublish ctx message sent now).2
          (r.next ctx (.publish message sent now)) := by
    rintro x rfl hx
    rw [RateRecord.next, hx]
    exact h.tick hnow
  by_cases hstate : ctx.state = .connected
  · by_cases hbig : ctx.maxPayloadSize < strlen message
    · exact hrejected _ rfl (by
        rw [mqttMsgPublish, if_neg (not_not.mpr hstate), if_pos hbig])
    · have hsend := hmeets hstate (Nat.not_lt.mp hbig)
      by_cases hrefuse : ctx.limiterRefuses now = true
      · exact hrejected _ rfl (by
          rw [mqttMsgPublish, if_neg (not_not.mpr hstate), if_neg hbig,
            if_pos hrefuse])
      · have heq : mqttMsgPublish ctx message sent now =
            (sent, ctx.countSend sent now) := by
          rw [mqttMsgPublish, if_neg (not_not.mpr hstate), if_neg hbig,
            if_neg hrefuse]
        rw [RateRecord.next, heq, MqttPublisher.countSend]
        cases hlimit : ctx.limitReached with
        | false =>
            obtain rfl := hsend.counted hlimit
            exact h.count hnow hlimit
              (h.room_below hnow hlimit (hsend.forgotten hlimit))
        | true =>
            -- At the limit only a call after the end of the window gets here.
            have hover : ctx.windowOver now = true := by
              by_contra hnot
              have hmarked := hsend.marked hlimit (by simpa using hnot)
              exact hrefuse (by
                simp [MqttPublisher.limiterRefuses, hlimit, hnot, hmarked])
            by_cases hsent : sent = 0
            · subst hsent
              simp only [hover, Bool.and_self, if_true]
              exact h.reset hnow (h.room_reset hnow hlimit hover
                (hsend.firstReset hlimit hover rfl))
            · simp only [hsent, if_false]
              exact h.fail hnow hlimit (hsend.noWrap hlimit hsent)
  · exact hrejected _ rfl (by rw [mqttMsgPublish, if_pos hstate])

theorem step {x : MqttPublisher × RateRecord} (h : RateInv x.1 x.2)
    {e : PublishEvent} (hmeets : publishMachine.enabled x e ∧ RateMeets x e) :
    RateInv (publishMachine.step x e).1 (publishMachine.step x e).2 := by
  obtain ⟨henabled, hmeets⟩ := hmeets
  cases e with
  | publish message sent now =>
      exact h.publish henabled (hmeets message sent now rfl)
  | connecting now =>
      have htick := h.tick henabled
      exact ⟨h.positive, h.small, htick.start, h.earlier, htick.window,
        h.below, h.full, h.head, h.limited⟩
  | connection state =>
      exact ⟨h.positive, h.small, h.start, h.earlier, h.window, h.below,
        h.full, h.head, h.limited⟩

end RateInv

/-- In every run whose calls meet the condition no minute has more messages
than the limit, and nothing is refused before the limit of the last minute. -/
theorem publish_rate_limited (state : MqttClientState)
    (maxPayloadSize lastSend : ℕ) (maxPpm : UInt32) (hpos : 0 < maxPpm)
    (events : List PublishEvent)
    (hadmits : publishMachine.Admits
      (.init state maxPayloadSize maxPpm.toNat lastSend, .init) events)
    (hmeets : publishMachine.Along RateMeets
      (.init state maxPayloadSize maxPpm.toNat lastSend, .init) events) :
    (∀ start, (publishMachine.run
        (.init state maxPayloadSize maxPpm.toNat lastSend, .init)
          events).2.published start ≤ maxPpm.toNat) ∧
      publishMachine.Along NotRefusedEarly
        (.init state maxPayloadSize maxPpm.toNat lastSend, .init) events := by
  have hpos' : 0 < maxPpm.toNat := hpos
  have hinit : RateInv (.init state maxPayloadSize maxPpm.toNat lastSend)
      .init := by
    refine ⟨hpos', maxPpm.toNat_lt, le_rfl, nofun, nofun, fun _ => rfl, ?_,
      fun hne => absurd rfl hne, fun _ => Nat.zero_le _⟩
    intro hfull
    have hle : maxPpm.toNat ≤ 0 := of_decide_eq_true hfull
    omega
  have hboth := EventMachine.along_and.mpr ⟨hadmits, hmeets⟩
  constructor
  · have hend := hboth.invariant
      (I := fun x => RateInv x.1 x.2 ∧ x.1.maxPpm = maxPpm.toNat)
      (fun x e h hm => ⟨h.1.step hm, (x.1.step_maxPpm e).trans h.2⟩)
      ⟨hinit, rfl⟩
    exact fun start => (hend.1.limited start).trans hend.2.le
  · exact hboth.mono_of_invariant
      (I := fun x => RateInv x.1 x.2)
      (fun _ _ h hm => h.step hm)
      (fun _ _ h _ _ _ _ _ hrefuse => h.refused hrefuse) hinit

/-- With a limit of two messages: two, one that is refused, and one a minute
after the first. -/
def steadyRun : List PublishEvent :=
  [.publish [] 0 1000, .publish [] 0 2000, .publish [] 0 3000,
    .publish [] 0 61000]

theorem publish_rate_limited_steadyRun :
    (∀ start, (publishMachine.run (.init .connected 928 2 0, .init)
        steadyRun).2.published start ≤ 2) ∧
      publishMachine.Along NotRefusedEarly (.init .connected 928 2 0, .init)
        steadyRun := by
  refine publish_rate_limited .connected 928 0 2 (by decide) steadyRun
    ⟨Nat.zero_le _, ?_, ?_, ?_, trivial⟩ ⟨?_, ?_, ?_, ?_, trivial⟩
  · show 1000 ≤ 2000
    decide
  · show 2000 ≤ 3000
    decide
  · show 3000 ≤ 61000
    decide
  all_goals
    intro message sent now he _ _
    cases he
    exact ⟨by decide, by decide, by decide, by decide, by decide⟩

/-- With a limit of one message: one at the end of the first minute after the
start, and one a millisecond later, which resets the counter. -/
def burstRun : List PublishEvent :=
  [.publish [] 0 59999, .publish [] 0 60000]

theorem burst_not_limited :
    publishMachine.Admits (.init .connected 928 1 0, .init) burstRun ∧
      ¬∀ start, (publishMachine.run (.init .connected 928 1 0, .init)
        burstRun).2.published start ≤ 1 := by
  refine ⟨⟨Nat.zero_le _, ?_, trivial⟩, fun h => ?_⟩
  · show 59999 ≤ 60000
    decide
  · exact absurd (h 59999) (by decide)

end Herak.Mqtt
