import Herak.Flow.Sensor
import Herak.Support.Ledger
import Herak.Support.TextObject

/-!
# Where the volume of a sensor goes

The total of a sensor is an account: volumes are added to it, and it is emptied
by a reset and by a message that carries it.  What a message carries is read
from its text, which has the litres with two digits behind the point.  The
counter is emptied before the message is published, so that the total is lost
if the message is not.
-/

namespace Herak.Flow

open CString
open Mqtt (addMqttMsgs_concat addMqttMsgs_eq_flatten mqttPayload)

variable {F : Type} {count : ℕ}

/-! ## Totals -/

theorem takeTotal_totalMl (sensor : FlowSensor F) (clock : Clock) :
    (takeTotal sensor clock).1.totalMl =
      if sensor.sendTotal then 0 else sensor.totalMl := by
  unfold takeTotal
  split <;> rfl

theorem endInterval_totalMl (ctx : FlowContext F count) (now : ℕ)
    (i : Fin count) :
    ((ctx.endInterval now).sensors i).totalMl = (ctx.sensors i).totalMl := by
  unfold FlowContext.endInterval
  split <;> rfl

theorem markForced_totalMl (ctx : FlowContext F count) (i : Fin count) :
    (ctx.markForced.sensors i).totalMl = (ctx.sensors i).totalMl := by
  unfold FlowContext.markForced
  dsimp only
  split <;> rfl

theorem clockReset_totalMl (sensor : FlowSensor F) (clock : Clock) :
    (clockReset sensor clock).totalMl =
      if sensor.lastResetDate = 0 ∧ clock.ntpValid then 0
      else sensor.totalMl := by
  unfold clockReset
  split <;> rfl

/-! ## What a message carries -/

/-- Numbers are printed without quotes. -/
class PlainFloatOps (F : Type) extends FloatOps F where
  flowText_plain (x : F) : quote ∉ flowText x
  litreText_plain (ml : ℕ) : quote ∉ litreText ml

/-- The millilitres of a text with litres; another text has none. -/
def litresRead (text : CStr) : ℤ :=
  10 * ((readHundredths text).getD 0 : ℕ)

/-- The millilitres of the total in the text of a message. -/
def carriedMl (payload : CStr) : ℤ :=
  ((textOf (lit "total") payload).map litresRead).getD 0

/-- `%3.2f` of a total as litres shows all of its millilitres. -/
def ShownWhole (F : Type) [FloatOps F] (ml : ℕ) : Prop :=
  litresRead (FloatOps.litreText F ml) = ml

/-! ## Accounts -/

variable [PlainFloatOps F]

inductive FlowEvent (count : ℕ)
  | irq (i : Fin count)
  | run (turn : FlowTurn count) (plain : quote ∉ turn.mqtt.time)
  | reset (target : Option (Fin count)) (clock : Clock)

/-- The sensors with an account of each total: what `flow_yf_sensor_data` has
added to it, what was carried by messages that were published, and what was
cleared by a command or at the first valid clock. -/
structure FlowWorld (F : Type) (count : ℕ) where
  ctx : FlowContext F count
  ledger : Fin count → Ledger ℤ

namespace FlowWorld

def init (pps : Fin count → F) (accMsec : ℕ) : FlowWorld F count :=
  ⟨.init pps accMsec, fun _ => .empty⟩

/-- The accounts after the first loop of `flow_yf_run`. -/
def readLedger (x : FlowWorld F count) (turn : FlowTurn count) (i : Fin count) :
    Ledger ℤ :=
  let sensor := clockReset (x.ctx.sensors i) turn.clock
  let ledger :=
    if (x.ctx.sensors i).lastResetDate = 0 ∧ turn.clock.ntpValid then
      (x.ledger i).clear
    else x.ledger i
  ledger.deposit
    ((flowYfSensorData sensor (turn.readNow i) turn.clock).totalMl -
      sensor.totalMl)

/-- The account of a total that a message was to carry: a message that is
published carries what its text says. -/
def carryLedger (ledger : Ledger ℤ) (publish : CStr → Bool) :
    DataSend F → Ledger ℤ
  | .full => ledger
  | .fullAfterTotal _ => ledger.lose
  | .message _ payload =>
      if publish payload then ledger.report (carriedMl payload)
      else ledger.lose

/-- The accounts after `flow_yf_mqtt_send`. -/
def sendLedger (ctx : FlowContext F count) (clock : Clock) (turn : MqttTurn)
    (ledger : Fin count → Ledger ℤ) : Fin count → Ledger ℤ :=
  match ctx.markForced.chosen turn.sendNow with
  | none => ledger
  | some (i, _) =>
      let sensor := ctx.markForced.sensors i
      if sensor.sendTotal then
        Function.update ledger i
          (carryLedger (ledger i) turn.publish (buildMessage sensor clock turn))
      else ledger

def step (x : FlowWorld F count) : FlowEvent count → FlowWorld F count
  | .irq i =>
      { x with ctx := x.ctx.setSensor i (flowYfIrq (x.ctx.sensors i)) }
  | .run turn _ =>
      { ctx := flowYfRun x.ctx turn
        ledger :=
          sendLedger ((x.ctx.readSensors turn).endInterval turn.now) turn.clock
            turn.mqtt (x.readLedger turn) }
  | .reset target clock =>
      { ctx := cmdFlowYfReset x.ctx target clock
        ledger := fun i =>
          if target.all fun j => j = i then (x.ledger i).clear
          else x.ledger i }

end FlowWorld

def flowMachine (F : Type) [PlainFloatOps F] (count : ℕ) :
    EventMachine (FlowWorld F count) (FlowEvent count) where
  step := FlowWorld.step
  enabled := fun _ _ => True

/-- What was carried by published messages, the total, and what was cleared is
all that was added. -/
def FlowConserved (x : FlowWorld F count) : Prop :=
  ∀ i, (x.ledger i).delivered + (x.ctx.sensors i).totalMl +
    (x.ledger i).cleared = (x.ledger i).deposited

/-- A message that resets the counter fits the buffer, is published and shows
the whole total; else there is none. -/
def Carries (sensor : FlowSensor F) (publish : CStr → Bool) :
    DataSend F → Prop
  | .full => True
  | .fullAfterTotal _ => sensor.totalMl = 0
  | .message _ payload =>
      if publish payload then ShownWhole F sensor.totalMl
      else sensor.totalMl = 0

/-- The message of the turn does not reset the counter, or it carries it. -/
def MessageCarries (ctx : FlowContext F count) (clock : Clock)
    (turn : MqttTurn) : Prop :=
  ∀ i idx, ctx.markForced.chosen turn.sendNow = some (i, idx) →
    (ctx.markForced.sensors i).sendTotal = true →
      Carries (ctx.markForced.sensors i) turn.publish
        (buildMessage (ctx.markForced.sensors i) clock turn)

def TotalCarried (x : FlowWorld F count) : FlowEvent count → Prop
  | .irq _ | .reset _ _ => True
  | .run turn _ =>
      MessageCarries ((x.ctx.readSensors turn).endInterval turn.now) turn.clock
        turn.mqtt

/-! ## One turn -/

/-- The accounts have what the sensors have. -/
def Agrees (ctx : FlowContext F count) (ledger : Fin count → Ledger ℤ) : Prop :=
  ∀ i, (ledger i).Balanced ∧ (ledger i).balance = (ctx.sensors i).totalMl

/-- The three outcomes of a message. -/
theorem buildMessage_cases (sensor : FlowSensor F) (clock : Clock)
    (turn : MqttTurn) :
    buildMessage sensor clock turn = .full ∨
      buildMessage sensor clock turn =
        .fullAfterTotal (takeTotal sensor clock).1 ∨
      ∃ payload, buildMessage sensor clock turn =
        .message (takeTotal sensor clock).1 payload := by
  unfold buildMessage
  split
  · exact .inl rfl
  · dsimp only
    split
    · exact .inr (.inl rfl)
    · exact .inr (.inr ⟨_, rfl⟩)

/-- The text of a message that takes the total, until its first date. -/
def messageStart (sensor : FlowSensor F) (turn : MqttTurn) (rest : CStr) :
    CStr :=
  memberText (lit "\x7b") (lit "time") (lit ": ") turn.time ++
    (memberText (lit ",") (lit "flow") (lit ": ")
        (FloatOps.flowText sensor.flow) ++
      (memberText (lit ",") (lit "total") (lit ": ")
          (FloatOps.litreText F sensor.totalMl) ++ rest))

omit [PlainFloatOps F] in
theorem datePiece_ne_nil (name : CStr) (turn : MqttTurn) (date : ℕ) :
    datePiece name turn date ≠ [] := by
  unfold datePiece
  split <;> exact List.cons_ne_nil _ _

/-- A message that is not stopped keeps what is in front of its first date. -/
theorem messageTail_start {sensor : FlowSensor F} {turn : MqttTurn} {tot : ℕ}
    {head text : CStr} (h : messageTail sensor turn tot head = some text) :
    ∃ start behind,
      start = head ++
        (lit ",\"total\": \"" ++ FloatOps.litreText F tot ++ lit "\"") ∧
      start.length ≤ mqttDataLen - 1 ∧ text = start ++ behind := by
  let date := datePiece (lit "last_reset") turn sensor.lastResetDate
  let rest : List CStr :=
    [lit ",\"total_flow\": \"" ++ FloatOps.litreText F sensor.totalFlowMl ++
        lit "\"",
      datePiece (lit "last_flow") turn sensor.lastFlowDate,
      lit ",\"duration_flow\": \"" ++
        lit (Nat.repr (sensor.durationMs / 60000)) ++ lit "\""]
  have hconcat := addMqttMsgs_concat mqttDataLen head (lit "\x7d")
    ((lit ",\"total\": \"" ++ FloatOps.litreText F tot ++ lit "\"") :: date ::
      rest)
  change messageTail sensor turn tot head = _ at hconcat
  rw [hconcat] at h
  split at h
  next hfits =>
    refine ⟨_, date ++ (rest.flatten ++ lit "\x7d"), rfl, ?_, ?_⟩
    · have hdate : 0 < date.length :=
        List.length_pos_iff.mpr (datePiece_ne_nil _ _ _)
      simp only [List.flatten_cons, List.length_append] at hfits ⊢
      omega
    · rw [← Option.some.inj h]
      simp only [List.flatten_cons, List.append_assoc]
  next => cases h

/-- The buffer keeps all of the total, since a date is added behind it. -/
theorem payload_of_message {sensor taken : FlowSensor F} {clock : Clock}
    {turn : MqttTurn} {payload : CStr}
    (h : buildMessage sensor clock turn = .message taken payload)
    (hsend : sensor.sendTotal = true) :
    ∃ rest, payload = messageStart sensor turn rest := by
  unfold buildMessage at h
  cases hhead : messageHead sensor turn with
  | none => simp [hhead] at h
  | some head =>
      simp only [hhead] at h
      cases htail : messageTail (takeTotal sensor clock).1 turn
          (takeTotal sensor clock).2 head with
      | none => simp [htail] at h
      | some text =>
          simp only [htail, DataSend.message.injEq] at h
          obtain ⟨-, rfl⟩ := h
          have htotal : (takeTotal sensor clock).2 = sensor.totalMl := by
            rw [takeTotal, if_pos hsend]
          obtain ⟨start, behind, hstart, hfits, htext⟩ :=
            messageTail_start htail
          have hquote : '"'.toUInt8 = quote := rfl
          refine ⟨behind.take (mqttDataLen - 1 - start.length), ?_⟩
          rw [mqttPayload, htext, List.take_append,
            List.take_of_length_le hfits, hstart, htotal,
            addMqttMsgs_eq_flatten hhead]
          simp [messageStart, memberText, lit, hquote]

/-- A message that takes the total carries what its text shows. -/
theorem carriedMl_of_message {sensor taken : FlowSensor F} {clock : Clock}
    {turn : MqttTurn} {payload : CStr} (hplain : quote ∉ turn.time)
    (h : buildMessage sensor clock turn = .message taken payload)
    (hsend : sensor.sendTotal = true) :
    carriedMl payload = litresRead (FloatOps.litreText F sensor.totalMl) := by
  obtain ⟨rest, rfl⟩ := payload_of_message h hsend
  have htime : PlainMember (lit "\x7b") (lit "time") (lit ": ") turn.time :=
    ⟨by decide, by decide, by decide, hplain⟩
  have hflow : PlainMember (lit ",") (lit "flow") (lit ": ")
      (FloatOps.flowText sensor.flow) :=
    ⟨by decide, by decide, by decide, PlainFloatOps.flowText_plain _⟩
  have htotal : PlainMember (lit ",") (lit "total") (lit ": ")
      (FloatOps.litreText F sensor.totalMl) :=
    ⟨by decide, by decide, by decide, PlainFloatOps.litreText_plain _⟩
  rw [carriedMl, messageStart, textOf_skip htime (by decide),
    textOf_skip hflow (by decide), textOf_memberText htotal]
  rfl

theorem readLedger_agrees {x : FlowWorld F count}
    (h : Agrees x.ctx x.ledger) (turn : FlowTurn count) :
    Agrees ((x.ctx.readSensors turn).endInterval turn.now)
        (x.readLedger turn) ∧
      ∀ i, (x.readLedger turn i).lost = (x.ledger i).lost := by
  refine ⟨fun i => ?_, fun i => ?_⟩
  · obtain ⟨hbalanced, hbalance⟩ := h i
    rw [endInterval_totalMl]
    unfold FlowWorld.readLedger
    dsimp only
    rw [clockReset_totalMl]
    split
    · refine ⟨hbalanced.clear.deposit _, ?_⟩
      simp [Ledger.deposit, Ledger.clear, FlowContext.readSensors]
    · refine ⟨hbalanced.deposit _, ?_⟩
      simp [Ledger.deposit, hbalance, FlowContext.readSensors]
  · unfold FlowWorld.readLedger
    dsimp only
    split <;> rfl

/-- What a message does to the account of the total that it takes. -/
theorem carryLedger_spec {l : Ledger ℤ} {sensor : FlowSensor F} (clock : Clock)
    {turn : MqttTurn} (hbalanced : l.Balanced)
    (hbalance : l.balance = sensor.totalMl) (hplain : quote ∉ turn.time)
    (hsend : sensor.sendTotal = true) :
    let d := buildMessage sensor clock turn
    (FlowWorld.carryLedger l turn.publish d).Balanced ∧
      ((FlowWorld.carryLedger l turn.publish d).lost = l.lost ↔
        Carries sensor turn.publish d) := by
  intro d
  have hlose : l.Balanced ∧ (l.lose.lost = l.lost ↔ sensor.totalMl = 0) := by
    refine ⟨hbalanced, ?_⟩
    simp [Ledger.lose, hbalance]
  cases hd : d with
  | full => exact ⟨hbalanced, iff_of_true rfl trivial⟩
  | fullAfterTotal _ => exact ⟨hbalanced.lose, hlose.2⟩
  | message _ payload =>
      cases hpublish : turn.publish payload with
      | true =>
          simp only [FlowWorld.carryLedger, Carries, hpublish, if_true]
          refine ⟨hbalanced.report _, ?_⟩
          rw [carriedMl_of_message hplain hd hsend, Ledger.report, hbalance,
            ShownWhole, add_eq_left, sub_eq_zero]
          exact eq_comm
      | false =>
          simp only [FlowWorld.carryLedger, Carries, hpublish,
            Bool.false_eq_true, if_false]
          exact ⟨hbalanced.lose, hlose.2⟩

omit [PlainFloatOps F] in
/-- A message that resets the counter leaves nothing in the account. -/
theorem carryLedger_balance (l : Ledger ℤ) (publish : CStr → Bool)
    {d : DataSend F} (hd : d ≠ .full) :
    (FlowWorld.carryLedger l publish d).balance = 0 := by
  cases d with
  | full => exact (hd rfl).elim
  | fullAfterTotal _ => rfl
  | message _ payload =>
      simp only [FlowWorld.carryLedger]
      split <;> rfl

/-- The totals after `flow_yf_mqtt_data_send`. -/
theorem dataSend_totalMl (ctx : FlowContext F count) (i : Fin count)
    (clock : Clock) (turn : MqttTurn) (j : Fin count) :
    ((flowYfMqttDataSend ctx i clock turn).sensors j).totalMl =
        (ctx.sensors j).totalMl ∧
      (j = i → (ctx.sensors i).sendTotal = true →
        buildMessage (ctx.sensors i) clock turn = .full) ∨
    ((flowYfMqttDataSend ctx i clock turn).sensors j).totalMl = 0 ∧
      j = i ∧ (ctx.sensors i).sendTotal = true ∧
        buildMessage (ctx.sensors i) clock turn ≠ .full := by
  have htotal := takeTotal_totalMl (ctx.sensors i) clock
  have hset : ∀ {sensor : FlowSensor F} {d : DataSend F}, d ≠ .full →
      sensor.totalMl = (takeTotal (ctx.sensors i) clock).1.totalMl →
      ((ctx.setSensor i sensor).sensors j).totalMl =
          (ctx.sensors j).totalMl ∧
        (j = i → (ctx.sensors i).sendTotal = true → d = .full) ∨
      ((ctx.setSensor i sensor).sensors j).totalMl = 0 ∧
        j = i ∧ (ctx.sensors i).sendTotal = true ∧ d ≠ .full := by
    intro sensor d hd hsensor
    rw [htotal] at hsensor
    by_cases hj : j = i
    · subst hj
      cases hsend : (ctx.sensors j).sendTotal with
      | true =>
          rw [hsend, if_pos rfl] at hsensor
          exact .inr ⟨by simp [FlowContext.setSensor, hsensor], rfl, rfl, hd⟩
      | false =>
          rw [hsend, if_neg Bool.false_ne_true] at hsensor
          exact .inl ⟨by simp [FlowContext.setSensor, hsensor],
            fun _ htrue => nomatch htrue⟩
    · exact .inl ⟨by simp [FlowContext.setSensor, hj],
        fun hji => (hj hji).elim⟩
  unfold flowYfMqttDataSend
  rcases buildMessage_cases (ctx.sensors i) clock turn with
    hfull | hafter | ⟨payload, hmessage⟩
  · rw [hfull]
    exact .inl ⟨rfl, fun _ _ => rfl⟩
  · rw [hafter]
    exact hset nofun rfl
  · rw [hmessage]
    dsimp only
    split
    · exact hset nofun rfl
    · exact hset nofun rfl

/-- A message that leaves its total alone leaves the accounts alone. -/
theorem dataSend_agrees {ctx : FlowContext F count} {ledger : Fin count → Ledger ℤ}
    (h : Agrees ctx ledger) {i : Fin count} (clock : Clock) (turn : MqttTurn)
    (hsend : (ctx.sensors i).sendTotal = false) :
    Agrees (flowYfMqttDataSend ctx i clock turn) ledger := by
  intro j
  rcases dataSend_totalMl ctx i clock turn j with ⟨htotal, -⟩ | ⟨-, -, htrue, -⟩
  · rw [htotal]
    exact h j
  · exact nomatch hsend.symm.trans htrue

/-- A message that takes its total changes the account of its sensor. -/
theorem dataSend_agrees_carried {ctx : FlowContext F count}
    {ledger : Fin count → Ledger ℤ} (h : Agrees ctx ledger) {i : Fin count}
    (clock : Clock) (turn : MqttTurn) (hsend : (ctx.sensors i).sendTotal = true)
    (hcarried : (FlowWorld.carryLedger (ledger i) turn.publish
      (buildMessage (ctx.sensors i) clock turn)).Balanced) :
    Agrees (flowYfMqttDataSend ctx i clock turn)
      (Function.update ledger i (FlowWorld.carryLedger (ledger i) turn.publish
        (buildMessage (ctx.sensors i) clock turn))) := by
  have htotals := dataSend_totalMl ctx i clock turn
  refine (Function.forall_update_iff ledger fun j l => l.Balanced ∧
    l.balance = ((flowYfMqttDataSend ctx i clock turn).sensors j).totalMl).mpr
      ⟨⟨hcarried, ?_⟩, fun j hj => ?_⟩
  · rcases htotals i with ⟨htotal, hfull⟩ | ⟨htotal, -, -, hne⟩
    · rw [htotal, hfull rfl hsend]
      exact (h i).2
    · rw [htotal, carryLedger_balance _ _ hne]
      rfl
  · rcases htotals j with ⟨htotal, -⟩ | ⟨-, hji, -⟩
    · rw [htotal]
      exact h j
    · exact (hj hji).elim

/-- Nothing more is lost if nothing is lost in the account that changes. -/
theorem lost_update_iff (ledger : Fin count → Ledger ℤ) (i : Fin count)
    (l : Ledger ℤ) :
    (∀ j, (Function.update ledger i l j).lost = (ledger j).lost) ↔
      l.lost = (ledger i).lost :=
  (Function.forall_update_iff ledger fun j l => l.lost = (ledger j).lost).trans
    (and_iff_left fun _ _ => rfl)

theorem send_agrees {ctx : FlowContext F count} {ledger : Fin count → Ledger ℤ}
    (h : Agrees ctx ledger) (clock : Clock) (turn : MqttTurn)
    (hplain : quote ∉ turn.time) :
    Agrees (flowYfMqttSend ctx clock turn)
        (FlowWorld.sendLedger ctx clock turn ledger) ∧
      ((∀ i, (FlowWorld.sendLedger ctx clock turn ledger i).lost =
          (ledger i).lost) ↔ MessageCarries ctx clock turn) := by
  unfold flowYfMqttSend FlowWorld.sendLedger MessageCarries
  have hmarked : Agrees ctx.markForced ledger := by
    intro i
    rw [markForced_totalMl]
    exact h i
  generalize ctx.markForced = ctx at hmarked ⊢
  dsimp only
  cases hchosen : ctx.chosen turn.sendNow with
  | none =>
      refine ⟨hmarked, iff_of_true (fun i => rfl) ?_⟩
      exact fun i idx hsome => nomatch hsome
  | some target =>
      obtain ⟨i, idx⟩ := target
      have hfirst : (∀ i' idx', some (i, idx) = some (i', idx') →
          (ctx.sensors i').sendTotal = true →
          Carries (ctx.sensors i') turn.publish
            (buildMessage (ctx.sensors i') clock turn)) ↔
          ((ctx.sensors i).sendTotal = true →
            Carries (ctx.sensors i) turn.publish
              (buildMessage (ctx.sensors i) clock turn)) := by
        constructor
        · exact fun hall => hall i idx rfl
        · rintro hi i' idx' ⟨⟩
          exact hi
      have hsame : Agrees { ctx with idx := idx } ledger := hmarked
      rw [hfirst]
      dsimp only
      cases hsend : (ctx.sensors i).sendTotal with
      | false =>
          exact ⟨dataSend_agrees hsame clock turn hsend,
            iff_of_true (fun j => rfl) fun htrue => nomatch htrue⟩
      | true =>
          obtain ⟨hbalanced, hbalance⟩ := hmarked i
          obtain ⟨hcarried, hlost⟩ :=
            carryLedger_spec clock hbalanced hbalance hplain hsend
          simp only [if_true, true_implies]
          rw [lost_update_iff]
          exact ⟨dataSend_agrees_carried hsame clock turn hsend hcarried, hlost⟩

/-! ## Runs -/

/-- The accounts agree with the sensors. -/
theorem agrees_step {x : FlowWorld F count} (h : Agrees x.ctx x.ledger)
    (e : FlowEvent count) :
    Agrees (x.step e).ctx (x.step e).ledger ∧
      ((∀ i, ((x.step e).ledger i).lost = (x.ledger i).lost) ↔
        TotalCarried x e) := by
  cases e with
  | irq i =>
      refine ⟨fun j => ?_, iff_of_true (fun j => rfl) trivial⟩
      obtain ⟨hbalanced, hbalance⟩ := h j
      refine ⟨hbalanced, hbalance.trans ?_⟩
      by_cases hj : j = i
      · subst hj
        simp [FlowWorld.step, FlowContext.setSensor, flowYfIrq]
      · simp [FlowWorld.step, FlowContext.setSensor, hj]
  | run turn hplain =>
      obtain ⟨hread, hlost⟩ := readLedger_agrees h turn
      obtain ⟨hsend, hiff⟩ := send_agrees hread turn.clock turn.mqtt hplain
      simp only [hlost] at hiff
      exact ⟨hsend, hiff⟩
  | reset target clock =>
      refine ⟨fun j => ?_, iff_of_true (fun j => ?_) trivial⟩
      · obtain ⟨hbalanced, hbalance⟩ := h j
        simp only [FlowWorld.step, cmdFlowYfReset]
        split
        · exact ⟨hbalanced.clear, rfl⟩
        · exact ⟨hbalanced, hbalance⟩
      · simp only [FlowWorld.step]
        split <;> rfl

omit [PlainFloatOps F] in
theorem conserved_iff {x : FlowWorld F count} (h : Agrees x.ctx x.ledger) :
    FlowConserved x ↔ ∀ i, (x.ledger i).lost = 0 := by
  refine forall_congr' fun i => ?_
  obtain ⟨hbalanced, hbalance⟩ := h i
  rw [← hbalance]
  exact hbalanced.conserved_iff

/-! ## Exact arithmetic -/

theorem hundredthsText_eq (n : ℕ) :
    hundredthsText n =
      decimal (n / 100) ++ 46 :: (decimal (n / 10 % 10) ++ decimal (n % 10)) := by
  have hpoint : lit "." = [46] := rfl
  rw [hundredthsText, hpoint]
  simp [decimal]

theorem readHundredths_hundredthsText (n : ℕ) :
    readHundredths (hundredthsText n) = some n := by
  rw [hundredthsText_eq, readHundredths_digits (n / 100)
    (Nat.mod_lt _ (by decide)) (Nat.mod_lt _ (by decide))]
  congr 1
  omega

theorem hundredthsText_plain (n : ℕ) : quote ∉ hundredthsText n := by
  have hdecimal : ∀ k, quote ∉ decimal k := fun k hmem => by
    obtain ⟨d, hd, hquote⟩ := mem_decimal hmem
    have hnat := congrArg UInt8.toNat hquote
    rw [digit_toNat hd] at hnat
    change 34 = 48 + d at hnat
    omega
  have hpoint : quote ≠ 46 := by decide
  simp [hundredthsText_eq, hdecimal, hpoint]

instance : PlainFloatOps ℚ where
  toFloatOps := exactOps
  flowText_plain := fun _ => hundredthsText_plain _
  litreText_plain := fun _ => hundredthsText_plain _

/-- Exact arithmetic shows whole hundredths of a litre. -/
theorem shownWhole_exact (ml : ℕ) : ShownWhole ℚ ml ↔ 10 ∣ ml := by
  have hround : ShownWhole ℚ ml ↔
      (10 * BinaryFloat.roundEven ml 10 : ℕ) = (ml : ℤ) := by
    change (10 * ((readHundredths (hundredthsText
      (BinaryFloat.roundEven ml 10))).getD 0 : ℕ) : ℤ) = ml ↔ _
    rw [readHundredths_hundredthsText]
    simp
  rw [hround, Nat.cast_inj]
  constructor
  · exact fun h => ⟨_, h.symm⟩
  · rintro ⟨k, rfl⟩
    rw [mul_comm 10 k, BinaryFloat.roundEven_mul k (by decide), mul_comm]

/-- In every run what was carried by published messages, what is in the
counters and what was cleared is all that was added, in every state, if and
only if every message that resets a counter with something in it is published
and shows it whole. -/
theorem flow_conservation_iff (pps : Fin count → F) (accMsec : ℕ)
    (es : List (FlowEvent count)) :
    ((flowMachine F count).Along (fun x e => FlowConserved (x.step e))
          (.init pps accMsec) es ↔
        (flowMachine F count).Along TotalCarried (.init pps accMsec) es) ∧
      ∀ ml, ShownWhole ℚ ml ↔ 10 ∣ ml := by
  refine ⟨?_, shownWhole_exact⟩
  have hinit : Agrees (FlowWorld.init pps accMsec).ctx
      (FlowWorld.init pps accMsec).ledger :=
    fun _ => ⟨Ledger.balanced_empty, rfl⟩
  apply EventMachine.along_step_iff (m := flowMachine F count)
    (P := FlowConserved) (I := fun x => Agrees x.ctx x.ledger)
    (fun _ e h => (agrees_step h e).1) ?_ hinit
  · exact (conserved_iff hinit).mpr fun _ => rfl
  · intro x e hx hconserved
    have hlost := (conserved_iff hx).mp hconserved
    obtain ⟨hnext, hiff⟩ := agrees_step hx e
    rw [← hiff]
    simp only [hlost]
    exact conserved_iff hnext

/-- The first message fails to be published, and the total is gone. -/
theorem not_flow_conservation :
    ¬∀ (pps : Fin 1 → ℚ) (accMsec : ℕ) (es : List (FlowEvent 1)),
      (flowMachine ℚ 1).Along (fun x e => FlowConserved (x.step e))
        (.init pps accMsec) es := by
  intro h
  have hrun := h (fun _ => 6.6) 0
    [.irq 0, .run ⟨1000, fun _ => 1000, ⟨false, none⟩,
      ⟨1000, 1000, lit "now", fun _ => [], fun _ => false⟩⟩ (by decide)]
  exact absurd (hrun.2.1 0) (by decide +kernel)

end Herak.Flow
