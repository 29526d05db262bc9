import Mathlib.Algebra.Field.Rat
import Mathlib.Algebra.Order.Field.Basic
import Mathlib.Tactic.Linarith
import Mathlib.Tactic.Ring
import Herak.Mqtt.Payload
import Herak.Support.Ledger

/-!
# Gas consumption

`opentherm_gas_calc` adds the gas of each interval to a total, in exact
arithmetic here, and `mqtt_data_send` of `opentherm_mqtt.c` puts the total into
a message and clears it.  An interval counts with its whole seconds only, and
the total is cleared before the message is published.
-/

namespace Herak.OpenTherm

open CString
open Mqtt (addMqttMsgs addMqttMsgs_append mqttPayload)

/-- `MODULATION_MEASURE_MSEC` -/
def modulationMeasureMsec : ℕ := 1000
/-- `GAS_TOTAL_RESET_MSEC` -/
def gasTotalResetMsec : ℕ := 300000
/-- `FLAME_MIN_UA` -/
def flameMinUa : ℚ := 10
/-- `OTH_MQTT_DATA_LEN` -/
def othMqttDataLen : ℕ := 512

/-- The fields of the context for the gas calculation, with `qp` of
`opentherm_gas_calc`. -/
structure GasContext where
  qmin : ℚ
  qmax : ℚ
  qp : ℚ
  force : Bool
  flameCurrent : ℚ
  modulationLevel : ℚ
  modLevelTime : ℕ
  modLevelCount : ℕ
  modLevelMean : ℚ
  gasFlow : ℚ
  gasReset : ℕ
  gasTotal : ℚ
  gasSend : Bool
  deriving DecidableEq

namespace GasContext

def init (qmin qmax : ℚ) : GasContext where
  qmin := qmin
  qmax := qmax
  qp := 0
  force := false
  flameCurrent := 0
  modulationLevel := 0
  modLevelTime := 0
  modLevelCount := 0
  modLevelMean := 0
  gasFlow := 0
  gasReset := 0
  gasTotal := 0
  gasSend := false

/-- The first statements of `opentherm_gas_calc`, up to the test for the end of
the interval. -/
def addModulation (ctx : GasContext) : GasContext :=
  { ctx with
    qp := if ctx.qp = 0 then (ctx.qmax - ctx.qmin) / 100 else ctx.qp
    modLevelMean := ctx.modLevelMean + ctx.modulationLevel
    modLevelCount := ctx.modLevelCount + 1 }

/-- The flow for the mean modulation of an interval. -/
def meanFlow (ctx : GasContext) : ℚ :=
  ctx.qmin + ctx.qp * (ctx.modLevelMean / ctx.modLevelCount)

/-- The end of an interval. -/
def endInterval (ctx : GasContext) (now : ℕ) : GasContext :=
  let durationSec : ℕ := (now - ctx.modLevelTime) / 1000
  let ctx :=
    if flameMinUa ≤ ctx.flameCurrent then
      { ctx with
        gasFlow := ctx.meanFlow
        gasTotal := ctx.gasTotal + ctx.meanFlow * durationSec }
    else { ctx with gasFlow := 0 }
  { ctx with modLevelCount := 0, modLevelMean := 0, modLevelTime := now }

/-- The test of `opentherm_gas_calc` for the time to send the total. -/
def requestSend (ctx : GasContext) (now : ℕ) : GasContext :=
  if gasTotalResetMsec ≤ now - ctx.gasReset ∧ 0 < ctx.gasTotal then
    { ctx with gasSend := true, force := true }
  else ctx

/-- The interval is over. -/
def Ends (ctx : GasContext) (now : ℕ) : Prop :=
  modulationMeasureMsec ≤ now - ctx.modLevelTime

instance (ctx : GasContext) (now : ℕ) : Decidable (ctx.Ends now) :=
  inferInstanceAs (Decidable (_ ≤ _))

end GasContext

/-- `opentherm_gas_calc` -/
def openthermGasCalc (ctx : GasContext) (now : ℕ) : GasContext :=
  let ctx := ctx.addModulation
  let ctx := if ctx.Ends now then ctx.endInterval now else ctx
  ctx.requestSend now

/-- `DATA_READ` of the flame current. -/
def GasContext.readFlame (ctx : GasContext) (flame : ℚ) : GasContext :=
  { ctx with
    force := ctx.force || ctx.flameCurrent ≠ flame
    flameCurrent := flame }

/-- `DATA_READ` of the modulation level, which is not below 0. -/
def GasContext.readModulation (ctx : GasContext) (level : ℚ) : GasContext :=
  { ctx with
    force := ctx.force || ctx.modulationLevel ≠ level
    modulationLevel := if level < 0 then 0 else level }

/-- The part of `opentherm_read_data` for the gas; `flame` and `level` are what
the boiler has answered, if it has. -/
def openthermReadGas (ctx : GasContext) (flame level : Option ℚ) (now : ℕ) :
    GasContext :=
  let ctx := flame.elim ctx ctx.readFlame
  level.elim ctx fun level =>
    let ctx := ctx.readModulation level
    if flame.isSome ∧ 0 < ctx.qmin ∧ 0 < ctx.qmax then openthermGasCalc ctx now
    else ctx

/-- What `mqtt_data_send` reads: the pieces of the message before and after the
total, the text of the total, the time, and whether the message is
published. -/
structure GasTurn where
  head : List CStr
  gasText : ℚ → CStr
  tail : List CStr
  now : ℕ
  publish : CStr → Bool

/-- What `mqtt_data_send` has done when it returns: nothing for the total, or it
has cleared the total, for a message that was published or for none. -/
inductive GasSend
  | kept
  | cleared (published : Bool)
  deriving DecidableEq

/-- `mqtt_data_send` for the total: the context, and what was done. -/
def mqttDataSend (ctx : GasContext) (turn : GasTurn) : GasContext × GasSend :=
  match addMqttMsgs othMqttDataLen [] turn.head with
  | none => (ctx, .kept)
  | some head =>
      let gas : List CStr :=
        if ctx.gasSend then [lit ",\"gas_total\":" ++ turn.gasText ctx.gasTotal]
        else []
      match addMqttMsgs othMqttDataLen head gas with
      | none => (ctx, .kept)
      | some payload =>
          let cleared :=
            if ctx.gasSend then
              { ctx with gasSend := false, gasTotal := 0, gasReset := turn.now }
            else ctx
          match addMqttMsgs othMqttDataLen payload turn.tail with
          | none =>
              (cleared, if ctx.gasSend then .cleared false else .kept)
          | some payload =>
              ({ cleared with force := false },
                if ctx.gasSend then
                  .cleared (turn.publish (mqttPayload othMqttDataLen payload))
                else .kept)

/-! ## The account of the gas -/

inductive GasEvent
  | read (flame level : Option ℚ) (now : ℕ)
  | send (turn : GasTurn)

/-- The calculation with the account of the gas. -/
structure GasWorld where
  ctx : GasContext
  ledger : Ledger ℚ

namespace GasWorld

def init (qmin qmax : ℚ) : GasWorld := ⟨.init qmin qmax, .empty⟩

/-- The context in which `opentherm_gas_calc` comes to the end of an interval
with the flame on. -/
def burns (x : GasWorld) : GasEvent → Option GasContext
  | .read (some flame) (some level) now =>
      let ctx := ((x.ctx.readFlame flame).readModulation level).addModulation
      if 0 < ctx.qmin ∧ 0 < ctx.qmax ∧ ctx.Ends now ∧
          flameMinUa ≤ ctx.flameCurrent then
        some ctx
      else none
  | _ => none

/-- The length of the interval that ends at `now`, in seconds. -/
def duration (ctx : GasContext) (now : ℕ) : ℚ :=
  (now - ctx.modLevelTime : ℕ) / 1000

/-- The account after an interval: its gas comes in, and what is not added to
the total is lost. -/
def countInterval (ledger : Ledger ℚ) (ctx : GasContext) (now : ℕ) : Ledger ℚ :=
  let gas := ctx.meanFlow * duration ctx now
  let added := ctx.meanFlow * ((now - ctx.modLevelTime) / 1000 : ℕ)
  (ledger.deposit gas).leak (gas - added)

def carryTotal (ledger : Ledger ℚ) : GasSend → Ledger ℚ
  | .kept => ledger
  | .cleared published => if published then ledger.deliver else ledger.lose

def step (x : GasWorld) (e : GasEvent) : GasWorld :=
  match e with
  | .read flame level now =>
      { ctx := openthermReadGas x.ctx flame level now
        ledger := (x.burns e).elim x.ledger fun ctx =>
          countInterval x.ledger ctx now }
  | .send turn =>
      { ctx := (mqttDataSend x.ctx turn).1
        ledger := carryTotal x.ledger (mqttDataSend x.ctx turn).2 }

end GasWorld

def gasMachine : EventMachine GasWorld GasEvent where
  step := GasWorld.step
  enabled := fun _ _ => True

/-- What was carried by published messages and the total are the gas of all
intervals with the flame on. -/
def GasConserved (x : GasWorld) : Prop :=
  x.ledger.delivered + x.ctx.gasTotal = x.ledger.deposited

/-- The message with the total. -/
def GasTurn.pieces (turn : GasTurn) (total : ℚ) : List CStr :=
  turn.head ++ [lit ",\"gas_total\":" ++ turn.gasText total]

/-- An interval with the flame on has whole seconds or no flow, and a message
that carries a total fits the buffer and is published, or it ends before the
total. -/
def AllCounted (x : GasWorld) (e : GasEvent) : Prop :=
  match e with
  | .read _ _ now => ∀ ctx, x.burns e = some ctx →
      ctx.meanFlow = 0 ∨ (now - ctx.modLevelTime) % 1000 = 0
  | .send turn => x.ctx.gasSend = true →
      x.ctx.gasTotal = 0 ∨
        addMqttMsgs othMqttDataLen [] (turn.pieces x.ctx.gasTotal) = none ∨
        ∃ payload, addMqttMsgs othMqttDataLen []
            (turn.pieces x.ctx.gasTotal ++ turn.tail) = some payload ∧
          turn.publish (mqttPayload othMqttDataLen payload) = true

/-! ## One event -/

/-- The account has what the context has. -/
structure GasInv (x : GasWorld) : Prop where
  balanced : x.ledger.Balanced
  balance : x.ledger.balance = x.ctx.gasTotal
  cleared : x.ledger.cleared = 0

theorem GasInv.init (qmin qmax : ℚ) : GasInv (.init qmin qmax) :=
  ⟨Ledger.balanced_empty, rfl, rfl⟩

theorem GasInv.conserved_iff {x : GasWorld} (h : GasInv x) :
    GasConserved x ↔ x.ledger.lost = 0 := by
  rw [← h.balanced.conserved_iff, Ledger.Conserved, h.cleared, add_zero,
    h.balance]
  exact Iff.rfl

theorem requestSend_gasTotal (ctx : GasContext) (now : ℕ) :
    (ctx.requestSend now).gasTotal = ctx.gasTotal := by
  unfold GasContext.requestSend
  split <;> rfl

theorem endInterval_gasTotal (ctx : GasContext) (now : ℕ) :
    (ctx.endInterval now).gasTotal =
      if flameMinUa ≤ ctx.flameCurrent then
        ctx.gasTotal + ctx.meanFlow * ((now - ctx.modLevelTime) / 1000 : ℕ)
      else ctx.gasTotal := by
  unfold GasContext.endInterval
  dsimp only
  split <;> rfl

theorem gasCalc_gasTotal (ctx : GasContext) (now : ℕ) :
    (openthermGasCalc ctx now).gasTotal =
      if ctx.addModulation.Ends now ∧
          flameMinUa ≤ ctx.addModulation.flameCurrent then
        ctx.gasTotal + ctx.addModulation.meanFlow *
          ((now - ctx.modLevelTime) / 1000 : ℕ)
      else ctx.gasTotal := by
  unfold openthermGasCalc
  rw [requestSend_gasTotal]
  by_cases hends : ctx.addModulation.Ends now
  · simp only [hends, if_true, true_and]
    exact endInterval_gasTotal ctx.addModulation now
  · simp only [hends, if_false, false_and]
    rfl

/-- The total after a cycle of reads. -/
theorem readGas_gasTotal (x : GasWorld) (flame level : Option ℚ) (now : ℕ) :
    (openthermReadGas x.ctx flame level now).gasTotal =
      (x.burns (.read flame level now)).elim x.ctx.gasTotal fun ctx =>
        x.ctx.gasTotal + ctx.meanFlow * ((now - ctx.modLevelTime) / 1000 : ℕ) := by
  cases level with
  | none => cases flame <;> rfl
  | some level =>
      cases flame with
      | none => rfl
      | some flame =>
          unfold openthermReadGas GasWorld.burns
          simp only [Option.elim_some, Option.isSome_some, true_and]
          generalize hctx :
            (x.ctx.readFlame flame).readModulation level = ctx
          have htotal : ctx.gasTotal = x.ctx.gasTotal := hctx ▸ rfl
          have hqmin : ctx.addModulation.qmin = ctx.qmin := rfl
          have hqmax : ctx.addModulation.qmax = ctx.qmax := rfl
          rw [hqmin, hqmax]
          by_cases hq : 0 < ctx.qmin ∧ 0 < ctx.qmax
          · rw [if_pos hq, gasCalc_gasTotal, htotal]
            by_cases hends : ctx.addModulation.Ends now ∧
                flameMinUa ≤ ctx.addModulation.flameCurrent
            · rw [if_pos hends, if_pos ⟨hq.1, hq.2, hends⟩]
              rfl
            · rw [if_neg hends, if_neg fun h => hends h.2.2]
              rfl
          · rw [if_neg hq, if_neg fun h => hq ⟨h.1, h.2.1⟩]
            exact htotal

theorem duration_eq_iff (ctx : GasContext) (now : ℕ) :
    GasWorld.duration ctx now = ((now - ctx.modLevelTime) / 1000 : ℕ) ↔
      (now - ctx.modLevelTime) % 1000 = 0 := by
  unfold GasWorld.duration
  generalize now - ctx.modLevelTime = n
  rw [div_eq_iff (by norm_num)]
  constructor
  · intro h
    have hn : n = n / 1000 * 1000 := by exact_mod_cast h
    omega
  · intro h
    have hn : n = n / 1000 * 1000 := by omega
    exact_mod_cast hn

/-- What is lost of an interval. -/
theorem countInterval_lost (ledger : Ledger ℚ) (ctx : GasContext) (now : ℕ) :
    (GasWorld.countInterval ledger ctx now).lost = ledger.lost ↔
      ctx.meanFlow = 0 ∨ (now - ctx.modLevelTime) % 1000 = 0 := by
  rw [← duration_eq_iff]
  change ledger.lost + (ctx.meanFlow * GasWorld.duration ctx now -
    ctx.meanFlow * ((now - ctx.modLevelTime) / 1000 : ℕ)) = ledger.lost ↔ _
  rw [add_eq_left, sub_eq_zero, mul_eq_mul_left_iff, or_comm]

/-- The two outcomes of a message for a total that is to be sent. -/
theorem mqttDataSend_cases (ctx : GasContext) (turn : GasTurn) :
    (mqttDataSend ctx turn).2 = .kept ∧
        (mqttDataSend ctx turn).1.gasTotal = ctx.gasTotal ∧
        (ctx.gasSend = true → addMqttMsgs othMqttDataLen []
          (turn.pieces ctx.gasTotal) = none) ∨
      ctx.gasSend = true ∧ (mqttDataSend ctx turn).1.gasTotal = 0 ∧
        addMqttMsgs othMqttDataLen [] (turn.pieces ctx.gasTotal) ≠ none ∧
        ∃ published, (mqttDataSend ctx turn).2 = .cleared published ∧
          (published = true ↔ ∃ payload, addMqttMsgs othMqttDataLen []
            (turn.pieces ctx.gasTotal ++ turn.tail) = some payload ∧
              turn.publish (mqttPayload othMqttDataLen payload) = true) := by
  rw [addMqttMsgs_append, GasTurn.pieces, addMqttMsgs_append]
  unfold mqttDataSend
  cases hhead : addMqttMsgs othMqttDataLen [] turn.head with
  | none => exact .inl ⟨rfl, rfl, fun _ => rfl⟩
  | some head =>
      simp only [Option.bind_some]
      cases hsend : ctx.gasSend with
      | false =>
          have hnil : addMqttMsgs othMqttDataLen head [] = some head := rfl
          simp only [Bool.false_eq_true, if_false, hnil]
          left
          cases addMqttMsgs othMqttDataLen head turn.tail with
          | none => exact ⟨rfl, rfl, nofun⟩
          | some payload => exact ⟨rfl, rfl, nofun⟩
      | true =>
          simp only [if_true]
          cases hgas : addMqttMsgs othMqttDataLen head
              [lit ",\"gas_total\":" ++ turn.gasText ctx.gasTotal] with
          | none => exact .inl ⟨rfl, rfl, fun _ => rfl⟩
          | some payload =>
              right
              simp only [Option.bind_some]
              cases htail : addMqttMsgs othMqttDataLen payload turn.tail with
              | none => exact ⟨trivial, rfl, nofun, false, rfl, by simp⟩
              | some message => exact ⟨trivial, rfl, nofun, _, rfl, by simp⟩

/-! ## Runs -/

theorem GasInv.step {x : GasWorld} (h : GasInv x) (e : GasEvent) :
    GasInv (x.step e) := by
  cases e with
  | read flame level now =>
      have htotal := readGas_gasTotal x flame level now
      unfold GasWorld.step
      dsimp only
      cases hburns : x.burns (.read flame level now) with
      | none =>
          rw [hburns] at htotal
          exact ⟨h.balanced, h.balance.trans htotal.symm, h.cleared⟩
      | some ctx =>
          rw [hburns] at htotal
          refine ⟨(h.balanced.deposit _).leak _, ?_, h.cleared⟩
          have hadded : ∀ gas added : ℚ, x.ledger.balance + gas -
              (gas - added) = x.ctx.gasTotal + added := by
            intro gas added
            rw [h.balance]
            ring
          exact (hadded _ _).trans htotal.symm
  | send turn =>
      unfold GasWorld.step
      dsimp only
      rcases mqttDataSend_cases x.ctx turn with
        ⟨hkept, htotal, -⟩ | ⟨-, htotal, -, published, hcleared, -⟩
      · rw [hkept]
        exact ⟨h.balanced, h.balance.trans htotal.symm, h.cleared⟩
      · rw [hcleared]
        cases published with
        | true => exact ⟨h.balanced.deliver, htotal.symm, h.cleared⟩
        | false => exact ⟨h.balanced.lose, htotal.symm, h.cleared⟩

/-- Nothing is lost in a step exactly if all of its gas is counted. -/
theorem lost_step_iff {x : GasWorld} (h : GasInv x) (e : GasEvent) :
    (x.step e).ledger.lost = x.ledger.lost ↔ AllCounted x e := by
  cases e with
  | read flame level now =>
      unfold GasWorld.step AllCounted
      dsimp only
      cases x.burns (.read flame level now) with
      | none => simp
      | some ctx =>
          simp only [Option.elim_some, Option.some.injEq, forall_eq']
          exact countInterval_lost x.ledger ctx now
  | send turn =>
      unfold GasWorld.step AllCounted
      dsimp only
      rcases mqttDataSend_cases x.ctx turn with
        ⟨hkept, -, hnone⟩ | ⟨hsend, -, hsome, published, hcleared, hiff⟩
      · rw [hkept]
        exact iff_of_true rfl fun hsend => .inr (.inl (hnone hsend))
      · rw [hcleared, ← hiff]
        simp only [hsend, hsome, true_implies, false_or]
        cases published with
        | true => exact iff_of_true rfl (.inr rfl)
        | false =>
            change x.ledger.lost + x.ledger.balance = x.ledger.lost ↔ _
            simp [h.balance]

/-- In every run what was carried by published messages and the total are the
gas of all intervals with the flame on, in every state, if and only if these
intervals have whole seconds and every message with a total is published. -/
theorem gas_conservation_iff (qmin qmax : ℚ) (es : List GasEvent) :
    gasMachine.Along (fun x e => GasConserved (x.step e)) (.init qmin qmax) es ↔
      gasMachine.Along AllCounted (.init qmin qmax) es := by
  apply EventMachine.along_step_iff (m := gasMachine) (P := GasConserved)
    (I := GasInv) (fun _ e hx => hx.step e) ?_ (.init qmin qmax)
  · exact add_zero 0
  · intro x e hx hconserved
    have hlost := hx.conserved_iff.mp hconserved
    rw [← lost_step_iff hx e, hlost]
    exact (hx.step e).conserved_iff

/-- The total of the first five minutes is cleared for a message that is not
published. -/
theorem not_gas_conservation :
    ¬∀ (qmin qmax : ℚ) (es : List GasEvent),
      gasMachine.Along (fun x e => GasConserved (x.step e))
        (.init qmin qmax) es := by
  intro h
  have hrun := h 1 2
    [.read (some 20) (some 50) 300000,
      .send ⟨[lit "\x7b"], fun _ => lit "450.000000", [lit "\x7d"], 300010,
        fun _ => false⟩]
  have hsent : GasConserved _ := hrun.2.1
  unfold GasConserved at hsent
  exact absurd hsent (by decide +kernel)

end Herak.OpenTherm
