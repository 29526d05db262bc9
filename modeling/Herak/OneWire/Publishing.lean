import Mathlib.Data.Finset.Card
import Mathlib.Data.Finset.Prod
import Mathlib.Data.Fintype.Prod
import Mathlib.Data.List.FinRange
import Mathlib.Data.List.ProdSigma
import Herak.Mqtt.Payload
import Herak.OneWire.Device
import Herak.Support.EventMachine
import Herak.Support.Rotation

/-!
# Messages of the one-wire sensors

`one_wire_mqtt_send` sends the message of one sensor a call: of one that asks
for it with `force`, or else of the entry that two static indices name.  Both
indices go on with every message, so that they walk along a diagonal of the
table of lines and entries.
-/

namespace Herak.OneWire

open Mqtt (SendCall)

/-- `MQTT_DELAY_MS` -/
def mqttDelayMs : UInt64 := 5000

variable {Rom : Type*} {count : ℕ}

/-! ## The code -/

/-- `one_wire_context_t` with the static indices of `one_wire_mqtt_send`, and
the entries whose messages were published. -/
structure OneWireSender (Rom : Type*) (count : ℕ) where
  lines : Fin count → OneWireLine Rom
  mqttLastSend : UInt64
  lidx : ℕ
  sidx : ℕ
  published : List (Fin count × SlotIdx)

namespace OneWireSender

/-- The sensor in an entry. -/
def sensor (s : OneWireSender Rom count) (p : Fin count × SlotIdx) :
    OneWireSensor Rom :=
  (s.lines p.1).sensors p.2

/-- A sensor was detected in the entry. -/
def Detected (s : OneWireSender Rom count) (p : Fin count × SlotIdx) : Prop :=
  (s.sensor p).address ≠ 0

/-- The sensor asks for a message. -/
def Forced (s : OneWireSender Rom count) (p : Fin count × SlotIdx) : Prop :=
  s.Detected p ∧ (s.sensor p).force = true

instance (s : OneWireSender Rom count) : DecidablePred s.Detected :=
  fun p => inferInstanceAs (Decidable ((s.sensor p).address ≠ 0))

instance (s : OneWireSender Rom count) : DecidablePred s.Forced :=
  fun p => inferInstanceAs
    (Decidable (s.Detected p ∧ (s.sensor p).force = true))

/-- `one_wire_mqtt_data_send` -/
def oneWireMqttDataSend (s : OneWireSender Rom count) (call : SendCall)
    (p : Fin count × SlotIdx) : OneWireSender Rom count :=
  if call.result = 0 then
    { s with
      lines := Function.update s.lines p.1
        ((s.lines p.1).setSensor p.2 { s.sensor p with force := false })
      mqttLastSend := call.sendTime
      published := s.published ++ [p] }
  else s

/-- The loops over the table: the first sensor that asks for a message. -/
def firstForced (s : OneWireSender Rom count) : Option (Fin count × SlotIdx) :=
  ((List.finRange count).product (List.finRange onewireSenorsMax)).find?
    fun p => s.Forced p

/-- The indices after the two tests in front of a message. -/
def wrapIndices (count lidx sidx : ℕ) : ℕ × ℕ :=
  let (lidx, sidx) := if onewireSenorsMax ≤ sidx then (lidx + 1, 0) else (lidx, sidx)
  if count ≤ lidx then (0, 0) else (lidx, sidx)

/-- `one_wire_mqtt_send` -/
def oneWireMqttSend (s : OneWireSender Rom count) (call : SendCall) :
    OneWireSender Rom count :=
  match s.firstForced with
  | some p => s.oneWireMqttDataSend call p
  | none =>
      if call.now - s.mqttLastSend < mqttDelayMs then s
      else
        let (lidx, sidx) := wrapIndices count s.lidx s.sidx
        if h : lidx < count ∧ sidx < onewireSenorsMax then
          { s.oneWireMqttDataSend call (⟨lidx, h.1⟩, ⟨sidx, h.2⟩) with
            lidx := lidx + 1
            sidx := sidx + 1 }
        else s

/-- The module after a start of the device. -/
def boot (lines : Fin count → OneWireLine Rom) : OneWireSender Rom count where
  lines := lines
  mqttLastSend := 0
  lidx := 0
  sidx := 0
  published := []

end OneWireSender

/-- The calls, and whatever else happens to the table of the sensors. -/
inductive SenderEvent (Rom : Type*) (count : ℕ)
  | send (call : SendCall)
  | sensors (lines : Fin count → OneWireLine Rom)

def senderMachine : EventMachine (OneWireSender Rom count)
    (SenderEvent Rom count) where
  step := fun s e =>
    match e with
    | .send call => s.oneWireMqttSend call
    | .sensors lines => { s with lines := lines }
  enabled := fun _ _ => True

/-! ## The walk of the indices -/

/-- The entries of the walk. -/
def OnDiagonal (p : Fin count × SlotIdx) : Prop :=
  (p.1 : ℕ) % 6 = p.2

instance : DecidablePred (@OnDiagonal count) :=
  fun p => inferInstanceAs (Decidable ((p.1 : ℕ) % 6 = p.2))

/-- The indices stay on a diagonal; behind the last entry of a line the walk
leaves out one line. -/
def OneWireSender.Walks (s : OneWireSender Rom count) : Prop :=
  s.lidx % 6 = s.sidx

namespace OneWireSender

variable {s : OneWireSender Rom count} {call : SendCall}

theorem wrapIndices_spec (hcount : 0 < count) {lidx sidx : ℕ}
    (h : lidx % 6 = sidx) :
    (wrapIndices count lidx sidx).1 < count ∧
      (wrapIndices count lidx sidx).2 < onewireSenorsMax ∧
      (wrapIndices count lidx sidx).1 % 6 = (wrapIndices count lidx sidx).2 := by
  have hmax : onewireSenorsMax = 5 := rfl
  unfold wrapIndices
  dsimp only
  split
  · dsimp only
    split
    · exact ⟨hcount, by decide, rfl⟩
    · refine ⟨by omega, by omega, ?_⟩
      omega
  · dsimp only
    split
    · exact ⟨hcount, by decide, rfl⟩
    · refine ⟨by omega, by omega, ?_⟩
      omega

/-- The entry of the next message: that of the indices, that behind the line
which is left out, or the first one of the table. -/
theorem wrapIndices_cases (count : ℕ) {lidx sidx : ℕ} (h : lidx % 6 = sidx) :
    (wrapIndices count lidx sidx).1 = lidx ∧ lidx % 6 ≠ 5 ∧ lidx < count ∨
      (wrapIndices count lidx sidx).1 = lidx + 1 ∧ lidx % 6 = 5 ∧
        lidx + 1 < count ∨
      (wrapIndices count lidx sidx).1 = 0 ∧
        (lidx % 6 = 5 ∧ count ≤ lidx + 1 ∨ count ≤ lidx) := by
  have hmax : onewireSenorsMax = 5 := rfl
  unfold wrapIndices
  dsimp only
  split
  · dsimp only
    split
    · exact Or.inr (Or.inr ⟨rfl, by omega⟩)
    · exact Or.inr (Or.inl ⟨rfl, by omega, by omega⟩)
  · dsimp only
    split
    · exact Or.inr (Or.inr ⟨rfl, by omega⟩)
    · exact Or.inl ⟨rfl, by omega, by omega⟩

/-! ## A message -/

theorem sensor_update (s : OneWireSender Rom count) (call : SendCall)
    (p q : Fin count × SlotIdx) (hresult : call.result = 0) :
    (s.oneWireMqttDataSend call p).sensor q =
      if q = p then { s.sensor p with force := false } else s.sensor q := by
  rw [oneWireMqttDataSend, if_pos hresult]
  by_cases hline : q.1 = p.1
  · by_cases hslot : q.2 = p.2
    · have hqp : q = p := Prod.ext hline hslot
      rw [if_pos hqp, hqp]
      simp [sensor]
    · have hqp : q ≠ p := fun h => hslot (congrArg Prod.snd h)
      rw [if_neg hqp]
      simp only [sensor, hline, Function.update_self]
      exact (s.lines p.1).setSensor_of_ne hslot _
  · have hqp : q ≠ p := fun h => hline (congrArg Prod.fst h)
    rw [if_neg hqp]
    simp only [sensor, Function.update_of_ne hline]

theorem dataSend_detected_iff (s : OneWireSender Rom count) (call : SendCall)
    (p q : Fin count × SlotIdx) (hresult : call.result = 0) :
    (s.oneWireMqttDataSend call p).Detected q ↔ s.Detected q := by
  rw [Detected, sensor_update s call p q hresult]
  split
  next hqp => rw [hqp, Detected]
  · exact Iff.rfl

/-- A message takes the wish of its sensor back. -/
theorem dataSend_forced_iff (s : OneWireSender Rom count) (call : SendCall)
    (p q : Fin count × SlotIdx) (hresult : call.result = 0) :
    (s.oneWireMqttDataSend call p).Forced q ↔ s.Forced q ∧ q ≠ p := by
  rw [Forced, dataSend_detected_iff s call p q hresult,
    sensor_update s call p q hresult, Forced]
  by_cases hqp : q = p
  · simp [hqp]
  · simp [hqp]

theorem dataSend_published (s : OneWireSender Rom count) (call : SendCall)
    (p : Fin count × SlotIdx) (hresult : call.result = 0) :
    (s.oneWireMqttDataSend call p).published = s.published ++ [p] := by
  rw [oneWireMqttDataSend, if_pos hresult]

theorem firstForced_some {p : Fin count × SlotIdx}
    (h : s.firstForced = some p) : s.Forced p := by
  have hfound := List.find?_some h
  simpa using hfound

theorem firstForced_none (h : s.firstForced = none) (p : Fin count × SlotIdx) :
    ¬ s.Forced p := by
  rw [firstForced, List.find?_eq_none] at h
  have hmem : p ∈ (List.finRange count).product (List.finRange onewireSenorsMax) :=
    List.mem_product.mpr ⟨List.mem_finRange p.1, List.mem_finRange p.2⟩
  simpa using h p hmem

/-! ## Due calls -/

/-- A call at which a message is due and is published. -/
def Due (s : OneWireSender Rom count) : SenderEvent Rom count → Prop
  | .send call => call.result = 0 ∧ ¬ call.now - s.mqttLastSend < mqttDelayMs
  | .sensors _ => False

/-- What a due call does: it sends the message of one entry, which is that of a
sensor that asks for it, or else the next one of the walk. -/
structure Sends (s s' : OneWireSender Rom count) (p : Fin count × SlotIdx) :
    Prop where
  published : s'.published = s.published ++ [p]
  detected : ∀ q, s'.Detected q ↔ s.Detected q
  forced : ∀ q, s'.Forced q ↔ s.Forced q ∧ q ≠ p
  entry : s.Forced p ∧ s'.lidx = s.lidx ∧ s'.sidx = s.sidx ∨
    (∀ q, ¬ s.Forced q) ∧
      wrapIndices count s.lidx s.sidx = ((p.1 : ℕ), (p.2 : ℕ)) ∧
      s'.lidx = p.1 + 1 ∧ s'.sidx = p.2 + 1

theorem sends_of_due (hcount : 0 < count) (hwalks : s.Walks)
    {e : SenderEvent Rom count} (hdue : Due s e) :
    ∃ p, Sends s (senderMachine.step s e) p := by
  obtain call | lines := e
  · obtain ⟨hresult, hnow⟩ := hdue
    change ∃ p, Sends s (s.oneWireMqttSend call) p
    rw [oneWireMqttSend]
    split
    next p hforced =>
      refine ⟨p, dataSend_published s call p hresult,
        fun q => dataSend_detected_iff s call p q hresult,
        fun q => dataSend_forced_iff s call p q hresult,
        Or.inl ⟨firstForced_some hforced, ?_, ?_⟩⟩
      · rw [oneWireMqttDataSend, if_pos hresult]
      · rw [oneWireMqttDataSend, if_pos hresult]
    next hnone =>
      obtain ⟨hlidx, hsidx, -⟩ := wrapIndices_spec hcount hwalks
      rw [if_neg hnow]
      dsimp only
      rw [dif_pos ⟨hlidx, hsidx⟩]
      exact ⟨_, dataSend_published s call _ hresult,
        fun q => dataSend_detected_iff s call _ q hresult,
        fun q => dataSend_forced_iff s call _ q hresult,
        Or.inr ⟨firstForced_none hnone, rfl, rfl, rfl⟩⟩
  · exact hdue.elim

/-- Whatever happens, the indices stay on a diagonal. -/
theorem walks_step (hcount : 0 < count) (e : SenderEvent Rom count)
    (hwalks : s.Walks) : (senderMachine.step s e).Walks := by
  have hdata : ∀ (call : SendCall) (p : Fin count × SlotIdx),
      (s.oneWireMqttDataSend call p).Walks := by
    intro call p
    rw [oneWireMqttDataSend]
    split
    · exact hwalks
    · exact hwalks
  obtain call | lines := e
  · change (s.oneWireMqttSend call).Walks
    rw [oneWireMqttSend]
    split
    · exact hdata call _
    · split
      · exact hwalks
      · obtain ⟨-, hsidx, hmod⟩ := wrapIndices_spec hcount hwalks
        dsimp only
        split
        · have hmax : onewireSenorsMax = 5 := rfl
          rw [Walks]
          dsimp only
          omega
        · exact hwalks
  · exact hwalks

theorem walks_boot (lines : Fin count → OneWireLine Rom) : (boot lines).Walks :=
  rfl

theorem walks_run (hcount : 0 < count) (lines : Fin count → OneWireLine Rom)
    (es : List (SenderEvent Rom count)) :
    (senderMachine.run (boot lines) es).Walks :=
  senderMachine.invariant (I := Walks) (fun _ e h => walks_step hcount e h)
    (walks_boot lines) es

/-- A run of due calls. -/
def DueRun (s : OneWireSender Rom count) (es : List (SenderEvent Rom count)) :
    Prop :=
  senderMachine.Along Due s es

/-! ## The walk as a rotation -/

/-- The sensors that ask for a message. -/
def forcedSet (s : OneWireSender Rom count) : Finset (Fin count × SlotIdx) :=
  Finset.univ.filter s.Forced

/-- The walk of the indices, from one message to the next. -/
def walk (hcount : 0 < count) :
    Rotation (Fin count × SlotIdx) { c : ℕ × ℕ // c.1 % 6 = c.2 } where
  next := fun c =>
    ⟨((wrapIndices count c.1.1 c.1.2).1 + 1, (wrapIndices count c.1.1 c.1.2).2 + 1), by
      have hspec := wrapIndices_spec hcount c.2
      have hmax : onewireSenorsMax = 5 := rfl
      omega⟩
  entry := fun c =>
    (⟨(wrapIndices count c.1.1 c.1.2).1, (wrapIndices_spec hcount c.2).1⟩,
      ⟨(wrapIndices count c.1.1 c.1.2).2, (wrapIndices_spec hcount c.2).2.1⟩)

theorem onDiagonal_entry (hcount : 0 < count)
    (c : { c : ℕ × ℕ // c.1 % 6 = c.2 }) : OnDiagonal ((walk hcount).entry c) :=
  (wrapIndices_spec hcount c.2).2.2

/-- The part of the state that decides which message is next. -/
def turnState (s : OneWireSender Rom count) (hwalks : s.Walks) :
    Rotation.State (Fin count × SlotIdx) { c : ℕ × ℕ // c.1 % 6 = c.2 } where
  pending := s.forcedSet
  cursor := ⟨(s.lidx, s.sidx), hwalks⟩
  served := s.published

theorem serves_of_due (hcount : 0 < count) (hwalks : s.Walks)
    {e : SenderEvent Rom count} (hdue : Due s e) :
    ∃ p, (walk hcount).Serves (s.turnState hwalks) p
      ((senderMachine.step s e).turnState (walks_step hcount e hwalks)) := by
  obtain ⟨p, hsends⟩ := sends_of_due hcount hwalks hdue
  have herase : (senderMachine.step s e).forcedSet = s.forcedSet.erase p := by
    ext q
    simp only [forcedSet, Finset.mem_filter, Finset.mem_univ, true_and,
      Finset.mem_erase, hsends.forced q, and_comm]
  rcases hsends.entry with ⟨hforced, hlidx, hsidx⟩ | ⟨hnone, hwrap, hlidx, hsidx⟩
  · have hmem : p ∈ (s.turnState hwalks).pending :=
      Finset.mem_filter.mpr ⟨Finset.mem_univ p, hforced⟩
    have hstate : (senderMachine.step s e).turnState (walks_step hcount e hwalks) =
        { s.turnState hwalks with
          pending := (s.turnState hwalks).pending.erase p
          served := (s.turnState hwalks).served ++ [p] } := by
      simp only [turnState, herase, hlidx, hsidx, hsends.published]
    rw [hstate]
    exact ⟨p, .pending hmem⟩
  · have hempty : (s.turnState hwalks).pending = ∅ :=
      Finset.filter_eq_empty_iff.mpr fun q _ => hnone q
    have hentry : (walk hcount).entry (s.turnState hwalks).cursor = p :=
      Prod.ext (Fin.ext (congrArg Prod.fst hwrap)) (Fin.ext (congrArg Prod.snd hwrap))
    have hstate : (senderMachine.step s e).turnState (walks_step hcount e hwalks) =
        { s.turnState hwalks with
          cursor := (walk hcount).next (s.turnState hwalks).cursor
          served := (s.turnState hwalks).served ++
            [(walk hcount).entry (s.turnState hwalks).cursor] } := by
      have hforced : s.forcedSet = ∅ := hempty
      rw [hentry]
      simp only [turnState, walk, herase, hforced, Finset.erase_empty, hlidx,
        hsidx, hwrap, hsends.published]
    rw [hstate]
    exact ⟨_, .turn hempty⟩

/-- A run of due calls is a number of turns. -/
theorem turns_of_dueRun (hcount : 0 < count) {es : List (SenderEvent Rom count)}
    (hwalks : s.Walks) (hdue : DueRun s es) :
    ∃ hwalks' : (senderMachine.run s es).Walks,
      (walk hcount).Turns es.length (s.turnState hwalks)
        ((senderMachine.run s es).turnState hwalks') := by
  induction es generalizing s with
  | nil => exact ⟨hwalks, .none _⟩
  | cons e es ih =>
      obtain ⟨p, hserves⟩ := serves_of_due hcount hwalks hdue.1
      obtain ⟨hwalks', hturns⟩ := ih (walks_step hcount e hwalks) hdue.2
      exact ⟨hwalks', .one hserves hturns⟩

/-- Nothing but what asked for a message and what is on the diagonals is
published. -/
theorem published_cases (hcount : 0 < count)
    {es : List (SenderEvent Rom count)} (hwalks : s.Walks) (hdue : DueRun s es)
    {p : Fin count × SlotIdx} (hp : p ∈ (senderMachine.run s es).published) :
    p ∈ s.published ∨ s.Forced p ∨ OnDiagonal p := by
  obtain ⟨hwalks', hturns⟩ := turns_of_dueRun hcount hwalks hdue
  rcases hturns.served_cases hp with hold | hforced | ⟨j, rfl⟩
  · exact Or.inl hold
  · exact Or.inr (Or.inl (Finset.mem_filter.mp hforced).2)
  · exact Or.inr (Or.inr (onDiagonal_entry hcount _))

/-- How far the walk is from an entry. -/
def distance (c : { c : ℕ × ℕ // c.1 % 6 = c.2 }) (p : Fin count × SlotIdx) : ℕ :=
  if c.1.1 ≤ p.1 then p.1 - c.1.1 else count - c.1.1 + 1 + p.1

theorem distance_le (c : { c : ℕ × ℕ // c.1 % 6 = c.2 })
    (p : Fin count × SlotIdx) : distance c p ≤ 2 * count := by
  have hp := p.1.isLt
  rw [distance]
  split
  · omega
  · omega

/-- A message of another entry brings the walk nearer. -/
theorem distance_lt (hcount : 0 < count) {c : { c : ℕ × ℕ // c.1 % 6 = c.2 }}
    {p : Fin count × SlotIdx} (hdiag : OnDiagonal p)
    (hne : (walk hcount).entry c ≠ p) :
    distance ((walk hcount).next c) p < distance c p := by
  have hmod := (wrapIndices_spec hcount c.2).2.2
  have hcases := wrapIndices_cases count c.2
  have hp := p.1.isLt
  have hslot : (p.2 : ℕ) < 5 := p.2.isLt
  have hline : (wrapIndices count c.1.1 c.1.2).1 ≠ p.1 := by
    intro h
    refine hne (Prod.ext (Fin.ext h) (Fin.ext ?_))
    rw [OnDiagonal] at hdiag
    change (wrapIndices count c.1.1 c.1.2).2 = p.2
    omega
  have hnext : ((walk hcount).next c).1.1 =
      (wrapIndices count c.1.1 c.1.2).1 + 1 := rfl
  rw [OnDiagonal] at hdiag
  rw [distance, distance, hnext]
  split
  · split
    · omega
    · omega
  · split
    · omega
    · omega

/-- The walk comes to every entry of the diagonals. -/
theorem exists_entry (hcount : 0 < count) {n : ℕ}
    {c : { c : ℕ × ℕ // c.1 % 6 = c.2 }} {p : Fin count × SlotIdx}
    (hdiag : OnDiagonal p) (hdist : distance c p < n) :
    ∃ j < n, (walk hcount).entry ((walk hcount).next^[j] c) = p := by
  induction n generalizing c with
  | zero => exact absurd hdist (Nat.not_lt_zero _)
  | succ n ih =>
      by_cases hp : (walk hcount).entry c = p
      · exact ⟨0, Nat.succ_pos n, hp⟩
      · have hlt := distance_lt hcount hdiag hp
        obtain ⟨j, hj, hentry⟩ := ih (c := (walk hcount).next c) (by omega)
        exact ⟨j + 1, Nat.succ_lt_succ hj, hentry⟩

/-- The number of due calls that are enough for every sensor. -/
def roundCalls (s : OneWireSender Rom count) : ℕ :=
  s.forcedSet.card + (2 * count + 1)

theorem mem_published_of_dueRun (hcount : 0 < count)
    {es : List (SenderEvent Rom count)} (hwalks : s.Walks) (hdue : DueRun s es)
    (hlen : s.roundCalls ≤ es.length) {p : Fin count × SlotIdx}
    (hp : s.Forced p ∨ OnDiagonal p) : p ∈ (senderMachine.run s es).published := by
  obtain ⟨hwalks', hturns⟩ := turns_of_dueRun hcount hwalks hdue
  obtain ⟨hforced, hway⟩ := hturns.all_served (k := 2 * count + 1) hlen
  rcases hp with hp | hp
  · exact hforced p (Finset.mem_filter.mpr ⟨Finset.mem_univ p, hp⟩)
  · obtain ⟨j, hj, hentry⟩ := exists_entry hcount (c := (s.turnState hwalks).cursor)
      hp (Nat.lt_succ_of_le (distance_le _ p))
    have hserved := hway j hj
    rw [hentry] at hserved
    exact hserved

/-- There are due calls in every state. -/
theorem exists_dueRun (n : ℕ) (s : OneWireSender Rom count) :
    ∃ es, es.length = n ∧ DueRun s es := by
  induction n generalizing s with
  | zero => exact ⟨[], rfl, trivial⟩
  | succ n ih =>
      let e : SenderEvent Rom count :=
        .send { now := s.mqttLastSend + mqttDelayMs, sendTime := 0, result := 0 }
      obtain ⟨es, hlen, hdue⟩ := ih (senderMachine.step s e)
      have hdelay : s.mqttLastSend + mqttDelayMs - s.mqttLastSend = mqttDelayMs :=
        add_sub_cancel_left _ _
      refine ⟨e :: es, by rw [List.length_cons, hlen], ⟨rfl, ?_⟩, hdue⟩
      rw [hdelay]
      decide

/-! ## Fairness -/

/-- From here on, without a change of the table: a bounded number of due calls
publishes every sensor, and no empty entry is ever published. -/
structure Fair (s : OneWireSender Rom count) : Prop where
  every : ∃ bound, ∀ es, DueRun { s with published := [] } es →
    bound ≤ es.length → ∀ p, s.Detected p →
      p ∈ (senderMachine.run { s with published := [] } es).published
  only : ∀ es, DueRun { s with published := [] } es →
    ∀ p ∈ (senderMachine.run { s with published := [] } es).published,
      s.Detected p

/-- The sensors, but for those that ask for a message, are the entries of the
diagonals. -/
structure DiagonalTable (s : OneWireSender Rom count) : Prop where
  reached : ∀ p, s.Detected p → s.Forced p ∨ OnDiagonal p
  filled : ∀ p, OnDiagonal p → s.Detected p

theorem fair_iff_diagonalTable (hcount : 0 < count) (hwalks : s.Walks) :
    s.Fair ↔ s.DiagonalTable := by
  have hstart : Walks { s with published := [] } := hwalks
  constructor
  · intro hfair
    obtain ⟨bound, hbound⟩ := hfair.every
    obtain ⟨es, hlen, hdue⟩ := exists_dueRun
      (max bound (roundCalls { s with published := [] })) { s with published := [] }
    refine ⟨fun p hp => ?_, fun p hp => ?_⟩
    · have hmem := hbound es hdue (hlen ▸ le_max_left _ _) p hp
      rcases published_cases hcount hstart hdue hmem with hnil | hforced
      · exact absurd hnil List.not_mem_nil
      · exact hforced
    · exact hfair.only es hdue p
        (mem_published_of_dueRun hcount hstart hdue (hlen ▸ le_max_right _ _)
          (Or.inr hp))
  · intro htable
    refine ⟨⟨roundCalls { s with published := [] }, fun es hdue hlen p hp => ?_⟩,
      fun es hdue p hp => ?_⟩
    · exact mem_published_of_dueRun hcount hstart hdue hlen (htable.reached p hp)
    · rcases published_cases hcount hstart hdue hp with hnil | hforced | hdiag
      · exact absurd hnil List.not_mem_nil
      · exact hforced.1
      · exact htable.filled p hdiag

end OneWireSender

/-- In every state after a start the publishing is fair if and only if the
sensors that do not ask for a message are exactly the entries of the
diagonals. -/
theorem oneWireMqttSend_fair_iff (hcount : 0 < count)
    (lines : Fin count → OneWireLine Rom) (es : List (SenderEvent Rom count)) :
    (senderMachine.run (.boot lines) es).Fair ↔
      (senderMachine.run (.boot lines) es).DiagonalTable :=
  OneWireSender.fair_iff_diagonalTable hcount
    (OneWireSender.walks_run hcount lines es)

/-- A line with sensors in some entries, none of which asks for a message. -/
def quietLine (used : SlotIdx → Bool) : OneWireLine Unit where
  pin := 2
  countOnLine := onewireSenorsMax
  savedMapping := fun _ => 0
  sensors := fun j =>
    { romAddr := (), address := if used j then UInt64.ofNat (j + 1) else 0,
      force := false }

/-- One line with one sensor. -/
theorem oneWireMqttSend_fair_one :
    (senderMachine.run (.boot fun _ : Fin 1 => quietLine (· = 0)) []).Fair := by
  refine (oneWireMqttSend_fair_iff (by decide) _ []).mpr ⟨?_, ?_⟩
  · decide
  · decide

/-- Of two sensors on one line the second one is never published. -/
theorem not_oneWireMqttSend_fair :
    ¬ ∀ (count : ℕ) (lines : Fin count → OneWireLine Unit), 0 < count →
      (senderMachine.run (.boot lines) []).Fair := by
  intro h
  have hfair := h 1 (fun _ => quietLine (· ≤ 1)) (by decide)
  obtain ⟨bound, hbound⟩ := hfair.every
  obtain ⟨es, hlen, hdue⟩ := OneWireSender.exists_dueRun bound
    (OneWireSender.boot fun _ : Fin 1 => quietLine (· ≤ 1))
  have hmem := hbound es hdue hlen.ge (0, 1) (by decide)
  rcases OneWireSender.published_cases (by decide)
      (OneWireSender.walks_boot _) hdue hmem with hnil | hforced
  · exact List.not_mem_nil hnil
  · revert hforced
    decide

end Herak.OneWire
