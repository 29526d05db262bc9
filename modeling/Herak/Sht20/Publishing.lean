import Mathlib.Data.List.FinRange
import Mathlib.Logic.Function.Basic
import Herak.Mqtt.Payload
import Herak.Sht20.Device
import Herak.Support.EventMachine

/-!
# Messages of the SHT20 sensors

A reading asks for a message with the flag of its sensor.  `sht20_mqtt_send`
hands the flags of all the sensors over to their components, but sends the
message of one sensor, the first one from a static index on; the next call
overwrites what is left of the flags.
-/

namespace Herak.Sht20

open Mqtt (SendCall)

/-- `MQTT_REFRESH_MS` -/
def mqttRefreshMs : UInt64 := 10000

variable {Float Double : Type*} {count : ℕ}

/-! ## The code -/

/-- `sht20_context_t` with the static index of `sht20_mqtt_send`, and the
sensors whose messages were published. -/
structure Sht20State (Float : Type*) (count : ℕ) where
  sensors : Fin count → Sht20Sensor Float
  mqttLastSend : UInt64
  idx : ℕ
  published : List (Fin count)

namespace Sht20State

/-- `sth20_mqtt_data_send` -/
def sth20MqttDataSend (s : Sht20State Float count) (call : SendCall)
    (i : Fin count) : Sht20State Float count :=
  if call.result = 0 then
    { s with
      sensors := Function.update s.sensors i
        { s.sensors i with
          compForce := false
          lastReport := (s.sensors i).report }
      mqttLastSend := call.sendTime
      published := s.published ++ [i] }
  else s

/-- More than the refresh interval has passed since the last message. -/
def refresh (s : Sht20State Float count) (call : SendCall) : Bool :=
  mqttRefreshMs ≤ call.now - s.mqttLastSend

/-- The loop that hands the flags over. -/
def handOver (s : Sht20State Float count) (call : SendCall) :
    Sht20State Float count :=
  { s with
    sensors := fun i =>
      { s.sensors i with
        compForce := s.refresh call || (s.sensors i).force
        force := false }
    idx := if count ≤ s.idx then 0 else s.idx }

/-- The first sensor from `idx` on whose component asks for a message. -/
def nextSensor (s : Sht20State Float count) : Option (Fin count) :=
  (List.finRange count).find? fun i => s.idx ≤ i && (s.sensors i).compForce

/-- `sht20_mqtt_send` -/
def sht20MqttSend (s : Sht20State Float count) (call : SendCall) :
    Sht20State Float count :=
  let s := s.handOver call
  match s.nextSensor with
  | none => s
  | some i => { s.sth20MqttDataSend call i with idx := s.idx + 1 }

/-- The state after a start of the device; a component asks for its first
message if it could be registered. -/
def boot (a : CArithmetic Float Double) (registered : Fin count → Bool) :
    Sht20State Float count where
  sensors := fun i =>
    { rawData := []
      temperature := a.zero
      validT := false
      humidity := a.zero
      validH := false
      vpd := a.zero
      dewPoint := a.zero
      force := false
      readCmd := .temp
      readRequested := 0
      compForce := registered i
      lastReport :=
        { temperature := none, humidity := none, vpd := none, dewPoint := none } }
  mqttLastSend := 0
  idx := 0
  published := []

end Sht20State

/-- A request for a sample was written, a sensor was read, or a call was made
to send a message. -/
inductive Sht20Event (count : ℕ)
  | request (i : Fin count) (time : UInt64)
  | read (i : Fin count) (input : ReadInput)
  | send (call : SendCall)

variable (a : CArithmetic Float Double)

def sht20Machine : EventMachine (Sht20State Float count) (Sht20Event count) where
  step := fun s e =>
    match e with
    | .request i time =>
        { s with
          sensors := Function.update s.sensors i
            { s.sensors i with readRequested := time } }
    | .read i input =>
        { s with
          sensors := Function.update s.sensors i
            (sht20SensorGetData a (s.sensors i) input).2 }
    | .send call => s.sht20MqttSend call
  enabled := fun _ _ => True

/-! ## Pending messages -/

namespace Sht20Sensor

/-- The message would differ from the one that was published last. -/
def Changed (s : Sht20Sensor Float) : Prop :=
  s.report ≠ s.lastReport

/-- One of the flags is set. -/
def Pending (s : Sht20Sensor Float) : Prop :=
  s.force = true ∨ s.compForce = true

/-- The quantity that is read is valid. -/
def validQuantity (s : Sht20Sensor Float) : Bool :=
  match s.readCmd with
  | .temp => s.validT
  | .humid => s.validH

def setValid (s : Sht20Sensor Float) (valid : Bool) : Sht20Sensor Float :=
  match s.readCmd with
  | .temp => { s with validT := valid }
  | .humid => { s with validH := valid }

/-- The call comes before the sensor has measured. -/
def Waits (s : Sht20Sensor Float) (input : ReadInput) : Prop :=
  input.now - s.readRequested < measureDelayMs

/-- A sample arrives: its value. -/
def sample (input : ReadInput) : Option ℕ :=
  input.reply.bind fun (b0, b1, b2) =>
    if sht20CheckCrc [b0, b1, b2] 2 b2 = some retOk then
      some ((b0.toNat <<< 8) + b1.toNat)
    else none

/-- The reading ends with an error. -/
def Fails (s : Sht20Sensor Float) (input : ReadInput) : Prop :=
  ¬ s.Waits input ∧
    match sample input with
    | none => True
    | some raw =>
        (addSample s.rawData raw).length < sht20DataCount ∧ input.requested = none

/-- The reading completes its quantity. -/
def Completes (s : Sht20Sensor Float) (input : ReadInput) (raw : ℕ) : Prop :=
  ¬ s.Waits input ∧ ∃ last, sample input = some last ∧
    ¬ (addSample s.rawData last).length < sht20DataCount ∧
    raw = samplesFilter (addSample s.rawData last) sht20DataCount 1

/-- One of the three comparisons finds a new value. -/
def NewValue (s : Sht20Sensor Float) (raw : ℕ) : Prop :=
  (match s.readCmd with
    | .temp => a.ne s.temperature (a.temperature raw)
    | .humid => a.ne s.humidity (a.humidity raw)) = true ∨
  a.ne s.vpd (a.vpd s.temperature s.humidity) = true ∨
  a.ne s.dewPoint (a.dewPoint s.temperature s.humidity) = true

/-- A reading that comes upon no flag leaves the valid quantities as they are,
or finds a new value. -/
def ReadKeeps (s : Sht20Sensor Float) (input : ReadInput) : Prop :=
  s.Pending ∨ (s.Fails input → s.validQuantity = false) ∧
    ∀ raw, s.Completes input raw → s.validQuantity = true ∨ s.NewValue a raw

/-! ## Readings -/

/-- Two sensors with the same values and flags. -/
structure SameMessage (s s' : Sht20Sensor Float) : Prop where
  report : s'.report = s.report
  lastReport : s'.lastReport = s.lastReport
  force : s'.force = s.force
  compForce : s'.compForce = s.compForce

theorem SameMessage.pending {s s' : Sht20Sensor Float} (h : s.SameMessage s') :
    s'.Pending ↔ s.Pending := by
  rw [Pending, Pending, h.force, h.compForce]

theorem SameMessage.changed {s s' : Sht20Sensor Float} (h : s.SameMessage s') :
    s'.Changed ↔ s.Changed := by
  rw [Changed, Changed, h.report, h.lastReport]

variable {a} {s : Sht20Sensor Float} {input : ReadInput}

theorem readFailed_sameMessage (s : Sht20Sensor Float) (raws : List ℕ)
    (requested : UInt64) :
    (s.setValid false).SameMessage
      (readFailed { s with rawData := raws, readRequested := requested }).2 := by
  rw [setValid, readFailed]
  cases s.readCmd with
  | temp => exact ⟨rfl, rfl, rfl, rfl⟩
  | humid => exact ⟨rfl, rfl, rfl, rfl⟩

/-- A reading that is due. -/
theorem sht20SensorGetData_of_due (a : CArithmetic Float Double)
    (hwait : ¬ s.Waits input) :
    (sht20SensorGetData a s input).2 =
      match sample input with
      | none => (readFailed { s with readRequested := 0 }).2
      | some raw =>
          let raws := addSample s.rawData raw
          if raws.length < sht20DataCount then
            match input.requested with
            | none =>
                (readFailed { s with readRequested := 0, rawData := raws }).2
            | some time => { s with readRequested := time, rawData := raws }
          else
            storeDerived a (storeQuantity a
              { s with readRequested := 0, rawData := [] }
              (samplesFilter raws sht20DataCount 1)) := by
  rw [Waits] at hwait
  rw [sht20SensorGetData, if_neg hwait]
  dsimp only
  obtain ⟨now, reply, requested⟩ := input
  obtain _ | ⟨b0, b1, b2⟩ := reply
  · rfl
  · by_cases hcrc : sht20CheckCrc [b0, b1, b2] 2 b2 = some retOk
    · simp only [sample, Option.bind_some, hcrc, ne_eq, not_true_eq_false,
        if_false, if_true]
      split
      · cases requested with
        | none => rfl
        | some time => rfl
      · rfl
    · simp only [sample, Option.bind_some, hcrc, ne_eq, not_false_eq_true,
        if_true, if_false]

/-- What a reading makes of the message. -/
theorem sht20SensorGetData_cases (a : CArithmetic Float Double)
    (s : Sht20Sensor Float) (input : ReadInput) :
    s.Fails input ∧
        (s.setValid false).SameMessage (sht20SensorGetData a s input).2 ∨
      (∃ raw, s.Completes input raw ∧ (sht20SensorGetData a s input).2 =
        storeDerived a (storeQuantity a
          { s with readRequested := 0, rawData := [] } raw)) ∨
      (¬ s.Fails input ∧ ∀ raw, ¬ s.Completes input raw) ∧
        s.SameMessage (sht20SensorGetData a s input).2 := by
  by_cases hwait : s.Waits input
  · have hsame : (sht20SensorGetData a s input).2 = s := by
      rw [Waits] at hwait
      rw [sht20SensorGetData, if_pos hwait]
    refine Or.inr (Or.inr ⟨⟨fun h => h.1 hwait, fun raw h => h.1 hwait⟩, ?_⟩)
    rw [hsame]
    exact ⟨rfl, rfl, rfl, rfl⟩
  rw [sht20SensorGetData_of_due a hwait]
  cases hsample : sample input with
  | none =>
      refine Or.inl ⟨⟨hwait, by rw [hsample]; trivial⟩, ?_⟩
      exact readFailed_sameMessage s s.rawData 0
  | some raw =>
      by_cases hmore : (addSample s.rawData raw).length < sht20DataCount
      · have hnot : ∀ raw', ¬ s.Completes input raw' := by
          rintro raw' ⟨-, last, hlast, hdone, -⟩
          obtain rfl := Option.some.inj (hsample.symm.trans hlast)
          exact hdone hmore
        cases hrequested : input.requested with
        | none =>
            refine Or.inl ⟨⟨hwait, by rw [hsample]; exact ⟨hmore, hrequested⟩⟩, ?_⟩
            simp only [if_pos hmore]
            exact readFailed_sameMessage s _ 0
        | some time =>
            refine Or.inr (Or.inr ⟨⟨fun h => ?_, hnot⟩, ?_⟩)
            · have hnone := h.2
              rw [hsample, hrequested] at hnone
              cases hnone.2
            · simp only [if_pos hmore]
              exact ⟨rfl, rfl, rfl, rfl⟩
      · refine Or.inr (Or.inl ⟨_, ⟨hwait, raw, hsample, hmore, rfl⟩, ?_⟩)
        simp only [if_neg hmore]

theorem store_of_ne {force : Bool} {field data : Float}
    (h : a.ne field data = true) : store a force field data = (true, data) :=
  if_pos h

theorem store_of_not_ne {force : Bool} {field data : Float}
    (h : ¬ a.ne field data = true) :
    store a force field data = (force, field) :=
  if_neg h

/-- The flag is only set. -/
theorem store_force (field data : Float) :
    (store a true field data).1 = true := by
  rw [store]
  split
  · rfl
  · rfl

/-- Without a new value a completed reading only makes its quantity valid. -/
theorem stored_sameMessage {raw : ℕ} (h : ¬ s.NewValue a raw) :
    (s.setValid true).SameMessage (storeDerived a (storeQuantity a s raw)) := by
  obtain ⟨hquantity, hvpd, hdew⟩ := not_or.mp h |>.imp id not_or.mp
  rw [setValid, storeQuantity]
  cases hcmd : s.readCmd with
  | temp =>
      rw [hcmd] at hquantity
      simp only [storeDerived, store_of_not_ne hquantity, store_of_not_ne hvpd,
        store_of_not_ne hdew]
      exact ⟨rfl, rfl, rfl, rfl⟩
  | humid =>
      rw [hcmd] at hquantity
      simp only [storeDerived, store_of_not_ne hquantity, store_of_not_ne hvpd,
        store_of_not_ne hdew]
      exact ⟨rfl, rfl, rfl, rfl⟩

theorem storeDerived_force (h : s.force = true) :
    (storeDerived a s).force = true := by
  simp only [storeDerived, h, store_force]

/-- A new value asks for a message. -/
theorem stored_force {raw : ℕ} (h : s.NewValue a raw) :
    (storeDerived a (storeQuantity a s raw)).force = true := by
  cases hcmd : s.readCmd with
  | temp =>
      by_cases hquantity : a.ne s.temperature (a.temperature raw) = true
      · refine storeDerived_force ?_
        simp only [storeQuantity, hcmd, store_of_ne hquantity]
      · rw [NewValue, hcmd] at h
        rcases h.resolve_left hquantity with hvpd | hdew
        · simp only [storeQuantity, hcmd, store_of_not_ne hquantity, storeDerived,
            store_of_ne hvpd, store_force]
        · simp only [storeQuantity, hcmd, store_of_not_ne hquantity, storeDerived,
            store_of_ne hdew]
  | humid =>
      by_cases hquantity : a.ne s.humidity (a.humidity raw) = true
      · refine storeDerived_force ?_
        simp only [storeQuantity, hcmd, store_of_ne hquantity]
      · rw [NewValue, hcmd] at h
        rcases h.resolve_left hquantity with hvpd | hdew
        · simp only [storeQuantity, hcmd, store_of_not_ne hquantity, storeDerived,
            store_of_ne hvpd, store_force]
        · simp only [storeQuantity, hcmd, store_of_not_ne hquantity, storeDerived,
            store_of_ne hdew]

/-- A change of the flag of the quantity shows in the message. -/
theorem setValid_report_iff (s : Sht20Sensor Float) (valid : Bool) :
    (s.setValid valid).report = s.report ↔ s.validQuantity = valid := by
  rw [setValid, validQuantity]
  cases s.readCmd with
  | temp => cases hv : s.validT <;> cases valid <;> simp [report, hv]
  | humid => cases hv : s.validH <;> cases valid <;> simp [report, hv]

theorem setValid_pending (s : Sht20Sensor Float) (valid : Bool) :
    (s.setValid valid).Pending ↔ s.Pending := by
  rw [setValid]
  cases s.readCmd with
  | temp => exact Iff.rfl
  | humid => exact Iff.rfl

theorem setValid_lastReport (s : Sht20Sensor Float) (valid : Bool) :
    (s.setValid valid).lastReport = s.lastReport := by
  rw [setValid]
  cases s.readCmd with
  | temp => rfl
  | humid => rfl

/-- A reading keeps the wish for a message exactly under its condition. -/
theorem read_keeps_iff (a : CArithmetic Float Double) (input : ReadInput)
    (h : s.Changed → s.Pending) :
    ((sht20SensorGetData a s input).2.Changed →
        (sht20SensorGetData a s input).2.Pending) ↔ s.ReadKeeps a input := by
  -- Without a flag the sensor has the message that was published.
  have hvalid : ∀ {s' : Sht20Sensor Float} {valid : Bool},
      (s.setValid valid).SameMessage s' →
      ((s'.Changed → s'.Pending) ↔ s.Pending ∨ s.validQuantity = valid) := by
    intro s' valid hsame
    rw [hsame.changed, hsame.pending, setValid_pending]
    by_cases hpending : s.Pending
    · simp [hpending]
    · have hreport : s.report = s.lastReport := not_not.mp fun hne =>
        hpending (h hne)
      rw [Changed, setValid_lastReport, ← hreport, Ne, setValid_report_iff]
      simp [hpending]
  have hexclusive : ∀ raw, s.Completes input raw → ¬ s.Fails input := by
    rintro raw ⟨-, last, hlast, hdone, -⟩ ⟨-, hfails⟩
    rw [hlast] at hfails
    exact hdone hfails.1
  rcases sht20SensorGetData_cases a s input with
    ⟨hfails, hsame⟩ | ⟨raw, hcompletes, hresult⟩ | ⟨⟨hfails, hcompletes⟩, hsame⟩
  · rw [hvalid hsame, ReadKeeps]
    refine or_congr_right ⟨fun hq => ⟨fun _ => hq, fun raw hraw => ?_⟩,
      fun hq => hq.1 hfails⟩
    exact absurd hfails (hexclusive raw hraw)
  · have honly : ∀ raw', s.Completes input raw' → raw' = raw := by
      rintro raw' ⟨-, last, hlast, -, hraw'⟩
      obtain ⟨-, last', hlast', -, hraw⟩ := hcompletes
      obtain rfl := Option.some.inj (hlast.symm.trans hlast')
      rw [hraw', hraw]
    have hkeeps : s.ReadKeeps a input ↔
        s.Pending ∨ s.validQuantity = true ∨ s.NewValue a raw := by
      rw [ReadKeeps]
      refine or_congr_right ⟨fun hq => hq.2 raw hcompletes, fun hq =>
        ⟨fun hf => absurd hf (hexclusive raw hcompletes), fun raw' hraw' => ?_⟩⟩
      rw [honly raw' hraw']
      exact hq
    rw [hresult, hkeeps]
    by_cases hnew : s.NewValue a raw
    · exact iff_of_true (fun _ => Or.inl (stored_force hnew))
        (Or.inr (Or.inr hnew))
    · have hnew' : ¬ NewValue a
          { s with readRequested := 0, rawData := [] } raw := hnew
      have hsame : (s.setValid true).SameMessage (storeDerived a
          (storeQuantity a { s with readRequested := 0, rawData := [] } raw)) := by
        have hstored := stored_sameMessage hnew'
        rw [setValid] at hstored ⊢
        cases hcmd : s.readCmd with
        | temp =>
            simp only [hcmd] at hstored
            exact ⟨hstored.report, hstored.lastReport, hstored.force,
              hstored.compForce⟩
        | humid =>
            simp only [hcmd] at hstored
            exact ⟨hstored.report, hstored.lastReport, hstored.force,
              hstored.compForce⟩
      rw [hvalid hsame]
      simp [hnew]
  · rw [hsame.changed, hsame.pending]
    exact iff_of_true h (Or.inr ⟨fun hf => absurd hf hfails,
      fun raw hraw => absurd hraw (hcompletes raw)⟩)

end Sht20Sensor

/-! ## Calls -/

namespace Sht20State

/-- No change is lost: a sensor whose message has changed has a flag. -/
def NotLost (s : Sht20State Float count) : Prop :=
  ∀ i, (s.sensors i).Changed → (s.sensors i).Pending

/-- Before the refresh interval has passed, a call finds the flag of every
sensor whose message has changed, and not only that of its component. -/
def SendKeeps (s : Sht20State Float count) (call : SendCall) : Prop :=
  s.refresh call = true ∨
    ∀ i, (s.sensors i).Changed → (s.sensors i).force = true

theorem handOver_changed (s : Sht20State Float count) (call : SendCall)
    (i : Fin count) :
    ((s.handOver call).sensors i).Changed ↔ (s.sensors i).Changed :=
  Iff.rfl

/-- After the flags are handed over, nothing is lost exactly under the
condition. -/
theorem handOver_notLost_iff (s : Sht20State Float count) (call : SendCall) :
    (s.handOver call).NotLost ↔ s.SendKeeps call := by
  have hpending : ∀ i, ((s.handOver call).sensors i).Pending ↔
      s.refresh call = true ∨ (s.sensors i).force = true := by
    intro i
    simp [Sht20Sensor.Pending, handOver]
  simp only [NotLost, handOver_changed, hpending, SendKeeps]
  constructor
  · intro h
    by_cases hrefresh : s.refresh call = true
    · exact Or.inl hrefresh
    · exact Or.inr fun i hi => (h i hi).resolve_left hrefresh
  · rintro (hrefresh | hforce) i hi
    · exact Or.inl hrefresh
    · exact Or.inr (hforce i hi)

theorem nextSensor_compForce {s : Sht20State Float count} {i : Fin count}
    (h : s.nextSensor = some i) : (s.sensors i).compForce = true := by
  have hfound := List.find?_some h
  simp only [Bool.and_eq_true] at hfound
  exact hfound.2

/-- The message that is sent changes nothing in this: its sensor has a flag
before, and nothing to publish after it. -/
theorem dataSend_notLost_iff {s : Sht20State Float count} (call : SendCall)
    {i : Fin count} (hi : (s.sensors i).compForce = true) :
    (s.sth20MqttDataSend call i).NotLost ↔ s.NotLost := by
  rw [sth20MqttDataSend]
  split
  · constructor
    · intro h k hk
      by_cases hki : k = i
      · exact Or.inr (hki ▸ hi)
      · have hother := h k
        simp only [Function.update_of_ne hki] at hother
        exact hother hk
    · intro h k hk
      by_cases hki : k = i
      · subst hki
        simp only [Function.update_self] at hk
        exact absurd rfl hk
      · simp only [Function.update_of_ne hki] at hk ⊢
        exact h k hk
  · exact Iff.rfl

theorem send_notLost_iff (s : Sht20State Float count) (call : SendCall) :
    (s.sht20MqttSend call).NotLost ↔ s.SendKeeps call := by
  rw [← handOver_notLost_iff, sht20MqttSend]
  dsimp only
  split
  · exact Iff.rfl
  next i hnext =>
    exact dataSend_notLost_iff call (nextSensor_compForce hnext)

/-- What a step must find so that no change is lost by it. -/
def StepKeeps (s : Sht20State Float count) : Sht20Event count → Prop
  | .request _ _ => True
  | .read i input => (s.sensors i).ReadKeeps a input
  | .send call => s.SendKeeps call

theorem update_notLost_iff {s : Sht20State Float count} (hs : s.NotLost)
    (i : Fin count) (sensor : Sht20Sensor Float) :
    NotLost { s with sensors := Function.update s.sensors i sensor } ↔
      (sensor.Changed → sensor.Pending) := by
  constructor
  · intro h
    have hi := h i
    simpa only [Function.update_self] using hi
  · intro h k hk
    by_cases hki : k = i
    · subst hki
      simp only [Function.update_self] at hk ⊢
      exact h hk
    · simp only [Function.update_of_ne hki] at hk ⊢
      exact hs k hk

theorem step_notLost_iff {s : Sht20State Float count} (hs : s.NotLost)
    (e : Sht20Event count) :
    ((sht20Machine a).step s e).NotLost ↔ s.StepKeeps a e := by
  cases e with
  | request i time =>
      refine (update_notLost_iff hs i _).trans (iff_of_true ?_ trivial)
      exact hs i
  | read i input =>
      exact (update_notLost_iff hs i _).trans
        (Sht20Sensor.read_keeps_iff a input (hs i))
  | send call => exact send_notLost_iff s call

theorem boot_notLost (registered : Fin count → Bool) :
    (boot a registered).NotLost :=
  fun _ hi => absurd rfl hi

end Sht20State

/-! ## Turns -/

namespace Sht20State

/-- The index that a call starts its search at. -/
def first (s : Sht20State Float count) : ℕ :=
  if count ≤ s.idx then 0 else s.idx

/-- A sensor asks for a message, with its own flag or since a refresh is due. -/
def Asks (s : Sht20State Float count) (call : SendCall) (i : Fin count) : Prop :=
  s.refresh call = true ∨ (s.sensors i).force = true

/-- If a message has changed, a sensor from the index on asks for a message. -/
def FindsSensor (s : Sht20State Float count) (call : SendCall) : Prop :=
  (∃ i, (s.sensors i).Changed) → ∃ j : Fin count, s.first ≤ j ∧ s.Asks call j

/-- A call whose publish succeeds publishes a message if one has changed. -/
def Publishes (s : Sht20State Float count) (call : SendCall) : Prop :=
  call.result = 0 → (∃ i, (s.sensors i).Changed) →
    (s.sht20MqttSend call).published ≠ s.published

/-- The calls until the index comes to a sensor. -/
def distance (s : Sht20State Float count) (i : Fin count) : ℕ :=
  if s.first ≤ i then i - s.first else count - s.first + i

theorem handOver_asks_iff (s : Sht20State Float count) (call : SendCall)
    (j : Fin count) :
    ((s.handOver call).idx ≤ j && ((s.handOver call).sensors j).compForce) =
        true ↔ s.first ≤ j ∧ s.Asks call j := by
  rw [Bool.and_eq_true, decide_eq_true_iff]
  exact and_congr_right fun _ => Bool.or_eq_true_iff

theorem nextSensor_eq_some_iff (s : Sht20State Float count) (call : SendCall)
    (i : Fin count) :
    (s.handOver call).nextSensor = some i ↔
      s.first ≤ i ∧ s.Asks call i ∧ ∀ j < i, s.first ≤ j → ¬ s.Asks call j := by
  rw [nextSensor, ← Fin.find?_eq_find?_finRange, Fin.find?_eq_some_iff]
  simp only [← Bool.not_eq_true, handOver_asks_iff, not_and, and_assoc]

theorem nextSensor_eq_none_iff (s : Sht20State Float count) (call : SendCall) :
    (s.handOver call).nextSensor = none ↔
      ∀ j : Fin count, s.first ≤ j → ¬ s.Asks call j := by
  constructor
  · intro hnone j hj hasks
    have hfound := List.find?_eq_none.mp hnone j (List.mem_finRange j)
    exact hfound ((s.handOver_asks_iff call j).mpr ⟨hj, hasks⟩)
  · intro hnot
    refine List.find?_eq_none.mpr fun j _ hfound => ?_
    obtain ⟨hj, hasks⟩ := (s.handOver_asks_iff call j).mp hfound
    exact hnot j hj hasks

/-- What a call whose publish succeeds sends. -/
theorem send_cases (s : Sht20State Float count) {call : SendCall}
    (hresult : call.result = 0) :
    (∀ j : Fin count, s.first ≤ j → ¬ s.Asks call j) ∧
        (s.sht20MqttSend call).published = s.published ∧
        (∀ k, ((s.sht20MqttSend call).sensors k).Changed →
          (s.sensors k).Changed) ∨
      ∃ i : Fin count, (s.first ≤ i ∧ s.Asks call i ∧
          ∀ j < i, s.first ≤ j → ¬ s.Asks call j) ∧
        (s.sht20MqttSend call).published = s.published ++ [i] ∧
        (s.sht20MqttSend call).idx = s.first + 1 ∧
        ∀ k, ((s.sht20MqttSend call).sensors k).Changed →
          (s.sensors k).Changed ∧ k ≠ i := by
  rw [sht20MqttSend]
  dsimp only
  cases hnext : (s.handOver call).nextSensor with
  | none =>
      exact .inl ⟨(s.nextSensor_eq_none_iff call).mp hnext, rfl, fun k hk => hk⟩
  | some i =>
      refine .inr ⟨i, (s.nextSensor_eq_some_iff call i).mp hnext, ?_⟩
      dsimp only
      rw [sth20MqttDataSend, if_pos hresult]
      refine ⟨rfl, rfl, fun k hk => ?_⟩
      by_cases hki : k = i
      · subst hki
        simp only [Function.update_self] at hk
        exact absurd rfl hk
      · simp only [Function.update_of_ne hki] at hk
        exact ⟨hk, hki⟩

theorem publishes_iff (s : Sht20State Float count) (call : SendCall) :
    s.Publishes call ↔ (call.result = 0 → s.FindsSensor call) := by
  refine forall_congr' fun hresult => forall_congr' fun _ => ?_
  rcases s.send_cases hresult with
    ⟨hnone, hsame, -⟩ | ⟨i, ⟨hi, hasks, -⟩, hsent, -⟩
  · exact iff_of_false (fun h => h hsame)
      fun ⟨j, hj, hjasks⟩ => hnone j hj hjasks
  · refine iff_of_true (fun h => ?_) ⟨i, hi, hasks⟩
    rw [hsent, List.append_right_eq_self] at h
    exact List.cons_ne_nil _ _ h

theorem distance_lt (s : Sht20State Float count) (i : Fin count) :
    s.distance i < count := by
  have hi := i.isLt
  rw [distance]
  split_ifs <;> omega

/-- With every message the index comes nearer to a sensor that asks for one and
is not the one that is sent. -/
theorem distance_send (s : Sht20State Float count) {call : SendCall}
    {i k : Fin count} (hidx : (s.sht20MqttSend call).idx = s.first + 1)
    (hi : ∀ j < i, s.first ≤ j → ¬ s.Asks call j) (hk : s.Asks call k)
    (hki : k ≠ i) (hfirst : s.first ≤ i) :
    (s.sht20MqttSend call).distance k + 1 = s.distance k := by
  have hlt := k.isLt
  have hilt := i.isLt
  have hbehind : s.first ≤ k → (i : ℕ) < k := by
    intro hle
    have hnot : ¬ k < i := fun hlt => hi k hlt hle hk
    have hne : (k : ℕ) ≠ i := fun h => hki (Fin.ext h)
    rw [Fin.lt_def] at hnot
    omega
  have hnext : (s.sht20MqttSend call).first =
      if count ≤ s.first + 1 then 0 else s.first + 1 := by
    rw [first, hidx]
  rw [distance, distance, hnext]
  split_ifs <;> omega

end Sht20State

section History

variable [DecidableEq Float]

/-- The calls in a row, each with a publish that succeeds, that have left a
sensor with a change; the latest event comes first. -/
def waited (i : Fin count) :
    List (Sht20Event count × Sht20State Float count) → ℕ
  | [] => 0
  | (e, s) :: past =>
      if (s.sensors i).report = (s.sensors i).lastReport then 0
      else
        match e with
        | .request _ _ => waited i past
        | .read _ _ => waited i past
        | .send call => if call.result = 0 then waited i past + 1 else 0

/-- The sensors with the events so far and the states that they led to. -/
def sht20History : EventMachine
    (Sht20State Float count × List (Sht20Event count × Sht20State Float count))
    (Sht20Event count) :=
  (sht20Machine a).recording fun s e past =>
    (e, (sht20Machine a).step s e) :: past

/-- After a step no change is lost, and none has been left by a whole rotation
of calls that could publish it; a call that can publish does so if there is a
change. -/
def AllPublished
    (x : Sht20State Float count × List (Sht20Event count × Sht20State Float count))
    (e : Sht20Event count) : Prop :=
  let next := (sht20History a).step x e
  next.1.NotLost ∧ (∀ i, waited i next.2 < count) ∧
    match e with
    | .send call => x.1.Publishes call
    | _ => True

/-- What a step must find so that every change is published. -/
def StepPublishes (s : Sht20State Float count) (e : Sht20Event count) : Prop :=
  s.StepKeeps a e ∧
    match e with
    | .send call => call.result = 0 → s.FindsSensor call
    | _ => True

/-- The index comes to every sensor in time. -/
def InTime
    (x : Sht20State Float count × List (Sht20Event count × Sht20State Float count)) :
    Prop :=
  ∀ i, waited i x.2 + x.1.distance i < count

theorem inTime_step
    {x : Sht20State Float count × List (Sht20Event count × Sht20State Float count)}
    (hx : InTime x) {e : Sht20Event count} (he : StepPublishes a x.1 e) :
    InTime ((sht20History a).step x e) := by
  intro i
  change waited i ((e, (sht20Machine a).step x.1 e) :: x.2) +
    ((sht20Machine a).step x.1 e).distance i < count
  have hkept : waited i x.2 + x.1.distance i < count := hx i
  cases e with
  | request k time =>
      rw [waited]
      split
      · rw [Nat.zero_add]
        exact Sht20State.distance_lt _ i
      · exact hkept
  | read k input =>
      rw [waited]
      split
      · rw [Nat.zero_add]
        exact Sht20State.distance_lt _ i
      · exact hkept
  | send call =>
      rw [waited]
      split_ifs with hsame hresult
      · rw [Nat.zero_add]
        exact Sht20State.distance_lt _ i
      · obtain ⟨hkeeps, hfinds⟩ := he
        rcases x.1.send_cases hresult with
          ⟨hnone, -, hchanged⟩ | ⟨j, ⟨hj, -, hbefore⟩, -, hidx, hchanged⟩
        · obtain ⟨j, hj, hasks⟩ := hfinds hresult ⟨i, hchanged i hsame⟩
          exact absurd hasks (hnone j hj)
        · obtain ⟨hi, hij⟩ := hchanged i hsame
          have hasks : x.1.Asks call i := hkeeps.imp id fun h => h i hi
          have hdistance := x.1.distance_send hidx hbefore hasks hij hj
          change waited i x.2 + 1 + (x.1.sht20MqttSend call).distance i < count
          omega
      · rw [Nat.zero_add]
        exact Sht20State.distance_lt _ i

end History

/-- In every run from a start no change is lost and every change is published by
the calls of one rotation that can publish it, in all states, if and only if
every step of the run finds what it must. -/
theorem allPublished_along_iff [DecidableEq Float]
    (registered : Fin count → Bool) (es : List (Sht20Event count)) :
    (sht20History a).Along (AllPublished a) (.boot a registered, []) es ↔
      (sht20Machine a).Along (StepPublishes a) (.boot a registered) es := by
  have hstep : ∀ x (e : Sht20Event count), x.1.NotLost ∧ InTime x →
      StepPublishes a x.1 e →
      ((sht20History a).step x e).1.NotLost ∧
        InTime ((sht20History a).step x e) := fun x e hx he =>
    ⟨(x.1.step_notLost_iff a hx.1 e).mpr he.1, inTime_step a hx.2 he⟩
  have hiff : ∀ x (e : Sht20Event count), x.1.NotLost ∧ InTime x →
      (AllPublished a x e ↔ StepPublishes a x.1 e) := by
    intro x e hx
    have hmatch : (match e with
        | .send call => x.1.Publishes call
        | _ => True) ↔ match e with
        | .send call => call.result = 0 → x.1.FindsSensor call
        | _ => True := by
      cases e with
      | request _ _ => exact Iff.rfl
      | read _ _ => exact Iff.rfl
      | send call => exact x.1.publishes_iff call
    constructor
    · rintro ⟨hkept, -, hpublishes⟩
      exact ⟨(x.1.step_notLost_iff a hx.1 e).mp hkept, hmatch.mp hpublishes⟩
    · intro he
      obtain ⟨hkept, htime⟩ := hstep x e hx he
      exact ⟨hkept, fun i => (Nat.le_add_right _ _).trans_lt (htime i),
        hmatch.mpr he.2⟩
  have hboot : (Sht20State.boot a registered).NotLost ∧
      InTime (Sht20State.boot a registered, []) := by
    refine ⟨Sht20State.boot_notLost a registered, fun i => ?_⟩
    rw [waited, Nat.zero_add]
    exact Sht20State.distance_lt _ i
  have hrecord : (sht20History a).Along (fun x e => StepPublishes a x.1 e)
      (.boot a registered, []) es ↔
        (sht20Machine a).Along (StepPublishes a) (.boot a registered) es :=
    EventMachine.recording_along
  rw [← hrecord]
  constructor
  · intro h
    exact h.mono_of_invariant (fun x e hx he => hstep x e hx ((hiff x e hx).mp he))
      (fun x e hx => (hiff x e hx).mp) hboot
  · intro h
    exact h.mono_of_invariant hstep (fun x e hx => (hiff x e hx).mpr) hboot

/-- Exact numbers, with the first terms of the two functions. -/
def exactArithmetic : CArithmetic ℚ ℚ where
  zero := 0
  ne := fun x y => decide (x ≠ y)
  floatOfNat := fun n => n
  floatSub := fun x y => x - y
  floatMul := fun x y => x * y
  floatDiv := fun x y => x / y
  toDouble := id
  toFloat := id
  ofNat := fun n => n
  lit := fun n k => n / 10 ^ k
  add := fun x y => x + y
  sub := fun x y => x - y
  mul := fun x y => x * y
  div := fun x y => x / y
  exp := fun x => 1 + x
  log := fun x => x - 1

/-- A start, the first message, the five samples of a temperature, a message
that fails, and one more call. -/
def lostRun : List (Sht20Event 1) :=
  let reading := fun now => Sht20Event.read 0
    { now := now, reply := some (0x68, 0x3A, 0x7C), requested := some now }
  [.send { now := 20000, sendTime := 20000, result := 0 },
    reading 20200, reading 20400, reading 20600, reading 20800, reading 21000,
    .send { now := 21100, sendTime := 21100, result := -1 },
    .send { now := 21200, sendTime := 21200, result := 0 }]

/-- The new temperature has no flag any more. -/
theorem not_allPublished_along :
    ¬ ∀ es : List (Sht20Event 1), (sht20History exactArithmetic).Along
      (AllPublished exactArithmetic) (.boot exactArithmetic fun _ => true, [])
      es := by
  intro h
  let s := (sht20Machine exactArithmetic).run
    (.boot exactArithmetic fun _ => true) lostRun
  have hrun : (sht20Machine exactArithmetic).Along
      (fun s e => ((sht20Machine exactArithmetic).step s e).NotLost)
      (.boot exactArithmetic fun _ => true) lostRun :=
    EventMachine.recording_along.mp ((h lostRun).mono fun _ _ hx => hx.1)
  have hlast : s.NotLost := hrun.2.2.2.2.2.2.2.1
  have hflags : (s.sensors 0).force = false ∧ (s.sensors 0).compForce = false := by
    decide +kernel
  have hvalue : (s.sensors 0).report.temperature ≠
      (s.sensors 0).lastReport.temperature := by decide +kernel
  rcases hlast 0 fun heq => hvalue (congrArg Sht20Report.temperature heq) with
    hforce | hforce
  · rw [hflags.1] at hforce
    cases hforce
  · rw [hflags.2] at hforce
    cases hforce

end Herak.Sht20
