import Mathlib.Algebra.Order.Floor.Semiring
import Mathlib.Algebra.Order.Field.Basic
import Mathlib.Tactic.FieldSimp
import Mathlib.Tactic.Ring
import Mathlib.Tactic.Linarith
import Herak.Flow.Sensor

/-!
# Polling schedules

The volume of the pulses that were counted, in exact arithmetic, for any times
at which the main loop reads the sensor.  The volume that is added is the one of
a single second, whatever the time since the last reading.
-/

namespace Herak.Flow

/-- What happens to a sensor. -/
inductive SensorEvent
  | irq
  | read (now : ℕ) (clock : Clock)

/-- A sensor with the pulses since its last reading, and the number of readings
and of pulses that were read. -/
structure SensorWorld where
  sensor : FlowSensor ℚ
  arrived : ℕ
  readings : ℕ
  pulsesRead : ℕ

/-- The volume of a number of pulses, in millilitres. -/
def volume (pps : ℚ) (pulses : ℕ) : ℚ :=
  1000 * pulses / (60 * pps)

namespace SensorWorld

def init (pps : ℚ) (accMsec : ℕ) : SensorWorld :=
  ⟨.init pps accMsec, 0, 0, 0⟩

/-- Enough time has passed for a reading. -/
def Reads (x : SensorWorld) (now : ℕ) : Prop :=
  measureTimeMs ≤ now - x.sensor.lastRead

instance (x : SensorWorld) (now : ℕ) : Decidable (x.Reads now) :=
  inferInstanceAs (Decidable (_ ≤ _))

def step (x : SensorWorld) : SensorEvent → SensorWorld
  | .irq =>
      { x with sensor := flowYfIrq x.sensor, arrived := x.arrived + 1 }
  | .read now clock =>
      let sensor := flowYfSensorData x.sensor now clock
      if x.Reads now then
        { sensor := sensor
          arrived := 0
          readings := x.readings + 1
          pulsesRead := x.pulsesRead + x.arrived }
      else { x with sensor := sensor }

end SensorWorld

def sensorMachine : EventMachine SensorWorld SensorEvent where
  step := SensorWorld.step
  enabled := fun _ _ => True

/-- A reading adds the volume of the pulses since the last one, up to a
truncation of less than one millilitre. -/
def AddsVolume (x : SensorWorld) (e : SensorEvent) : Prop :=
  match e with
  | .irq => True
  | .read now _ => x.Reads now →
      ((x.step e).sensor.totalMl : ℚ) - x.sensor.totalMl ≤
          volume x.sensor.pps x.arrived ∧
        volume x.sensor.pps x.arrived - 1 <
          (x.step e).sensor.totalMl - x.sensor.totalMl

/-- The whole millilitres of the pulses since the last reading, were they added
in each second of the interval, are not more than the pulses that were counted
come to in a thousand seconds. -/
def ShortInterval (x : SensorWorld) : SensorEvent → Prop
  | .irq => True
  | .read now _ => x.Reads now →
      (⌊volume x.sensor.pps x.arrived⌋₊ * (now - x.sensor.lastRead : ℕ) : ℚ) ≤
        measureTimeMs * volume x.sensor.pps x.sensor.pulse

/-! ## One reading -/

theorem volume_nonneg {pps : ℚ} (h : 0 < pps) (pulses : ℕ) :
    0 ≤ volume pps pulses := by
  unfold volume
  positivity

theorem volume_mono {pps : ℚ} (h : 0 < pps) {pulses pulses' : ℕ}
    (hle : pulses ≤ pulses') : volume pps pulses ≤ volume pps pulses' := by
  have hcast : (pulses : ℚ) ≤ pulses' := by exact_mod_cast hle
  unfold volume
  gcongr

theorem volume_add (pps : ℚ) (pulses pulses' : ℕ) :
    volume pps (pulses + pulses') = volume pps pulses + volume pps pulses' := by
  unfold volume
  push_cast
  ring

/-- The volume that is added for a flow. -/
theorem addVolume_flowOf {sensor : FlowSensor ℚ} (hpps : 0 < sensor.pps)
    (interval data total : ℕ) :
    addVolume total (flowOf sensor interval data) =
      total + ⌊measureTimeMs * volume sensor.pps data / interval⌋₊ := by
  have hflow : (flowOf sensor interval data : ℚ) * 1000 / 60 =
      measureTimeMs * volume sensor.pps data / interval := by
    change (measureTimeMs : ℚ) / interval * data / sensor.pps * 1000 / 60 =
      measureTimeMs * (1000 * data / (60 * sensor.pps)) / interval
    have hne : sensor.pps ≠ 0 := hpps.ne'
    by_cases hinterval : (interval : ℚ) = 0
    · simp [hinterval]
    · field_simp
  have hnonneg : 0 ≤ measureTimeMs * volume sensor.pps data / (interval : ℚ) := by
    have := volume_nonneg hpps data
    positivity
  change ⌊(total : ℚ) + (flowOf sensor interval data : ℚ) * 1000 / 60⌋₊ = _
  rw [hflow, add_comm, Nat.floor_add_natCast hnonneg, add_comm]

/-- The total after a reading. -/
theorem read_totalMl {sensor : FlowSensor ℚ} (hpps : 0 < sensor.pps) {now : ℕ}
    (hreads : measureTimeMs ≤ now - sensor.lastRead) (clock : Clock) :
    (flowYfSensorData sensor now clock).totalMl =
      sensor.totalMl + ⌊measureTimeMs * volume sensor.pps sensor.pulse /
        (now - sensor.lastRead : ℕ)⌋₊ := by
  unfold flowYfSensorData
  rw [if_neg (not_lt.mpr hreads)]
  dsimp only
  by_cases hdata : sensor.pulse = 0
  · rw [if_neg (not_not.mpr hdata)]
    have hzero : volume sensor.pps sensor.pulse = 0 := by
      simp [volume, hdata]
    rw [hzero, mul_zero, zero_div, Nat.floor_zero, add_zero]
    split <;> rfl
  · rw [if_pos hdata]
    split
    · exact addVolume_flowOf hpps ..
    · exact addVolume_flowOf hpps ..

theorem read_pps (sensor : FlowSensor ℚ) (now : ℕ) (clock : Clock) :
    (flowYfSensorData sensor now clock).pps = sensor.pps := by
  unfold flowYfSensorData
  dsimp only
  split_ifs <;> rfl

theorem read_pulse {sensor : FlowSensor ℚ} {now : ℕ}
    (hreads : measureTimeMs ≤ now - sensor.lastRead) (clock : Clock) :
    (flowYfSensorData sensor now clock).pulse = 0 := by
  unfold flowYfSensorData
  rw [if_neg (not_lt.mpr hreads)]
  dsimp only
  split_ifs <;> rfl

/-- The interrupt counts the pulses, as far as the counter does. -/
structure SensorInv (pps : ℚ) (x : SensorWorld) : Prop where
  pps : x.sensor.pps = pps
  pulse : x.sensor.pulse = x.arrived % 2 ^ 32

theorem SensorInv.init (pps : ℚ) (accMsec : ℕ) :
    SensorInv pps (.init pps accMsec) :=
  ⟨rfl, rfl⟩

theorem step_of_reads {x : SensorWorld} {now : ℕ} (h : x.Reads now)
    (clock : Clock) :
    x.step (.read now clock) =
      ⟨flowYfSensorData x.sensor now clock, 0, x.readings + 1,
        x.pulsesRead + x.arrived⟩ :=
  if_pos h

/-- A read that comes too early does nothing. -/
theorem step_of_not_reads {x : SensorWorld} {now : ℕ} (h : ¬x.Reads now)
    (clock : Clock) : x.step (.read now clock) = x := by
  rw [SensorWorld.step, if_neg h, flowYfSensorData, if_pos (not_le.mp h)]

theorem SensorInv.step {pps : ℚ} {x : SensorWorld} (h : SensorInv pps x)
    (e : SensorEvent) : SensorInv pps (x.step e) := by
  cases e with
  | irq =>
      refine ⟨h.pps, ?_⟩
      simp only [SensorWorld.step, flowYfIrq, h.pulse]
      omega
  | read now clock =>
      by_cases hreads : x.Reads now
      · rw [step_of_reads hreads]
        exact ⟨(read_pps ..).trans h.pps, read_pulse hreads clock⟩
      · rw [step_of_not_reads hreads]
        exact h

/-- The truncation of a volume that is counted for a longer interval. -/
theorem floor_scaled_iff {v w interval : ℚ} (hw : 0 ≤ w) (hwv : w ≤ v)
    (hinterval : 1000 ≤ interval) :
    ((⌊1000 * w / interval⌋₊ : ℚ) ≤ v ∧ v - 1 < ⌊1000 * w / interval⌋₊) ↔
      ⌊v⌋₊ * interval ≤ 1000 * w := by
  have hpos : 0 < interval := by linarith
  have hscaled : 1000 * w / interval ≤ w := by
    rw [div_le_iff₀ hpos, mul_comm]
    exact mul_le_mul_of_nonneg_left hinterval hw
  have hnonneg : 0 ≤ 1000 * w / interval := by positivity
  have hupper : (⌊1000 * w / interval⌋₊ : ℚ) ≤ v :=
    ((Nat.floor_le hnonneg).trans hscaled).trans hwv
  rw [and_iff_right hupper, sub_lt_iff_lt_add]
  calc v < ⌊1000 * w / interval⌋₊ + 1
      ↔ v < ((⌊1000 * w / interval⌋₊ + 1 : ℕ) : ℚ) := by push_cast; rfl
    _ ↔ ⌊v⌋₊ < ⌊1000 * w / interval⌋₊ + 1 :=
        (Nat.floor_lt (hw.trans hwv)).symm
    _ ↔ ⌊v⌋₊ ≤ ⌊1000 * w / interval⌋₊ := Nat.lt_succ_iff
    _ ↔ (⌊v⌋₊ : ℚ) ≤ 1000 * w / interval := Nat.le_floor_iff hnonneg
    _ ↔ ⌊v⌋₊ * interval ≤ 1000 * w := le_div_iff₀ hpos

/-- A reading is truncated by less than a millilitre exactly if its interval is
short. -/
theorem addsVolume_iff {pps : ℚ} (hpps : 0 < pps) {x : SensorWorld}
    (h : SensorInv pps x) (e : SensorEvent) :
    AddsVolume x e ↔ ShortInterval x e := by
  cases e with
  | irq => exact Iff.rfl
  | read now clock =>
      refine forall_congr' fun hreads => ?_
      have hpps' : 0 < x.sensor.pps := h.pps ▸ hpps
      have htotal := read_totalMl hpps' hreads clock
      have hinterval : 1000 ≤ now - x.sensor.lastRead := hreads
      have hthousand : (1000 : ℚ) ≤ (now - x.sensor.lastRead : ℕ) := by
        exact_mod_cast hinterval
      have hadded : ((x.step (.read now clock)).sensor.totalMl : ℚ) -
          x.sensor.totalMl = ⌊measureTimeMs *
            volume x.sensor.pps x.sensor.pulse /
              (now - x.sensor.lastRead : ℕ)⌋₊ := by
        rw [step_of_reads hreads, htotal, Nat.cast_add, add_sub_cancel_left]
      have hpulse : volume x.sensor.pps x.sensor.pulse ≤
          volume x.sensor.pps x.arrived := by
        apply volume_mono hpps'
        rw [h.pulse]
        exact Nat.mod_le _ _
      rw [hadded]
      exact floor_scaled_iff (volume_nonneg hpps' _) hpulse hthousand

/-! ## Runs -/

/-- What the readings have added so far. -/
structure TotalInv (pps : ℚ) (x : SensorWorld) : Prop where
  inv : SensorInv pps x
  le : (x.sensor.totalMl : ℚ) ≤ volume pps x.pulsesRead
  lt : volume pps x.pulsesRead ≤ x.sensor.totalMl + x.readings
  strict : 0 < x.readings →
    volume pps x.pulsesRead < x.sensor.totalMl + x.readings

theorem TotalInv.init (pps : ℚ) (accMsec : ℕ) :
    TotalInv pps (.init pps accMsec) where
  inv := .init pps accMsec
  le := by simp [SensorWorld.init, FlowSensor.init, volume]
  lt := by simp [SensorWorld.init, FlowSensor.init, volume]
  strict := fun h => (Nat.lt_irrefl 0 h).elim

theorem TotalInv.step {pps : ℚ} {x : SensorWorld} (h : TotalInv pps x)
    {e : SensorEvent} (he : AddsVolume x e) : TotalInv pps (x.step e) := by
  have hinv := h.inv.step e
  cases e with
  | irq => exact ⟨hinv, h.le, h.lt, h.strict⟩
  | read now clock =>
      by_cases hreads : x.Reads now
      · obtain ⟨hle, hlt⟩ := he hreads
        rw [step_of_reads hreads] at hinv hle hlt ⊢
        rw [h.inv.pps] at hle hlt
        have hstrict : volume pps (x.pulsesRead + x.arrived) <
            (flowYfSensorData x.sensor now clock).totalMl +
              (x.readings + 1 : ℕ) := by
          have := h.lt
          rw [volume_add]
          push_cast
          linarith
        refine ⟨hinv, ?_, hstrict.le, fun _ => hstrict⟩
        have := h.le
        dsimp only
        rw [volume_add]
        linarith
      · rw [step_of_not_reads hreads]
        exact h

/-- The total of a run whose readings are truncated by less than a
millilitre. -/
theorem total_of_addsVolume {pps : ℚ} {accMsec : ℕ} {es : List SensorEvent}
    (h : sensorMachine.Along AddsVolume (.init pps accMsec) es) :
    TotalInv pps (sensorMachine.run (.init pps accMsec) es) :=
  h.invariant (I := TotalInv pps) (fun _ _ hx he => hx.step he)
    (.init pps accMsec)

/-- Every reading adds the volume of its pulses up to a truncation of less than
a millilitre if and only if the intervals are short, and then the total of a
schedule is the volume of all its pulses up to as many millilitres as it has
readings, and the totals of two schedules of the same pulses differ by less
than that. -/
theorem schedule_independence_iff {pps : ℚ} (hpps : 0 < pps) (accMsec : ℕ) :
    (∀ es, sensorMachine.Along AddsVolume (.init pps accMsec) es ↔
      sensorMachine.Along ShortInterval (.init pps accMsec) es) ∧
    (∀ es, sensorMachine.Along ShortInterval (.init pps accMsec) es →
      let x := sensorMachine.run (.init pps accMsec) es
      (x.sensor.totalMl : ℚ) ≤ volume pps x.pulsesRead ∧
        (0 < x.readings → volume pps x.pulsesRead - x.readings <
          x.sensor.totalMl)) ∧
    ∀ es es', sensorMachine.Along ShortInterval (.init pps accMsec) es →
      sensorMachine.Along ShortInterval (.init pps accMsec) es' →
      let x := sensorMachine.run (.init pps accMsec) es
      let x' := sensorMachine.run (.init pps accMsec) es'
      x.pulsesRead = x'.pulsesRead → 0 < x'.readings →
        x.sensor.totalMl < x'.sensor.totalMl + x'.readings := by
  have hiff : ∀ es, sensorMachine.Along AddsVolume (.init pps accMsec) es ↔
      sensorMachine.Along ShortInterval (.init pps accMsec) es := by
    intro es
    constructor
    · intro h
      exact h.mono_of_invariant (I := SensorInv pps)
        (fun _ e hx _ => hx.step e)
        (fun _ e hx => (addsVolume_iff hpps hx e).mp) (.init pps accMsec)
    · intro h
      exact h.mono_of_invariant (I := SensorInv pps)
        (fun _ e hx _ => hx.step e)
        (fun _ e hx => (addsVolume_iff hpps hx e).mpr) (.init pps accMsec)
  refine ⟨hiff, fun es h => ?_, fun es es' h h' hpulses hreadings => ?_⟩
  · have htotal := total_of_addsVolume ((hiff es).mpr h)
    refine ⟨htotal.le, fun hreadings => ?_⟩
    have := htotal.strict hreadings
    linarith
  · have htotal := total_of_addsVolume ((hiff es).mpr h)
    have htotal' := total_of_addsVolume ((hiff es').mpr h')
    have hle := htotal.le
    have hlt := htotal'.strict hreadings
    rw [hpulses] at hle
    exact_mod_cast hle.trans_lt hlt

/-- Six pulses in one second. -/
theorem schedule_independence_second :
    let x := sensorMachine.run (.init 6.6 0)
      (List.replicate 6 .irq ++ [.read 1000 ⟨false, none⟩])
    (x.sensor.totalMl : ℚ) ≤ volume 6.6 x.pulsesRead ∧
      (0 < x.readings → volume 6.6 x.pulsesRead - x.readings <
        x.sensor.totalMl) :=
  (schedule_independence_iff (by norm_num) 0).2.1 _
    ⟨trivial, trivial, trivial, trivial, trivial, trivial,
      fun _ => by decide +kernel, trivial⟩

/-- Six pulses that are read after two seconds count for half of their
volume. -/
theorem not_schedule_independence :
    ¬∀ (pps : ℚ) (accMsec : ℕ) (es : List SensorEvent), 0 < pps →
      sensorMachine.Along AddsVolume (.init pps accMsec) es := by
  intro h
  have hrun := h 6.6 0 (List.replicate 6 .irq ++ [.read 2000 ⟨false, none⟩])
    (by norm_num)
  have hread := hrun.2.2.2.2.2.2.1 (by decide +kernel)
  exact absurd hread.2 (by decide +kernel)

end Herak.Flow
