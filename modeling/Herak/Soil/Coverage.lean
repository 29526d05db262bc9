import Herak.Soil.Rounds
import Herak.Support.Rotation

/-!
# The sensors that are reached

Measuring, registering and publishing walk over the first `sensors_count`
sensors of the table.
-/

namespace Herak.Soil

namespace SoilContext

variable {ctx ctx' ctx'' : SoilContext} {input : RunInput} {i : SoilIdx}

/-! ## What a run keeps -/

/-- What does not change once the module was started. -/
structure SameLayout (ctx ctx' : SoilContext) : Prop where
  sensorsCount : ctx'.sensorsCount = ctx.sensorsCount
  components : ctx'.components = ctx.components
  digitalPin : ∀ i, (ctx'.sensors i).digitalPin = (ctx.sensors i).digitalPin
  analog : ∀ i, (ctx'.sensors i).analog = (ctx.sensors i).analog

theorem SameLayout.refl (ctx : SoilContext) : SameLayout ctx ctx :=
  ⟨rfl, rfl, fun _ => rfl, fun _ => rfl⟩

theorem SameLayout.trans (h : SameLayout ctx ctx') (h' : SameLayout ctx' ctx'') :
    SameLayout ctx ctx'' where
  sensorsCount := h'.sensorsCount.trans h.sensorsCount
  components := h'.components.trans h.components
  digitalPin := fun i => (h'.digitalPin i).trans (h.digitalPin i)
  analog := fun i => (h'.analog i).trans (h.analog i)

theorem sameLayout_afterRounds (ctx : SoilContext) (input : RunInput) :
    SameLayout ctx (ctx.afterRounds input) := by
  have hround : ∀ i, ((ctx.afterRounds input).sensors i).digitalPin =
        (ctx.sensors i).digitalPin ∧
      ((ctx.afterRounds input).sensors i).analog = (ctx.sensors i).analog := by
    intro i
    rw [afterRounds]
    dsimp only
    split
    · exact sensorRound_layout ctx.whNotify input i (ctx.sensors i)
    · exact ⟨rfl, rfl⟩
  exact ⟨rfl, rfl, fun i => (hround i).1, fun i => (hround i).2⟩

theorem sameLayout_soilMqttSensorSend (ctx : SoilContext) (input : RunInput)
    (i : SoilIdx) : SameLayout ctx (ctx.soilMqttSensorSend input i) := by
  have hupdate : ∀ j, (Function.update ctx.sensors i
          { ctx.sensors i with force := false } j).digitalPin =
        (ctx.sensors j).digitalPin ∧
      (Function.update ctx.sensors i
          { ctx.sensors i with force := false } j).analog =
        (ctx.sensors j).analog := by
    intro j
    by_cases hj : j = i
    · rw [hj, Function.update_self]
      exact ⟨rfl, rfl⟩
    · rw [Function.update_of_ne hj]
      exact ⟨rfl, rfl⟩
  rw [soilMqttSensorSend]
  split
  · exact ⟨rfl, rfl, fun j => (hupdate j).1, fun j => (hupdate j).2⟩
  · exact SameLayout.refl ctx

theorem firstForced_some (h : ctx.firstForced = some i) :
    (i : ℕ) < ctx.sensorsCount ∧ (ctx.sensors i).force = true :=
  ⟨mem_walked.mp (List.mem_of_find?_eq_some h),
    List.find?_some (p := fun i => (ctx.sensors i).force) h⟩

theorem firstForced_none (h : ctx.firstForced = none)
    (hi : (i : ℕ) < ctx.sensorsCount) : (ctx.sensors i).force = false := by
  rw [firstForced, List.find?_eq_none] at h
  simpa using h i (mem_walked.mpr hi)

/-- `soil_mqtt_send` does nothing, or it is about one of the first sensors. -/
theorem soilMqttSend_cases (ctx : SoilContext) (hpos : 0 < ctx.sensorsCount)
    (input : RunInput) :
    ctx.soilMqttSend input = ctx ∨
      ∃ (i : SoilIdx) (idx : ℕ), (i : ℕ) < ctx.sensorsCount ∧
        ctx.soilMqttSend input =
          { ctx.soilMqttSensorSend input i with idx := idx } := by
  rw [soilMqttSend]
  split
  next i hforced =>
    refine Or.inr ⟨i, ctx.idx, (firstForced_some hforced).1, ?_⟩
    rw [soilMqttSensorSend]
    split
    · rfl
    · rfl
  · split
    · exact Or.inl rfl
    · have hlt : (if ctx.sensorsCount ≤ ctx.idx then 0 else ctx.idx) <
          ctx.sensorsCount := by
        split
        · exact hpos
        next hidx => exact Nat.not_le.mp hidx
      dsimp only
      by_cases hmax : (if ctx.sensorsCount ≤ ctx.idx then 0 else ctx.idx) <
          maxSoilSensorsCount
      · rw [dif_pos hmax]
        exact Or.inr ⟨_, _, hlt, rfl⟩
      · rw [dif_neg hmax]
        exact Or.inl rfl

theorem sameLayout_soilRun (hpos : 0 < ctx.sensorsCount) (input : RunInput) :
    SameLayout ctx (ctx.soilRun input) := by
  have hmeasure := sameLayout_afterRounds ctx input
  rw [soilRun_eq]
  split
  · exact SameLayout.refl ctx
  · rcases soilMqttSend_cases (ctx.afterRounds input) hpos input with
      hsame | ⟨i, idx, -, hsend⟩
    · rw [hsame]
      exact ⟨hmeasure.1, hmeasure.2, hmeasure.3, hmeasure.4⟩
    · rw [hsend]
      have hlayout := hmeasure.trans
        (sameLayout_soilMqttSensorSend (ctx.afterRounds input) input i)
      exact ⟨hlayout.1, hlayout.2, hlayout.3, hlayout.4⟩

theorem sameLayout_run (hpos : 0 < ctx.sensorsCount) (inputs : List RunInput) :
    SameLayout ctx (soilMachine.run ctx inputs) := by
  refine soilMachine.invariant (I := SameLayout ctx) ?_ (SameLayout.refl ctx) inputs
  intro ctx' input h
  refine h.trans (sameLayout_soilRun ?_ input)
  rw [h.sensorsCount]
  exact hpos

/-! ## What is measured -/

theorem mem_measured_iff (input : RunInput) {m : Measure} :
    m ∈ (ctx.afterRounds input).measured ↔
      ∃ i : SoilIdx, (i : ℕ) < ctx.sensorsCount ∧
        m ∈ roundMeasures i (ctx.sensors i) := by
  simp only [afterRounds, List.mem_flatMap, mem_walked]

theorem digital_mem_roundMeasures {j : SoilIdx} {s : SoilSensor} :
    .digital j ∈ roundMeasures i s ↔ j = i ∧ 0 ≤ s.digitalPin := by
  rw [roundMeasures, analogMeasures, and_comm]
  cases s.analog with
  | none => simp
  | some analog => simp

theorem analog_mem_roundMeasures {j : SoilIdx} {s : SoilSensor} :
    .analog j ∈ roundMeasures i s ↔ j = i ∧ s.analog = some ⟨true⟩ := by
  rw [roundMeasures, analogMeasures]
  cases hanalog : s.analog with
  | none => simp
  | some analog =>
      obtain ⟨adc⟩ := analog
      cases adc with
      | false => simp
      | true => simp

theorem soilRun_measured (hpos : 0 < ctx.sensorsCount) (hdue : ctx.Due input) :
    (ctx.soilRun input).measured = (ctx.afterRounds input).measured := by
  rw [soilRun_eq, if_neg hdue]
  rcases soilMqttSend_cases (ctx.afterRounds input) hpos input with
    hsame | ⟨i, idx, -, hsend⟩
  · rw [hsame]
  · rw [hsend, soilMqttSensorSend]
    split
    · rfl
    · rfl

theorem soilMqttSensorSend_lastDigital (ctx : SoilContext) (input : RunInput)
    (i j : SoilIdx) :
    ((ctx.soilMqttSensorSend input i).sensors j).lastDigital =
      (ctx.sensors j).lastDigital := by
  rw [soilMqttSensorSend]
  split
  · dsimp only
    by_cases hj : j = i
    · rw [hj, Function.update_self]
    · rw [Function.update_of_ne hj]
  · rfl

/-- After a run that measures, a sensor that is reached has the level of its
pin. -/
theorem soilRun_lastDigital (hdue : ctx.Due input)
    (hi : (i : ℕ) < ctx.sensorsCount) (hpin : 0 ≤ (ctx.sensors i).digitalPin) :
    ((ctx.soilRun input).sensors i).lastDigital =
      input.gpio (ctx.sensors i).digitalPin := by
  have hround : ((ctx.afterRounds input).sensors i).lastDigital =
      input.gpio (ctx.sensors i).digitalPin := by
    rw [afterRounds]
    dsimp only
    rw [if_pos hi]
    exact sensorRound_lastDigital ctx.whNotify input i hpin
  rw [soilRun_eq, if_neg hdue, ← hround]
  rcases soilMqttSend_cases (ctx.afterRounds input) (Nat.zero_lt_of_lt hi) input
    with hsame | ⟨j, idx, -, hsend⟩
  · rw [hsame]
  · rw [hsend]
    exact soilMqttSensorSend_lastDigital (ctx.afterRounds input) input j i

/-! ## What is published -/

theorem published_soilRun (hpos : 0 < ctx.sensorsCount)
    (hi : i ∈ (ctx.soilRun input).published) :
    i ∈ ctx.published ∨ (i : ℕ) < ctx.sensorsCount := by
  rw [soilRun_eq] at hi
  split at hi
  · exact Or.inl hi
  · rcases soilMqttSend_cases (ctx.afterRounds input) hpos input with
      hsame | ⟨j, idx, hj, hsend⟩
    · rw [hsame] at hi
      exact Or.inl hi
    · rw [hsend, soilMqttSensorSend] at hi
      split at hi
      · rw [List.mem_append, List.mem_singleton] at hi
        rcases hi with hold | rfl
        · exact Or.inl hold
        · exact Or.inr hj
      · exact Or.inl hi

theorem published_run (hpos : 0 < ctx.sensorsCount)
    (hstart : ∀ i ∈ ctx.published, (i : ℕ) < ctx.sensorsCount)
    (inputs : List RunInput) :
    ∀ i ∈ (soilMachine.run ctx inputs).published, (i : ℕ) < ctx.sensorsCount := by
  have hrun := soilMachine.invariant
    (I := fun c => SameLayout ctx c ∧ ∀ i ∈ c.published, (i : ℕ) < ctx.sensorsCount)
    ?_ ⟨SameLayout.refl ctx, hstart⟩ inputs
  · exact hrun.2
  · rintro c input ⟨hlayout, hold⟩
    have hcount : 0 < c.sensorsCount := by
      rw [hlayout.sensorsCount]
      exact hpos
    refine ⟨hlayout.trans (sameLayout_soilRun hcount input), fun i hi => ?_⟩
    rcases published_soilRun hcount hi with hi | hi
    · exact hold i hi
    · exact hlayout.sensorsCount ▸ hi

/-- A run at which a message is due and is published, while nothing new is
measured. -/
structure Quiet (ctx : SoilContext) (input : RunInput) : Prop where
  due : ctx.Due input
  mqttDue : ¬ (ctx.mqttLastSend ≠ 0 ∧
    input.mqttNow - ctx.mqttLastSend < mqttSendIntervalMs)
  result : input.result = 0
  gpio : ∀ i, 0 ≤ (ctx.sensors i).digitalPin →
    input.gpio (ctx.sensors i).digitalPin = (ctx.sensors i).lastDigital
  adc : ∀ i, input.adc i = false

/-- The order of the messages. -/
def rotation (count : ℕ) (hmax : count ≤ maxSoilSensorsCount) :
    Rotation SoilIdx ℕ where
  next := fun idx => (if count ≤ idx then 0 else idx) + 1
  entry := fun idx => ⟨if count ≤ idx then 0 else idx, by
    split
    · decide
    · omega⟩

/-- The sensors that ask for a message. -/
def forcedSet (ctx : SoilContext) : Finset SoilIdx :=
  Finset.univ.filter fun i =>
    (i : ℕ) < ctx.sensorsCount ∧ (ctx.sensors i).force = true

/-- The part of the context that decides whose message is next. -/
def turnState (ctx : SoilContext) : Rotation.State SoilIdx ℕ where
  pending := ctx.forcedSet
  cursor := ctx.idx
  served := ctx.published

theorem notifyRound_force (input : RunInput) (i : SoilIdx) (s : SoilSensor) :
    (notifyRound input i s).force = s.force := by
  rw [notifyRound]
  split
  · rfl
  · split
    · rfl
    · rfl

/-- A quiet round changes no wish for a message. -/
theorem afterRounds_force (hquiet : ctx.Quiet input) (i : SoilIdx) :
    ((ctx.afterRounds input).sensors i).force = (ctx.sensors i).force := by
  have hanalog : (analogRound input i (ctx.sensors i)).force =
        (ctx.sensors i).force ∧
      (analogRound input i (ctx.sensors i)).lastDigital =
        (ctx.sensors i).lastDigital := by
    rw [analogRound]
    split
    · exact ⟨rfl, rfl⟩
    · simp [hquiet.adc i]
  have hpin := (analogRound_layout input i (ctx.sensors i)).1
  rw [afterRounds]
  dsimp only
  split
  · rw [sensorRound]
    split
    next hnonneg =>
      rw [hpin] at hnonneg
      have hsame : digitalRound ctx.whNotify input
          (analogRound input i (ctx.sensors i)) =
            analogRound input i (ctx.sensors i) := by
        rw [digitalRound, hpin, hquiet.gpio i hnonneg, hanalog.2]
        exact if_neg (not_not.mpr rfl)
      dsimp only
      rw [hsame]
      split
      · rw [notifyRound_force, hanalog.1]
      · exact hanalog.1
    · exact hanalog.1
  · rfl

theorem forcedSet_afterRounds (hquiet : ctx.Quiet input) :
    (ctx.afterRounds input).forcedSet = ctx.forcedSet := by
  rw [forcedSet, forcedSet]
  refine Finset.filter_congr fun i _ => ?_
  rw [afterRounds_force hquiet]
  exact Iff.rfl

theorem forcedSet_sensorSend (ctx : SoilContext) (hresult : input.result = 0)
    (i : SoilIdx) :
    (ctx.soilMqttSensorSend input i).forcedSet = ctx.forcedSet.erase i := by
  rw [soilMqttSensorSend, if_pos hresult]
  ext j
  simp only [forcedSet, Finset.mem_filter, Finset.mem_univ, true_and,
    Finset.mem_erase]
  by_cases hj : j = i
  · rw [hj, Function.update_self]
    simp
  · rw [Function.update_of_ne hj]
    simp [hj]

theorem sensorSend_published (ctx : SoilContext) (hresult : input.result = 0)
    (i : SoilIdx) :
    (ctx.soilMqttSensorSend input i).published = ctx.published ++ [i] ∧
      (ctx.soilMqttSensorSend input i).idx = ctx.idx := by
  rw [soilMqttSensorSend, if_pos hresult]
  exact ⟨rfl, rfl⟩

/-- A message that is asked for is served first. -/
theorem turnState_send_forced (hquiet : ctx.Quiet input)
    (hfirst : (ctx.afterRounds input).firstForced = some i) :
    turnState { (ctx.afterRounds input).soilMqttSend input with
        lastRun := input.now } =
      { ctx.turnState with
        pending := ctx.turnState.pending.erase i
        served := ctx.turnState.served ++ [i] } := by
  obtain ⟨hpublished, hidx⟩ :=
    sensorSend_published (ctx.afterRounds input) hquiet.result i
  have hset := forcedSet_sensorSend (ctx.afterRounds input) hquiet.result i
  rw [forcedSet_afterRounds hquiet] at hset
  simp only [soilMqttSend, hfirst, turnState, hpublished, hidx]
  rw [← hset]
  rfl

/-- With no message asked for, the next sensor in turn is served. -/
theorem turnState_send_turn {count : ℕ} (hmax : count ≤ maxSoilSensorsCount)
    (hcount : ctx.sensorsCount = count) (hquiet : ctx.Quiet input)
    (hfirst : (ctx.afterRounds input).firstForced = none)
    (hnone : ctx.turnState.pending = ∅) :
    turnState { (ctx.afterRounds input).soilMqttSend input with
        lastRun := input.now } =
      { ctx.turnState with
        cursor := (rotation count hmax).next ctx.turnState.cursor
        served := ctx.turnState.served ++
          [(rotation count hmax).entry ctx.turnState.cursor] } := by
  have hlt : (if count ≤ ctx.idx then 0 else ctx.idx) < maxSoilSensorsCount :=
    ((rotation count hmax).entry ctx.idx).isLt
  have hset := forcedSet_sensorSend (ctx.afterRounds input) hquiet.result
    ((rotation count hmax).entry ctx.idx)
  have hempty : ctx.forcedSet = ∅ := hnone
  rw [forcedSet_afterRounds hquiet, hempty, Finset.erase_empty] at hset
  have hpublished := (sensorSend_published (ctx.afterRounds input) hquiet.result
    ((rotation count hmax).entry ctx.idx)).1
  have hsend : (ctx.afterRounds input).soilMqttSend input =
      { (ctx.afterRounds input).soilMqttSensorSend input
          ((rotation count hmax).entry ctx.idx) with
        idx := (rotation count hmax).next ctx.idx } := by
    have hmqtt : ¬ ((ctx.afterRounds input).mqttLastSend ≠ 0 ∧
        input.mqttNow - (ctx.afterRounds input).mqttLastSend <
          mqttSendIntervalMs) := hquiet.mqttDue
    have hsame : (ctx.afterRounds input).sensorsCount = count := hcount
    have hmeasure : (ctx.afterRounds input).idx = ctx.idx := rfl
    rw [soilMqttSend, hfirst]
    dsimp only
    rw [if_neg hmqtt, if_pos hquiet.result]
    simp only [hsame, hmeasure]
    rw [dif_pos hlt]
    rfl
  rw [hsend]
  simp only [turnState, hpublished]
  rw [hempty]
  exact congrArg (Rotation.State.mk · _ _) hset

/-- A quiet run is a turn. -/
theorem quiet_serves {count : ℕ} (hmax : count ≤ maxSoilSensorsCount)
    (hcount : ctx.sensorsCount = count) (hquiet : ctx.Quiet input) :
    ∃ p, (rotation count hmax).Serves ctx.turnState p
      (ctx.soilRun input).turnState := by
  have hforced := forcedSet_afterRounds hquiet
  rw [soilRun_eq, if_neg hquiet.due]
  cases hfirst : (ctx.afterRounds input).firstForced with
  | some i =>
      have hi := firstForced_some hfirst
      have hmem : i ∈ ctx.turnState.pending := by
        change i ∈ ctx.forcedSet
        rw [← hforced]
        exact Finset.mem_filter.mpr ⟨Finset.mem_univ i, hi⟩
      rw [turnState_send_forced hquiet hfirst]
      exact ⟨i, .pending hmem⟩
  | none =>
      have hnone : ctx.turnState.pending = ∅ := by
        change ctx.forcedSet = ∅
        rw [← hforced, forcedSet, Finset.filter_eq_empty_iff]
        rintro i - ⟨hi, hforce⟩
        rw [firstForced_none hfirst hi] at hforce
        cases hforce
      rw [turnState_send_turn hmax hcount hquiet hfirst hnone]
      exact ⟨_, .turn hnone⟩

/-- Quiet runs are turns. -/
theorem quiet_turns {count : ℕ} (hmax : count ≤ maxSoilSensorsCount)
    (hpos : 0 < count) {inputs : List RunInput}
    (hcount : ctx.sensorsCount = count)
    (hquiet : soilMachine.Along Quiet ctx inputs) :
    (rotation count hmax).Turns inputs.length ctx.turnState
      (soilMachine.run ctx inputs).turnState := by
  induction inputs generalizing ctx with
  | nil => exact .none _
  | cons input inputs ih =>
      obtain ⟨p, hserves⟩ := quiet_serves hmax hcount hquiet.1
      refine .one hserves (ih ?_ hquiet.2)
      exact (sameLayout_soilRun (hcount ▸ hpos) input).sensorsCount.trans hcount

theorem entry_iterate {count : ℕ} (hmax : count ≤ maxSoilSensorsCount)
    (hpos : 0 < count) (idx j : ℕ) :
    ((rotation count hmax).entry ((rotation count hmax).next^[j] idx) : ℕ) =
      ((rotation count hmax).entry idx + j) % count := by
  have hentry : ∀ c, ((rotation count hmax).entry c : ℕ) < count := by
    intro c
    simp only [rotation]
    split
    · exact hpos
    next hc => exact Nat.not_le.mp hc
  have hnext : ∀ c, ((rotation count hmax).entry ((rotation count hmax).next c) : ℕ) =
      ((rotation count hmax).entry c + 1) % count := by
    intro c
    have hlt := hentry c
    have hstep : (rotation count hmax).next c = (rotation count hmax).entry c + 1 := rfl
    rw [hstep]
    by_cases hlast : count ≤ (rotation count hmax).entry c + 1
    · have hcount : ((rotation count hmax).entry c : ℕ) + 1 = count := by omega
      rw [hcount, Nat.mod_self]
      simp [rotation]
    · rw [Nat.mod_eq_of_lt (Nat.not_le.mp hlast)]
      exact if_neg hlast
  induction j with
  | zero =>
      rw [Function.iterate_zero_apply, Nat.add_zero, Nat.mod_eq_of_lt (hentry idx)]
  | succ j ih =>
      rw [Function.iterate_succ_apply', hnext, ih, Nat.mod_add_mod, Nat.add_assoc]

/-- The cursor comes to every sensor that is reached. -/
theorem exists_entry {count : ℕ} (hmax : count ≤ maxSoilSensorsCount)
    (idx : ℕ) (hi : (i : ℕ) < count) :
    ∃ j < count,
      (rotation count hmax).entry ((rotation count hmax).next^[j] idx) = i := by
  have hpos : 0 < count := Nat.zero_lt_of_lt hi
  have hentry := entry_iterate hmax hpos idx
  have hstart : ((rotation count hmax).entry idx : ℕ) < count := by
    have hzero := hentry 0
    rw [Function.iterate_zero_apply] at hzero
    rw [hzero]
    exact Nat.mod_lt _ hpos
  refine ⟨((i : ℕ) + count - (rotation count hmax).entry idx) % count,
    Nat.mod_lt _ hpos, Fin.ext ?_⟩
  rw [hentry, Nat.add_mod_mod, Nat.add_sub_cancel' (by omega),
    Nat.add_mod_right, Nat.mod_eq_of_lt hi]

theorem card_forcedSet_le (ctx : SoilContext) :
    ctx.forcedSet.card ≤ ctx.sensorsCount := by
  have hsub : ctx.forcedSet ⊆
      Finset.univ.filter fun i : SoilIdx => (i : ℕ) < ctx.sensorsCount := by
    intro i hi
    exact Finset.mem_filter.mpr
      ⟨Finset.mem_univ i, (Finset.mem_filter.mp hi).2.1⟩
  refine (Finset.card_le_card hsub).trans ?_
  rw [Fin.card_filter_val_lt]
  exact min_le_right _ _

/-- Enough quiet runs publish every sensor that is reached. -/
theorem published_of_quiet (hmax : ctx.sensorsCount ≤ maxSoilSensorsCount)
    {inputs : List RunInput} (hquiet : soilMachine.Along Quiet ctx inputs)
    (hlen : 2 * ctx.sensorsCount ≤ inputs.length)
    (hi : (i : ℕ) < ctx.sensorsCount) :
    i ∈ (soilMachine.run ctx inputs).published := by
  have hturns := quiet_turns hmax (Nat.zero_lt_of_lt hi) rfl hquiet
  obtain ⟨j, hj, hentry⟩ := exists_entry hmax ctx.idx hi
  have hcard := ctx.card_forcedSet_le
  have hserved := (hturns.all_served (k := ctx.sensorsCount) ?_).2 j hj
  · change (rotation _ hmax).entry ((rotation _ hmax).next^[j] ctx.idx) ∈
      (soilMachine.run ctx inputs).published at hserved
    rwa [hentry] at hserved
  · change ctx.forcedSet.card + ctx.sensorsCount ≤ inputs.length
    omega

end SoilContext

/-! ## Coverage -/

/-- The measurements of the sensors that the lists name. -/
def ListedMeasure (digital analog : PinList) : Measure → Prop
  | .digital i => digital.Has i
  | .analog i => analog.Has i

/-- The components of the sensors that the lists name. -/
def ListedComponent (digital analog : PinList) : SoilComponent → Prop
  | .soil i => Configured digital analog i
  | .soilA i => analog.Has i

/-- From here on, nothing has been published. -/
def SoilContext.fresh (ctx : SoilContext) : SoilContext :=
  { ctx with published := [] }

/-- Every run that measures does so with all the sensors of the lists and no
other ones, and leaves them with the levels of their pins; so it is with the
components and the messages. -/
structure Covers (digital analog : PinList) (ctx : SoilContext) : Prop where
  measured : ∀ inputs input, (soilMachine.run ctx inputs).Due input → ∀ m,
    m ∈ ((soilMachine.run ctx inputs).soilRun input).measured ↔
      ListedMeasure digital analog m
  levels : ∀ inputs input, (soilMachine.run ctx inputs).Due input →
    ∀ i pin, digital.pin i = some pin →
      (((soilMachine.run ctx inputs).soilRun input).sensors i).lastDigital =
        input.gpio pin
  components : ∀ c, c ∈ ctx.components ↔ ListedComponent digital analog c
  onlyPublished : ∀ inputs, ∀ i ∈ (soilMachine.run ctx inputs).published,
    Configured digital analog i
  everyPublished : ∀ before inputs,
    soilMachine.Along SoilContext.Quiet (soilMachine.run ctx before).fresh inputs →
    2 * ctx.sensorsCount ≤ inputs.length →
    ∀ i, Configured digital analog i →
      i ∈ (soilMachine.run (soilMachine.run ctx before).fresh inputs).published

/-- What `soil_init` gives covers the lists: without a module there are no
sensors. -/
def InitCovers (digital analog : PinList) :
    Option (Option SoilContext) → Prop
  | none => False
  | some none => ∀ i, ¬ Configured digital analog i
  | some (some ctx) => Covers digital analog ctx

/-- There is memory for the module, each analog output has an ADC sensor, and
the numbers of the sensors have no gap. -/
structure Gapless (memory : SoilMemory) (digital analog : PinList) : Prop where
  context : memory.context = true
  ready : ∀ i, analog.Has i → memory.Ready analog i
  noGap : IsLowerSet {i | Configured digital analog i}

section

variable {memory : SoilMemory} {registered : SoilComponent → Bool}
  {digital analog : PinList} {wnotify : Option CStr}

/-- The module with the sensors of the lists. -/
def listedContext (memory : SoilMemory) (registered : SoilComponent → Bool)
    (digital analog : PinList) (wnotify : Option CStr) : SoilContext :=
  registeredContext registered
    (soilContext memory (listedSensor digital analog) wnotify)

theorem listedContext_sensorsCount (memory : SoilMemory)
    (registered : SoilComponent → Bool) (digital analog : PinList)
    (wnotify : Option CStr) :
    (listedContext memory registered digital analog wnotify).sensorsCount =
      (Finset.univ.filter (Counted memory digital analog)).card :=
  sensorsCount_eq memory digital analog wnotify

theorem listedContext_layout (memory : SoilMemory)
    (registered : SoilComponent → Bool) (digital analog : PinList)
    (wnotify : Option CStr) (i : SoilIdx) :
    ((listedContext memory registered digital analog wnotify).sensors i).digitalPin =
        digital.tablePin i ∧
      ((listedContext memory registered digital analog wnotify).sensors i).analog =
        if analog.Has i ∧ memory.analog i = true then
          some ⟨adcSensorInit (analog.tablePin i) (memory.adc i)⟩
        else none := by
  have hpin := soilInitSensor_digitalPin memory i (listedSensor digital analog i)
  have hanalog := soilInitSensor_analog memory digital analog i
  rw [listedContext, registeredContext]
  dsimp only
  split
  · exact ⟨hpin, hanalog⟩
  · exact ⟨hpin, hanalog⟩

/-- What a run that is due measures. -/
theorem mem_listed_measured
    (hpos : 0 < (listedContext memory registered digital analog wnotify).sensorsCount)
    (inputs : List RunInput) {input : RunInput}
    (hdue : (soilMachine.run (listedContext memory registered digital analog wnotify)
      inputs).Due input) (m : Measure) :
    m ∈ ((soilMachine.run (listedContext memory registered digital analog wnotify)
        inputs).soilRun input).measured ↔
      match m with
      | .digital i => (i : ℕ) < (listedContext memory registered digital analog
          wnotify).sensorsCount ∧ digital.Has i
      | .analog i => (i : ℕ) < (listedContext memory registered digital analog
          wnotify).sensorsCount ∧ analog.Has i ∧ memory.Ready analog i := by
  have hrun := SoilContext.sameLayout_run hpos inputs
  rw [SoilContext.soilRun_measured (hrun.sensorsCount ▸ hpos) hdue,
    SoilContext.mem_measured_iff, hrun.sensorsCount]
  cases m with
  | digital j =>
      have hlayout :=
        (listedContext_layout memory registered digital analog wnotify j).1
      dsimp only
      constructor
      · rintro ⟨i, hi, hm⟩
        obtain ⟨rfl, hpin⟩ := SoilContext.digital_mem_roundMeasures.mp hm
        rw [hrun.digitalPin, hlayout, PinList.tablePin_nonneg_iff] at hpin
        exact ⟨hi, hpin⟩
      · rintro ⟨hj, hhas⟩
        refine ⟨j, hj, SoilContext.digital_mem_roundMeasures.mpr ⟨rfl, ?_⟩⟩
        rw [hrun.digitalPin, hlayout]
        exact PinList.tablePin_nonneg_iff.mpr hhas
  | analog j =>
      have hlayout :=
        (listedContext_layout memory registered digital analog wnotify j).2
      have hready : (if analog.Has j ∧ memory.analog j = true then
            some (⟨adcSensorInit (analog.tablePin j) (memory.adc j)⟩ : SoilAnalog)
          else none) = some ⟨true⟩ ↔ analog.Has j ∧ memory.Ready analog j := by
        rw [SoilMemory.Ready]
        split
        next h => simp [h.1, h.2]
        next h =>
          simp only [reduceCtorEq, false_iff, not_and]
          exact fun hhas hmemory _ => h ⟨hhas, hmemory⟩
      dsimp only
      constructor
      · rintro ⟨i, hi, hm⟩
        obtain ⟨rfl, hanalog⟩ := SoilContext.analog_mem_roundMeasures.mp hm
        rw [hrun.analog, hlayout] at hanalog
        exact ⟨hi, hready.mp hanalog⟩
      · rintro ⟨hj, hhas⟩
        refine ⟨j, hj, SoilContext.analog_mem_roundMeasures.mpr ⟨rfl, ?_⟩⟩
        rw [hrun.analog, hlayout]
        exact hready.mpr hhas

/-- `soil_init` on the texts of two lists. -/
theorem soilInit_param (memory : SoilMemory) (registered : SoilComponent → Bool)
    (digital analog : PinList) (wnotify : Option CStr) :
    soilInit memory registered digital.param analog.param wnotify =
      if memory.context = true ∧ ∃ i, Counted memory digital analog i then
        some (some (listedContext memory registered digital analog wnotify))
      else some none := by
  have hcounted : (∃ i, Counted memory digital analog i) ↔
      0 < (soilContext memory (listedSensor digital analog) wnotify).sensorsCount := by
    rw [sensorsCount_eq, Finset.card_pos, Finset.filter_nonempty_iff]
    simp
  have hsensors : (fun i => (noSensor.withPin true (digital.pin i)).withPin false
      (analog.pin i)) = listedSensor digital analog :=
    funext fun i => withPin_withPin digital analog i
  rw [soilInit]
  by_cases hnone : noText digital.param = true ∧ noText analog.param = true
  · have hno : ¬ ∃ i, Counted memory digital analog i := by
      rintro ⟨i, hi⟩
      rcases hi.configured with hhas | hhas
      · exact PinList.noText_param_iff.mp hnone.1 i hhas
      · exact PinList.noText_param_iff.mp hnone.2 i hhas
    rw [if_pos (by simp [hnone.1, hnone.2]), if_neg fun h => hno h.2]
  · rw [if_neg (by simpa using hnone)]
    by_cases hcontext : memory.context = true
    · rw [if_neg (by simp [hcontext]), soilReadPinCfg_param]
      simp only [Option.bind_eq_bind, Option.bind_some]
      rw [soilReadPinCfg_param]
      simp only [Option.bind_some]
      rw [hsensors]
      have hpairs : ¬ digital.pairs.length + analog.pairs.length < 1 := by
        intro hlt
        refine hnone ⟨?_, ?_⟩
        · refine PinList.noText_param_iff.mpr fun i hi => ?_
          have := PinList.length_pairs_pos_iff.mpr ⟨i, hi⟩
          omega
        · refine PinList.noText_param_iff.mpr fun i hi => ?_
          have := PinList.length_pairs_pos_iff.mpr ⟨i, hi⟩
          omega
      rw [if_neg hpairs]
      by_cases hsome : ∃ i, Counted memory digital analog i
      · rw [if_neg (by have := hcounted.mp hsome; omega), if_pos ⟨hcontext, hsome⟩,
          soilMqttInit_eq]
        rfl
      · have hzero := mt hcounted.mpr hsome
        rw [if_pos (by omega), if_neg fun h => hsome h.2]
    · rw [if_pos (by simpa using hcontext), if_neg fun h => hcontext h.1]

/-- An input that is due after a start. -/
def firstInput : RunInput where
  now := measureIntervalMs
  gpio := fun _ => false
  adc := fun _ => false
  whConnected := fun _ => false
  whNow := fun _ => 0
  whSent := fun _ => false
  mqttNow := measureIntervalMs
  sendTime := measureIntervalMs
  result := 0

theorem firstInput_due :
    (listedContext memory registered digital analog wnotify).Due firstInput := by
  change ¬ measureIntervalMs - 0 < measureIntervalMs
  decide

/-- A module that measures every sensor reaches them all. -/
theorem gapless_of_covers (hcontext : memory.context = true)
    (hsome : ∃ i, Counted memory digital analog i)
    (hcovers : Covers digital analog
      (listedContext memory registered digital analog wnotify)) :
    Gapless memory digital analog := by
  have hpos : 0 < (listedContext memory registered digital analog
      wnotify).sensorsCount := by
    rw [listedContext_sensorsCount, Finset.card_pos, Finset.filter_nonempty_iff]
    simpa using hsome
  have hmeasured := fun m => (hcovers.measured [] firstInput firstInput_due m).symm.trans
    (mem_listed_measured hpos [] firstInput_due m)
  have hanalog : ∀ i, analog.Has i →
      (i : ℕ) < (listedContext memory registered digital analog wnotify).sensorsCount ∧
        analog.Has i ∧ memory.Ready analog i :=
    fun i hi => (hmeasured (.analog i)).mp hi
  have hconfigured : ∀ i, Configured digital analog i ↔
      Counted memory digital analog i := by
    intro i
    refine ⟨fun hi => hi.imp_right fun hhas => (hanalog i hhas).2,
      Counted.configured⟩
  refine ⟨hcontext, fun i hi => (hanalog i hi).2.2, ?_⟩
  have hset : {i | Configured digital analog i} =
      {i | Counted memory digital analog i} :=
    Set.ext hconfigured
  rw [hset, ← counted_lt_iff]
  intro i hi
  rw [← listedContext_sensorsCount memory registered digital analog wnotify]
  rcases (hconfigured i).mpr hi with hhas | hhas
  · exact ((hmeasured (.digital i)).mp hhas).1
  · exact (hanalog i hhas).1

/-- Without a gap the sensors that are counted are those that are reached. -/
theorem lt_sensorsCount_iff (registered : SoilComponent → Bool)
    (wnotify : Option CStr) (hgapless : Gapless memory digital analog)
    (i : SoilIdx) :
    (i : ℕ) < (listedContext memory registered digital analog
      wnotify).sensorsCount ↔ Configured digital analog i := by
  have hset : ∀ i, Counted memory digital analog i ↔
      Configured digital analog i := by
    refine fun i => ⟨Counted.configured, fun hi => ?_⟩
    exact hi.imp_right fun hhas => ⟨hhas, hgapless.ready i hhas⟩
  rw [listedContext_sensorsCount, ← hset i]
  refine Fin.lt_card_filter_univ_iff_apply_of_imp _ fun j k hkj hj => ?_
  exact (hset k).mpr (hgapless.noGap hkj ((hset j).mp hj))

theorem initSensor_analog_isSome (hgapless : Gapless memory digital analog)
    (i : SoilIdx) :
    (soilInitSensor memory i
      (listedSensor digital analog i)).1.analog.isSome = true ↔
        analog.Has i := by
  rw [soilInitSensor_analog]
  split
  next h => simp [h.1]
  next h =>
    refine iff_of_false Bool.false_ne_true fun hhas => h ⟨hhas, ?_⟩
    exact (hgapless.ready i hhas).1

/-- The components are those of the sensors that are reached, as far as they
could be registered. -/
theorem mem_registered_iff (memory : SoilMemory)
    (registered : SoilComponent → Bool) (digital analog : PinList)
    (wnotify : Option CStr) (c : SoilComponent) :
    c ∈ (listedContext memory registered digital analog wnotify).components ↔
      (∃ i : SoilIdx, (i : ℕ) < (listedContext memory registered digital analog
          wnotify).sensorsCount ∧
        c ∈ soilComponents i
          (soilInitSensor memory i (listedSensor digital analog i)).1) ∧
      registered c = true := by
  rw [listedContext, registeredContext]
  simp only [soilContext, List.nil_append, List.mem_flatMap, List.mem_filter,
    SoilContext.mem_walked, ← and_assoc, exists_and_right]

/-- Without a gap the components are those of the sensors of the lists, as far
as they could be registered. -/
theorem mem_listed_components (registered : SoilComponent → Bool)
    (wnotify : Option CStr) (hgapless : Gapless memory digital analog)
    (c : SoilComponent) :
    c ∈ (listedContext memory registered digital analog wnotify).components ↔
      ListedComponent digital analog c ∧ registered c = true := by
  rw [mem_registered_iff]
  refine and_congr_left fun _ => ?_
  simp only [lt_sensorsCount_iff registered wnotify hgapless,
    mem_soilComponents, initSensor_analog_isSome hgapless]
  cases c with
  | soil j =>
      constructor
      · rintro ⟨i, hi, hc⟩
        obtain rfl : j = i := by simpa using hc
        exact hi
      · exact fun hj => ⟨j, hj, Or.inl rfl⟩
  | soilA j =>
      constructor
      · rintro ⟨i, -, hc⟩
        obtain ⟨hhas, rfl⟩ : analog.Has i ∧ j = i := by simpa using hc
        exact hhas
      · exact fun hhas => ⟨j, Or.inr hhas, Or.inr ⟨hhas, rfl⟩⟩

theorem covers_of_gapless (hgapless : Gapless memory digital analog)
    (hregistered : ∀ c, ListedComponent digital analog c → registered c = true)
    (hsome : ∃ i, Counted memory digital analog i) :
    Covers digital analog
      (listedContext memory registered digital analog wnotify) := by
  have hlt := lt_sensorsCount_iff registered wnotify hgapless
  have hpos : 0 < (listedContext memory registered digital analog
      wnotify).sensorsCount := by
    obtain ⟨i, hi⟩ := hsome
    exact Nat.zero_lt_of_lt ((hlt i).mpr hi.configured)
  have hmax : (listedContext memory registered digital analog
      wnotify).sensorsCount ≤ maxSoilSensorsCount := by
    rw [listedContext_sensorsCount]
    exact (Finset.card_le_univ _).trans_eq (Fintype.card_fin _)
  refine ⟨fun inputs input hdue m => ?_, fun inputs input hdue i pin hpin => ?_,
    fun c =>
      (mem_listed_components registered wnotify hgapless c).trans
        (and_iff_left_of_imp (hregistered c)), fun inputs i hi => ?_,
    fun before inputs hquiet hlen i hi => ?_⟩
  · rw [mem_listed_measured hpos inputs hdue]
    cases m with
    | digital i =>
        exact ⟨And.right, fun hhas => ⟨(hlt i).mpr (Or.inl hhas), hhas⟩⟩
    | analog i =>
        exact ⟨fun h => h.2.1, fun hhas =>
          ⟨(hlt i).mpr (Or.inr hhas), hhas, hgapless.ready i hhas⟩⟩
  · have hrun := SoilContext.sameLayout_run hpos inputs
    have hlayout :=
      (listedContext_layout memory registered digital analog wnotify i).1
    have htable : digital.tablePin i = pin := by rw [PinList.tablePin, hpin]
    have hhas : digital.Has i := by rw [PinList.Has, hpin, Option.isSome_some]
    have hdigital := (hrun.digitalPin i).trans (hlayout.trans htable)
    rw [SoilContext.soilRun_lastDigital hdue, hdigital]
    · rw [hrun.sensorsCount]
      exact (hlt i).mpr (Or.inl hhas)
    · rw [hdigital]
      exact Int.natCast_nonneg pin
  · exact (hlt i).mp (SoilContext.published_run hpos
      (fun i hi => absurd hi List.not_mem_nil) inputs i hi)
  · have hcount := (SoilContext.sameLayout_run hpos before).sensorsCount
    have hfresh : (soilMachine.run (listedContext memory registered digital analog
        wnotify) before).fresh.sensorsCount = _ := hcount
    refine SoilContext.published_of_quiet (hfresh.trans_le hmax) hquiet ?_ ?_
    · rw [hfresh]
      exact hlen
    · rw [hfresh]
      exact (hlt i).mpr hi

/-- `soil_init` gives a module that covers the lists if and only if they name no
sensor, or there is no gap and every component could be registered. -/
theorem initCovers_iff (memory : SoilMemory) (registered : SoilComponent → Bool)
    (digital analog : PinList) (wnotify : Option CStr) :
    InitCovers digital analog
        (soilInit memory registered digital.param analog.param wnotify) ↔
      (∀ i, ¬ Configured digital analog i) ∨ Gapless memory digital analog ∧
        ∀ c, ListedComponent digital analog c → registered c = true := by
  rw [soilInit_param]
  split
  next h =>
    obtain ⟨hcontext, hsome⟩ := h
    constructor
    · intro hcovers
      have hgapless := gapless_of_covers hcontext hsome hcovers
      refine Or.inr ⟨hgapless, fun c hc => ?_⟩
      have hmem := (hcovers.components c).mpr hc
      exact ((mem_listed_components registered wnotify hgapless c).mp hmem).2
    · rintro (hnone | ⟨hgapless, hregistered⟩)
      · obtain ⟨i, hi⟩ := hsome
        exact absurd hi.configured (hnone i)
      · exact covers_of_gapless hgapless hregistered hsome
  next h =>
    refine ⟨Or.inl, ?_⟩
    rintro (hnone | ⟨hgapless, -⟩)
    · exact hnone
    · intro i hi
      refine h ⟨hgapless.context, i, ?_⟩
      exact hi.imp_right fun hhas => ⟨hhas, hgapless.ready i hhas⟩

end

/-- `SOIL_D` is `1:10`. -/
def secondSensor : PinList where
  pairs := [(1, 10)]
  nodup := by decide
  le_forty := by decide

/-- No sensor. -/
def noSensors : PinList where
  pairs := []
  nodup := by decide
  le_forty := by decide

/-- The only sensor is the second one of the table, while the loops end behind
the first one. -/
theorem not_initCovers :
    ¬ ∀ digital analog : PinList,
      InitCovers digital analog
        (soilInit ⟨true, fun _ => true, fun _ => true⟩ (fun _ => true)
          digital.param analog.param none) := by
  intro h
  have hcovers := h secondSensor noSensors
  rw [soilInit_param, if_pos ⟨rfl, 1, by decide⟩] at hcovers
  have hdue : (listedContext ⟨true, fun _ => true, fun _ => true⟩ (fun _ => true)
      secondSensor noSensors none).Due firstInput := firstInput_due
  have hmeasured := hcovers.measured [] firstInput hdue (.digital 1)
  have hhas : ListedMeasure secondSensor noSensors (.digital 1) := by
    change (secondSensor.pin 1).isSome = true
    decide
  have hlisted := hmeasured.mpr hhas
  rw [mem_listed_measured (by rw [listedContext_sensorsCount]; decide) []
    hdue] at hlisted
  have hlt := hlisted.1
  rw [listedContext_sensorsCount] at hlt
  revert hlt
  decide

end Herak.Soil
