import Herak.Soil.Configured

/-!
# The loops of the soil sensors

A round of a loop over the table reads and writes the sensor that it is about,
and measures or registers something.  Together the rounds do what each of them
does to the table as it was in front of the loop.
-/

namespace Herak.Soil

/-- A loop over a table whose rounds rewrite their own entry and add to a list:
each entry is seen as it was in front of the loop. -/
theorem foldl_rounds {State ι σ γ : Type*} [DecidableEq ι]
    {step : State → ι → State} (mk : (ι → σ) → List γ → State)
    {f : ι → σ → σ} {g : ι → σ → List γ}
    (hstep : ∀ s out i, step (mk s out) i =
      mk (Function.update s i (f i (s i))) (out ++ g i (s i)))
    {l : List ι} (hl : l.Nodup) (s : ι → σ) (out : List γ) :
    l.foldl step (mk s out) =
      mk (fun i => if i ∈ l then f i (s i) else s i)
        (out ++ l.flatMap fun i => g i (s i)) := by
  induction l generalizing s out with
  | nil => simp
  | cons j l ih =>
      obtain ⟨hj, hl⟩ := List.nodup_cons.mp hl
      have hother : ∀ i ∈ l, i ≠ j := fun i hi hij => hj (hij ▸ hi)
      have hout : (l.flatMap fun i => g i (Function.update s j (f j (s j)) i)) =
          l.flatMap fun i => g i (s i) :=
        List.flatMap_congr fun i hi => by rw [Function.update_of_ne (hother i hi)]
      have htable : (fun i => if i ∈ l
            then f i (Function.update s j (f j (s j)) i)
            else Function.update s j (f j (s j)) i) =
          fun i => if i ∈ j :: l then f i (s i) else s i := by
        funext i
        by_cases hij : i = j
        · subst hij
          simp [hj]
        · simp [hij]
      rw [List.foldl_cons, hstep, ih hl, hout, htable, List.flatMap_cons,
        List.append_assoc]

namespace SoilContext

variable {ctx : SoilContext} {i : SoilIdx}

theorem mem_walked : i ∈ ctx.walked ↔ (i : ℕ) < ctx.sensorsCount := by
  simp [walked]

/-! ## A round -/

/-- What `wh_notify_send` does to its sensor. -/
def notifyRound (input : RunInput) (i : SoilIdx) (s : SoilSensor) : SoilSensor :=
  if !input.whConnected i then s
  else if input.whNow i - s.whLastSend < whSendDelayMs then s
  else
    { s with
      whSend := s.whSend && !input.whSent i
      whLastSend := input.whNow i }

/-- What the digital part of a round does to its sensor. -/
def digitalRound (whNotify : Bool) (input : RunInput) (s : SoilSensor) :
    SoilSensor :=
  let digital := input.gpio s.digitalPin
  if digital ≠ s.lastDigital then
    { s with
      lastDigital := digital
      whSend := s.whSend || whNotify
      force := true }
  else s

/-- What the analog part of a round does to its sensor. -/
def analogRound (input : RunInput) (i : SoilIdx) (s : SoilSensor) : SoilSensor :=
  match s.analog with
  | none => s
  | some analog =>
      if analog.adc && input.adc i then { s with force := true } else s

/-- What a round does to its sensor. -/
def sensorRound (whNotify : Bool) (input : RunInput) (i : SoilIdx)
    (s : SoilSensor) : SoilSensor :=
  let s := analogRound input i s
  if 0 ≤ s.digitalPin then
    let s := digitalRound whNotify input s
    if s.whSend then notifyRound input i s else s
  else s

/-- What the analog part of a round measures. -/
def analogMeasures (i : SoilIdx) (s : SoilSensor) : List Measure :=
  match s.analog with
  | none => []
  | some analog => if analog.adc then [.analog i] else []

/-- What a round measures. -/
def roundMeasures (i : SoilIdx) (s : SoilSensor) : List Measure :=
  analogMeasures i s ++ if 0 ≤ s.digitalPin then [.digital i] else []

/-- A sensor is written and something is measured. -/
def put (ctx : SoilContext) (i : SoilIdx) (s : SoilSensor)
    (measures : List Measure) : SoilContext :=
  { ctx.setSensor i s with measured := ctx.measured ++ measures }

theorem put_self (ctx : SoilContext) (i : SoilIdx) (measures : List Measure) :
    ctx.put i (ctx.sensors i) measures =
      { ctx with measured := ctx.measured ++ measures } := by
  rw [put, setSensor, Function.update_eq_self]

theorem put_self_nil (ctx : SoilContext) (i : SoilIdx) :
    ctx.put i (ctx.sensors i) [] = ctx := by
  rw [put_self, List.append_nil]

theorem put_put (ctx : SoilContext) (i : SoilIdx) (s s' : SoilSensor)
    (measures measures' : List Measure) :
    (ctx.put i s measures).put i s' measures' =
      ctx.put i s' (measures ++ measures') := by
  simp only [put, setSensor, Function.update_idem, List.append_assoc]

@[simp] theorem put_sensors_self (ctx : SoilContext) (i : SoilIdx)
    (s : SoilSensor) (measures : List Measure) :
    (ctx.put i s measures).sensors i = s := by
  simp [put, setSensor]

@[simp] theorem put_whNotify (ctx : SoilContext) (i : SoilIdx) (s : SoilSensor)
    (measures : List Measure) :
    (ctx.put i s measures).whNotify = ctx.whNotify := rfl

theorem whNotifySend_eq (ctx : SoilContext) (input : RunInput) (i : SoilIdx) :
    ctx.whNotifySend input i =
      ctx.put i (notifyRound input i (ctx.sensors i)) [] := by
  rw [whNotifySend, notifyRound]
  split
  · exact (put_self_nil ctx i).symm
  · split
    · exact (put_self_nil ctx i).symm
    · rw [put, List.append_nil]
      rfl

theorem measureDigital_eq (ctx : SoilContext) (input : RunInput) (i : SoilIdx) :
    ctx.measureDigital input i =
      ctx.put i (digitalRound ctx.whNotify input (ctx.sensors i))
        [.digital i] := by
  have hread : ctx.gpioGet input i =
      (input.gpio (ctx.sensors i).digitalPin,
        { ctx with measured := ctx.measured ++ [.digital i] }) := rfl
  rw [measureDigital, digitalRound, hread]
  dsimp only
  split
  · rfl
  · exact (put_self ctx i _).symm

theorem measureAnalog_eq (ctx : SoilContext) (input : RunInput) (i : SoilIdx) :
    ctx.measureAnalog input i =
      ctx.put i (analogRound input i (ctx.sensors i))
        (analogMeasures i (ctx.sensors i)) := by
  rw [measureAnalog, analogRound, analogMeasures]
  cases hanalog : (ctx.sensors i).analog with
  | none => exact (put_self_nil ctx i).symm
  | some analog =>
      cases hadc : analog.adc with
      | false =>
          simp [adcSensorMeasure, hadc, put_self_nil]
      | true =>
          cases hchanged : input.adc i with
          | false => simp [adcSensorMeasure, hadc, hchanged, put_self]
          | true =>
              simp [adcSensorMeasure, hadc, hchanged, hanalog, put, setSensor]

theorem analogRound_layout (input : RunInput) (i : SoilIdx) (s : SoilSensor) :
    (analogRound input i s).digitalPin = s.digitalPin ∧
      (analogRound input i s).analog = s.analog := by
  rw [analogRound]
  split
  · exact ⟨rfl, rfl⟩
  · split
    · exact ⟨rfl, rfl⟩
    · exact ⟨rfl, rfl⟩

theorem notifyRound_layout (input : RunInput) (i : SoilIdx) (s : SoilSensor) :
    (notifyRound input i s).digitalPin = s.digitalPin ∧
      (notifyRound input i s).analog = s.analog := by
  rw [notifyRound]
  split
  · exact ⟨rfl, rfl⟩
  · split
    · exact ⟨rfl, rfl⟩
    · exact ⟨rfl, rfl⟩

theorem digitalRound_layout (whNotify : Bool) (input : RunInput)
    (s : SoilSensor) :
    (digitalRound whNotify input s).digitalPin = s.digitalPin ∧
      (digitalRound whNotify input s).analog = s.analog := by
  rw [digitalRound]
  split
  · exact ⟨rfl, rfl⟩
  · exact ⟨rfl, rfl⟩

theorem sensorRound_layout (whNotify : Bool) (input : RunInput) (i : SoilIdx)
    (s : SoilSensor) :
    (sensorRound whNotify input i s).digitalPin = s.digitalPin ∧
      (sensorRound whNotify input i s).analog = s.analog := by
  have hanalog := analogRound_layout input i s
  have hmeasure := digitalRound_layout whNotify input (analogRound input i s)
  have hnotify := notifyRound_layout input i
    (digitalRound whNotify input (analogRound input i s))
  have hdigital := And.intro (hmeasure.1.trans hanalog.1)
    (hmeasure.2.trans hanalog.2)
  rw [sensorRound]
  dsimp only
  split
  · split
    · exact ⟨hnotify.1.trans hdigital.1, hnotify.2.trans hdigital.2⟩
    · exact hdigital
  · exact hanalog

/-- A round with a digital part ends with the level of the pin. -/
theorem sensorRound_lastDigital (whNotify : Bool) (input : RunInput)
    (i : SoilIdx) {s : SoilSensor} (h : 0 ≤ s.digitalPin) :
    (sensorRound whNotify input i s).lastDigital = input.gpio s.digitalPin := by
  have hpin := (analogRound_layout input i s).1
  have hdigital : (digitalRound whNotify input
      (analogRound input i s)).lastDigital = input.gpio s.digitalPin := by
    rw [digitalRound, hpin]
    split
    · rfl
    next hsame => exact (not_not.mp hsame).symm
  rw [sensorRound]
  dsimp only
  rw [if_pos (hpin ▸ h)]
  split
  · rw [notifyRound]
    split
    · exact hdigital
    · split
      · exact hdigital
      · exact hdigital
  · exact hdigital

theorem measureSensor_eq (ctx : SoilContext) (input : RunInput) (i : SoilIdx) :
    measureSensor input ctx i =
      ctx.put i (sensorRound ctx.whNotify input i (ctx.sensors i))
        (roundMeasures i (ctx.sensors i)) := by
  have hpin := (analogRound_layout input i (ctx.sensors i)).1
  rw [measureSensor, measureAnalog_eq, sensorRound, roundMeasures]
  dsimp only
  rw [put_sensors_self, hpin]
  by_cases hdigital : 0 ≤ (ctx.sensors i).digitalPin
  · rw [if_pos hdigital, if_pos hdigital, if_pos hdigital, measureDigital_eq,
      put_put, put_sensors_self, put_sensors_self, put_whNotify]
    split
    · rw [whNotifySend_eq, put_put, put_sensors_self, List.append_nil]
    · rfl
  · rw [if_neg hdigital, if_neg hdigital, if_neg hdigital, List.append_nil]

/-- The context after the rounds of a run. -/
def afterRounds (ctx : SoilContext) (input : RunInput) : SoilContext :=
  { ctx with
    sensors := fun i =>
      if i < ctx.sensorsCount then
        sensorRound ctx.whNotify input i (ctx.sensors i)
      else ctx.sensors i
    measured := ctx.walked.flatMap fun i => roundMeasures i (ctx.sensors i) }

theorem walked_nodup (ctx : SoilContext) : ctx.walked.Nodup :=
  (List.nodup_finRange _).filter _

theorem measure_eq (ctx : SoilContext) (input : RunInput) :
    ctx.measure input = ctx.afterRounds input := by
  have hrounds := foldl_rounds
    (fun sensors measured =>
      { ctx with sensors := sensors, measured := measured })
    (f := fun i => sensorRound ctx.whNotify input i) (g := roundMeasures)
    (fun sensors measured i => measureSensor_eq
      { ctx with sensors := sensors, measured := measured } input i)
    ctx.walked_nodup ctx.sensors []
  simp only [mem_walked, List.nil_append] at hrounds
  exact hrounds

theorem soilRun_eq (ctx : SoilContext) (input : RunInput) :
    ctx.soilRun input =
      if input.now - ctx.lastRun < measureIntervalMs then ctx
      else
        { (ctx.afterRounds input).soilMqttSend input with
          lastRun := input.now } := by
  rw [soilRun, measure_eq]

end SoilContext

/-! ## Registration -/

/-- The components that are to be registered for a sensor. -/
def soilComponents (i : SoilIdx) (s : SoilSensor) : List SoilComponent :=
  if s.analog.isSome then [.soil i, .soilA i] else [.soil i]

theorem mem_soilComponents {c : SoilComponent} {i : SoilIdx} {s : SoilSensor} :
    c ∈ soilComponents i s ↔
      c = .soil i ∨ s.analog.isSome = true ∧ c = .soilA i := by
  rw [soilComponents]
  split
  next hhas => simp [hhas]
  next hhas => simp [hhas]

/-- The module after `soil_mqtt_init`. -/
def registeredContext (registered : SoilComponent → Bool) (ctx : SoilContext) :
    SoilContext :=
  { ctx with
    sensors := fun i =>
      let s := ctx.sensors i
      if i < ctx.sensorsCount then
        { s with force := s.force || registered (.soil i) }
      else s
    components := ctx.components ++ ctx.walked.flatMap fun i =>
      (soilComponents i (ctx.sensors i)).filter registered }

theorem mqttMsgComponentRegister_eq (registered : SoilComponent → Bool)
    (ctx : SoilContext) (c : SoilComponent) :
    mqttMsgComponentRegister registered ctx c =
      { ctx with components := ctx.components ++ [c].filter registered } := by
  rw [mqttMsgComponentRegister]
  split
  next hc => rw [List.filter_cons_of_pos hc, List.filter_nil]
  next hc => rw [List.filter_cons_of_neg hc, List.filter_nil, List.append_nil]

theorem soilMqttInitSensor_eq (registered : SoilComponent → Bool)
    (ctx : SoilContext) (i : SoilIdx) :
    soilMqttInitSensor registered ctx i =
      { ctx with
        sensors := Function.update ctx.sensors i
          { ctx.sensors i with
            force := (ctx.sensors i).force || registered (.soil i) }
        components := ctx.components ++
          (soilComponents i (ctx.sensors i)).filter registered } := by
  have hboth : ([.soil i, .soilA i] : List SoilComponent).filter registered =
      [.soil i].filter registered ++ [.soilA i].filter registered :=
    List.filter_append [SoilComponent.soil i] [SoilComponent.soilA i]
  rw [soilMqttInitSensor, soilComponents, mqttMsgComponentRegister_eq]
  dsimp only [SoilContext.setSensor]
  split
  · rw [mqttMsgComponentRegister_eq, hboth, ← List.append_assoc]
  · rfl

theorem soilMqttInit_eq (registered : SoilComponent → Bool)
    (ctx : SoilContext) :
    soilMqttInit registered ctx = registeredContext registered ctx := by
  have hrounds := foldl_rounds
    (fun sensors components =>
      { ctx with sensors := sensors, components := components })
    (f := fun i s => { s with force := s.force || registered (.soil i) })
    (g := fun i s => (soilComponents i s).filter registered)
    (fun sensors components i => soilMqttInitSensor_eq registered
      { ctx with sensors := sensors, components := components } i)
    ctx.walked_nodup ctx.sensors ctx.components
  simp only [SoilContext.mem_walked] at hrounds
  exact hrounds

end Herak.Soil
