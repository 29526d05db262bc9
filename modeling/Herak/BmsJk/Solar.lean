import Herak.BmsJk.CellLevels

/-!
# Solar tracking

The tracker follows an automaton over the history of its frames: a frame with
enough power makes an excess when there was one before, or when two minutes
have passed since the last move from excess to deficiency.
-/

namespace Herak.BmsJk

open BinaryFloat CInt CString Scripts

/-! ## The comparison with the threshold -/

/-- The significand of 0.001 as a `double`, which is slightly above it. -/
def thousandth : ℕ := 1152921504606847

theorem thousandth_representable :
    binary64.Representable (thousandth * 2 ^ 1014) :=
  ⟨thousandth, 1014, by decide, by decide, rfl⟩

theorem ofFrac_thousandth :
    ofFrac binary64 1 1000 =
      .finite (thousandth * 2 ^ 1014 : ℕ) thousandth_representable := by
  decide +kernel

/-- The product rounds below a threshold only when it is below it. -/
theorem roundMagnitude_thousandth {c threshold : ℕ}
    (hthreshold : threshold < 2 ^ 16) :
    roundMagnitude binary64
        (c * 2 ^ binary64.unitExp * (thousandth * 2 ^ 1014))
        (2 ^ binary64.unitExp) < threshold * 2 ^ binary64.unitExp ↔
      c < 1000 * threshold := by
  have hpos : 0 < 2 ^ binary64.unitExp := Nat.two_pow_pos _
  have hexp : binary64.unitExp = 60 + 1014 := rfl
  have hunit : 2 ^ binary64.unitExp = 2 ^ 60 * 2 ^ 1014 := by
    rw [hexp, pow_add]
  have hprod : ∀ u m : ℕ, c * u * (thousandth * m) =
      c * thousandth * (m * u) := fun u m => by ring
  constructor
  · intro hlt
    by_contra hge
    have hrep : binary64.Representable (threshold * 2 ^ binary64.unitExp) :=
      ⟨threshold, binary64.unitExp, by
        change threshold < 2 ^ 53
        omega, by decide, rfl⟩
    refine absurd hlt (Nat.not_lt.mpr (le_roundMagnitude hpos hrep ?_))
    have hsame : ∀ u m : ℕ, u = 2 ^ 60 * m →
        threshold * u * u = threshold * 2 ^ 60 * (m * u) := by
      rintro u m rfl
      ring
    rw [hprod, hsame _ _ hunit]
    refine Nat.mul_le_mul_right _ ?_
    simp only [thousandth]
    omega
  · intro hlt
    -- A representable number lies between the product and the threshold.
    have hrep : binary64.Representable
        ((threshold * 2 ^ 11 - 1) * 2 ^ (49 + 1014)) :=
      ⟨threshold * 2 ^ 11 - 1, 49 + 1014, by
        change threshold * 2 ^ 11 - 1 < 2 ^ 53
        omega, by decide, rfl⟩
    have hright : ∀ u m v : ℕ, v = 2 ^ 49 * m →
        (threshold * 2 ^ 11 - 1) * v * u =
          (threshold * 2 ^ 11 - 1) * 2 ^ 49 * (m * u) := by
      rintro u m v rfl
      ring
    have hbelow : ∀ u m v : ℕ, 0 < m → v = 2 ^ 49 * m → u = 2 ^ 60 * m →
        (threshold * 2 ^ 11 - 1) * v < threshold * u := by
      rintro u m v hm rfl rfl
      rw [← Nat.mul_assoc, ← Nat.mul_assoc]
      refine Nat.mul_lt_mul_of_pos_right ?_ hm
      omega
    have hm : (0 : ℕ) < 2 ^ 1014 := pow_pos Nat.two_pos 1014
    have hhalf : (2 : ℕ) ^ (49 + 1014) = 2 ^ 49 * 2 ^ 1014 := pow_add 2 49 1014
    refine Nat.lt_of_le_of_lt (roundMagnitude_le hpos hrep ?_)
      (hbelow _ _ _ hm hhalf hunit)
    rw [hprod, hright _ _ _ hhalf]
    refine Nat.mul_le_mul_right _ ?_
    simp only [thousandth]
    omega

/-- The comparison in floating point is that of the currents in
milliampere. -/
theorem belowThreshold_iff {info : CellInfo} {threshold : ℕ}
    (hlow : 0 ≤ info.battChargeCurr) (hhigh : info.battChargeCurr < 2 ^ 31)
    (hthreshold : threshold < 2 ^ 16) :
    belowThreshold info threshold = true ↔
      info.battChargeCurr < 1000 * threshold := by
  obtain ⟨c, hc⟩ := Int.eq_ofNat_of_zero_le hlow
  rw [hc] at hhigh ⊢
  obtain ⟨hcrep, hcurr⟩ := Value.ofFrac_natCast (f := binary64) (n := c)
    (by change c < 2 ^ 53; omega) (by decide)
  obtain ⟨htrep, hthr⟩ := Value.ofFrac_natCast (f := binary64) (n := threshold)
    (by change threshold < 2 ^ 53; omega) (by decide)
  rw [belowThreshold, hc, hcurr, hthr, ofFrac_thousandth, Value.mul,
    Value.round_lt_iff
      (Int.mul_nonneg (Int.natCast_nonneg _) (Int.natCast_nonneg _)),
    ← Int.natCast_mul, Int.toNat_natCast, Nat.cast_lt,
    roundMagnitude_thousandth hthreshold]
  omega

/-! ## The reference -/

/-- The frame has enough power for a threshold in ampere: the current is not
negative, and the battery is nearly full or the current reaches the
threshold. -/
def CellFrame.Power (threshold : ℕ) (frame : CellFrame) : Prop :=
  0 ≤ dataInt32Get frame.nbuff 158 ∧
    (battStateChargeThr ≤ dataUint8Get frame.nbuff 173 ∨
      1000 * (threshold : ℤ) ≤ dataInt32Get frame.nbuff 158)

instance (threshold : ℕ) (frame : CellFrame) :
    Decidable (frame.Power threshold) :=
  inferInstanceAs (Decidable (_ ∧ (_ ∨ _)))

/-- Cell frames, and commands that set the threshold. -/
inductive SolarEvent
  | frame (frame : CellFrame)
  | threshold (current : ℤ)

/-- The threshold that a command sets; 0 disables the tracker. -/
def commandThreshold (current : ℤ) : ℕ :=
  toUInt16 (if current ≤ 0 then 0 else current)

/-- The reference automaton, with the time of the last move from excess to
deficiency that a frame has caused. -/
structure Tracker where
  enabled : Bool
  threshold : ℕ
  excess : Bool
  deficiency : ℕ
  deriving DecidableEq

namespace Tracker

def step (t : Tracker) : SolarEvent → Tracker
  | .threshold current =>
      { t with
        enabled := decide (0 < commandThreshold current)
        threshold := commandThreshold current
        excess := false }
  | .frame frame =>
      if t.enabled = false then t
      else
        let now := frame.clock.solarNow
        let excess := decide (frame.Power t.threshold ∧ (t.excess = true ∨
          t.deficiency + battStateChargeTryDelayMs ≤ now))
        { t with
          excess := excess
          deficiency := if t.excess && !excess then now else t.deficiency }

/-- The automaton of a device at boot. -/
def start (dev : JkBmsDev) : Tracker where
  enabled := dev.autoSolar.enabled
  threshold := dev.chargeCurrentThreshold
  excess := false
  deficiency := 0

def run (t : Tracker) (es : List SolarEvent) : Tracker :=
  es.foldl step t

end Tracker

/-- The times of the frames of a run. -/
def frameTimes (es : List SolarEvent) : List ℕ :=
  es.filterMap fun
    | .frame frame => some frame.clock.solarNow
    | .threshold _ => none

/-! ## The tracker -/

section

variable (cronNext : CronExpr → ℤ → ℤ)

/-- A device with its tracker. -/
def solarMachine :
    EventMachine (Option ScriptsContext × JkBmsDev) SolarEvent where
  step := fun s e =>
    match e with
    | .frame frame => cellFrameStep cronNext s frame
    | .threshold current =>
        (s.1, jkBtEnableSolarTrack s.1 s.2 (if current ≤ 0 then 0 else current))
  enabled := fun _ _ => True

/-- What the tracker reads of a device. -/
structure Agrees (dev : JkBmsDev) (t : Tracker) : Prop where
  enabled : dev.autoSolar.enabled = t.enabled
  threshold : dev.chargeCurrentThreshold = t.threshold
  excess : dev.autoSolar.state = t.excess
  deficiency : dev.lastSolarTry = t.deficiency
  threshold_lt : t.threshold < 2 ^ 16

theorem hasExcess_iff {info : CellInfo} {threshold : ℕ}
    (hrange : info.battChargeCurr < 2 ^ 31) (hthreshold : threshold < 2 ^ 16) :
    hasExcess info threshold = true ↔ 0 ≤ info.battChargeCurr ∧
      (battStateChargeThr ≤ info.battState ∨
        1000 * (threshold : ℤ) ≤ info.battChargeCurr) := by
  simp only [hasExcess]
  split
  next hneg =>
    exact ⟨fun h => absurd h Bool.false_ne_true,
      fun h => absurd hneg (Int.not_lt.mpr h.1)⟩
  next hpos =>
    have hlow := Int.not_lt.mp hpos
    have hbelow := belowThreshold_iff hlow hrange hthreshold
    split
    next h =>
      rw [hbelow] at h
      refine ⟨fun h => absurd h Bool.false_ne_true, fun hpower => ?_⟩
      rcases hpower.2 with hfull | hcurr
      · exact absurd h.1 (Nat.not_lt.mpr hfull)
      · exact absurd h.2 (Int.not_lt.mpr hcurr)
    next h =>
      rw [hbelow] at h
      refine ⟨fun _ => ⟨hlow, ?_⟩, fun _ => rfl⟩
      omega

/-- The check of the tracker, as one equation for its state and one for the
time it keeps. -/
theorem jkBtCheckSolar_state (scripts : Option ScriptsContext) (now : ℕ)
    (clock : ScriptClock) {dev : JkBmsDev}
    (hvalid : dev.cellInfo.valid = true) :
    let after := (jkBtCheckSolar cronNext scripts now clock dev).2
    let excess := hasExcess dev.cellInfo dev.chargeCurrentThreshold &&
      (dev.autoSolar.state || !decide
        (subU64 now dev.lastSolarTry < battStateChargeTryDelayMs))
    after.autoSolar.state = excess ∧
      after.lastSolarTry =
        (if dev.autoSolar.state && !excess then now else dev.lastSolarTry) ∧
      after.autoSolar.enabled = dev.autoSolar.enabled ∧
      after.chargeCurrentThreshold = dev.chargeCurrentThreshold := by
  simp only [jkBtCheckSolar, hvalid, Bool.true_eq_false, if_false]
  split
  next h => simp [h.1, h.2]
  next h =>
    have hdelay : (dev.autoSolar.state || !decide
        (subU64 now dev.lastSolarTry < battStateChargeTryDelayMs)) = true := by
      cases hstate : dev.autoSolar.state with
      | true => rfl
      | false =>
          have hlate : ¬subU64 now dev.lastSolarTry <
              battStateChargeTryDelayMs := fun hlt => h ⟨hstate, hlt⟩
          simp [hlate]
    rw [hdelay, Bool.and_true]
    cases hasExcess dev.cellInfo dev.chargeCurrentThreshold <;>
      cases hstate : dev.autoSolar.state <;> simp [jkBtAutoAction, hstate]

/-- The battery does not touch the tracker. -/
theorem checkCellLevels_solar (scripts : Option ScriptsContext)
    (clock : ScriptClock) (dev : JkBmsDev) :
    let after := (jkBtCheckCellLevels cronNext scripts clock dev).2
    after.autoSolar = dev.autoSolar ∧
      after.chargeCurrentThreshold = dev.chargeCurrentThreshold ∧
      after.lastSolarTry = dev.lastSolarTry ∧
      after.cellInfo.valid = dev.cellInfo.valid ∧
      after.cellInfo.battChargeCurr = dev.cellInfo.battChargeCurr ∧
      after.cellInfo.battState = dev.cellInfo.battState := by
  simp only [jkBtCheckCellLevels]
  split
  · exact ⟨rfl, rfl, rfl, rfl, rfl, rfl⟩
  · split
    · split <;> exact ⟨rfl, rfl, rfl, rfl, rfl, rfl⟩
    · split <;> exact ⟨rfl, rfl, rfl, rfl, rfl, rfl⟩

/-- What a frame does to the tracker of a device. -/
theorem cellFrameStep_agrees {s : Option ScriptsContext × JkBmsDev}
    {t : Tracker} (h : Agrees s.2 t) (frame : CellFrame)
    (hdeficiency : t.deficiency ≤ frame.clock.solarNow)
    (hnow : frame.clock.solarNow < 2 ^ 64) :
    Agrees (cellFrameStep cronNext s frame).2 (t.step (.frame frame)) := by
  let batt := if s.2.autoBatt.enabled then
      jkBtCheckCellLevels cronNext s.1 frame.clock.batt (frameDev s.2 frame)
    else (s.1, frameDev s.2 frame)
  have hstep : cellFrameStep cronNext s frame =
      if batt.2.autoSolar.enabled then
        jkBtCheckSolar cronNext batt.1 frame.clock.solarNow frame.clock.solar
          batt.2
      else batt := rfl
  have hbatt : batt.2.autoSolar = (frameDev s.2 frame).autoSolar ∧
      batt.2.chargeCurrentThreshold =
        (frameDev s.2 frame).chargeCurrentThreshold ∧
      batt.2.lastSolarTry = (frameDev s.2 frame).lastSolarTry ∧
      batt.2.cellInfo.valid = (frameDev s.2 frame).cellInfo.valid ∧
      batt.2.cellInfo.battChargeCurr =
        (frameDev s.2 frame).cellInfo.battChargeCurr ∧
      batt.2.cellInfo.battState =
        (frameDev s.2 frame).cellInfo.battState := by
    simp only [batt]
    split
    · exact checkCellLevels_solar cronNext s.1 frame.clock.batt
        (frameDev s.2 frame)
    · exact ⟨rfl, rfl, rfl, rfl, rfl, rfl⟩
  simp only [jkBtProcessCellFrame] at hbatt
  obtain ⟨hsolar, hthr, htry, hvalid, hcurr, hsoc⟩ := hbatt
  rw [hstep, hsolar, h.enabled]
  cases henabled : t.enabled with
  | false =>
      rw [if_neg Bool.false_ne_true]
      simp only [Tracker.step, henabled, if_true]
      exact
        { enabled := (congrArg AutoAction.enabled hsolar).trans h.enabled
          threshold := hthr.trans h.threshold
          excess := (congrArg AutoAction.state hsolar).trans h.excess
          deficiency := htry.trans h.deficiency
          threshold_lt := h.threshold_lt }
  | true =>
      rw [if_pos rfl]
      obtain ⟨hstate, hlast, hon, hkept⟩ := jkBtCheckSolar_state cronNext batt.1
        frame.clock.solarNow frame.clock.solar hvalid
      -- Time does not run backwards, so the difference is the elapsed time.
      have helapsed : subU64 frame.clock.solarNow t.deficiency <
            battStateChargeTryDelayMs ↔
          ¬t.deficiency + battStateChargeTryDelayMs ≤
            frame.clock.solarNow := by
        simp only [subU64]
        omega
      have hrange : batt.2.cellInfo.battChargeCurr < 2 ^ 31 := by
        rw [hcurr]
        exact (dataInt32Get_range frame.nbuff 158).2
      have hpower := hasExcess_iff hrange h.threshold_lt
      rw [hcurr, hsoc] at hpower
      have hexcess : (hasExcess batt.2.cellInfo batt.2.chargeCurrentThreshold &&
          (batt.2.autoSolar.state || !decide
            (subU64 frame.clock.solarNow batt.2.lastSolarTry <
              battStateChargeTryDelayMs))) =
          decide (frame.Power t.threshold ∧ (t.excess = true ∨
            t.deficiency + battStateChargeTryDelayMs ≤
              frame.clock.solarNow)) := by
        rw [hthr, hsolar, htry, h.threshold, h.excess, h.deficiency]
        rw [Bool.eq_iff_iff]
        simp only [Bool.and_eq_true, Bool.or_eq_true, Bool.not_eq_true',
          decide_eq_false_iff_not, decide_eq_true_eq, helapsed, not_not, hpower]
        exact Iff.rfl
      rw [hexcess] at hstate hlast
      have hnot : ¬t.enabled = false := by
        rw [henabled]
        exact Bool.noConfusion
      rw [show t.step (.frame frame) = _ from if_neg hnot]
      exact
        { enabled := hon.trans
            ((congrArg AutoAction.enabled hsolar).trans h.enabled)
          threshold := hkept.trans (hthr.trans h.threshold)
          excess := by
            dsimp only
            exact hstate
          deficiency := by
            rw [hlast, hsolar, htry, h.excess, h.deficiency]
          threshold_lt := h.threshold_lt }

theorem toUInt16_lt (n : ℤ) : toUInt16 n < 2 ^ 16 := by
  simp only [toUInt16]
  omega

/-- What a command does to the tracker of a device. -/
theorem jkBtEnableSolarTrack_tracker (scripts : Option ScriptsContext)
    (dev : JkBmsDev) (current : ℤ) :
    let after := jkBtEnableSolarTrack scripts dev current
    after.autoSolar.enabled = decide (0 < toUInt16 current) ∧
      after.autoSolar.state = false ∧
      after.chargeCurrentThreshold = toUInt16 current ∧
      after.lastSolarTry = dev.lastSolarTry := by
  simp only [jkBtEnableSolarTrack]
  split
  · simp only [jkBtFindAutoScripts]
    split <;> simp
  · simp

theorem thresholdStep_agrees {s : Option ScriptsContext × JkBmsDev}
    {t : Tracker} (h : Agrees s.2 t) (current : ℤ) :
    Agrees ((solarMachine cronNext).step s (.threshold current)).2
      (t.step (.threshold current)) := by
  obtain ⟨henabled, hstate, hthr, htry⟩ := jkBtEnableSolarTrack_tracker s.1 s.2
    (if current ≤ 0 then 0 else current)
  exact
    { enabled := henabled
      threshold := hthr
      excess := hstate
      deficiency := htry.trans h.deficiency
      threshold_lt := toUInt16_lt _ }

/-- The tracker at boot. -/
theorem getBmsConfigOne_agrees (scripts : Option ScriptsContext) (btIndex : ℤ)
    (config : BmsConfig) :
    Agrees (getBmsConfigOne scripts btIndex config)
      (Tracker.start (getBmsConfigOne scripts btIndex config)) := by
  have hstart : ∀ dev : JkBmsDev, dev.autoSolar.state = false →
      dev.lastSolarTry = 0 → dev.chargeCurrentThreshold < 2 ^ 16 →
      Agrees dev (Tracker.start dev) :=
    fun _ hstate htry hthr => ⟨rfl, rfl, hstate, htry, hthr⟩
  have hbatt : ∀ (dev : JkBmsDev) (low high : ℕ),
      (jkBtEnableBatteryTrack dev low high).autoSolar = dev.autoSolar ∧
        (jkBtEnableBatteryTrack dev low high).lastSolarTry =
          dev.lastSolarTry ∧
        (jkBtEnableBatteryTrack dev low high).chargeCurrentThreshold =
          dev.chargeCurrentThreshold := by
    intro dev low high
    simp only [jkBtEnableBatteryTrack]
    split <;> simp
  have hsolar : ∀ (dev : JkBmsDev) (current : ℤ), dev.lastSolarTry = 0 →
      Agrees (jkBtEnableSolarTrack scripts dev current)
        (Tracker.start (jkBtEnableSolarTrack scripts dev current)) := by
    intro dev current htry
    obtain ⟨_, hoff, hset, hlast⟩ :=
      jkBtEnableSolarTrack_tracker scripts dev current
    exact hstart _ hoff (hlast.trans htry)
      (lt_of_eq_of_lt hset (toUInt16_lt current))
  obtain ⟨userName, timeoutMsec, cellLevels, threshold⟩ := config
  cases threshold with
  | none =>
      cases cellLevels with
      | none => exact hstart _ rfl rfl (Nat.two_pow_pos 16)
      | some levels =>
          obtain ⟨hauto, htry, hthr⟩ := hbatt (JkBmsDev.cleared userName btIndex
            timeoutMsec) levels.1 levels.2
          refine hstart _ (congrArg AutoAction.state hauto) htry ?_
          exact lt_of_eq_of_lt hthr (Nat.two_pow_pos 16)
  | some current =>
      cases cellLevels with
      | none => exact hsolar _ _ rfl
      | some levels =>
          exact hsolar _ _ (hbatt (JkBmsDev.cleared userName btIndex
            timeoutMsec) levels.1 levels.2).2.1

/-! ## Runs -/

namespace Tracker

theorem run_append (t : Tracker) (es fs : List SolarEvent) :
    t.run (es ++ fs) = (t.run es).run fs :=
  List.foldl_append

/-- The time of the last deficiency is that of an earlier one or of the frame
of the step. -/
theorem step_deficiency (t : Tracker) (frame : CellFrame) :
    (t.step (.frame frame)).deficiency = t.deficiency ∨
      (t.step (.frame frame)).deficiency = frame.clock.solarNow := by
  simp only [step]
  split
  · exact Or.inl rfl
  · dsimp only
    split
    · exact Or.inr rfl
    · exact Or.inl rfl

/-- The times of a run stay ordered behind the last deficiency. -/
theorem step_ordered {t : Tracker} {e : SolarEvent} {es : List SolarEvent}
    (h : (t.deficiency :: frameTimes (e :: es)).Pairwise (· ≤ ·)) :
    ((t.step e).deficiency :: frameTimes es).Pairwise (· ≤ ·) := by
  cases e with
  | threshold current => exact h
  | frame frame =>
      obtain ⟨hfirst, hrest⟩ := List.pairwise_cons.mp h
      rcases t.step_deficiency frame with hkept | hnow
      · rw [hkept]
        exact List.pairwise_cons.mpr
          ⟨fun n hn => hfirst n (List.mem_cons_of_mem _ hn),
            (List.pairwise_cons.mp hrest).2⟩
      · rw [hnow]
        exact hrest

/-- No frame of an ordered run sets the last deficiency back. -/
theorem le_run_deficiency {t : Tracker} {n : ℕ} (es : List SolarEvent)
    (hn : n ≤ t.deficiency) (hes : ∀ k ∈ frameTimes es, n ≤ k) :
    n ≤ (t.run es).deficiency := by
  induction es generalizing t with
  | nil => exact hn
  | cons e es ih =>
      cases e with
      | threshold current => exact ih hn hes
      | frame frame =>
          refine ih ?_ fun k hk => hes k (List.mem_cons_of_mem _ hk)
          rcases t.step_deficiency frame with hkept | hnow
          · rw [hkept]
            exact hn
          · rw [hnow]
            exact hes _ List.mem_cons_self

/-- A frame that moves the tracker into deficiency sets the time. -/
theorem step_into_deficiency {t : Tracker} {frame : CellFrame}
    (hbefore : t.excess = true)
    (hafter : (t.step (.frame frame)).excess = false) :
    (t.step (.frame frame)).deficiency = frame.clock.solarNow := by
  simp only [step] at hafter ⊢
  split at hafter
  · exact absurd hbefore (by simp [hafter])
  next henabled =>
    rw [if_neg henabled]
    dsimp only at hafter ⊢
    rw [hafter, hbefore]
    rfl

/-- A frame moves the tracker into excess two minutes after a deficiency. -/
theorem step_into_excess {t : Tracker} {frame : CellFrame}
    (hbefore : t.excess = false)
    (hafter : (t.step (.frame frame)).excess = true) :
    t.deficiency + battStateChargeTryDelayMs ≤ frame.clock.solarNow := by
  simp only [step] at hafter
  split at hafter
  · exact absurd hafter (by simp [hbefore])
  · simp only [decide_eq_true_eq] at hafter
    rcases hafter.2 with hstate | hlate
    · exact absurd hstate (by simp [hbefore])
    · exact hlate

end Tracker

theorem frameTimes_append (es fs : List SolarEvent) :
    frameTimes (es ++ fs) = frameTimes es ++ frameTimes fs :=
  List.filterMap_append

/-- A run of the device is a run of the reference. -/
theorem run_agrees {s : Option ScriptsContext × JkBmsDev} {t : Tracker}
    (h : Agrees s.2 t) {es : List SolarEvent}
    (htimes : (t.deficiency :: frameTimes es).Pairwise (· ≤ ·))
    (hrange : ∀ n ∈ frameTimes es, n < 2 ^ 64) :
    Agrees ((solarMachine cronNext).run s es).2 (t.run es) := by
  induction es generalizing s t with
  | nil => exact h
  | cons e es ih =>
      cases e with
      | threshold current =>
          exact ih (thresholdStep_agrees cronNext h current)
            (Tracker.step_ordered htimes) hrange
      | frame frame =>
          have hdeficiency := (List.pairwise_cons.mp htimes).1 _
            List.mem_cons_self
          exact ih
            (cellFrameStep_agrees cronNext h frame hdeficiency
              (hrange _ List.mem_cons_self))
            (Tracker.step_ordered htimes)
            fun n hn => hrange n (List.mem_cons_of_mem _ hn)

/-- After every sequence of frames and commands the tracker is where the
reference is.  A frame without power ends the excess at once, and a frame that
ends a deficiency comes two minutes after it or later. -/
theorem solar_follows_reference (scripts : Option ScriptsContext)
    (btIndex : ℤ) (config : BmsConfig) (es : List SolarEvent)
    (htimes : (frameTimes es).Pairwise (· ≤ ·))
    (hrange : ∀ n ∈ frameTimes es, n < 2 ^ 64) :
    let s := (scripts, getBmsConfigOne scripts btIndex config)
    let state := fun es : List SolarEvent =>
      ((solarMachine cronNext).run s es).2.autoSolar.state
    let t := (Tracker.start s.2).run
    (state es = (t es).excess ∧
        ((solarMachine cronNext).run s es).2.autoSolar.enabled =
          (t es).enabled ∧
        ((solarMachine cronNext).run s es).2.chargeCurrentThreshold =
          (t es).threshold) ∧
      (∀ pre d, es = pre ++ [.frame d] → (t pre).enabled = true →
        ¬d.Power (t pre).threshold → state es = false) ∧
      ∀ pre d mid e, es = pre ++ .frame d :: (mid ++ [.frame e]) →
        state pre = true → state (pre ++ [.frame d]) = false →
        state (pre ++ .frame d :: mid) = false → state es = true →
        d.clock.solarNow + battStateChargeTryDelayMs ≤ e.clock.solarNow := by
  intro s state t
  have hagrees : ∀ fs, fs <+: es →
      Agrees ((solarMachine cronNext).run s fs).2 (t fs) := by
    rintro fs ⟨rest, rfl⟩
    rw [frameTimes_append] at htimes hrange
    refine run_agrees cronNext (getBmsConfigOne_agrees scripts btIndex config)
      (List.pairwise_cons.mpr ⟨fun n _ => Nat.zero_le n,
        (List.pairwise_append.mp htimes).1⟩) fun n hn => ?_
    exact hrange n (List.mem_append_left _ hn)
  have hstate : ∀ fs, fs <+: es → state fs = (t fs).excess :=
    fun fs hfs => (hagrees fs hfs).excess
  have hes := hagrees es (List.prefix_refl es)
  refine ⟨⟨hes.excess, hes.enabled, hes.threshold⟩, ?_, ?_⟩
  · rintro pre d rfl henabled hpower
    rw [hstate _ (List.prefix_refl _)]
    simp only [t] at henabled hpower ⊢
    rw [Tracker.run_append]
    simp only [Tracker.run, List.foldl_cons, List.foldl_nil] at henabled hpower ⊢
    simp only [Tracker.step, henabled, hpower, Bool.true_eq_false, if_false,
      false_and, decide_false]
  · rintro pre d mid e rfl hbefore hdeficiency hlow hexcess
    rw [hstate _ (List.prefix_append _ _)] at hbefore
    rw [hstate _ ⟨mid ++ [.frame e], by simp⟩] at hdeficiency
    rw [hstate _ ⟨[.frame e], by simp⟩] at hlow
    rw [hstate _ (List.prefix_refl _)] at hexcess
    have hd : t (pre ++ [.frame d]) = (t pre).step (.frame d) :=
      Tracker.run_append _ _ _
    have hmid : t (pre ++ .frame d :: mid) =
        ((t pre).step (.frame d)).run mid :=
      Tracker.run_append _ _ _
    have he : t (pre ++ .frame d :: (mid ++ [.frame e])) =
        (((t pre).step (.frame d)).run mid).step (.frame e) :=
      (Tracker.run_append _ _ _).trans (Tracker.run_append _ _ _)
    rw [hd] at hdeficiency
    rw [hmid] at hlow
    rw [he] at hexcess
    have hset := Tracker.step_into_deficiency hbefore hdeficiency
    have hwait := Tracker.step_into_excess hlow hexcess
    refine Nat.le_trans (Nat.add_le_add_right ?_ _) hwait
    refine Tracker.le_run_deficiency mid (le_of_eq hset.symm) fun n hn => ?_
    rw [frameTimes_append] at htimes
    refine (List.pairwise_cons.mp (List.pairwise_append.mp htimes).2.1).1 n ?_
    have hmem : n ∈ frameTimes (mid ++ [.frame e]) := by
      rw [frameTimes_append]
      exact List.mem_append_left _ hn
    exact hmem

/-- A frame of cells with its charge current and its time. -/
def solarFrame (current : List UInt8) (now : ℕ) : CellFrame where
  nbuff := List.replicate 158 0 ++ current ++ List.replicate 138 0
  clock :=
    { batt := ⟨now, none⟩
      solarNow := now
      solar := ⟨now, none⟩
      reply := now }

/-- 20 A are an excess for a threshold of 10 A, and a frame that discharges the
battery ends it; the second excess is two minutes late. -/
theorem solar_follows_reference_twice :
    let es := [.frame (solarFrame [0x20, 0x4e, 0, 0] 120000),
      .frame (solarFrame [0xff, 0xff, 0xff, 0xff] 130000),
      .frame (solarFrame [0x20, 0x4e, 0, 0] 200000),
      .frame (solarFrame [0x20, 0x4e, 0, 0] 250000)]
    let dev := getBmsConfigOne none 0 ⟨some (lit "bms"), 0, none, some 10⟩
    (Tracker.run (Tracker.start dev) es).excess = true ∧
      ((solarMachine fun _ tm => tm).run (none, dev) es).2.autoSolar.state =
        (Tracker.run (Tracker.start dev) es).excess := by
  refine ⟨by decide +kernel, ?_⟩
  exact (solar_follows_reference (fun _ tm => tm) none 0
    ⟨some (lit "bms"), 0, none, some 10⟩ _ (by decide +kernel)
    (by decide +kernel)).1.1

end

end Herak.BmsJk
