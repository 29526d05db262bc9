import Herak.BmsJk.System

/-!
# The state of the battery

The counts of the cells outlive the frames they come from, and the loops over
the cells stop at the first one that is not enabled.  A transition to the low
state is justified by its frame all the same; one to the normal state is
exactly when no cell relies on frames of the past and the mask hides none.  What
a cell relies on is told from the frames alone: those since the last transition
that found it in front of the first cell that is not enabled.
-/

namespace Herak.BmsJk

open CInt Scripts

/-! ## The loops -/

/-- The loops reach cell `j` from cell `i`. -/
def CellInfo.Reaches (info : CellInfo) (i j : ℕ) : Prop :=
  i ≤ j ∧ ∀ k, i ≤ k → k ≤ j → info.isEnabled k = true

theorem CellInfo.Reaches.next {info : CellInfo} {i j : ℕ}
    (h : info.Reaches i j) (hne : i ≠ j) : info.Reaches (i + 1) j :=
  ⟨by have := h.1; omega, fun k hk => h.2 k (by omega)⟩

theorem CellInfo.Reaches.of_next {info : CellInfo} {i j : ℕ}
    (henabled : info.isEnabled i = true) (h : info.Reaches (i + 1) j) :
    info.Reaches i j := by
  refine ⟨by have := h.1; omega, fun k hk hkj => ?_⟩
  rcases Nat.eq_or_lt_of_le hk with rfl | hlt
  · exact henabled
  · exact h.2 k hlt hkj

theorem CellInfo.Reaches.self {info : CellInfo} {i : ℕ}
    (henabled : info.isEnabled i = true) : info.Reaches i i :=
  ⟨Nat.le_refl i, fun _ hk hki => (Nat.le_antisymm hki hk) ▸ henabled⟩

theorem CellInfo.Reaches.enabled {info : CellInfo} {i j : ℕ}
    (h : info.Reaches i j) : info.isEnabled i = true :=
  h.2 i (Nat.le_refl i) h.1

variable {info : CellInfo}

/-- The loops that stop at the first cell that is not enabled change the counts
of the cells they reach, and no others. -/
theorem forEnabled_other (f : ℕ → ℕ → ℕ) (n : ℕ) {i j : ℕ} (counts : ℕ → ℕ)
    (hreach : ¬info.Reaches i j) :
    forEnabled info f n i counts j = counts j := by
  induction n generalizing i counts with
  | zero => rfl
  | succ n ih =>
      rw [forEnabled]
      split
      next henabled =>
        have hij : j ≠ i := by
          rintro rfl
          exact hreach (.self henabled)
        rw [ih _ (fun h => hreach (h.of_next henabled)),
          Function.update_of_ne hij]
      · rfl

theorem forEnabled_reached (f : ℕ → ℕ → ℕ) (n : ℕ) {i j : ℕ} (counts : ℕ → ℕ)
    (hj : j < i + n) (hreach : info.Reaches i j) :
    forEnabled info f n i counts j = f j (counts j) := by
  induction n generalizing i counts with
  | zero => exact absurd hj (Nat.not_lt.mpr hreach.1)
  | succ n ih =>
      rw [forEnabled, if_pos hreach.enabled]
      by_cases hij : i = j
      · subst hij
        rw [forEnabled_other f n _ fun h => Nat.not_succ_le_self i h.1,
          Function.update_self]
      · rw [ih _ (by omega) (hreach.next hij),
          Function.update_of_ne (Ne.symm hij)]

theorem forEnabled_reset_le (n : ℕ) {i : ℕ} (counts : ℕ → ℕ) (j : ℕ) :
    forEnabled info (fun _ _ => 0) n i counts j ≤ counts j := by
  induction n generalizing i counts with
  | zero => exact Nat.le_refl _
  | succ n ih =>
      rw [forEnabled]
      split
      · refine (ih _).trans ?_
        by_cases hij : j = i
        · rw [hij, Function.update_self]
          exact Nat.zero_le _
        · rw [Function.update_of_ne hij]
      · exact Nat.le_refl _

/-- The second loop in the low state passes all the cells it reaches. -/
theorem checkHigh_iff (info : CellInfo) (counts : ℕ → ℕ) (n : ℕ) {i : ℕ}
    (hend : info.isEnabled (i + n) = false) :
    info.isEnabled (checkHigh info counts n i) = false ↔
      ∀ j, j < i + n → info.Reaches i j → battStateCountThr ≤ counts j := by
  induction n generalizing i with
  | zero =>
      exact ⟨fun _ j hj h => absurd hj (Nat.not_lt.mpr h.1), fun _ => hend⟩
  | succ n ih =>
      rw [checkHigh]
      split
      next henabled =>
        split
        next hlow =>
          rw [henabled]
          refine ⟨fun h => absurd h.symm Bool.false_ne_true, fun h => ?_⟩
          exact absurd (h i (by omega) (.self henabled)) (Nat.not_le.mpr hlow)
        next hhigh =>
          rw [ih (by rwa [Nat.add_assoc, Nat.add_comm 1 n])]
          constructor
          · intro h j hj hreach
            by_cases hij : i = j
            · exact hij ▸ Nat.not_lt.mp hhigh
            · exact h j (by omega) (hreach.next hij)
          · exact fun h j hj hreach => h j (by omega) (hreach.of_next henabled)
      next hdisabled =>
        exact ⟨fun _ j _ h => absurd h.enabled hdisabled,
          fun _ => Bool.eq_false_of_not_eq_true hdisabled⟩

/-- The loop in the normal state, with all counts below the threshold: it stops
at a cell that is low, or leaves all counts below the threshold. -/
theorem checkLow_cases (info : CellInfo) (cellVLow n i : ℕ) {counts : ℕ → ℕ}
    (hcounts : ∀ j, counts j < battStateCountThr) :
    ((checkLow info cellVLow n i counts).1 = false ∧
        ∀ j, (checkLow info cellVLow n i counts).2 j < battStateCountThr) ∨
      ∃ j, j < i + n ∧ info.Reaches i j ∧ info.cellsV j < cellVLow ∧
        (checkLow info cellVLow n i counts).1 = true ∧
        ∀ k, k ≠ j →
          (checkLow info cellVLow n i counts).2 k < battStateCountThr := by
  induction n generalizing i counts with
  | zero => exact Or.inl ⟨rfl, hcounts⟩
  | succ n ih =>
      simp only [checkLow]
      split
      next henabled =>
        by_cases hlow : info.cellsV i < cellVLow
        · simp only [if_pos hlow, Function.update_self]
          split
          next hthr =>
            refine Or.inr ⟨i, by omega, .self henabled, hlow, rfl,
              fun k hk => ?_⟩
            dsimp only
            rw [Function.update_of_ne hk]
            exact hcounts k
          next hthr =>
            have hnew : ∀ j, Function.update counts i
                (toUInt32 ((counts i : ℤ) + 1)) j < battStateCountThr := by
              intro j
              by_cases hj : j = i
              · subst hj
                rw [Function.update_self]
                exact Nat.not_le.mp hthr
              · rw [Function.update_of_ne hj]
                exact hcounts j
            rcases ih (i := i + 1) hnew with h | ⟨j, hj, hreach, h⟩
            · exact Or.inl h
            · exact Or.inr ⟨j, by omega, hreach.of_next henabled, h⟩
        · simp only [if_neg hlow, if_neg (Nat.not_le.mpr (hcounts i))]
          rcases ih (i := i + 1) hcounts with h | ⟨j, hj, hreach, h⟩
          · exact Or.inl h
          · exact Or.inr ⟨j, by omega, hreach.of_next henabled, h⟩
      · exact Or.inl ⟨rfl, hcounts⟩

/-! ## One frame -/

theorem getBmsConfigOne_cellInfo (scripts : Option ScriptsContext)
    (btIndex : ℤ) (config : BmsConfig) :
    (getBmsConfigOne scripts btIndex config).cellInfo =
      (JkBmsDev.cleared config.userName btIndex
        config.timeoutMsec).cellInfo := by
  have hsolar : ∀ (dev : JkBmsDev) (current : ℤ),
      (jkBtEnableSolarTrack scripts dev current).cellInfo = dev.cellInfo := by
    intro dev current
    simp only [jkBtEnableSolarTrack]
    split <;> rfl
  have hbatt : ∀ (dev : JkBmsDev) (low high : ℕ),
      (jkBtEnableBatteryTrack dev low high).cellInfo = dev.cellInfo := by
    intro dev low high
    simp only [jkBtEnableBatteryTrack]
    split <;> rfl
  simp only [getBmsConfigOne]
  split <;> split
  · rfl
  · exact hbatt _ _ _
  · exact hsolar _ _
  · exact (hsolar _ _).trans (hbatt _ _ _)

/-- The data of a device once the frame is decoded. -/
def frameInfo (dev : JkBmsDev) (frame : CellFrame) : CellInfo :=
  (jkBtProcessCellFrame { dev with nbuff := frame.nbuff }).cellInfo

/-- The cell has been counted often enough, this frame included. -/
def Counted (info : CellInfo) (cellVHigh : ℕ) (counts : ℕ → ℕ) (j : ℕ) : Prop :=
  battStateCountThr ≤ highCount info cellVHigh j (counts j)

theorem frameInfo_end (dev : JkBmsDev) (frame : CellFrame) :
    (frameInfo dev frame).isEnabled bmsMaxCells = false :=
  Nat.testBit_lt_two_pow (dataUint32Get_lt frame.nbuff 70)

/-- A transition resets the counts that it reaches. -/
theorem jkBtNewBattState_low (cronNext : CronExpr → ℤ → ℤ)
    (scripts : Option ScriptsContext) (clock : ScriptClock) {dev : JkBmsDev}
    (h : ∀ j, dev.cellInfo.cellsLowCount j < battStateCountThr ∨
      (j < bmsMaxCells ∧ dev.cellInfo.Reaches 0 j)) (j : ℕ) :
    (jkBtNewBattState cronNext scripts clock dev).2.cellInfo.cellsLowCount j <
      battStateCountThr := by
  simp only [jkBtNewBattState]
  rcases h j with hlow | ⟨hj, hreach⟩
  · exact Nat.lt_of_le_of_lt (forEnabled_reset_le _ _ j) hlow
  · rw [forEnabled_reached _ _ _ (by omega) hreach]
    decide

section

variable (cronNext : CronExpr → ℤ → ℤ) (scripts : Option ScriptsContext)
  (clock : ScriptClock) (dev : JkBmsDev)

/-- The low state. -/
theorem checkCellLevels_low (hvalid : dev.cellInfo.valid = true)
    (hmask : dev.cellInfo.isEnabled bmsMaxCells = false)
    (hstate : dev.autoBatt.state = false)
    (hlow : ∀ j, dev.cellInfo.cellsLowCount j < battStateCountThr) :
    let after := (jkBtCheckCellLevels cronNext scripts clock dev).2
    (∀ j, after.cellInfo.cellsLowCount j < battStateCountThr) ∧
      (after.autoBatt.state = true ↔ ∀ j < bmsMaxCells,
        dev.cellInfo.Reaches 0 j →
          Counted dev.cellInfo dev.cellVHigh dev.cellInfo.cellsHighCount j) := by
  intro after
  have hpassed := checkHigh_iff dev.cellInfo
    (forEnabled dev.cellInfo (highCount dev.cellInfo dev.cellVHigh) bmsMaxCells
      0 dev.cellInfo.cellsHighCount) bmsMaxCells (i := 0)
      (by rwa [Nat.zero_add])
  have hcounted : (∀ j < 0 + bmsMaxCells, dev.cellInfo.Reaches 0 j →
        battStateCountThr ≤ forEnabled dev.cellInfo
          (highCount dev.cellInfo dev.cellVHigh) bmsMaxCells 0
          dev.cellInfo.cellsHighCount j) ↔
      ∀ j < bmsMaxCells, dev.cellInfo.Reaches 0 j →
        Counted dev.cellInfo dev.cellVHigh dev.cellInfo.cellsHighCount j := by
    rw [Nat.zero_add]
    refine forall₃_congr fun j hj hreach => ?_
    rw [forEnabled_reached _ _ _ (by omega) hreach, Counted]
  rw [hcounted] at hpassed
  have hnot : ¬dev.autoBatt.state = true := by
    rw [hstate]
    exact Bool.false_ne_true
  rw [← hpassed]
  simp only [after, jkBtCheckCellLevels, hvalid, Bool.true_eq_false, if_false,
    if_neg hnot]
  split
  next henabled =>
    refine ⟨hlow, fun h => absurd (hstate.symm.trans h) Bool.false_ne_true,
      fun h => ?_⟩
    exact absurd (h.symm.trans henabled) Bool.false_ne_true
  next hdisabled =>
    exact ⟨jkBtNewBattState_low cronNext scripts clock fun j => Or.inl (hlow j),
      fun _ => Bool.eq_false_of_not_eq_true hdisabled, fun _ => rfl⟩

/-- The normal state. -/
theorem checkCellLevels_normal (hvalid : dev.cellInfo.valid = true)
    (hstate : dev.autoBatt.state = true)
    (hlow : ∀ j, dev.cellInfo.cellsLowCount j < battStateCountThr) :
    let after := (jkBtCheckCellLevels cronNext scripts clock dev).2
    (∀ j, after.cellInfo.cellsLowCount j < battStateCountThr) ∧
      (after.autoBatt.state = false → ∃ j < bmsMaxCells,
        dev.cellInfo.isEnabled j = true ∧
          dev.cellInfo.cellsV j < dev.cellVLow) := by
  intro after
  simp only [after, jkBtCheckCellLevels, hvalid, Bool.true_eq_false, if_false,
    if_pos hstate]
  rcases checkLow_cases dev.cellInfo dev.cellVLow bmsMaxCells 0
    hlow with ⟨hnone, hcounts⟩ | ⟨j, hj, hreach, hcell, hsome, hcounts⟩
  · rw [if_neg (by rw [hnone]; exact Bool.false_ne_true)]
    exact ⟨hcounts, fun h => absurd (hstate.symm.trans h).symm
      Bool.false_ne_true⟩
  · rw [if_pos hsome]
    constructor
    · refine jkBtNewBattState_low cronNext scripts clock fun k => ?_
      by_cases hk : k = j
      · subst hk
        exact Or.inr ⟨by omega, hreach⟩
      · exact Or.inl (hcounts k hk)
    · exact fun _ => ⟨j, by omega, hreach.2 j hreach.1 (Nat.le_refl j), hcell⟩

theorem checkSolar_batt (now : ℕ) :
    (jkBtCheckSolar cronNext scripts now clock dev).2.autoBatt =
        dev.autoBatt ∧
      (jkBtCheckSolar cronNext scripts now clock dev).2.cellInfo =
        dev.cellInfo := by
  simp only [jkBtCheckSolar]
  split
  · exact ⟨rfl, rfl⟩
  · split
    · exact ⟨rfl, rfl⟩
    · split <;> exact ⟨rfl, rfl⟩

end

/-! ## The main result -/

variable (cronNext : CronExpr → ℤ → ℤ)

/-- A cell is enabled, and all enabled cells are at or above the threshold. -/
def AllHigh (info : CellInfo) (cellVHigh : ℕ) : Prop :=
  (∃ j < bmsMaxCells, info.isEnabled j = true) ∧
    ∀ j < bmsMaxCells, info.isEnabled j = true → cellVHigh ≤ info.cellsV j

/-- An enabled cell is below the threshold. -/
def SomeLow (info : CellInfo) (cellVLow : ℕ) : Prop :=
  ∃ j < bmsMaxCells, info.isEnabled j = true ∧ info.cellsV j < cellVLow

instance (info : CellInfo) (cellVHigh : ℕ) :
    Decidable (AllHigh info cellVHigh) :=
  inferInstanceAs (Decidable ((∃ j < bmsMaxCells, _) ∧
    ∀ j < bmsMaxCells, info.isEnabled j = true → cellVHigh ≤ info.cellsV j))

instance (info : CellInfo) (cellVLow : ℕ) :
    Decidable (SomeLow info cellVLow) :=
  inferInstanceAs (Decidable (∃ j < bmsMaxCells, _ ∧ _))

/-- A transition to the normal state finds all enabled cells high, one to the
low state finds one low. -/
def Justified (s : Option ScriptsContext × JkBmsDev) (frame : CellFrame) :
    Prop :=
  (s.2.autoBatt.state = false →
      (cellFrameStep cronNext s frame).2.autoBatt.state = true →
      AllHigh (frameInfo s.2 frame) s.2.cellVHigh) ∧
    (s.2.autoBatt.state = true →
      (cellFrameStep cronNext s frame).2.autoBatt.state = false →
      SomeLow (frameInfo s.2 frame) s.2.cellVLow)

instance (s : Option ScriptsContext × JkBmsDev) (frame : CellFrame) :
    Decidable (Justified cronNext s frame) :=
  inferInstanceAs (Decidable ((_ → _ → _) ∧ (_ → _ → _)))

/-- What is seen of a frame: the data of the cells, the threshold, and the
state of the battery before and after it, if the battery is tracked. -/
structure CellSeen where
  info : CellInfo
  high : ℕ
  tracked : Bool
  before : Bool
  after : Bool

/-- The battery changes its state, with the cell in front of the first one that
is not enabled. -/
def CellSeen.Restarts (o : CellSeen) (j : ℕ) : Prop :=
  o.tracked = true ∧ o.before ≠ o.after ∧ o.info.Reaches 0 j

/-- The battery is in the low state, with the cell in front of the first one
that is not enabled and at or above the threshold. -/
def CellSeen.High (o : CellSeen) (j : ℕ) : Prop :=
  o.tracked = true ∧ o.before = false ∧ o.info.Reaches 0 j ∧
    o.high ≤ o.info.cellsV j

open Classical in
/-- The number of frames with the cell high since the last transition that
restarts it; `past` are the frames so far, the last one first. -/
noncomputable def highFrames (past : List CellSeen) (j : ℕ) : ℕ :=
  (past.takeWhile fun o => ¬o.Restarts j).countP fun o => o.High j

/-- A `uint32_t` counts the frames. -/
noncomputable def highFrames32 (past : List CellSeen) (j : ℕ) : ℕ :=
  highFrames past j % 2 ^ 32

def cellSeen (s : Option ScriptsContext × JkBmsDev) (frame : CellFrame) :
    CellSeen where
  info := frameInfo s.2 frame
  high := s.2.cellVHigh
  tracked := s.2.autoBatt.enabled
  before := s.2.autoBatt.state
  after := (cellFrameStep cronNext s frame).2.autoBatt.state

/-- The device with the frames so far. -/
def cellHistory : EventMachine
    ((Option ScriptsContext × JkBmsDev) × List CellSeen) CellFrame :=
  (cellMachine cronNext).recording fun s frame past =>
    cellSeen cronNext s frame :: past

/-- The battery is not tracked, or it is in the normal state; or a cell in front
of the first one that is not enabled has not been high often enough by `counts`;
or a cell is enabled, every enabled cell behind is high, and so is every cell in
front that had been high often enough before the frame. -/
def FitsCounts (counts : ℕ → ℕ) (s : Option ScriptsContext × JkBmsDev)
    (frame : CellFrame) : Prop :=
  let info := frameInfo s.2 frame
  let high := s.2.cellVHigh
  s.2.autoBatt.enabled = false ∨ s.2.autoBatt.state = true ∨
    (∃ j < bmsMaxCells, info.Reaches 0 j ∧ ¬Counted info high counts j) ∨
    ((∃ j < bmsMaxCells, info.isEnabled j = true) ∧
      (∀ j < bmsMaxCells, info.isEnabled j = true → ¬info.Reaches 0 j →
        high ≤ info.cellsV j) ∧
      ∀ j < bmsMaxCells, info.Reaches 0 j →
        battStateCountThr ≤ counts j → high ≤ info.cellsV j)

/-- The frame fits what the frames so far say of the cells. -/
def FrameFits (x : (Option ScriptsContext × JkBmsDev) × List CellSeen)
    (frame : CellFrame) : Prop :=
  FitsCounts (highFrames32 x.2) x.1 frame

/-- No cell has been low often enough. -/
def LowCounts (s : Option ScriptsContext × JkBmsDev) : Prop :=
  ∀ j, s.2.cellInfo.cellsLowCount j < battStateCountThr

/-- The device with the decoded frame, which the automation works on. -/
abbrev frameDev (dev : JkBmsDev) (frame : CellFrame) : JkBmsDev :=
  jkBtProcessCellFrame { dev with nbuff := frame.nbuff }

theorem cellFrameStep_batt (s : Option ScriptsContext × JkBmsDev)
    (frame : CellFrame) :
    let batt := if s.2.autoBatt.enabled then
        jkBtCheckCellLevels cronNext s.1 frame.clock.batt (frameDev s.2 frame)
      else (s.1, frameDev s.2 frame)
    (cellFrameStep cronNext s frame).2.autoBatt = batt.2.autoBatt ∧
      (cellFrameStep cronNext s frame).2.cellInfo = batt.2.cellInfo := by
  intro batt
  have hstep : cellFrameStep cronNext s frame =
      if batt.2.autoSolar.enabled then
        jkBtCheckSolar cronNext batt.1 frame.clock.solarNow frame.clock.solar
          batt.2
      else batt := rfl
  rw [hstep]
  split
  · exact checkSolar_batt cronNext _ _ _ _
  · exact ⟨rfl, rfl⟩

/-- The counts that a frame finds decide what its transition rests on. -/
theorem transition_justified_iff {info : CellInfo} {high : ℕ}
    (hcounted : ∀ j < bmsMaxCells, info.Reaches 0 j →
      Counted info high info.cellsHighCount j) :
    AllHigh info high ↔
      (∃ j < bmsMaxCells, info.isEnabled j = true) ∧
        (∀ j < bmsMaxCells, info.isEnabled j = true → ¬info.Reaches 0 j →
          high ≤ info.cellsV j) ∧
        ∀ j < bmsMaxCells, info.Reaches 0 j →
          battStateCountThr ≤ info.cellsHighCount j →
          high ≤ info.cellsV j := by
  refine and_congr_right fun _ => ?_
  constructor
  · exact fun h => ⟨fun j hj henabled _ => h j hj henabled,
      fun j hj hreach _ => h j hj (hreach.2 j hreach.1 (Nat.le_refl j))⟩
  · rintro ⟨hhidden, hstale⟩ j hj henabled
    by_cases hreach : info.Reaches 0 j
    · by_contra hbelow
      -- A cell below the threshold is not counted in this frame.
      have hcount := hcounted j hj hreach
      rw [Counted, highCount, if_neg hbelow] at hcount
      exact hbelow (hstale j hj hreach hcount)
    · exact hhidden j hj henabled hreach

/-- One frame, by the counts of the device. -/
theorem frame_justified_iff {s : Option ScriptsContext × JkBmsDev}
    (hlow : LowCounts s) (frame : CellFrame) :
    LowCounts (cellFrameStep cronNext s frame) ∧
      (Justified cronNext s frame ↔
        FitsCounts s.2.cellInfo.cellsHighCount s frame) := by
  obtain ⟨hbatt, hinfo⟩ := cellFrameStep_batt cronNext s frame
  simp only [LowCounts, Justified, FitsCounts, hbatt, hinfo]
  cases henabled : s.2.autoBatt.enabled with
  | false =>
      simp only [Bool.false_eq_true, if_false, true_or, iff_true]
      refine ⟨hlow, fun hfalse htrue => ?_, fun htrue hfalse => ?_⟩
      · exact absurd (hfalse.symm.trans htrue) Bool.false_ne_true
      · exact absurd (hfalse.symm.trans htrue) Bool.false_ne_true
  | true =>
      simp only [if_true, Bool.true_eq_false, false_or]
      cases hstate : s.2.autoBatt.state with
      | true =>
          obtain ⟨hcounts, hjustified⟩ := checkCellLevels_normal cronNext s.1
            frame.clock.batt (frameDev s.2 frame) rfl hstate hlow
          refine ⟨hcounts, fun _ => Or.inl rfl, fun _ => ⟨?_, ?_⟩⟩
          · exact fun h => absurd h.symm Bool.false_ne_true
          · exact fun _ h => hjustified h
      | false =>
          obtain ⟨hcounts, htransition⟩ := checkCellLevels_low cronNext s.1
            frame.clock.batt (frameDev s.2 frame) rfl
            (frameInfo_end s.2 frame) hstate hlow
          refine ⟨hcounts, ?_⟩
          rw [htransition]
          by_cases hall : ∀ j < bmsMaxCells,
              (frameInfo s.2 frame).Reaches 0 j →
                Counted (frameInfo s.2 frame) s.2.cellVHigh
                  s.2.cellInfo.cellsHighCount j
          · have hiff := transition_justified_iff hall
            constructor
            · exact fun h => Or.inr (Or.inr (hiff.mp (h.1 rfl hall)))
            · rintro (h | ⟨j, hj, hreach, hnot⟩ | h)
              · exact absurd h Bool.false_ne_true
              · exact (hnot (hall j hj hreach)).elim
              · exact ⟨fun _ _ => hiff.mpr h,
                  fun h => absurd h Bool.false_ne_true⟩
          · refine ⟨fun _ => Or.inr (Or.inl ?_), fun _ => ⟨?_, ?_⟩⟩
            · push Not at hall
              exact hall
            · exact fun _ h => (hall h).elim
            · exact fun h => absurd h Bool.false_ne_true

/-! ## The counts and the frames so far -/

theorem newBattState_highCount (scripts : Option ScriptsContext)
    (clock : ScriptClock) (dev : JkBmsDev) :
    (jkBtNewBattState cronNext scripts clock dev).2.cellInfo.cellsHighCount =
      forEnabled dev.cellInfo (fun _ _ => 0) bmsMaxCells 0
        dev.cellInfo.cellsHighCount := rfl

theorem newBattState_state (scripts : Option ScriptsContext)
    (clock : ScriptClock) (dev : JkBmsDev) :
    (jkBtNewBattState cronNext scripts clock dev).2.autoBatt.state =
      dev.autoBatt.state := rfl

/-- The count of a cell that the loops reach restarts with a transition, and
counts the frame in the low state. -/
theorem checkCellLevels_count (scripts : Option ScriptsContext)
    (clock : ScriptClock) (dev : JkBmsDev) (hvalid : dev.cellInfo.valid = true)
    {j : ℕ} (hj : j < bmsMaxCells) :
    let after := (jkBtCheckCellLevels cronNext scripts clock dev).2
    (¬dev.cellInfo.Reaches 0 j →
      after.cellInfo.cellsHighCount j = dev.cellInfo.cellsHighCount j) ∧
    (dev.cellInfo.Reaches 0 j →
      (dev.autoBatt.state ≠ after.autoBatt.state →
        after.cellInfo.cellsHighCount j = 0) ∧
      (dev.autoBatt.state = after.autoBatt.state →
        after.cellInfo.cellsHighCount j =
          if dev.autoBatt.state = false then
            highCount dev.cellInfo dev.cellVHigh j
              (dev.cellInfo.cellsHighCount j)
          else dev.cellInfo.cellsHighCount j)) := by
  intro after
  have hj' : j < 0 + bmsMaxCells := by omega
  cases hstate : dev.autoBatt.state with
  | true =>
      simp only [after, jkBtCheckCellLevels, hvalid, Bool.true_eq_false,
        if_false, hstate, if_true]
      split
      · rw [newBattState_highCount, newBattState_state]
        refine ⟨fun hnot => forEnabled_other _ _ _ hnot,
          fun hreach => ⟨fun _ => forEnabled_reached _ _ _ hj' hreach, ?_⟩⟩
        exact fun hsame => absurd hsame.symm Bool.false_ne_true
      · exact ⟨fun _ => rfl,
          fun _ => ⟨fun hne => (hne hstate.symm).elim, fun _ => rfl⟩⟩
  | false =>
      simp only [after, jkBtCheckCellLevels, hvalid, Bool.true_eq_false,
        if_false, hstate, Bool.false_eq_true, if_true]
      split
      · refine ⟨fun hnot => forEnabled_other _ _ _ hnot,
          fun hreach => ⟨fun hne => ?_, fun _ => ?_⟩⟩
        · exact (hne hstate.symm).elim
        · exact forEnabled_reached _ _ _ hj' hreach
      · rw [newBattState_highCount, newBattState_state]
        refine ⟨fun hnot => ?_, fun hreach => ⟨fun _ => ?_, fun hsame => ?_⟩⟩
        · refine Eq.trans (forEnabled_other _ _ _ hnot) ?_
          exact forEnabled_other _ _ _ hnot
        · exact forEnabled_reached _ _ _ hj' hreach
        · exact absurd hsame Bool.false_ne_true

/-- The counts of the device are those of the frames so far. -/
def CountsAgree (x : (Option ScriptsContext × JkBmsDev) × List CellSeen) : Prop :=
  ∀ j < bmsMaxCells, x.1.2.cellInfo.cellsHighCount j = highFrames32 x.2 j

theorem highFrames_restart {o : CellSeen} {j : ℕ} (h : o.Restarts j)
    (past : List CellSeen) : highFrames (o :: past) j = 0 := by
  simp [highFrames, h]

theorem highFrames_high {o : CellSeen} {j : ℕ} (h : ¬o.Restarts j)
    (hhigh : o.High j) (past : List CellSeen) :
    highFrames (o :: past) j = highFrames past j + 1 := by
  simp [highFrames, h, hhigh]

theorem highFrames_other {o : CellSeen} {j : ℕ} (h : ¬o.Restarts j)
    (hhigh : ¬o.High j) (past : List CellSeen) :
    highFrames (o :: past) j = highFrames past j := by
  simp [highFrames, h, hhigh]

theorem toUInt32_succ (n : ℕ) : toUInt32 ((n : ℤ) + 1) = (n + 1) % 2 ^ 32 := by
  unfold toUInt32
  omega

/-- A frame without a transition counts a cell in front of the first one that is
not enabled, if it is high. -/
theorem highFrames_reached {x : (Option ScriptsContext × JkBmsDev) × List CellSeen}
    {frame : CellFrame} {j : ℕ} (henabled : x.1.2.autoBatt.enabled = true)
    (hreach : (frameInfo x.1.2 frame).Reaches 0 j)
    (hstate : (cellSeen cronNext x.1 frame).before =
      (cellSeen cronNext x.1 frame).after)
    (hbefore : x.1.2.cellInfo.cellsHighCount j = highFrames x.2 j % 2 ^ 32) :
    (if (frameDev x.1.2 frame).autoBatt.state = false then
        highCount (frameDev x.1.2 frame).cellInfo (frameDev x.1.2 frame).cellVHigh j
          ((frameDev x.1.2 frame).cellInfo.cellsHighCount j)
      else (frameDev x.1.2 frame).cellInfo.cellsHighCount j) =
      highFrames (cellSeen cronNext x.1 frame :: x.2) j % 2 ^ 32 := by
  have hnot : ¬(cellSeen cronNext x.1 frame).Restarts j :=
    fun h => h.2.1 hstate
  by_cases hhigh : (cellSeen cronNext x.1 frame).High j
  · obtain ⟨-, hlow, -, hvolt⟩ := id hhigh
    have hlow' : (frameDev x.1.2 frame).autoBatt.state = false := hlow
    have hvolt' : (frameDev x.1.2 frame).cellVHigh ≤
        (frameDev x.1.2 frame).cellInfo.cellsV j := hvolt
    rw [if_pos hlow', highCount, if_pos hvolt', toUInt32_succ,
      highFrames_high hnot hhigh, ← Nat.mod_add_mod (highFrames x.2 j), ← hbefore]
    rfl
  · rw [highFrames_other hnot hhigh, ← hbefore]
    split
    next hlow =>
      have hvolt : ¬(frameDev x.1.2 frame).cellVHigh ≤
          (frameDev x.1.2 frame).cellInfo.cellsV j :=
        fun hvolt => hhigh ⟨henabled, hlow, hreach, hvolt⟩
      rw [highCount, if_neg hvolt]
      rfl
    next => rfl

/-- Each frame counts the same in the device and among the frames so far. -/
theorem countsAgree_step {x : (Option ScriptsContext × JkBmsDev) × List CellSeen}
    (h : CountsAgree x) (frame : CellFrame) :
    CountsAgree ((cellHistory cronNext).step x frame) := by
  obtain ⟨hbatt, hinfo⟩ := cellFrameStep_batt cronNext x.1 frame
  intro j hj
  change (cellFrameStep cronNext x.1 frame).2.cellInfo.cellsHighCount j =
    highFrames (cellSeen cronNext x.1 frame :: x.2) j % 2 ^ 32
  have hbefore : x.1.2.cellInfo.cellsHighCount j = highFrames x.2 j % 2 ^ 32 :=
    h j hj
  cases henabled : x.1.2.autoBatt.enabled with
  | false =>
      have hnot : ¬(cellSeen cronNext x.1 frame).Restarts j := fun h =>
        Bool.false_ne_true (henabled.symm.trans h.1)
      have hlow : ¬(cellSeen cronNext x.1 frame).High j := fun h =>
        Bool.false_ne_true (henabled.symm.trans h.1)
      rw [highFrames_other hnot hlow, ← hbefore, hinfo, if_neg (by simp [henabled])]
      rfl
  | true =>
      rw [if_pos henabled] at hbatt hinfo
      have hstates : (cellSeen cronNext x.1 frame).after =
          (jkBtCheckCellLevels cronNext x.1.1 frame.clock.batt
            (frameDev x.1.2 frame)).2.autoBatt.state :=
        congrArg AutoAction.state hbatt
      obtain ⟨hother, hreached⟩ := checkCellLevels_count cronNext x.1.1
        frame.clock.batt (frameDev x.1.2 frame) rfl hj
      rw [hinfo]
      by_cases hreach : (frameInfo x.1.2 frame).Reaches 0 j
      · obtain ⟨hrestart, hsame⟩ := hreached hreach
        rw [← hstates] at hrestart hsame
        by_cases hstate : (cellSeen cronNext x.1 frame).before =
            (cellSeen cronNext x.1 frame).after
        · exact (hsame hstate).trans
            (highFrames_reached cronNext henabled hreach hstate hbefore)
        · rw [hrestart hstate, highFrames_restart ⟨henabled, hstate, hreach⟩]
          rfl
      · have hnot : ¬(cellSeen cronNext x.1 frame).Restarts j :=
          fun h => hreach h.2.2
        have hlow : ¬(cellSeen cronNext x.1 frame).High j :=
          fun h => hreach h.2.2.1
        rw [highFrames_other hnot hlow, ← hbefore]
        exact hother hreach

/-! ## Whole runs -/

theorem fitsCounts_congr {counts counts' : ℕ → ℕ}
    (h : ∀ j < bmsMaxCells, counts j = counts' j)
    (s : Option ScriptsContext × JkBmsDev) (frame : CellFrame) :
    FitsCounts counts s frame ↔ FitsCounts counts' s frame := by
  have hcounted : ∀ (info : CellInfo) (high : ℕ), ∀ j < bmsMaxCells,
      (Counted info high counts j ↔ Counted info high counts' j) := by
    intro info high j hj
    rw [Counted, Counted, h j hj]
  simp only [FitsCounts]
  refine or_congr_right (or_congr_right (or_congr ?_ ?_))
  · exact exists_congr fun j => and_congr_right fun hj =>
      and_congr_right fun _ => not_congr (hcounted _ _ j hj)
  · refine and_congr_right fun _ => and_congr_right fun _ => ?_
    refine forall₃_congr fun j hj _ => ?_
    rw [h j hj]

/-- From the configuration on, every transition of the battery state is
justified exactly when every frame fits the frames before it. -/
theorem battery_transitions_justified (scripts : Option ScriptsContext)
    (btIndex : ℤ) (config : BmsConfig) (frames : List CellFrame) :
    let s := (scripts, getBmsConfigOne scripts btIndex config)
    (cellMachine cronNext).Along (Justified cronNext) s frames ↔
      (cellHistory cronNext).Along FrameFits (s, []) frames := by
  have hrun : ∀ (frames : List CellFrame)
      (x : (Option ScriptsContext × JkBmsDev) × List CellSeen),
      LowCounts x.1 → CountsAgree x →
      ((cellMachine cronNext).Along (Justified cronNext) x.1 frames ↔
        (cellHistory cronNext).Along FrameFits x frames) := by
    intro frames
    induction frames with
    | nil => exact fun _ _ _ => Iff.rfl
    | cons frame frames ih =>
        intro x hlow hagrees
        obtain ⟨hnext, hiff⟩ := frame_justified_iff cronNext hlow frame
        exact and_congr (hiff.trans (fitsCounts_congr hagrees x.1 frame))
          (ih _ hnext (countsAgree_step cronNext hagrees frame))
  refine hrun frames (_, []) (fun j => ?_) (fun j _ => ?_)
  · rw [getBmsConfigOne_cellInfo]
    exact Nat.succ_pos 2
  · rw [getBmsConfigOne_cellInfo]
    rfl

/-- A frame of cells with their voltages and the mask of the enabled ones. -/
def cellFrame (volts : List ℕ) (mask : UInt8) : CellFrame where
  nbuff := List.replicate 6 0 ++
    volts.flatMap (fun v => [UInt8.ofNat v, UInt8.ofNat (v / 256)]) ++
    List.replicate (64 - 2 * volts.length) 0 ++ [mask] ++ List.replicate 229 0
  clock := ⟨⟨0, none⟩, 0, ⟨0, none⟩, 0⟩

/-- The levels are 3 V and 3.1 V.  Each of two cells is at 3.2 V in three
frames, but never both: the battery becomes normal in the last frame, with the
first cell at 2.9 V.  With no cell enabled it becomes normal at once. -/
theorem low_cell_normal :
    ¬(cellMachine fun _ t => t).Along (Justified fun _ t => t)
        (none, getBmsConfigOne none 65536 ⟨none, 0, some (3000, 3100), none⟩)
        (List.replicate 3 (cellFrame [3200, 2900] 3) ++
          List.replicate 3 (cellFrame [2900, 3200] 3)) ∧
      ¬(cellMachine fun _ t => t).Along (Justified fun _ t => t)
        (none, getBmsConfigOne none 65536 ⟨none, 0, some (3000, 3100), none⟩)
        [cellFrame [] 0] := by
  decide +kernel

end Herak.BmsJk
