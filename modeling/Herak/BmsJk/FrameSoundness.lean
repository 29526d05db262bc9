import Herak.BmsJk.System

/-!
# Sound frames

Whatever a peer sends and whenever it is connected, the buffer of a device
never overflows, and the decoder sees only whole frames with the right start
and the right checksum.
-/

namespace Herak.BmsJk

open CInt Memory Scripts

/-- A whole frame that starts with the magic and has the right checksum. -/
def WholeFrame (nbuff : List UInt8) : Prop :=
  nbuff.length = notifyPacketSize ∧
    nbuff.take jkNotifyPktStart.length = jkNotifyPktStart ∧
    calcCrc (nbuff.take (notifyPacketSize - 1)) =
      nbuff.getD (notifyPacketSize - 1) 0

instance (nbuff : List UInt8) : Decidable (WholeFrame nbuff) :=
  inferInstanceAs (Decidable (_ ∧ _ ∧ _))

/-- A copy stays inside the buffer, and the decoder runs on a whole frame. -/
def BufferUse.Sound : BufferUse → Prop
  | .copied offset size => 0 ≤ size ∧ offset + size ≤ notifyPacketSize
  | .decoded nbuff => WholeFrame nbuff

/-- The reassembly state of a device. -/
def JkBmsDev.buffer (dev : JkBmsDev) : List UInt8 × ℕ × Bool :=
  (dev.nbuff, dev.nbuffCurr, dev.nbuffReady)

/-- What holds of the buffer of a device. -/
structure BufferInv (dev : JkBmsDev) : Prop where
  length : dev.nbuff.length = notifyPacketSize
  curr_le : dev.nbuffCurr ≤ notifyPacketSize
  whole : dev.nbuffReady = true →
    dev.nbuffCurr = notifyPacketSize ∧ WholeFrame dev.nbuff

namespace BufferInv

variable {dev dev' : JkBmsDev}

theorem congr (h : BufferInv dev) (heq : dev'.buffer = dev.buffer) :
    BufferInv dev' := by
  obtain ⟨hbuff, hrest⟩ := Prod.mk.inj heq
  obtain ⟨hcurr, hready⟩ := Prod.mk.inj hrest
  constructor
  · rw [hbuff]
    exact h.length
  · rw [hcurr]
    exact h.curr_le
  · rw [hbuff, hcurr, hready]
    exact h.whole

/-- A buffer that is not ready. -/
theorem of_not_ready (hlength : dev.nbuff.length = notifyPacketSize)
    (hcurr : dev.nbuffCurr ≤ notifyPacketSize)
    (hready : dev.nbuffReady = false) : BufferInv dev where
  length := hlength
  curr_le := hcurr
  whole := fun h => absurd (hready.symm.trans h) Bool.false_ne_true

/-- A reset of the buffer. -/
theorem reset (h : BufferInv dev) (hbuff : dev'.nbuff = dev.nbuff)
    (hcurr : dev'.nbuffCurr = 0) (hready : dev'.nbuffReady = false) :
    BufferInv dev' := by
  refine of_not_ready ?_ ?_ hready
  · rw [hbuff]
    exact h.length
  · rw [hcurr]
    exact Nat.zero_le _

end BufferInv

/-! ## The terminal -/

theorem terminalCheck_inv {dev : JkBmsDev}
    (hlength : dev.nbuff.length = notifyPacketSize)
    (hcurr : dev.nbuffCurr ≤ notifyPacketSize)
    (hready : dev.nbuffReady = false) : BufferInv (terminalCheck dev) := by
  simp only [terminalCheck]
  split
  next hfull =>
    split
    · exact .of_not_ready hlength (Nat.zero_le _) hready
    next hmagic =>
      split
      · exact .of_not_ready hlength (Nat.zero_le _) hready
      next hcrc =>
        rw [hfull] at hcrc
        exact
          { length := hlength
            curr_le := hcurr
            whole := fun _ =>
              ⟨hfull, hlength, not_not.mp hmagic, not_not.mp hcrc⟩ }
  · exact .of_not_ready hlength hcurr hready

/-- The offset after a copy that fits. -/
theorem toUInt16_add {curr : ℕ} {csize : ℤ} (hnonneg : 0 ≤ csize)
    (hfits : curr + csize ≤ notifyPacketSize) :
    toUInt16 (curr + csize) = curr + csize.toNat := by
  simp only [notifyPacketSize] at hfits
  simp only [toUInt16]
  omega

theorem terminalCopy_inv {dev : JkBmsDev} (data : List UInt8) {csize : ℤ}
    (hlength : dev.nbuff.length = notifyPacketSize)
    (hready : dev.nbuffReady = false) (hnonneg : 0 ≤ csize)
    (hdata : csize ≤ data.length)
    (hfits : dev.nbuffCurr + csize ≤ notifyPacketSize) :
    BufferInv (terminalCopy dev data csize).2 ∧
      ∀ u ∈ (terminalCopy dev data csize).1, u.Sound := by
  have htake : (data.take csize.toNat).length = csize.toNat := by
    rw [List.length_take]
    omega
  constructor
  · refine terminalCheck_inv ?_ ?_ hready
    · exact (length_memcpy (by omega)).trans hlength
    · change toUInt16 (dev.nbuffCurr + csize) ≤ notifyPacketSize
      rw [toUInt16_add hnonneg hfits]
      omega
  · intro u hu
    rw [List.mem_singleton.mp hu]
    exact ⟨hnonneg, hfits⟩

theorem jkBtProcessTerminal_inv {dev : JkBmsDev} (h : BufferInv dev)
    (val : BtCharacteristicValue) :
    BufferInv (jkBtProcessTerminal dev val).2 ∧
      ∀ u ∈ (jkBtProcessTerminal dev val).1, u.Sound := by
  have hnone : ∀ u ∈ ([] : List BufferUse), u.Sound := fun _ hu => nomatch hu
  have hcurr := h.curr_le
  simp only [jkBtProcessTerminal]
  split
  · exact ⟨h, hnone⟩
  next hready =>
    split
    · exact ⟨h, hnone⟩
    · split
      · exact ⟨h, hnone⟩
      · split
        · refine terminalCopy_inv val.data h.length
            (Bool.eq_false_of_not_eq_true hready) ?_ ?_ ?_
          · split <;> omega
          · split <;> omega
          · dsimp only
            split <;> omega
        · refine terminalCopy_inv val.data h.length
            (Bool.eq_false_of_not_eq_true hready) ?_ ?_ ?_
          · split <;> omega
          · split <;> omega
          · split <;> omega

/-! ## The automation does not touch the buffer -/

variable (cronNext : CronExpr → ℤ → ℤ) (scripts : Option ScriptsContext)

@[simp] theorem jkBtNewBattState_buffer (clock : ScriptClock)
    (dev : JkBmsDev) :
    (jkBtNewBattState cronNext scripts clock dev).2.buffer = dev.buffer :=
  rfl

theorem jkBtCheckCellLevels_buffer (clock : ScriptClock) (dev : JkBmsDev) :
    (jkBtCheckCellLevels cronNext scripts clock dev).2.buffer =
      dev.buffer := by
  simp only [jkBtCheckCellLevels]
  split
  · rfl
  · split <;> split <;> rfl

theorem jkBtCheckSolar_buffer (now : ℕ) (clock : ScriptClock)
    (dev : JkBmsDev) :
    (jkBtCheckSolar cronNext scripts now clock dev).2.buffer = dev.buffer := by
  simp only [jkBtCheckSolar]
  split
  · rfl
  · split
    · rfl
    · split <;> rfl

theorem jkBtAutomationRun_buffer (clock : FrameClock) (dev : JkBmsDev) :
    (jkBtAutomationRun cronNext scripts clock dev).2.buffer = dev.buffer := by
  have hbatt : (if dev.autoBatt.enabled then
      jkBtCheckCellLevels cronNext scripts clock.batt dev
    else (scripts, dev)).2.buffer = dev.buffer := by
    split
    · exact jkBtCheckCellLevels_buffer cronNext scripts clock.batt dev
    · rfl
  simp only [jkBtAutomationRun]
  generalize (if dev.autoBatt.enabled then
      jkBtCheckCellLevels cronNext scripts clock.batt dev
    else (scripts, dev)) = batt at hbatt
  split
  · exact (jkBtCheckSolar_buffer cronNext _ _ _ _).trans hbatt
  · exact hbatt

theorem jkBtAutomationFindScripts_buffer (dev : JkBmsDev) :
    (jkBtAutomationFindScripts scripts dev).buffer = dev.buffer := by
  simp only [jkBtAutomationFindScripts]
  split <;> split <;> rfl

theorem jkBtEnableSolarTrack_buffer (dev : JkBmsDev) (chargeCurrent : ℤ) :
    (jkBtEnableSolarTrack scripts dev chargeCurrent).buffer = dev.buffer := by
  simp only [jkBtEnableSolarTrack]
  split <;> rfl

theorem jkBtEnableBatteryTrack_buffer (dev : JkBmsDev) (low high : ℕ) :
    (jkBtEnableBatteryTrack dev low high).buffer = dev.buffer := by
  simp only [jkBtEnableBatteryTrack]
  split <;> rfl

/-! ## Steps -/

theorem bmsJkFrameProcess_inv {dev : JkBmsDev} (h : BufferInv dev)
    (clock : FrameClock) :
    BufferInv (bmsJkFrameProcess cronNext scripts clock dev).2.2 ∧
      ∀ u ∈ (bmsJkFrameProcess cronNext scripts clock dev).1, u.Sound := by
  simp only [bmsJkFrameProcess]
  split
  · exact ⟨h, fun _ hu => absurd hu List.not_mem_nil⟩
  next hready =>
    constructor
    · refine h.reset ?_ rfl rfl
      dsimp only
      split
      · exact congrArg Prod.fst
          (jkBtAutomationRun_buffer cronNext scripts clock _)
      · rfl
    · intro u hu
      rw [List.mem_singleton.mp hu]
      exact (h.whole (Bool.eq_true_of_not_eq_false hready)).2

theorem jkBtEvent_inv {dev : JkBmsDev} (h : BufferInv dev) (idx : ℤ)
    (event : BtEvent) :
    BufferInv (jkBtEvent scripts idx event dev).2 ∧
      ∀ u ∈ (jkBtEvent scripts idx event dev).1, u.Sound := by
  have hnone : ∀ u ∈ ([] : List BufferUse), u.Sound := fun _ hu => nomatch hu
  simp only [jkBtEvent]
  split
  · exact ⟨h, hnone⟩
  · cases event with
    | connected name now =>
        refine ⟨?_, hnone⟩
        have hreset : BufferInv { charcReset { dev with name := some name } with
            state := .connected, lastReply := now } := h.reset rfl rfl rfl
        exact hreset.congr (jkBtAutomationFindScripts_buffer scripts _)
    | disconnected => exact ⟨h.reset rfl rfl rfl, hnone⟩
    | ready now => exact ⟨h.congr rfl, hnone⟩
    | newService => exact ⟨h, hnone⟩
    | newCharacteristic charc svc128 =>
        refine ⟨h.congr ?_, hnone⟩
        simp only [charcNew]
        split
        · rfl
        · split
          · rfl
          · split <;> rfl
    | valueReceived val =>
        dsimp only
        split
        · exact jkBtProcessTerminal_inv h val
        · exact ⟨h, hnone⟩

theorem bmsJkRunOne_inv {dev : JkBmsDev} (h : BufferInv dev) (now : ℕ)
    (input : SendInput) : BufferInv (bmsJkRunOne now input dev) := by
  simp only [bmsJkRunOne]
  split
  · exact h
  · split
    · split
      · exact h.reset rfl rfl rfl
      · exact h
    · split
      · exact h.congr rfl
      · exact h

/-! ## Runs -/

/-- What holds of the system after every run. -/
structure SystemInv (s : BmsSystem) : Prop where
  buffer : ∀ dev ∈ s.devices, BufferInv dev
  sound : ∀ u ∈ s.uses, u.2.Sound

namespace SystemInv

variable {s : BmsSystem}

/-- A change of one device. -/
theorem setDevice (h : SystemInv s) (i : ℕ) {dev : JkBmsDev}
    {uses : List BufferUse}
    (hdev : BufferInv dev ∧ ∀ u ∈ uses, u.Sound) :
    SystemInv ((s.setDevice i dev).record i uses) where
  buffer := by
    intro x hx
    rcases List.mem_or_eq_of_mem_set hx with hx | rfl
    · exact h.buffer x hx
    · exact hdev.1
  sound := by
    intro u hu
    rcases List.mem_append.mp hu with hu | hu
    · exact h.sound u hu
    · obtain ⟨v, hv, rfl⟩ := List.mem_map.mp hu
      exact hdev.2 v hv

theorem of_devices (h : SystemInv s) {devices : List JkBmsDev}
    (hdevices : ∀ dev ∈ devices, BufferInv dev) :
    SystemInv { s with devices := devices } where
  buffer := hdevices
  sound := h.sound

variable {cronNext}

theorem processOne (h : SystemInv s) (t : BmsTick) (i : ℕ) :
    SystemInv (bmsJkProcessOne cronNext t s i) := by
  simp only [bmsJkProcessOne]
  split
  · exact h
  next dev hdev =>
    have hset := h.setDevice i (bmsJkFrameProcess_inv cronNext s.scripts
      (h.buffer dev (List.mem_of_getElem? hdev)) (t.frame i))
    exact { buffer := hset.buffer, sound := hset.sound }

theorem process (h : SystemInv s) (t : BmsTick) (is : List ℕ) :
    SystemInv (is.foldl (bmsJkProcessOne cronNext t) s) := by
  induction is generalizing s with
  | nil => exact h
  | cons i is ih => exact ih (h.processOne t i)

theorem run (h : SystemInv s) (t : BmsTick) :
    SystemInv (bmsJkRun cronNext s t) := by
  have hone : ∀ dev ∈ s.devices.mapIdx fun i => bmsJkRunOne t.now (t.send i),
      BufferInv dev := by
    intro dev hdev
    obtain ⟨i, hi, rfl⟩ := List.mem_mapIdx.mp hdev
    exact bmsJkRunOne_inv (h.buffer _ (List.getElem_mem hi)) _ _
  have hprocess : SystemInv ((List.range (s.devices.mapIdx fun i =>
      bmsJkRunOne t.now (t.send i)).length).foldl (bmsJkProcessOne cronNext t)
        { s with devices := s.devices.mapIdx fun i =>
          bmsJkRunOne t.now (t.send i) }) := (h.of_devices hone).process t _
  exact { buffer := hprocess.buffer, sound := hprocess.sound }

theorem threshold (h : SystemInv s) (params atNull : CStr) :
    SystemInv
      { s with
        devices := (cmdBmsJkSetChargeCurrentThreshold s.scripts s.devices params
          atNull).2 } := by
  refine h.of_devices ?_
  simp only [cmdBmsJkSetChargeCurrentThreshold]
  split
  · exact h.buffer
  · split
    · exact h.buffer
    · split
      · exact h.buffer
      next dev hdev =>
        intro x hx
        rcases List.mem_or_eq_of_mem_set hx with hx | rfl
        · exact h.buffer x hx
        · exact (h.buffer dev (List.mem_of_getElem? hdev)).congr
            (jkBtEnableSolarTrack_buffer s.scripts dev _)

/-- Every event keeps the invariant. -/
theorem step (h : SystemInv s) (e : BmsEvent) :
    SystemInv (s.step cronNext e) := by
  cases e with
  | bt i idx event =>
      simp only [BmsSystem.step]
      split
      · exact h
      next dev hdev =>
        exact h.setDevice i (jkBtEvent_inv s.scripts
          (h.buffer dev (List.mem_of_getElem? hdev)) idx event)
  | tick t => exact h.run t
  | threshold params atNull => exact h.threshold params atNull
  | scripts scripts => exact { buffer := h.buffer, sound := h.sound }

end SystemInv

theorem cleared_inv (userName : Option CStr) (btIndex : ℤ)
    (timeoutMsec : ℕ) :
    BufferInv (JkBmsDev.cleared userName btIndex timeoutMsec) :=
  .of_not_ready List.length_replicate (Nat.zero_le _) rfl

theorem getBmsConfigOne_inv (btIndex : ℤ) (config : BmsConfig) :
    BufferInv (getBmsConfigOne scripts btIndex config) := by
  have hcleared :=
    cleared_inv config.userName btIndex config.timeoutMsec
  simp only [getBmsConfigOne]
  split <;> split
  · exact hcleared
  · exact hcleared.congr (jkBtEnableBatteryTrack_buffer _ _ _)
  · exact hcleared.congr (jkBtEnableSolarTrack_buffer scripts _ _)
  · exact hcleared.congr ((jkBtEnableSolarTrack_buffer scripts _ _).trans
      (jkBtEnableBatteryTrack_buffer _ _ _))

theorem init_inv (btIndex : ℕ → ℤ) (configs : List BmsConfig) :
    SystemInv (BmsSystem.init scripts btIndex configs) where
  buffer := by
    intro dev hdev
    obtain ⟨i, hi, rfl⟩ := List.mem_mapIdx.mp hdev
    exact getBmsConfigOne_inv scripts (btIndex i) _
  sound := fun _ hu => nomatch hu

/-! ## The main result -/

/-- After every sequence of callbacks, rounds and commands, of any number of
devices, each buffer is within its bounds, a ready one holds a whole frame, and
so did each one the decoder ran on; every copy stayed inside its buffer. -/
theorem frames_sound (btIndex : ℕ → ℤ) (configs : List BmsConfig)
    (es : List BmsEvent) :
    let s := (BmsSystem.machine cronNext).run
      (BmsSystem.init scripts btIndex configs) es
    (∀ dev ∈ s.devices, dev.nbuff.length = notifyPacketSize ∧
        dev.nbuffCurr ≤ notifyPacketSize ∧
        (dev.nbuffReady = true →
          dev.nbuffCurr = notifyPacketSize ∧ WholeFrame dev.nbuff)) ∧
      ∀ i u, (i, u) ∈ s.uses → u.Sound := by
  intro s
  have hinv : SystemInv s :=
    EventMachine.invariant (I := SystemInv) (fun s e h => h.step e)
      (init_inv scripts btIndex configs) es
  exact ⟨fun dev hdev => ⟨(hinv.buffer dev hdev).length,
    (hinv.buffer dev hdev).curr_le, (hinv.buffer dev hdev).whole⟩,
    fun i u hu => hinv.sound (i, u) hu⟩

end Herak.BmsJk
