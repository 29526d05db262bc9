import Herak.BmsJk.FrameSoundness

/-!
# Complete reassembly

A notification of fewer bytes than the magic is dropped, and one that starts
with the magic starts a new frame.  A frame is therefore received, whatever
rounds and other events come between its fragments, exactly when no fragment
but the first is of one of these kinds.
-/

namespace Herak.BmsJk

open CInt Memory Scripts

/-- The bytes of a frame in an event: those of a notification of the terminal
of device `i`.  A notification without bytes is no part of a frame. -/
def fragment (i : ℕ) (dev : JkBmsDev) : BmsEvent → Option (List UInt8)
  | .bt j idx (.valueReceived val) =>
      if j = i ∧ idx = dev.btIndex ∧ val.charId = dev.jkTermCharc.charId ∧
          val.data ≠ [] then some val.data
      else none
  | _ => none

/-- The fragments that a run brings. -/
def fragments (i : ℕ) (dev : JkBmsDev) (es : List BmsEvent) :
    List (List UInt8) :=
  es.filterMap (fragment i dev)

/-- No event takes the terminal of device `i` away, and no reply times out. -/
def Calm (i : ℕ) (s : BmsSystem) : BmsEvent → Prop
  | .bt _ _ (.valueReceived _) | .bt _ _ .newService => True
  | .bt j idx _ => j = i → ∀ dev, s.devices[i]? = some dev → idx ≠ dev.btIndex
  | .tick t => ∀ dev, s.devices[i]? = some dev → dev.waitReply = true →
      subU64 t.now dev.sendTime ≤ cmdTimeoutMs
  | .threshold .. | .scripts _ => True

/-- Every fragment but the first has the length of the magic at least, and does
not start with it. -/
def Continued (fs : List (List UInt8)) : Prop :=
  ∀ f ∈ fs.tail, jkNotifyPktStart.length ≤ f.length ∧
    f.take jkNotifyPktStart.length ≠ jkNotifyPktStart

instance (fs : List (List UInt8)) : Decidable (Continued fs) :=
  inferInstanceAs (Decidable (∀ f ∈ fs.tail, _ ∧ _))

theorem continued_append {fs : List (List UInt8)} (hfs : fs ≠ [])
    (f : List UInt8) :
    Continued (fs ++ [f]) ↔ Continued fs ∧
      jkNotifyPktStart.length ≤ f.length ∧
      f.take jkNotifyPktStart.length ≠ jkNotifyPktStart := by
  simp only [Continued, List.tail_append_of_ne_nil hfs,
    List.forall_mem_append, List.forall_mem_singleton]

/-! ## The buffer -/

/-- The buffer after the fragments `fs`: it holds all their bytes, or it has
fallen behind. -/
def Received (fs : List (List UInt8)) (dev : JkBmsDev) : Prop :=
  if Continued fs then
    dev.nbuffCurr = fs.flatten.length ∧
      dev.nbuff.take dev.nbuffCurr = fs.flatten ∧
      (dev.nbuffReady = true ↔ fs.flatten.length = notifyPacketSize)
  else dev.nbuffCurr < fs.flatten.length ∧ dev.nbuffReady = false

/-- The bytes of a frame are checked when the last one arrives. -/
theorem terminalCheck_received (dev : JkBmsDev) {frame : List UInt8}
    (hframe : WholeFrame frame) (hlength : dev.nbuff.length = notifyPacketSize)
    (hready : dev.nbuffReady = false)
    (htake : dev.nbuff.take dev.nbuffCurr = frame.take dev.nbuffCurr) :
    (terminalCheck dev).nbuffCurr = dev.nbuffCurr ∧
      (terminalCheck dev).nbuff = dev.nbuff ∧
      ((terminalCheck dev).nbuffReady = true ↔
        dev.nbuffCurr = notifyPacketSize) := by
  obtain ⟨hsize, hmagic, hcrc⟩ := hframe
  simp only [terminalCheck]
  split
  next hfull =>
    have heq : dev.nbuff = frame := by
      rw [hfull, List.take_of_length_le (Nat.le_of_eq hlength),
        List.take_of_length_le (Nat.le_of_eq hsize)] at htake
      exact htake
    have hsum : calcCrc (dev.nbuff.take (dev.nbuffCurr - 1)) =
        dev.nbuff.getD (dev.nbuffCurr - 1) 0 := by
      rw [hfull, heq]
      exact hcrc
    rw [if_neg (not_not.mpr (heq ▸ hmagic)), if_neg (not_not.mpr hsum)]
    exact ⟨rfl, rfl, fun _ => hfull, fun _ => rfl⟩
  next hnot =>
    refine ⟨rfl, rfl, fun h => ?_, fun h => (hnot h).elim⟩
    exact absurd (hready.symm.trans h) Bool.false_ne_true

/-- A check of a buffer that is not full does nothing. -/
theorem terminalCheck_of_ne {dev : JkBmsDev}
    (h : dev.nbuffCurr ≠ notifyPacketSize) : terminalCheck dev = dev :=
  if_neg h

/-- Copying all the bytes of a fragment. -/
theorem terminalCopy_received (dev : JkBmsDev) {frame f : List UInt8}
    (hframe : WholeFrame frame) (hlength : dev.nbuff.length = notifyPacketSize)
    (hready : dev.nbuffReady = false)
    (hcurr : dev.nbuffCurr ≤ notifyPacketSize)
    (hstart : dev.nbuff.take dev.nbuffCurr ++ f <+: frame) :
    let dev' := (terminalCopy dev f f.length).2
    dev'.nbuffCurr = dev.nbuffCurr + f.length ∧
      dev'.nbuff.take dev'.nbuffCurr =
        dev.nbuff.take dev.nbuffCurr ++ f ∧
      (dev'.nbuffReady = true ↔
        dev.nbuffCurr + f.length = notifyPacketSize) := by
  have htaken : (dev.nbuff.take dev.nbuffCurr).length = dev.nbuffCurr := by
    rw [List.length_take, hlength, Nat.min_eq_left hcurr]
  have hle := hstart.length_le
  rw [List.length_append, htaken, hframe.1] at hle
  have hsum : toUInt16 (dev.nbuffCurr + (f.length : ℤ)) =
      dev.nbuffCurr + f.length :=
    toUInt16_add (Int.natCast_nonneg _) (by exact_mod_cast hle)
  have hdata : f.take (f.length : ℤ).toNat = f := by
    rw [Int.toNat_natCast, List.take_length]
  have hcopied : (memcpy dev.nbuff dev.nbuffCurr f).take
      (dev.nbuffCurr + f.length) = dev.nbuff.take dev.nbuffCurr ++ f :=
    take_memcpy (hcurr.trans (Nat.le_of_eq hlength.symm))
  have hcheck := terminalCheck_received
    ({ dev with
      nbuff := memcpy dev.nbuff dev.nbuffCurr f
      nbuffCurr := dev.nbuffCurr + f.length })
    hframe ((length_memcpy (hle.trans (Nat.le_of_eq hlength.symm))).trans
      hlength) hready (by
        dsimp only
        rw [hcopied, List.prefix_iff_eq_take.mp hstart, List.length_append,
          htaken])
  simp only [terminalCopy, hdata, hsum]
  refine ⟨hcheck.1, ?_, hcheck.2.2⟩
  rw [hcheck.1, hcheck.2.1]
  exact hcopied

/-- Copying a fragment into a buffer that it does not fill. -/
theorem terminalCopy_partial (dev : JkBmsDev) {f : List UInt8}
    (hready : dev.nbuffReady = false)
    (hfits : dev.nbuffCurr + f.length < notifyPacketSize) :
    (terminalCopy dev f f.length).2.nbuffCurr = dev.nbuffCurr + f.length ∧
      (terminalCopy dev f f.length).2.nbuffReady = false := by
  have hsum : toUInt16 (dev.nbuffCurr + (f.length : ℤ)) =
      dev.nbuffCurr + f.length :=
    toUInt16_add (Int.natCast_nonneg _) (by exact_mod_cast hfits.le)
  simp only [terminalCopy, hsum]
  rw [terminalCheck_of_ne (Nat.ne_of_lt hfits)]
  exact ⟨rfl, hready⟩

section

variable {dev : JkBmsDev} {val : BtCharacteristicValue}

/-- A fragment that is shorter than the magic is dropped. -/
theorem jkBtProcessTerminal_short
    (hshort : val.data.length < jkNotifyPktStart.length) :
    (jkBtProcessTerminal dev val).2 = dev := by
  simp only [jkBtProcessTerminal]
  rw [if_pos (Int.ofNat_lt.mpr hshort)]
  split
  · rfl
  · split <;> rfl

/-- A fragment that starts with the magic starts a frame. -/
theorem jkBtProcessTerminal_start (hready : dev.nbuffReady = false)
    (hchar : val.charId = dev.jkTermCharc.charId)
    (hlong : jkNotifyPktStart.length ≤ val.data.length)
    (hmagic : val.data.take jkNotifyPktStart.length = jkNotifyPktStart)
    (hsize : val.data.length ≤ notifyPacketSize) :
    (jkBtProcessTerminal dev val).2 =
      (terminalCopy { dev with nbuffCurr := 0 } val.data
        val.data.length).2 := by
  have hnot : ¬dev.nbuffReady = true := by
    rw [hready]
    exact Bool.false_ne_true
  have hcsize : (if (val.data.length : ℤ) < notifyPacketSize then
      (val.data.length : ℤ) else notifyPacketSize) = val.data.length := by
    split <;> omega
  simp only [jkBtProcessTerminal, if_neg hnot, hcsize]
  rw [if_neg (not_not.mpr hchar.symm),
    if_neg (Int.not_lt.mpr (Int.ofNat_le.mpr hlong)), if_pos hmagic]

/-- Any other fragment is appended. -/
theorem jkBtProcessTerminal_next (hready : dev.nbuffReady = false)
    (hchar : val.charId = dev.jkTermCharc.charId)
    (hlong : jkNotifyPktStart.length ≤ val.data.length)
    (hmagic : val.data.take jkNotifyPktStart.length ≠ jkNotifyPktStart)
    (hfits : dev.nbuffCurr + val.data.length ≤ notifyPacketSize) :
    (jkBtProcessTerminal dev val).2 =
      (terminalCopy dev val.data val.data.length).2 := by
  have hnot : ¬dev.nbuffReady = true := by
    rw [hready]
    exact Bool.false_ne_true
  have hcsize : (if (val.data.length : ℤ) < notifyPacketSize - dev.nbuffCurr
      then (val.data.length : ℤ) else notifyPacketSize - dev.nbuffCurr) =
        val.data.length := by
    split <;> omega
  simp only [jkBtProcessTerminal, if_neg hnot, hcsize]
  rw [if_neg (not_not.mpr hchar.symm),
    if_neg (Int.not_lt.mpr (Int.ofNat_le.mpr hlong)), if_neg hmagic]

end

/-- A fragment that starts a frame, received in any state of the buffer. -/
theorem received_first {dev : JkBmsDev} {val : BtCharacteristicValue}
    {frame : List UInt8} (hframe : WholeFrame frame) (hinv : BufferInv dev)
    (hready : dev.nbuffReady = false)
    (hchar : val.charId = dev.jkTermCharc.charId)
    (hlong : jkNotifyPktStart.length ≤ val.data.length)
    (hstart : val.data <+: frame) :
    Received [val.data] (jkBtProcessTerminal dev val).2 := by
  have hmagic : val.data.take jkNotifyPktStart.length = jkNotifyPktStart := by
    rw [List.prefix_iff_eq_take.mp hstart, List.take_take,
      Nat.min_eq_left hlong]
    exact hframe.2.1
  have hsize := hstart.length_le
  rw [hframe.1] at hsize
  have hcopy := terminalCopy_received { dev with nbuffCurr := 0 }
    (f := val.data) hframe hinv.length hready (Nat.zero_le _) (by simpa)
  have hcont : Continued [val.data] := fun _ hf => nomatch hf
  rw [jkBtProcessTerminal_start hready hchar hlong hmagic hsize, Received,
    if_pos hcont, List.flatten_singleton]
  simpa using hcopy

/-- A fragment after others. -/
theorem received_next {dev : JkBmsDev} {val : BtCharacteristicValue}
    {frame : List UInt8} {fs : List (List UInt8)} (hframe : WholeFrame frame)
    (hinv : BufferInv dev) (hready : dev.nbuffReady = false)
    (hchar : val.charId = dev.jkTermCharc.charId)
    (hfs : fs ≠ []) (hpos : 0 < fs.flatten.length)
    (hreceived : Received fs dev)
    (hstart : fs.flatten ++ val.data <+: frame) (hdata : val.data ≠ []) :
    Received (fs ++ [val.data]) (jkBtProcessTerminal dev val).2 := by
  have hsize := hstart.length_le
  rw [List.length_append, hframe.1] at hsize
  have hone : 0 < val.data.length := List.length_pos_iff.mpr hdata
  have hcurr : dev.nbuffCurr ≤ fs.flatten.length := by
    rw [Received] at hreceived
    split at hreceived
    · exact hreceived.1.le
    · exact hreceived.1.le
  have hflat : (fs ++ [val.data]).flatten = fs.flatten ++ val.data := by
    rw [List.flatten_append, List.flatten_singleton]
  have hlen : (fs ++ [val.data]).flatten.length =
      fs.flatten.length + val.data.length := by
    rw [hflat, List.length_append]
  by_cases hshort : val.data.length < jkNotifyPktStart.length
  · -- The fragment is dropped.
    rw [jkBtProcessTerminal_short hshort, Received, if_neg, hlen]
    · exact ⟨by omega, hready⟩
    · exact fun h => absurd ((continued_append hfs _).mp h).2.1
        (Nat.not_le.mpr hshort)
  have hlong := Nat.not_lt.mp hshort
  by_cases hmagic : val.data.take jkNotifyPktStart.length = jkNotifyPktStart
  · -- The fragment starts a new frame.
    obtain ⟨hc, hr⟩ := terminalCopy_partial { dev with nbuffCurr := 0 }
      (f := val.data) hready (by dsimp only; omega)
    rw [jkBtProcessTerminal_start hready hchar hlong hmagic (by omega),
      Received, if_neg, hlen, hc]
    · exact ⟨by dsimp only; omega, hr⟩
    · exact fun h => absurd hmagic ((continued_append hfs _).mp h).2.2
  have hstep := jkBtProcessTerminal_next hready hchar hlong hmagic (by omega)
  have hcont : Continued (fs ++ [val.data]) ↔ Continued fs := by
    rw [continued_append hfs]
    exact and_iff_left ⟨hlong, hmagic⟩
  rw [Received] at hreceived
  by_cases hfits : Continued fs
  · rw [if_pos hfits] at hreceived
    obtain ⟨hc, htake, -⟩ := hreceived
    have hcopy := terminalCopy_received dev (f := val.data) hframe hinv.length
      hready hinv.curr_le (by rwa [htake])
    rw [hstep, Received, if_pos (hcont.mpr hfits), hlen, hflat]
    rw [htake, hc] at hcopy
    exact hcopy
  · rw [if_neg hfits] at hreceived
    obtain ⟨hc, hr⟩ := terminalCopy_partial dev (f := val.data) hready
      (show dev.nbuffCurr + val.data.length < notifyPacketSize by omega)
    rw [hstep, Received, if_neg (mt hcont.mp hfits), hlen, hc]
    exact ⟨by omega, hr⟩

/-! ## Events between the fragments -/

/-- What the fragments of a device depend on. -/
def JkBmsDev.link (dev : JkBmsDev) : BtState × ℤ × ℕ :=
  (dev.state, dev.btIndex, dev.jkTermCharc.charId)

theorem fragment_congr {dev dev' : JkBmsDev} (h : dev'.link = dev.link)
    (i : ℕ) (e : BmsEvent) : fragment i dev' e = fragment i dev e := by
  obtain ⟨-, hrest⟩ := Prod.mk.inj h
  obtain ⟨hindex, hchar⟩ := Prod.mk.inj hrest
  simp only [fragment, hindex, hchar]

theorem terminalCheck_link (dev : JkBmsDev) :
    (terminalCheck dev).link = dev.link := by
  simp only [terminalCheck]
  split
  · split
    · rfl
    · split <;> rfl
  · rfl

theorem terminalCopy_link (dev : JkBmsDev) (data : List UInt8) (csize : ℤ) :
    (terminalCopy dev data csize).2.link = dev.link := by
  simp only [terminalCopy]
  rw [terminalCheck_link]
  rfl

theorem jkBtProcessTerminal_link (dev : JkBmsDev)
    (val : BtCharacteristicValue) :
    (jkBtProcessTerminal dev val).2.link = dev.link := by
  simp only [jkBtProcessTerminal]
  split
  · rfl
  · split
    · rfl
    · split
      · rfl
      · split
        · rw [terminalCopy_link]
          rfl
        · rw [terminalCopy_link]

theorem jkBtEnableSolarTrack_link (scripts : Option ScriptsContext)
    (dev : JkBmsDev) (chargeCurrent : ℤ) :
    (jkBtEnableSolarTrack scripts dev chargeCurrent).link = dev.link := by
  simp only [jkBtEnableSolarTrack]
  split <;> rfl

theorem bmsJkRunOne_calm {dev : JkBmsDev} {now : ℕ} (input : SendInput)
    (h : dev.waitReply = true → subU64 now dev.sendTime ≤ cmdTimeoutMs) :
    (bmsJkRunOne now input dev).link = dev.link ∧
      (bmsJkRunOne now input dev).buffer = dev.buffer := by
  simp only [bmsJkRunOne]
  split
  · exact ⟨rfl, rfl⟩
  · split
    next hwait =>
      rw [if_neg (Nat.not_lt.mpr (h hwait))]
      exact ⟨rfl, rfl⟩
    · split
      · simp only [bmsJkSendRequest]
        exact ⟨rfl, rfl⟩
      · exact ⟨rfl, rfl⟩

variable {cronNext : CronExpr → ℤ → ℤ} {s : BmsSystem} {i : ℕ}
  {dev : JkBmsDev}

/-- The decoder passes over a device that is not ready. -/
theorem bmsJkProcessOne_other (hdev : s.devices[i]? = some dev)
    (hready : dev.nbuffReady = false) (t : BmsTick) (k : ℕ) :
    (bmsJkProcessOne cronNext t s k).devices[i]? = some dev := by
  simp only [bmsJkProcessOne]
  split
  · exact hdev
  next other hother =>
    by_cases hk : k = i
    · subst hk
      obtain rfl := Option.some.inj (hdev.symm.trans hother)
      simp only [bmsJkFrameProcess, if_pos hready]
      exact List.getElem?_set_self (List.getElem?_eq_some_iff.mp hdev).1
    · exact (List.getElem?_set_ne hk).trans hdev

theorem process_other (is : List ℕ) (hdev : s.devices[i]? = some dev)
    (hready : dev.nbuffReady = false) (t : BmsTick) :
    (is.foldl (bmsJkProcessOne cronNext t) s).devices[i]? = some dev := by
  induction is generalizing s with
  | nil => exact hdev
  | cons k is ih => exact ih (bmsJkProcessOne_other hdev hready t k)

/-- A notification of another characteristic, or without a byte. -/
theorem jkBtProcessTerminal_calm {val : BtCharacteristicValue}
    (h : val.charId = dev.jkTermCharc.charId → val.data = []) :
    (jkBtProcessTerminal dev val).2 = dev := by
  by_cases hchar : val.charId = dev.jkTermCharc.charId
  · apply jkBtProcessTerminal_short
    rw [h hchar]
    decide
  · simp only [jkBtProcessTerminal]
    rw [if_pos (Ne.symm hchar)]
    split <;> rfl

theorem jkBtEvent_calm (hdev : s.devices[i]? = some dev) {idx : ℤ}
    {event : BtEvent} (hcalm : Calm i s (.bt i idx event))
    (hnone : fragment i dev (.bt i idx event) = none) :
    (jkBtEvent s.scripts idx event dev).2 = dev := by
  simp only [jkBtEvent]
  split
  · rfl
  next hidx =>
    cases event with
    | newService => rfl
    | valueReceived val =>
        dsimp only
        split
        · apply jkBtProcessTerminal_calm
          intro hchar
          by_contra hdata
          simp [fragment, hchar, hdata, not_not.mp hidx] at hnone
        · rfl
    | connected name now =>
        exact absurd (not_not.mp hidx) (hcalm rfl dev hdev)
    | disconnected =>
        exact absurd (not_not.mp hidx) (hcalm rfl dev hdev)
    | ready now =>
        exact absurd (not_not.mp hidx) (hcalm rfl dev hdev)
    | newCharacteristic charc svc128 =>
        exact absurd (not_not.mp hidx) (hcalm rfl dev hdev)

variable (cronNext) in
/-- What an event that is not a fragment leaves of the device. -/
theorem calm_step (hdev : s.devices[i]? = some dev)
    (hready : dev.nbuffReady = false) {e : BmsEvent} (hcalm : Calm i s e)
    (hnone : fragment i dev e = none) :
    ∃ dev', (s.step cronNext e).devices[i]? = some dev' ∧
      dev'.link = dev.link ∧ dev'.buffer = dev.buffer := by
  have hlt := (List.getElem?_eq_some_iff.mp hdev).1
  cases e with
  | scripts scripts => exact ⟨dev, hdev, rfl, rfl⟩
  | threshold params atNull =>
      simp only [BmsSystem.step, cmdBmsJkSetChargeCurrentThreshold]
      split
      · exact ⟨dev, hdev, rfl, rfl⟩
      next id current _ =>
        split
        · exact ⟨dev, hdev, rfl, rfl⟩
        · split
          · exact ⟨dev, hdev, rfl, rfl⟩
          next other hother =>
            by_cases hid : id.toNat = i
            · subst hid
              obtain rfl := Option.some.inj (hdev.symm.trans hother)
              exact ⟨_, List.getElem?_set_self hlt,
                jkBtEnableSolarTrack_link _ _ _,
                jkBtEnableSolarTrack_buffer _ _ _⟩
            · exact ⟨dev, (List.getElem?_set_ne hid).trans hdev, rfl, rfl⟩
  | tick t =>
      obtain ⟨hlink, hbuffer⟩ := bmsJkRunOne_calm (t.send i) (hcalm dev hdev)
      refine ⟨_, ?_, hlink, hbuffer⟩
      have hready' : (bmsJkRunOne t.now (t.send i) dev).nbuffReady = false :=
        (congrArg (fun b => b.2.2) hbuffer).trans hready
      refine process_other _ ?_ hready' t
      · change (s.devices.mapIdx fun i =>
          bmsJkRunOne t.now (t.send i))[i]? = _
        rw [List.getElem?_mapIdx, hdev]
        rfl
  | bt j idx event =>
      simp only [BmsSystem.step]
      split
      · exact ⟨dev, hdev, rfl, rfl⟩
      next other hother =>
        by_cases hj : j = i
        · subst hj
          obtain rfl := Option.some.inj (hdev.symm.trans hother)
          have hset : ∀ result : List BufferUse × JkBmsDev, result.2 = dev →
              ((s.setDevice j result.2).record j result.1).devices[j]? =
                some dev := by
            intro result hresult
            rw [hresult]
            exact List.getElem?_set_self hlt
          exact ⟨dev, hset _ (jkBtEvent_calm hdev hcalm hnone), rfl, rfl⟩
        · exact ⟨dev, (List.getElem?_set_ne hj).trans hdev, rfl, rfl⟩

/-! ## Runs -/

/-- Device `i` has received the fragments `fs`. -/
def Listening (i : ℕ) (dev : JkBmsDev) (fs : List (List UInt8))
    (s : BmsSystem) : Prop :=
  ∃ dev', s.devices[i]? = some dev' ∧ dev'.link = dev.link ∧
    BufferInv dev' ∧ (fs = [] → dev'.nbuffReady = false) ∧
    (fs ≠ [] → Received fs dev')

/-- A buffer is not ready before the last fragment. -/
theorem Listening.not_ready {fs : List (List UInt8)} {dev' : JkBmsDev}
    (hempty : fs = [] → dev'.nbuffReady = false)
    (hreceived : fs ≠ [] → Received fs dev')
    (hshort : fs.flatten.length < notifyPacketSize) :
    dev'.nbuffReady = false := by
  by_cases hfs : fs = []
  · exact hempty hfs
  · have h := hreceived hfs
    rw [Received] at h
    split at h
    · exact Bool.eq_false_of_not_eq_true
        (mt h.2.2.mp (Nat.ne_of_lt hshort))
    · exact h.2

theorem fragment_some {e : BmsEvent} {f : List UInt8}
    (h : fragment i dev e = some f) :
    ∃ val : BtCharacteristicValue,
      e = .bt i dev.btIndex (.valueReceived val) ∧
        val.charId = dev.jkTermCharc.charId ∧ val.data = f ∧ f ≠ [] := by
  cases e with
  | bt j idx event =>
      cases event with
      | valueReceived val =>
          simp only [fragment] at h
          split at h
          next hval =>
            obtain ⟨rfl, rfl, hchar, hdata⟩ := hval
            obtain rfl := Option.some.inj h
            exact ⟨val, rfl, hchar, rfl, hdata⟩
          · cases h
      | _ => cases h
  | _ => cases h

variable (cronNext) in
/-- What an event does to a device that listens. -/
theorem listening_step {fs : List (List UInt8)} {frame : List UInt8}
    {e : BmsEvent} (hframe : WholeFrame frame) (hstate : dev.state = .ready)
    (hlistening : Listening i dev fs s)
    (hshort : fs.flatten.length < notifyPacketSize)
    (hpos : fs ≠ [] → 0 < fs.flatten.length) (hcalm : Calm i s e)
    (hfirst : fs = [] → ∀ f, fragment i dev e = some f →
      jkNotifyPktStart.length ≤ f.length)
    (hstart : (fs ++ (fragment i dev e).toList).flatten <+: frame) :
    Listening i dev (fs ++ (fragment i dev e).toList)
      (s.step cronNext e) := by
  obtain ⟨dev', hdev, hlink, hinv, hempty, hreceived⟩ := hlistening
  have hready := Listening.not_ready hempty hreceived hshort
  cases hfragment : fragment i dev e with
  | none =>
      obtain ⟨dev'', hdev', hlink', hbuffer⟩ :=
        calm_step cronNext hdev hready hcalm
          ((fragment_congr hlink i e).trans hfragment)
      obtain ⟨hbuff, hrest⟩ := Prod.mk.inj hbuffer
      obtain ⟨hcurr, hsame⟩ := Prod.mk.inj hrest
      rw [Option.toList_none, List.append_nil]
      refine ⟨dev'', hdev', hlink'.trans hlink, hinv.congr hbuffer, ?_, ?_⟩
      · exact fun h => hsame.trans (hempty h)
      · intro h
        rw [Received, hbuff, hcurr, hsame]
        exact hreceived h
  | some f =>
      obtain ⟨val, rfl, hchar, rfl, hdata⟩ := fragment_some hfragment
      obtain ⟨hst, hrest⟩ := Prod.mk.inj hlink
      obtain ⟨hindex, hcharId⟩ := Prod.mk.inj hrest
      rw [hfragment, Option.toList_some] at hstart
      have hchar' := hchar.trans hcharId.symm
      have hevent : jkBtEvent s.scripts dev.btIndex (.valueReceived val) dev' =
          jkBtProcessTerminal dev' val := by
        simp only [jkBtEvent, hindex, ne_eq, not_true_eq_false, if_false]
        exact if_pos (hst.trans hstate)
      refine ⟨(jkBtProcessTerminal dev' val).2, ?_,
        (jkBtProcessTerminal_link dev' val).trans hlink,
        (jkBtProcessTerminal_inv hinv val).1, ?_, fun _ => ?_⟩
      · simp only [BmsSystem.step, hdev, hevent]
        exact List.getElem?_set_self (List.getElem?_eq_some_iff.mp hdev).1
      · exact fun h => absurd (List.append_eq_nil_iff.mp h).2 (List.cons_ne_nil _ _)
      · rw [Option.toList_some]
        by_cases hfs : fs = []
        · subst hfs
          exact received_first hframe hinv hready hchar'
            (hfirst rfl _ hfragment) (by simpa using hstart)
        · rw [List.flatten_append, List.flatten_singleton] at hstart
          exact received_next hframe hinv hready hchar' hfs (hpos hfs)
            (hreceived hfs) hstart hdata

/-- The event is the last one and brings the last fragment, or there are other
events and the last of them does. -/
def EndsWithFragment (i : ℕ) (dev : JkBmsDev) (es : List BmsEvent) : Prop :=
  ∃ e ∈ es.getLast?, (fragment i dev e).isSome

theorem flatten_pos {gs : List (List UInt8)} {f : List UInt8} (hf : f ∈ gs)
    (hne : f ≠ []) : 0 < gs.flatten.length :=
  List.length_pos_iff.mpr fun h => hne (List.flatten_eq_nil_iff.mp h f hf)

theorem EndsWithFragment.pos {es : List BmsEvent}
    (h : EndsWithFragment i dev es) :
    0 < (fragments i dev es).flatten.length := by
  obtain ⟨e, he, hsome⟩ := h
  obtain ⟨f, hf⟩ := Option.isSome_iff_exists.mp hsome
  obtain ⟨-, -, -, -, hne⟩ := fragment_some hf
  exact flatten_pos
    (List.mem_filterMap.mpr ⟨e, List.mem_of_mem_getLast? he, hf⟩) hne

theorem listening_run {fs : List (List UInt8)} {frame : List UInt8}
    {es : List BmsEvent} (hframe : WholeFrame frame)
    (hstate : dev.state = .ready) (hlistening : Listening i dev fs s)
    (hne : ∀ f ∈ fs, f ≠ [])
    (hcalm : (BmsSystem.machine cronNext).Along (Calm i) s es)
    (hflat : (fs ++ fragments i dev es).flatten = frame)
    (hfirst : ∀ f ∈ (fs ++ fragments i dev es).head?,
      jkNotifyPktStart.length ≤ f.length)
    (hlast : es = [] ∨ EndsWithFragment i dev es) :
    Listening i dev (fs ++ fragments i dev es)
      ((BmsSystem.machine cronNext).run s es) := by
  induction es generalizing s fs with
  | nil =>
      rw [fragments, List.filterMap_nil, List.append_nil]
      exact hlistening
  | cons e es ih =>
      have hends := hlast.resolve_left (List.cons_ne_nil _ _)
      have hpos := hends.pos
      have hsplit : fs ++ fragments i dev (e :: es) =
          fs ++ (fragment i dev e).toList ++ fragments i dev es := by
        rw [List.append_assoc]
        congr 1
        simp only [fragments, List.filterMap_cons]
        cases fragment i dev e <;> rfl
      have hshort : fs.flatten.length < notifyPacketSize := by
        rw [← hframe.1, ← hflat, List.flatten_append, List.length_append]
        omega
      have hstep := listening_step cronNext (e := e) hframe
        hstate hlistening hshort
        (fun h => by
          obtain ⟨f, fs, rfl⟩ := List.exists_cons_of_ne_nil h
          exact flatten_pos List.mem_cons_self (hne f List.mem_cons_self))
        hcalm.1
        (fun h f hf => by
          subst h
          refine hfirst f ?_
          rw [hsplit, hf]
          rfl)
        ⟨(fragments i dev es).flatten, by
          rw [← List.flatten_append, ← hsplit, hflat]⟩
      rw [hsplit] at hflat hfirst ⊢
      refine ih hstep ?_ hcalm.2 hflat hfirst ?_
      · intro f hf
        rcases List.mem_append.mp hf with hf | hf
        · exact hne f hf
        · obtain ⟨-, -, -, -, hf⟩ := fragment_some (Option.mem_toList.mp hf)
          exact hf
      · cases es with
        | nil => exact Or.inl rfl
        | cons e' es =>
            obtain ⟨x, hx, hsome⟩ := hends
            exact Or.inr ⟨x, by rwa [List.getLast?_cons_cons] at hx, hsome⟩

/-! ## The main result -/

/-- A device that is ready and has no frame pending receives the fragments of a
frame, the first with the whole magic, and no reply times out.  After the last
of them the frame is ready in the buffer exactly when the other fragments have
the length of the magic at least and do not start with it. -/
theorem frame_reassembled (cronNext : CronExpr → ℤ → ℤ)
    (scripts : Option ScriptsContext) (btIndex : ℕ → ℤ)
    (configs : List BmsConfig) (before es : List BmsEvent) (i : ℕ)
    (dev : JkBmsDev) (frame : List UInt8)
    (hdev : ((BmsSystem.machine cronNext).run
      (BmsSystem.init scripts btIndex configs) before).devices[i]? = some dev)
    (hstate : dev.state = .ready) (hpending : dev.nbuffReady = false)
    (hframe : WholeFrame frame)
    (hcalm : (BmsSystem.machine cronNext).Along (Calm i)
      ((BmsSystem.machine cronNext).run
        (BmsSystem.init scripts btIndex configs) before) es)
    (hsplit : (fragments i dev es).flatten = frame)
    (hfirst : ∀ f ∈ (fragments i dev es).head?,
      jkNotifyPktStart.length ≤ f.length)
    (hlast : EndsWithFragment i dev es) :
    (∃ dev', ((BmsSystem.machine cronNext).run
        (BmsSystem.init scripts btIndex configs)
        (before ++ es)).devices[i]? = some dev' ∧
      dev'.nbuffReady = true ∧ dev'.nbuff = frame) ↔
        Continued (fragments i dev es) := by
  have hinv : SystemInv ((BmsSystem.machine cronNext).run
      (BmsSystem.init scripts btIndex configs) before) :=
    EventMachine.invariant (I := SystemInv) (fun s e h => h.step e)
      (init_inv scripts btIndex configs) before
  have hbuffer := hinv.buffer dev (List.mem_of_getElem? hdev)
  obtain ⟨dev', hdev', -, hinv', -, hreceived⟩ := listening_run hframe hstate
    ⟨dev, hdev, rfl, hbuffer, fun _ => hpending, fun h => (h rfl).elim⟩
    (fun _ h => nomatch h) hcalm hsplit hfirst (Or.inr hlast)
  have hne : fragments i dev es ≠ [] := by
    intro h
    have hpos := hlast.pos
    rw [h] at hpos
    exact Nat.lt_irrefl 0 hpos
  have hfull : (fragments i dev es).flatten.length = notifyPacketSize := by
    rw [hsplit]
    exact hframe.1
  have h := hreceived hne
  rw [List.nil_append, Received] at h
  rw [EventMachine.run_append, hdev']
  split at h
  next hcont =>
    obtain ⟨hcurr, htake, hready⟩ := h
    refine ⟨fun _ => hcont, fun _ => ⟨dev', rfl, hready.mpr hfull, ?_⟩⟩
    rw [hcurr, hfull, List.take_of_length_le (Nat.le_of_eq hinv'.length)]
      at htake
    exact htake.trans hsplit
  next hcont =>
    constructor
    · rintro ⟨dev'', hsame, hready, -⟩
      obtain rfl := Option.some.inj hsame
      exact absurd (h.2.symm.trans hready) Bool.false_ne_true
    · exact fun hfits => (hcont hfits).elim

/-- A frame without data. -/
def plainFrame : List UInt8 :=
  jkNotifyPktStart ++ List.replicate 295 0 ++ [0x7A]

/-- One device. -/
def oneBms : BmsSystem :=
  BmsSystem.init none (fun _ => 65536) [⟨some [66], 0, none, none⟩]

/-- The device is connected, its terminal is found, and it is ready. -/
def oneReady : List BmsEvent :=
  [.bt 0 65536 (.connected [49] 10),
    .bt 0 65536 (.newCharacteristic ⟨7, terminalCharcRead⟩ (some terminalSvc)),
    .bt 0 65536 (.ready 20)]

/-- A notification of the terminal. -/
def notification (data : List UInt8) : BmsEvent :=
  .bt 0 65536 (.valueReceived ⟨7, data⟩)

/-- A frame whose last two bytes come in a notification of their own is not
received, and neither is one whose second notification starts with the magic
that stands in its data. -/
theorem short_fragment_lost :
    (WholeFrame plainFrame ∧
      ((BmsSystem.machine fun _ t => t).run oneBms
        (oneReady ++ [notification (plainFrame.take 298),
          notification (plainFrame.drop 298)])).devices.map
            JkBmsDev.nbuffReady = [false]) ∧
      WholeFrame (jkNotifyPktStart ++ jkNotifyPktStart ++
        List.replicate 291 0 ++ [0xF4]) ∧
      ((BmsSystem.machine fun _ t => t).run oneBms
        (oneReady ++ [notification jkNotifyPktStart,
          notification (jkNotifyPktStart ++ List.replicate 291 0 ++
            [0xF4])])).devices.map JkBmsDev.nbuffReady = [false] := by
  decide +kernel

/-- The device of `oneBms` when it is ready. -/
def oneDev : JkBmsDev :=
  { JkBmsDev.cleared (some [66]) 65536 0 with
    name := some [49]
    lastReply := 20
    state := .ready
    jkTermCharc :=
      { valid := true, charId := 7, sendTime := 0, notify := false } }

/-- A round at 25 ms. -/
def oneTick : BmsTick where
  now := 25
  send := fun _ => ⟨true, true, 25, 25⟩
  frame := fun _ => ⟨⟨25, none⟩, 25, ⟨25, none⟩, 25⟩
  timeoutNow := 25

/-- A frame in two halves with a round in between. -/
def halves : List BmsEvent :=
  [notification (plainFrame.take 150), .tick oneTick,
    notification (plainFrame.drop 150)]

theorem frame_reassembled_halves :
    ∃ dev', ((BmsSystem.machine fun _ t => t).run oneBms
        (oneReady ++ halves)).devices[0]? = some dev' ∧
      dev'.nbuffReady = true ∧ dev'.nbuff = plainFrame := by
  have hsplit : fragments 0 oneDev halves =
      [plainFrame.take 150, plainFrame.drop 150] := by decide +kernel
  have hcalm : (BmsSystem.machine fun _ t => t).Along (Calm 0)
      ((BmsSystem.machine fun _ t => t).run oneBms oneReady) halves := by
    refine ⟨trivial, ?_, trivial, trivial⟩
    intro dev hdev _
    obtain rfl := Option.some.inj hdev
    decide +kernel
  refine (frame_reassembled (fun _ t => t) none (fun _ => 65536)
    [⟨some [66], 0, none, none⟩] oneReady halves 0 oneDev plainFrame rfl rfl
    rfl (by decide +kernel) hcalm ?_ ?_ ?_).mpr ?_
  · rw [hsplit]
    decide +kernel
  · rw [hsplit]
    decide +kernel
  · exact ⟨notification (plainFrame.drop 150), rfl, by decide +kernel⟩
  · rw [hsplit]
    decide +kernel

end Herak.BmsJk
