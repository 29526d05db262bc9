import Herak.Thermostat.System

/-!
# The hysteresis automaton

The reference for a thermostat is an automaton whose only state is the relay
state that it has last commanded or seen.  The field `ssr_state` of a device is
that state over every run, so that each round of an enabled device commands
what the automaton does.
-/

namespace Herak.Thermostat

open BinaryFloat CFloat CString Ssr

/-! ## The automaton -/

/-- What the automaton commands: off when the sensor cannot be read or the
reading is at the upper threshold, on at the lower one, and no change between
them. -/
def hysteresis (onT offT : CFloat32) (reading : Option CFloat32)
    (last : Bool) : Bool :=
  match reading with
  | none => false
  | some t =>
      if offT.le t then false
      else if t.le onT && t.lt offT then true
      else last

namespace RelayCall

/-- The device that made the call. -/
def dev : RelayCall → ℕ
  | .ran dev _ _ _ _ => dev
  | .disabled dev => dev
  | .readBack dev _ => dev

/-- The relay state that was commanded or read back. -/
def state : RelayCall → Bool
  | .ran _ _ _ _ state => state
  | .disabled _ => false
  | .readBack _ state => state

/-- A run commands what the automaton does after the state `last`, and on only
with a reading that is below the upper threshold. -/
def Obeys (last : Bool) : RelayCall → Prop
  | .ran _ reading onT offT state =>
      (onT.le offT = true → state = hysteresis onT offT reading last) ∧
        (state = true → ∃ t, reading = some t ∧ offT.le t = false)
  | _ => True

end RelayCall

/-- The state that a device has last commanded or read back; off before the
first call. -/
def lastState (i : ℕ) (log : List RelayCall) : Bool :=
  ((log.filter (·.dev = i)).getLast?.map RelayCall.state).getD false

/-- Every run of a device obeys the automaton. -/
def Conforms (i : ℕ) (log : List RelayCall) : Prop :=
  ∀ before call after, log = before ++ call :: after → call.dev = i →
    call.Obeys (lastState i before)

theorem lastState_append (i : ℕ) (log : List RelayCall) (call : RelayCall) :
    lastState i (log ++ [call]) =
      if call.dev = i then call.state else lastState i log := by
  by_cases h : call.dev = i
  · simp [lastState, h]
  · simp [lastState, h]

theorem conforms_append {i : ℕ} {log : List RelayCall} {call : RelayCall}
    (h : Conforms i log) (hcall : call.dev = i → call.Obeys (lastState i log)) :
    Conforms i (log ++ [call]) := by
  intro before call' after hsplit hdev
  rcases List.eq_nil_or_concat after with rfl | ⟨init, last, rfl⟩
  · obtain ⟨rfl, hsame⟩ := List.append_inj' hsplit rfl
    obtain rfl := List.singleton_inj.mp hsame
    exact hcall hdev
  · have hlog : log ++ [call] = (before ++ call' :: init) ++ [last] := by
      rw [hsplit]
      simp
    obtain ⟨rfl, -⟩ := List.append_inj' hlog rfl
    exact h before call' init rfl hdev

/-! ## The invariant -/

/-- The relay is one of the configuration. -/
def Configured (ssr : SsrState) (id : ℕ) : Prop :=
  ∃ h : id < maxSsrCount, (ssr.relays ⟨id, h⟩).isSome

/-- The devices with a relay remember its last state, and have obeyed the
automaton. -/
def InSync (s : ThermSystem) : Prop :=
  ∀ i dev, s.ctx.devices[i]? = some dev → Configured s.ssr dev.ssrId →
    dev.ssrState = lastState i s.log ∧ Conforms i s.log

theorem ssrStateSet_configured (s : SsrState) (id : ℕ) (state : Bool)
    (time delay clock k : ℕ) :
    Configured (ssrStateSet s id state time delay clock).2 k ↔
      Configured s k := by
  refine exists_congr fun hk => ?_
  by_cases hid : id < maxSsrCount
  · by_cases heq : k = id
    · subst heq
      cases hr : s.relays ⟨k, hk⟩ with
      | none => rw [ssrStateSet_none hr, hr]
      | some r => simp [ssrStateSet_relays_self hr]
    · rw [ssrStateSet_relays_of_ne s heq]
  · simp [ssrStateSet, hid]

theorem ssrApiStateSet_configured (s : SsrState) (id : ℕ) (state : Bool)
    (time delay clock k : ℕ) :
    Configured (ssrApiStateSet s id state time delay clock).2 k ↔
      Configured s k :=
  ssrStateSet_configured s id (s.level state) time delay clock k

theorem ssrResetAll_configured (s : SsrState) (clock : RelayIdx → ℕ) (k : ℕ) :
    Configured (ssrResetAll s clock) k ↔ Configured s k := by
  have hfold : ∀ (is : List RelayIdx) (s : SsrState),
      Configured (is.foldl (fun s i => ssrResetRelay (clock i) s i) s) k ↔
        Configured s k := by
    intro is
    induction is with
    | nil => exact fun _ => Iff.rfl
    | cons i is ih =>
        intro s
        refine (ih _).trans (exists_congr fun hk => ?_)
        by_cases hi : (⟨k, hk⟩ : RelayIdx) = i
        · subst hi
          cases hr : s.relays ⟨k, hk⟩ <;> simp [ssrResetRelay, hr]
        · rw [resetRelay_relays_of_ne s hi]
  exact hfold _ s

theorem cmdSsrSetState_configured (s : SsrState) (params : CStr)
    (clock k : ℕ) :
    Configured (cmdSsrSetState s params clock).2 k ↔ Configured s k := by
  simp only [cmdSsrSetState]
  split
  · rfl
  · exact ssrStateSet_configured _ _ _ _ _ _ _

/-- The relays of the configuration stay. -/
theorem ssrStep_configured (s : SsrState) (e : SsrEvent) (k : ℕ) :
    Configured (SsrSession.step ⟨s, 0⟩ e).ssr k ↔ Configured s k := by
  cases e with
  | poll now clock =>
      refine exists_congr fun hk => ?_
      simp only [SsrSession.step, ssrRun_relays, Option.isSome_map]
  | set params clock =>
      simp only [SsrSession.step, cmdSsrSet]
      split
      · rfl
      · split <;> exact cmdSsrSetState_configured s params clock k
  | api id state time delay clock => exact ssrApiStateSet_configured _ _ _ _ _ _ _
  | reset clock => exact ssrResetAll_configured s clock k

theorem ssrApiStateSet_of_configured {s : SsrState} {id : ℕ}
    (h : Configured s id) (state : Bool) (time delay clock : ℕ) :
    (ssrApiStateSet s id state time delay clock).1 = 0 := by
  obtain ⟨hid, hsome⟩ := h
  obtain ⟨r, hr⟩ := Option.isSome_iff_exists.mp hsome
  rw [ssrApiStateSet, ssrStateSet_some (i := ⟨id, hid⟩) hr]

/-- What one call does to the device that makes it, and to no other. -/
theorem InSync.call {s s' : ThermSystem} {i : ℕ} {dev dev' : ThermDevice}
    {call : RelayCall} (h : InSync s) (hdev : s.ctx.devices[i]? = some dev)
    (hdevices : s'.ctx.devices = s.ctx.devices.set i dev')
    (hid : dev'.ssrId = dev.ssrId)
    (hssr : ∀ k, Configured s'.ssr k ↔ Configured s.ssr k)
    (hlog : s'.log = s.log ++ [call]) (hcall : call.dev = i)
    (hstate : Configured s.ssr dev.ssrId → dev'.ssrState = call.state ∧
      call.Obeys dev.ssrState) : InSync s' := by
  intro j d hd hconf
  rw [hdevices] at hd
  rw [hssr] at hconf
  rw [hlog, lastState_append]
  by_cases hj : i = j
  · subst hj
    have hlt := (List.getElem?_eq_some_iff.mp hdev).1
    rw [List.getElem?_set_self hlt] at hd
    obtain rfl := Option.some.inj hd
    rw [hid] at hconf
    obtain ⟨hlast, hconforms⟩ := h i dev hdev hconf
    obtain ⟨hsame, hobeys⟩ := hstate hconf
    rw [if_pos hcall]
    exact ⟨hsame, conforms_append hconforms fun _ => hlast ▸ hobeys⟩
  · rw [List.getElem?_set_ne hj] at hd
    obtain ⟨hlast, hconforms⟩ := h j d hd hconf
    have hother : ¬call.dev = j := fun heq => hj (hcall.symm.trans heq)
    rw [if_neg hother]
    exact ⟨hlast, conforms_append hconforms fun heq => (hother heq).elim⟩

/-- A change without a call keeps what the device remembers. -/
theorem InSync.silent {s s' : ThermSystem} (h : InSync s)
    (hdevices : ∀ (i : ℕ) (dev' : ThermDevice),
      s'.ctx.devices[i]? = some dev' → ∃ dev : ThermDevice,
      s.ctx.devices[i]? = some dev ∧ dev'.ssrId = dev.ssrId ∧
        (Configured s.ssr dev.ssrId → dev'.ssrState = dev.ssrState))
    (hssr : ∀ k, Configured s'.ssr k ↔ Configured s.ssr k)
    (hlog : s'.log = s.log) : InSync s' := by
  intro i dev' hdev' hconf
  obtain ⟨dev, hdev, hid, hstate⟩ := hdevices i dev' hdev'
  rw [hssr, hid] at hconf
  rw [hlog, hstate hconf]
  exact h i dev hdev hconf

theorem InSync.setDevice {s : ThermSystem} {i : ℕ} {dev dev' : ThermDevice}
    (h : InSync s) (hdev : s.ctx.devices[i]? = some dev)
    (hid : dev'.ssrId = dev.ssrId)
    (hstate : Configured s.ssr dev.ssrId → dev'.ssrState = dev.ssrState) :
    InSync (s.setDevice i dev') := by
  refine h.silent (fun j d hd => ?_) (fun _ => Iff.rfl) rfl
  change (s.ctx.devices.set i dev')[j]? = some d at hd
  by_cases hj : i = j
  · subst hj
    have hlt := (List.getElem?_eq_some_iff.mp hdev).1
    rw [List.getElem?_set_self hlt] at hd
    obtain rfl := Option.some.inj hd
    exact ⟨dev, hdev, hid, hstate⟩
  · rw [List.getElem?_set_ne hj] at hd
    exact ⟨d, hd, rfl, fun _ => rfl⟩

/-! ## The steps -/

theorem ssrApiStateGet_none {s : SsrState} {id : ℕ}
    (h : ssrApiStateGet s id = none) : ¬Configured s id := by
  rintro ⟨hid, hsome⟩
  simp only [ssrApiStateGet, dif_pos hid, Option.map_eq_none_iff] at h
  rw [h] at hsome
  exact Bool.false_ne_true hsome

theorem thermSensorRead_spec (sensors : Sensors) (dev : ThermDevice) :
    ∃ tempId, (thermSensorRead sensors dev).2 = { dev with tempId := tempId } := by
  simp only [thermSensorRead]
  split
  · exact ⟨dev.tempId, rfl⟩
  · exact ⟨dev.tempId, rfl⟩
  · exact ⟨dev.tempId, rfl⟩
  · by_cases hid : dev.tempId = 65535
    · exact ⟨_, by rw [if_pos hid]⟩
    · exact ⟨dev.tempId, by rw [if_neg hid]⟩

/-- What is read does not depend on the last reading. -/
theorem thermSensorRead_validT (sensors : Sensors) (dev : ThermDevice)
    (valid : Bool) :
    (thermSensorRead sensors { dev with validT := valid }).1 =
      (thermSensorRead sensors dev).1 := by
  simp only [thermSensorRead]
  split
  · rfl
  · rfl
  · rfl
  · by_cases hid : dev.tempId = 65535
    · simp only [if_pos hid]
    · simp only [if_neg hid]

/-- Reading changes what is known of the temperature only. -/
theorem thermDeviceReadTemperature_spec (sensors : Sensors)
    (dev : ThermDevice) :
    ∃ tempId currentT valid,
      thermDeviceReadTemperature sensors dev =
          (valid,
            { dev with
              tempId := tempId, currentT := currentT, validT := valid }) ∧
        (if valid then some currentT else none) =
          (thermSensorRead sensors dev).1 := by
  obtain ⟨tempId, hread⟩ :=
    thermSensorRead_spec sensors { dev with validT := false }
  rw [← thermSensorRead_validT sensors dev false]
  simp only [thermDeviceReadTemperature]
  split
  next dev' heq =>
    rw [heq] at hread
    subst hread
    exact ⟨tempId, dev.currentT, false, rfl, (congrArg Prod.fst heq).symm⟩
  next t dev' heq =>
    rw [heq] at hread
    subst hread
    exact ⟨tempId, t, true, rfl, (congrArg Prod.fst heq).symm⟩

/-- The command of a round is that of the automaton. -/
theorem thermCommand_obeys (dev : ThermDevice) {valid : Bool} {idx : ℕ}
    (hvalid : dev.validT = valid) :
    (RelayCall.ran idx (if valid then some dev.currentT else none) dev.onT
      dev.offT (thermCommand valid dev)).Obeys dev.ssrState := by
  cases valid with
  | false => exact ⟨fun _ => rfl, fun hon => (Bool.false_ne_true hon).elim⟩
  | true =>
      simp only [RelayCall.Obeys, thermCommand, hvalid, and_self, if_true,
        hysteresis]
      by_cases hoff : dev.offT.le dev.currentT = true
      · rw [if_pos hoff, if_pos hoff]
        exact ⟨fun _ => rfl, fun hon => (Bool.false_ne_true hon).elim⟩
      · rw [if_neg hoff, if_neg hoff]
        refine ⟨fun hordered => ?_,
          fun _ => ⟨dev.currentT, rfl, Bool.eq_false_iff.mpr hoff⟩⟩
        by_cases hlow : dev.currentT.le dev.onT = true
        · have hlt := Value.lt_of_not_le (Value.ne_nan_of_le hordered).2
            (Value.ne_nan_of_le hlow).1 hoff
          rw [if_pos hlow, if_pos (by simp [hlow, hlt])]
        · rw [if_neg hlow, if_neg (by simp [hlow])]

/-- The round of an enabled device. -/
theorem thermDeviceRun_enabled {s : ThermSystem} {idx : ℕ} {dev : ThermDevice}
    (sensors : Sensors) (clock : ℕ) (hdev : s.ctx.devices[idx]? = some dev)
    (henable : dev.enable = true) :
    let reading := (thermSensorRead sensors dev).1
    ∃ state dev',
      thermDeviceRun s idx sensors clock =
          ((ssrApiStateSet s.ssr dev.ssrId state 0 0 clock).1,
            { (s.setDevice idx dev').record
                (.ran idx reading dev.onT dev.offT state) with
              ssr := (ssrApiStateSet s.ssr dev.ssrId state 0 0 clock).2 }) ∧
        dev'.settings = dev.settings ∧
        (Configured s.ssr dev.ssrId → dev'.ssrState = state) ∧
        (RelayCall.ran idx reading dev.onT dev.offT state).Obeys
          dev.ssrState := by
  obtain ⟨tempId, currentT, valid, hread, hreading⟩ :=
    thermDeviceReadTemperature_spec sensors dev
  have hon : ¬dev.enable = false := by simp [henable]
  simp only [thermDeviceRun, hdev, if_neg hon, hread, ← hreading]
  refine ⟨_, _, rfl, ?_, fun hconf => ?_, ?_⟩
  · split <;> rfl
  · rw [ssrApiStateSet_of_configured hconf]
    simp only [true_and]
    split
    · rfl
    next hsame => exact (not_ne_iff.mp hsame).symm
  · exact thermCommand_obeys
      { dev with tempId := tempId, currentT := currentT, validT := valid } rfl

/-- A disabled device reads its relay back. -/
theorem thermDeviceRun_disabled {s : ThermSystem} {idx : ℕ} {dev : ThermDevice}
    (sensors : Sensors) (clock : ℕ) (hdev : s.ctx.devices[idx]? = some dev)
    (henable : dev.enable = false) :
    (thermDeviceRun s idx sensors clock).2 = s ∨
      ∃ state dev', (thermDeviceRun s idx sensors clock).2 =
          (s.setDevice idx dev').record (.readBack idx state) ∧
        dev'.settings = dev.settings ∧ dev'.ssrState = state := by
  simp only [thermDeviceRun, hdev, if_pos henable]
  split
  · exact Or.inl rfl
  next state _ _ _ =>
    refine Or.inr ⟨state, _, rfl, ?_, ?_⟩
    · split <;> rfl
    · split
      · rfl
      next hsame => exact (not_ne_iff.mp hsame).symm

theorem InSync.thermDeviceRun {s : ThermSystem} (h : InSync s) (idx : ℕ)
    (sensors : Sensors) (clock : ℕ) :
    InSync (thermDeviceRun s idx sensors clock).2 := by
  cases hdev : s.ctx.devices[idx]? with
  | none =>
      simp only [Thermostat.thermDeviceRun, hdev]
      exact h
  | some dev =>
      cases henable : dev.enable with
      | false =>
          rcases thermDeviceRun_disabled sensors clock hdev henable with
            hsame | ⟨state, dev', hrun, hsettings, hstate⟩
          · rw [hsame]
            exact h
          · rw [hrun]
            exact h.call hdev rfl (congrArg Prod.fst hsettings)
              (fun _ => Iff.rfl) rfl rfl fun _ => ⟨hstate, trivial⟩
      | true =>
          obtain ⟨state, dev', hrun, hsettings, hstate, hobeys⟩ :=
            thermDeviceRun_enabled sensors clock hdev henable
          rw [hrun]
          exact h.call hdev rfl (congrArg Prod.fst hsettings)
            (ssrApiStateSet_configured _ _ _ _ _ _) rfl rfl
            fun hconf => ⟨hstate hconf, hobeys⟩

theorem InSync.thermMqttDviceSend {s : ThermSystem} (h : InSync s) (idx : ℕ)
    (published : Bool) : InSync (thermMqttDviceSend s idx published) := by
  simp only [Thermostat.thermMqttDviceSend]
  split
  · exact h
  next dev hdev =>
    split
    next hnone =>
      exact h.setDevice hdev rfl fun hconf =>
        (ssrApiStateGet_none hnone hconf).elim
    next state _ _ _ =>
      exact h.call hdev rfl rfl
        (fun _ => Iff.rfl) rfl rfl fun _ => ⟨rfl, trivial⟩

theorem InSync.thermMqttSend {s : ThermSystem} (h : InSync s) (now : ℕ)
    (published : Bool) : InSync (thermMqttSend s now published) := by
  simp only [Thermostat.thermMqttSend]
  split
  next i _ =>
    exact InSync.thermMqttDviceSend
      (s := { s with ctx := { s.ctx with sendIdx := i + 1 } }) h i published
  · split
    · exact h
    · refine InSync.silent h (fun i dev' hdev' => ?_) (fun _ => Iff.rfl) rfl
      change (s.ctx.devices.map fun dev =>
        ({ dev with force := true } : ThermDevice))[i]? = some dev' at hdev'
      rw [List.getElem?_map] at hdev'
      obtain ⟨dev, hdev, rfl⟩ := Option.map_eq_some_iff.mp hdev'
      exact ⟨dev, hdev, rfl, fun _ => rfl⟩

theorem InSync.foldl {f : ThermSystem → ℕ → ThermSystem}
    (hf : ∀ s i, InSync s → InSync (f s i)) {s : ThermSystem} (h : InSync s)
    (is : List ℕ) : InSync (is.foldl f s) := by
  induction is generalizing s with
  | nil => exact h
  | cons i is ih => exact ih (hf s i h)

theorem InSync.thermRun {s : ThermSystem} (h : InSync s) (t : ThermTick) :
    InSync (thermRun s t) := by
  have hsend := h.thermMqttSend t.sendNow t.published
  simp only [Thermostat.thermRun]
  split
  · exact hsend
  · exact InSync.foldl (fun s i hs => hs.thermDeviceRun i _ _) hsend _

theorem InSync.thermSetStateOne {s : ThermSystem} (h : InSync s) (i : ℕ)
    (state : Bool) (clock : ℕ) : InSync (thermSetStateOne s i state clock) := by
  simp only [Thermostat.thermSetStateOne]
  split
  · exact h
  next dev hdev =>
    split
    · exact h.call hdev rfl rfl
        (ssrApiStateSet_configured _ _ _ _ _ _) rfl rfl
        fun _ => ⟨rfl, trivial⟩
    · split
      next hnone =>
        exact h.setDevice hdev rfl fun hconf =>
          (ssrApiStateGet_none hnone hconf).elim
      next on _ _ _ =>
        exact h.call hdev rfl rfl
          (fun _ => Iff.rfl) rfl rfl fun _ => ⟨rfl, trivial⟩

theorem InSync.thermSetState {s : ThermSystem} (h : InSync s) (idx : ℤ)
    (state : Bool) (clock : ℕ → ℕ) :
    InSync (thermSetState s idx state clock).2 := by
  simp only [Thermostat.thermSetState]
  split
  · split
    · exact h.thermSetStateOne _ _ _
    · exact h
  · exact InSync.foldl (fun s i hs => hs.thermSetStateOne i _ _) h _

theorem thermTemperatures_kept {dev dev' : ThermDevice}
    {temperature : CFloat32} {hist : Bool}
    (h : thermTemperatures dev temperature hist = some dev') :
    dev'.ssrId = dev.ssrId ∧ dev'.ssrState = dev.ssrState := by
  simp only [thermTemperatures] at h
  split at h
  · split at h
    · cases h
    · obtain rfl := Option.some.inj h
      exact ⟨rfl, rfl⟩
  · split at h
    · cases h
    · obtain rfl := Option.some.inj h
      exact ⟨rfl, rfl⟩

theorem thermSetTemperatures_kept (ctx : ThermContext) (idx : ℤ)
    (temperature : CFloat32) (hist : Bool) (i : ℕ) (dev' : ThermDevice)
    (h : (thermSetTemperatures ctx idx temperature hist).2.devices[i]? =
      some dev') :
    ∃ dev : ThermDevice, ctx.devices[i]? = some dev ∧
      dev'.ssrId = dev.ssrId ∧ dev'.ssrState = dev.ssrState := by
  simp only [thermSetTemperatures] at h
  split at h
  · exact ⟨dev', h, rfl, rfl⟩
  · split at h
    · exact ⟨dev', h, rfl, rfl⟩
    next dev hdev =>
      split at h
      · exact ⟨dev', h, rfl, rfl⟩
      next dev'' hdev'' =>
        have hset : (ctx.devices.set idx.toNat dev'')[i]? = some dev' := h
        by_cases hi : idx.toNat = i
        · subst hi
          have hlt := (List.getElem?_eq_some_iff.mp hdev).1
          rw [List.getElem?_set_self hlt] at hset
          obtain rfl := Option.some.inj hset
          exact ⟨dev, hdev, thermTemperatures_kept hdev''⟩
        · rw [List.getElem?_set_ne hi] at hset
          exact ⟨dev', hset, rfl, rfl⟩

theorem cmdThermTemperatures_kept (ctx : ThermContext) (params : CStr)
    (hist : Bool) (i : ℕ) (dev' : ThermDevice)
    (h : (cmdThermTemperatures ctx params hist).2.devices[i]? = some dev') :
    ∃ dev : ThermDevice, ctx.devices[i]? = some dev ∧
      dev'.ssrId = dev.ssrId ∧ dev'.ssrState = dev.ssrState := by
  simp only [cmdThermTemperatures, cmdThermSetTemperature] at h
  split at h
  · exact ⟨dev', h, rfl, rfl⟩
  · split at h
    · exact ⟨dev', h, rfl, rfl⟩
    · exact thermSetTemperatures_kept _ _ _ _ _ _ h

theorem InSync.step {s : ThermSystem} (h : InSync s) (e : ThermEvent) :
    InSync (s.step e) := by
  cases e with
  | tick t => exact h.thermRun t
  | state params clock =>
      simp only [ThermSystem.step, cmdThermState]
      split
      · exact h
      · split
        · split
          · exact h.thermSetState _ _ _
          · exact h
        · exact h
  | temperature params =>
      refine h.silent (fun i dev' hdev' => ?_) (fun _ => Iff.rfl) rfl
      obtain ⟨dev, hdev, hid, hstate⟩ :=
        cmdThermTemperatures_kept _ _ _ i dev' hdev'
      exact ⟨dev, hdev, hid, fun _ => hstate⟩
  | hysteresis params =>
      refine h.silent (fun i dev' hdev' => ?_) (fun _ => Iff.rfl) rfl
      obtain ⟨dev, hdev, hid, hstate⟩ :=
        cmdThermTemperatures_kept _ _ _ i dev' hdev'
      exact ⟨dev, hdev, hid, fun _ => hstate⟩
  | ssr e =>
      exact h.silent (fun i dev hdev => ⟨dev, hdev, rfl, fun _ => rfl⟩)
        (ssrStep_configured s.ssr e) rfl

theorem InSync.run {s : ThermSystem} (h : InSync s) (es : List ThermEvent) :
    InSync (s.run es) := by
  induction es generalizing s with
  | nil => exact h
  | cons e es ih => exact ih (h.step e)

/-! ## The start -/

theorem thermDevices_off (toks : List CStr) :
    ∀ dev ∈ thermDevices toks, dev.ssrState = false := by
  have hfold : ∀ (toks : List CStr) (devices : List ThermDevice),
      (∀ dev ∈ devices, dev.ssrState = false) →
      ∀ dev ∈ toks.foldl (fun devices tok =>
        if maxThermostatDevices ≤ devices.length then devices
        else devices ++ (thermDevice tok).toList) devices,
        dev.ssrState = false := by
    intro toks
    induction toks with
    | nil => exact fun _ h => h
    | cons tok toks ih =>
        intro devices h
        refine ih _ fun dev hdev => ?_
        dsimp only at hdev
        split at hdev
        · exact h dev hdev
        · rcases List.mem_append.mp hdev with hdev | hdev
          · exact h dev hdev
          · have hparsed := Option.mem_toList.mp hdev
            simp only [thermDevice] at hparsed
            split at hparsed
            · split at hparsed
              · split at hparsed
                · cases hparsed
                · split at hparsed
                  · cases hparsed
                  · obtain rfl := Option.some.inj hparsed
                    rfl
              · cases hparsed
            · cases hparsed
  exact hfold toks [] (by simp)

theorem thermDefault_state (v : ThermSetting) (dev : ThermDevice) :
    (thermDefault v dev).ssrState = dev.ssrState := by
  simp only [thermDefault]
  split
  · rfl
  · split
    · rfl
    · split <;> rfl

theorem thermDefaults_state (settings : List ThermSetting)
    {devices : List ThermDevice} (h : ∀ dev ∈ devices, dev.ssrState = false) :
    ∀ dev ∈ thermDefaults settings devices, dev.ssrState = false := by
  induction settings generalizing devices with
  | nil => exact h
  | cons v settings ih =>
      cases devices with
      | nil => exact h
      | cons dev devices =>
          simp only [List.mem_cons, forall_eq_or_imp] at h
          simp only [thermDefaults, List.mem_cons, forall_eq_or_imp]
          exact ⟨(thermDefault_state v dev).trans h.1, ih h.2⟩

theorem inSync_init {configTherm configDefaults : Option CStr}
    {registered : ℕ → Bool} {ctx : ThermContext} (ssr : SsrState)
    (h : thermInit configTherm configDefaults registered = some ctx) :
    InSync (ThermSystem.init ctx ssr) := by
  obtain ⟨ctx, hctx, rfl⟩ := Option.map_eq_some_iff.mp h
  have hoff : ∀ dev ∈ ctx.devices, dev.ssrState = false := by
    simp only [thermConfigGet] at hctx
    split at hctx
    · cases hctx
    · split at hctx
      · cases hctx
      · split at hctx
        · cases hctx
        · obtain rfl := Option.some.inj hctx
          exact thermDefaults_state _ (thermDevices_off _)
  intro i dev hdev _
  change (ctx.devices.mapIdx fun i dev =>
    ({ dev with force := registered i } : ThermDevice))[i]? = some dev at hdev
  rw [List.getElem?_mapIdx] at hdev
  obtain ⟨dev', hdev', rfl⟩ := Option.map_eq_some_iff.mp hdev
  refine ⟨hoff dev' (List.mem_of_getElem? hdev'), fun before call after h => ?_⟩
  exact (List.append_ne_nil_of_right_ne_nil _ (List.cons_ne_nil _ _) h.symm).elim

/-! ## Disabling -/

/-- The relay is off, and nothing is going to switch it. -/
def RelayOff (ssr : SsrState) (id : ℕ) : Prop :=
  ∀ h : id < maxSsrCount, ∀ r ∈ ssr.relays ⟨id, h⟩,
    r.stateActual = ssr.level false ∧ r.stateDesired = ssr.level false ∧
      r.timeMs = 0 ∧ r.delayMs = 0

theorem ssrStateSet_level (s : SsrState) (id : ℕ) (state : Bool)
    (time delay clock : ℕ) (on : Bool) :
    (ssrStateSet s id state time delay clock).2.level on = s.level on := by
  have hon : (ssrStateSet s id state time delay clock).2.onState =
      s.onState := by
    simp only [ssrStateSet]
    split
    · split
      · rfl
      · split <;> rfl
    · rfl
  rw [SsrState.level, SsrState.level, hon]

theorem relayOff_self (s : SsrState) (id clock : ℕ) :
    RelayOff (ssrApiStateSet s id false 0 0 clock).2 id := by
  intro hid r hr
  rw [ssrApiStateSet] at hr ⊢
  rw [ssrStateSet_level]
  cases hrelay : s.relays ⟨id, hid⟩ with
  | none =>
      rw [ssrStateSet_none (i := ⟨id, hid⟩) hrelay, hrelay] at hr
      cases hr
  | some r' =>
      rw [ssrStateSet_relays_self (i := ⟨id, hid⟩) hrelay] at hr
      obtain rfl := Option.some.inj hr
      exact ⟨rfl, rfl, rfl, rfl⟩

/-- Switching a relay off keeps the others off. -/
theorem RelayOff.api {s : SsrState} {k : ℕ} (h : RelayOff s k) (id clock : ℕ) :
    RelayOff (ssrApiStateSet s id false 0 0 clock).2 k := by
  by_cases hk : k = id
  · rw [hk]
    exact relayOff_self s id clock
  · intro hid r hr
    have hsame : (ssrApiStateSet s id false 0 0 clock).2.relays ⟨k, hid⟩ =
        s.relays ⟨k, hid⟩ := ssrStateSet_relays_of_ne s hk _ _ _ _
    rw [hsame] at hr
    rw [ssrApiStateSet, ssrStateSet_level]
    exact h hid r hr

/-- A device that is disabled: its relay has been switched off. -/
structure SwitchedOff (s : ThermSystem) (i id : ℕ) : Prop where
  disabled : ∀ dev : ThermDevice, s.ctx.devices[i]? = some dev →
    dev.enable = false ∧ dev.ssrState = false
  relay : RelayOff s.ssr id

theorem switchedOff_self {s : ThermSystem} {i : ℕ} {dev : ThermDevice}
    (clock : ℕ) (hdev : s.ctx.devices[i]? = some dev) :
    SwitchedOff (thermSetStateOne s i false clock) i dev.ssrId := by
  have hlt := (List.getElem?_eq_some_iff.mp hdev).1
  simp only [thermSetStateOne, hdev, if_true]
  refine ⟨fun dev' hdev' => ?_, relayOff_self s.ssr dev.ssrId clock⟩
  change (s.ctx.devices.set i _)[i]? = some dev' at hdev'
  rw [List.getElem?_set_self hlt] at hdev'
  obtain rfl := Option.some.inj hdev'
  exact ⟨rfl, rfl⟩

theorem SwitchedOff.other {s : ThermSystem} {i k id : ℕ}
    (h : SwitchedOff s i id) (hik : k ≠ i) (clock : ℕ) :
    SwitchedOff (thermSetStateOne s k false clock) i id := by
  simp only [thermSetStateOne]
  split
  · exact h
  · simp only [if_true]
    refine ⟨fun dev' hdev' => h.disabled dev' ?_, h.relay.api _ _⟩
    change (s.ctx.devices.set k _)[i]? = some dev' at hdev'
    rwa [List.getElem?_set_ne hik] at hdev'

theorem thermSetStateOne_of_ne {s : ThermSystem} {i k : ℕ} (hik : k ≠ i)
    (state : Bool) (clock : ℕ) :
    (thermSetStateOne s k state clock).ctx.devices[i]? =
      s.ctx.devices[i]? := by
  have hset : ∀ dev : ThermDevice,
      (s.ctx.devices.set k dev)[i]? = s.ctx.devices[i]? := fun dev =>
    List.getElem?_set_ne hik
  simp only [thermSetStateOne]
  split
  · rfl
  · split
    · exact hset _
    · split
      · exact hset _
      · exact hset _

/-- The disable command, for one device or for all, switches the relay of the
device off. -/
theorem thermSetState_off {s : ThermSystem} {i : ℕ} {dev : ThermDevice}
    {idx : ℤ} (clock : ℕ → ℕ) (hdev : s.ctx.devices[i]? = some dev)
    (hidx : idx = i ∨ idx < 0) :
    SwitchedOff (thermSetState s idx false clock).2 i dev.ssrId := by
  have hlt := (List.getElem?_eq_some_iff.mp hdev).1
  rcases hidx with rfl | hneg
  · simp only [thermSetState, Int.toNat_natCast, if_pos hlt,
      if_pos (Int.natCast_nonneg i)]
    exact switchedOff_self _ hdev
  · have hall : ¬0 ≤ idx := Int.not_le.mpr hneg
    simp only [thermSetState, if_neg hall]
    -- The device keeps its data up to its turn, and stays off after it.
    obtain ⟨before, after, hsplit⟩ :=
      List.append_of_mem (List.mem_range.mpr hlt)
    have hnodup := List.nodup_range (n := s.ctx.devices.length)
    rw [hsplit] at hnodup ⊢
    rw [List.foldl_append, List.foldl_cons]
    have hbefore : ∀ (is : List ℕ), i ∉ is → ∀ s : ThermSystem,
        s.ctx.devices[i]? = some dev →
        (is.foldl (fun s i => thermSetStateOne s i false (clock i))
          s).ctx.devices[i]? = some dev := by
      intro is
      induction is with
      | nil => exact fun _ s hs => hs
      | cons k is ih =>
          intro hk s hs
          rw [List.mem_cons, not_or] at hk
          refine ih hk.2 _ ?_
          rw [thermSetStateOne_of_ne (Ne.symm hk.1)]
          exact hs
    have hafter : ∀ (is : List ℕ), i ∉ is → ∀ s : ThermSystem,
        SwitchedOff s i dev.ssrId →
        SwitchedOff (is.foldl
          (fun s i => thermSetStateOne s i false (clock i)) s) i
          dev.ssrId := by
      intro is
      induction is with
      | nil => exact fun _ s hs => hs
      | cons k is ih =>
          intro hk s hs
          rw [List.mem_cons, not_or] at hk
          exact ih hk.2 _ (hs.other (Ne.symm hk.1) _)
    have hdisjoint := List.nodup_append.mp hnodup
    refine hafter after (List.nodup_cons.mp hdisjoint.2.1).1 _
      (switchedOff_self _ (hbefore before (fun hmem => ?_) s hdev))
    exact hdisjoint.2.2 i hmem i List.mem_cons_self rfl

/-! ## The main result -/

/-- Over every run of the module, each round of an enabled device with a relay
has switched the relay as the automaton does, which never switches it on
without a reading below the upper threshold; the next one does so too; and the
disable command switches the relay off. -/
theorem thermostat_follows_hysteresis (configTherm configDefaults : Option CStr)
    (registered : ℕ → Bool) (ctx : ThermContext)
    (hinit : thermInit configTherm configDefaults registered = some ctx)
    (ssr : SsrState) (es : List ThermEvent) :
    let s := (ThermSystem.init ctx ssr).run es
    ∀ i dev, s.ctx.devices[i]? = some dev → Configured s.ssr dev.ssrId →
      Conforms i s.log ∧
      (∀ sensors clock, dev.enable = true →
        ∃ state, (thermDeviceRun s i sensors clock).1 = 0 ∧
          (thermDeviceRun s i sensors clock).2.ssr =
            (ssrApiStateSet s.ssr dev.ssrId state 0 0 clock).2 ∧
          (thermDeviceRun s i sensors clock).2.log = s.log ++
            [.ran i (thermSensorRead sensors dev).1 dev.onT dev.offT state] ∧
          (dev.onT.le dev.offT = true → state = hysteresis dev.onT dev.offT
            (thermSensorRead sensors dev).1 (lastState i s.log)) ∧
          (state = true → ∃ t, (thermSensorRead sensors dev).1 = some t ∧
            dev.offT.le t = false)) ∧
      ∀ idx clock, idx = (i : ℤ) ∨ idx < 0 →
        SwitchedOff (thermSetState s idx false clock).2 i dev.ssrId := by
  intro s i dev hdev hconf
  have hsync : InSync s := (inSync_init ssr hinit).run es
  obtain ⟨hlast, hconforms⟩ := hsync i dev hdev hconf
  refine ⟨hconforms, fun sensors clock henable => ?_,
    fun idx clock hidx => thermSetState_off clock hdev hidx⟩
  obtain ⟨state, dev', hrun, -, -, hordered, hsafe⟩ :=
    thermDeviceRun_enabled sensors clock hdev henable
  rw [hrun]
  refine ⟨state, ssrApiStateSet_of_configured hconf _ _ _ _, rfl, rfl,
    fun h => ?_, hsafe⟩
  rw [← hlast]
  exact hordered h

/-- The thermostat of the configuration `0:ntc-0`. -/
def oneDevice : ThermDevice where
  enable := false
  ssrId := 0
  ssrState := false
  offT := Value.zero _
  onT := Value.zero _
  currentT := Value.zero _
  validT := false
  tempProvider := .ntc
  tempId := 0
  tempName := []
  force := false

/-- The thermostat is enabled. -/
def oneRun : ThermSystem :=
  (ThermSystem.init ⟨[oneDevice], 0, 0, 0⟩
    (ssrInit onePin 1 fun _ => false)).run [.state (lit ":0:1") fun _ => 5]

theorem thermostat_follows_hysteresis_oneDevice :
    Conforms 0 oneRun.log ∧
      SwitchedOff (thermSetState oneRun (-1) false fun _ => 9).2 0 0 := by
  have h := thermostat_follows_hysteresis (some (lit "0:ntc-0")) none
    (fun _ => false) ⟨[oneDevice], 0, 0, 0⟩ rfl
    (ssrInit onePin 1 fun _ => false) [.state (lit ":0:1") fun _ => 5] 0
    { oneDevice with enable := true, force := true } rfl ⟨by decide, rfl⟩
  exact ⟨h.1, h.2.2 (-1) _ (Or.inr (by decide))⟩

end Herak.Thermostat
