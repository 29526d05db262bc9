import Herak.Support.EventMachine
import Herak.Thermostat.Automaton

/-!
# The thresholds of a thermostat

The thresholds come from the configuration and from two commands.  They are in
order in every state of a run, and the commands do what they say, exactly when
no hysteresis is negative and no temperature command rounds.
-/

namespace Herak.Thermostat

open BinaryFloat CFloat CString Ssr

/-! ## Ordered thresholds -/

/-- `0 <= on_t <= off_t` -/
def ThermDevice.Ordered (dev : ThermDevice) : Prop :=
  (Value.zero _).le dev.onT = true ∧ dev.onT.le dev.offT = true

instance (dev : ThermDevice) : Decidable dev.Ordered :=
  inferInstanceAs (Decidable (_ ∧ _))

/-- The hysteresis `off_t - on_t`, as a number. -/
def ThermDevice.gap (dev : ThermDevice) : Option ℤ :=
  match dev.offT, dev.onT with
  | .finite a _, .finite b _ => some (a - b)
  | _, _ => none

/-- The hysteresis is not negative, or too small to change the temperature. -/
def Negligible (temperature hysteresis : CFloat32) : Prop :=
  (Value.zero _).le hysteresis = true ∨
    temperature.sub hysteresis = temperature

/-- Neither the hysteresis nor its difference to the new temperature needs to
be rounded. -/
def Exact (dev : ThermDevice) (temperature : CFloat32) : Prop :=
  match dev.offT, dev.onT, temperature with
  | .finite a _, .finite b _, .finite c _ =>
      binary32.Representable (a - b).natAbs ∧
        binary32.Representable (c - (a - b)).natAbs
  | _, _, _ => True

/-- Ordered thresholds below a finite one are numbers. -/
theorem ThermDevice.Ordered.units {dev : ThermDevice} (h : dev.Ordered)
    (hoff : IsFinite dev.offT) :
    ∃ a ha b hb, dev.offT = .finite a ha ∧ dev.onT = .finite b hb ∧
      0 ≤ b ∧ b ≤ a := by
  obtain ⟨a, ha, hoff⟩ := hoff
  obtain ⟨hlow, hhigh⟩ := h
  cases hon : dev.onT with
  | nan =>
      rw [hon] at hlow
      cases hlow
  | inf negative =>
      rw [hon] at hlow hhigh
      rw [hoff] at hhigh
      cases negative <;> simp [Value.le, Value.key, Value.zero] at hlow hhigh
  | finite b hb =>
      rw [hon] at hlow hhigh
      rw [hoff, Value.le_finite] at hhigh
      refine ⟨a, ha, b, hb, hoff, rfl, ?_, hhigh⟩
      exact (Value.le_finite _ _).mp hlow

theorem ordered_of_units {dev : ThermDevice} {a b : ℤ} {ha hb}
    (hoff : dev.offT = .finite a ha) (hon : dev.onT = .finite b hb)
    (hlow : 0 ≤ b) (hhigh : b ≤ a) : dev.Ordered := by
  rw [ThermDevice.Ordered, hoff, hon]
  exact ⟨(Value.le_finite _ _).mpr hlow, (Value.le_finite _ _).mpr hhigh⟩

theorem gap_of_units {dev : ThermDevice} {a b : ℤ} {ha hb}
    (hoff : dev.offT = .finite a ha) (hon : dev.onT = .finite b hb) :
    dev.gap = some (a - b) := by
  rw [ThermDevice.gap, hoff, hon]

/-! ## The two commands -/

/-- A difference that the code computes of a threshold and a hysteresis. -/
theorem sub_ordered_iff {off h : CFloat32} {a : ℤ} {ha} (hoff : off = .finite a ha)
    (hpos : 0 ≤ a) (hfin : IsFinite h) (haccept : h.le off = true) :
    ((Value.zero _).le (off.sub h) = true ∧ (off.sub h).le off = true) ↔
      Negligible off h := by
  obtain ⟨c, hc, rfl⟩ := hfin
  subst hoff
  rw [Value.le_finite] at haccept
  by_cases hneg : c < 0
  · have hiff := Value.sub_le_iff_of_neg ha hc hpos hneg
    have hzero : ¬(Value.zero _).le (Value.finite c hc) = true := fun h =>
      Int.not_lt.mpr ((Value.le_finite _ _).mp h) hneg
    constructor
    · exact fun h => Or.inr (hiff.mp h.2)
    · rintro (h | h)
      · exact (hzero h).elim
      · rw [h]
        exact ⟨(Value.le_finite _ _).mpr hpos,
          (Value.le_finite _ _).mpr (Int.le_refl a)⟩
  · obtain ⟨hbound, hrep, hsub⟩ :=
      Value.sub_of_le ha hc (Int.not_lt.mp hneg) haccept
    constructor
    · exact fun _ => Or.inl ((Value.le_finite _ _).mpr (Int.not_lt.mp hneg))
    · intro _
      rw [hsub]
      exact ⟨(Value.le_finite _ _).mpr (Int.natCast_nonneg _),
        (Value.le_finite _ _).mpr (by omega)⟩

theorem hysteresis_accepted {dev dev' : ThermDevice} {h : CFloat32}
    (hordered : dev.Ordered) (hoff : IsFinite dev.offT) (hfin : IsFinite h)
    (haccept : thermTemperatures dev h true = some dev') :
    dev'.offT = dev.offT ∧
      (dev'.Ordered ↔ Negligible dev.offT h) := by
  obtain ⟨a, ha, b, hb, hoffa, -, hlow, hhigh⟩ := hordered.units hoff
  simp only [thermTemperatures, if_true] at haccept
  split at haccept
  · cases haccept
  next hnot =>
    obtain rfl := Option.some.inj haccept
    refine ⟨rfl, sub_ordered_iff hoffa (hlow.trans hhigh) hfin ?_⟩
    obtain ⟨c, hc, rfl⟩ := hfin
    rw [hoffa] at hnot ⊢
    rw [Value.lt_finite] at hnot
    exact (Value.le_finite _ _).mpr (Int.not_lt.mp hnot)

theorem temperature_accepted {dev dev' : ThermDevice} {t : CFloat32}
    (hordered : dev.Ordered) (hoff : IsFinite dev.offT) (hfin : IsFinite t)
    (haccept : thermTemperatures dev t false = some dev') :
    dev'.offT = t ∧ dev'.Ordered ∧ (dev'.gap = dev.gap ↔ Exact dev t) := by
  obtain ⟨a, ha, b, hb, hoffa, honb, hlow, hhigh⟩ := hordered.units hoff
  obtain ⟨c, hc, rfl⟩ := hfin
  obtain ⟨hbound, hrep, hsub⟩ := Value.sub_of_le ha hb hlow hhigh
  simp only [thermTemperatures, hoffa, honb, hsub, Bool.false_eq_true,
    if_false] at haccept
  split at haccept
  · cases haccept
  next hnot =>
    obtain rfl := Option.some.inj haccept
    simp only [Bool.or_eq_true, not_or] at hnot
    have hle : (roundMagnitude binary32 (a - b).toNat 1 : ℤ) ≤ c := by
      have := hnot.2
      rw [Value.lt_finite] at this
      exact Int.not_lt.mp this
    obtain ⟨hbound', hrep', hsub'⟩ := Value.sub_of_le hc hrep
      (Int.natCast_nonneg _) hle
    refine ⟨rfl, ordered_of_units rfl hsub' (Int.natCast_nonneg _) (by omega),
      ?_⟩
    -- The difference that is kept is one of natural numbers.
    have hnat : (c - (roundMagnitude binary32 (a - b).toNat 1 : ℕ)).toNat =
        c.toNat - roundMagnitude binary32 (a - b).toNat 1 := by omega
    have hcnat : binary32.Representable c.toNat := by
      rwa [show c.natAbs = c.toNat by omega] at hc
    have hiff := sub_roundMagnitude_eq_iff (t := c.toNat) (h := (a - b).toNat)
      hcnat (by omega)
    have hgap : c - (roundMagnitude binary32
          (c - (roundMagnitude binary32 (a - b).toNat 1 : ℕ)).toNat 1 : ℕ) =
            a - b ↔
        c.toNat - roundMagnitude binary32
          (c.toNat - roundMagnitude binary32 (a - b).toNat 1) 1 =
            (a - b).toNat := by
      rw [hnat] at hbound' ⊢
      omega
    have hexact : Exact dev (.finite c hc) ↔
        binary32.Representable (a - b).toNat ∧
          binary32.Representable (c - (a - b)).natAbs := by
      simp only [Exact, hoffa, honb]
      rw [show (a - b).natAbs = (a - b).toNat by omega]
    rw [gap_of_units rfl hsub', gap_of_units hoffa honb, Option.some.injEq,
      hexact]
    refine hgap.trans (hiff.trans (and_congr_right fun hrep => ?_))
    have hround := roundMagnitude_exact (d := 1) Nat.one_pos hrep
    rw [Nat.mul_one] at hround
    rw [hround] at hle
    have hcab : (c - (a - b)).natAbs = c.toNat - (a - b).toNat := by omega
    rw [hcab]
    exact ⟨fun h => h.2, fun h => ⟨by omega, h⟩⟩

/-! ## Commands and rounds -/

/-- The device and the temperature of a command that is well formed. -/
def commandRequest (params : CStr) : Option (ℤ × CFloat32) :=
  if strlen params < 2 ∨ params.head? ≠ some 58 then none
  else thermRequest (params.drop 1)

theorem commandRequest_some {params : CStr} {i : ℤ} {temp : CFloat32}
    (h : commandRequest params = some (i, temp)) : 0 ≤ i ∧ IsFinite temp := by
  simp only [commandRequest] at h
  split at h
  · cases h
  · simp only [thermRequest] at h
    split at h
    · split at h
      · cases h
      next hid =>
        obtain ⟨v, hv, heq⟩ := Option.map_eq_some_iff.mp h
        obtain ⟨rfl, rfl⟩ := Prod.mk.inj heq
        exact ⟨Int.not_lt.mp hid, (sysStrtof_finite hv).1⟩
    · cases h

/-- A command is rejected, or it changes the thresholds of one device. -/
theorem cmdThermTemperatures_cases (ctx : ThermContext) (params : CStr)
    (hist : Bool) :
    (cmdThermTemperatures ctx params hist = (-1, ctx) ∧
      ∀ i temp dev, commandRequest params = some (i, temp) →
        ctx.devices[i.toNat]? = some dev →
        thermTemperatures dev temp hist = none) ∨
      ∃ (i : ℤ) (temp : CFloat32) (dev dev' : ThermDevice),
        commandRequest params = some (i, temp) ∧
          ctx.devices[i.toNat]? = some dev ∧
          thermTemperatures dev temp hist = some dev' ∧
          cmdThermTemperatures ctx params hist =
            (0, { ctx with devices := ctx.devices.set i.toNat dev' }) := by
  cases hrequest : commandRequest params with
  | none =>
      refine Or.inl ⟨?_, fun _ _ _ h => absurd h (Option.some_ne_none _).symm⟩
      simp only [commandRequest] at hrequest
      simp only [cmdThermTemperatures, cmdThermSetTemperature]
      split at hrequest
      next hform => rw [if_pos hform]
      next hform => rw [if_neg hform, hrequest]
  | some request =>
      obtain ⟨i, temp⟩ := request
      have hpos := (commandRequest_some hrequest).1
      have hcmd : cmdThermTemperatures ctx params hist =
          thermSetTemperatures ctx i temp hist := by
        simp only [commandRequest] at hrequest
        simp only [cmdThermTemperatures, cmdThermSetTemperature]
        split at hrequest
        · cases hrequest
        next hform => rw [if_neg hform, hrequest]
      simp only [thermSetTemperatures, if_neg (Int.not_lt.mpr hpos)] at hcmd
      cases hdev : ctx.devices[i.toNat]? with
      | none =>
          rw [hdev] at hcmd
          refine Or.inl ⟨hcmd, fun i' temp' dev h hdev' => ?_⟩
          obtain ⟨rfl, rfl⟩ := Prod.mk.inj (Option.some.inj h)
          exact absurd (hdev'.symm.trans hdev) (Option.some_ne_none _)
      | some dev =>
          rw [hdev] at hcmd
          cases hnew : thermTemperatures dev temp hist with
          | none =>
              simp only [hnew] at hcmd
              refine Or.inl ⟨hcmd, fun i' temp' dev' h hdev' => ?_⟩
              obtain ⟨rfl, rfl⟩ := Prod.mk.inj (Option.some.inj h)
              obtain rfl := Option.some.inj (hdev.symm.trans hdev')
              exact hnew
          | some dev' =>
              simp only [hnew] at hcmd
              exact Or.inr ⟨i, temp, dev, dev', rfl, hdev, hnew, hcmd⟩

theorem hysteresis_isSome_iff {dev : ThermDevice} {h : CFloat32}
    (hoff : IsFinite dev.offT) (hfin : IsFinite h) :
    (thermTemperatures dev h true).isSome ↔ h.le dev.offT = true := by
  obtain ⟨a, ha, hoff⟩ := hoff
  obtain ⟨c, hc, rfl⟩ := hfin
  simp only [thermTemperatures, if_true, hoff, Value.le_finite]
  split
  next hlt =>
    rw [Value.lt_finite] at hlt
    exact iff_of_false Bool.false_ne_true fun h => Int.not_lt.mpr h hlt
  next hlt =>
    rw [Value.lt_finite] at hlt
    exact ⟨fun _ => Int.not_lt.mp hlt, fun _ => rfl⟩

theorem temperature_isSome_iff {dev : ThermDevice} {t : CFloat32}
    (hordered : dev.Ordered) (hoff : IsFinite dev.offT) (hfin : IsFinite t) :
    (thermTemperatures dev t false).isSome ↔
      (dev.offT.sub dev.onT).le t = true := by
  obtain ⟨a, ha, b, hb, hoffa, honb, hlow, hhigh⟩ := hordered.units hoff
  obtain ⟨c, hc, rfl⟩ := hfin
  obtain ⟨-, hrep, hsub⟩ := Value.sub_of_le ha hb hlow hhigh
  have hzero : ¬(Value.finite _ hrep).lt (Value.zero binary32) = true := by
    intro hlt
    have := (Value.lt_finite _ _).mp hlt
    omega
  simp only [thermTemperatures, hoffa, honb, hsub, Bool.false_eq_true,
    if_false, Bool.or_eq_true, hzero, false_or, Value.le_finite]
  split
  next hlt =>
    rw [Value.lt_finite] at hlt
    exact iff_of_false Bool.false_ne_true fun h => Int.not_lt.mpr h hlt
  next hlt =>
    rw [Value.lt_finite] at hlt
    exact ⟨fun _ => Int.not_lt.mp hlt, fun _ => rfl⟩

/-- The devices with their settings. -/
def ThermSystem.settings (s : ThermSystem) : List (ℕ × CFloat32 × CFloat32) :=
  s.ctx.devices.map ThermDevice.settings

theorem setDevice_settings {s : ThermSystem} {i : ℕ} {dev dev' : ThermDevice}
    (hdev : s.ctx.devices[i]? = some dev)
    (hsettings : dev'.settings = dev.settings) :
    (s.ctx.devices.set i dev').map ThermDevice.settings =
      s.ctx.devices.map ThermDevice.settings := by
  obtain ⟨hlt, hget⟩ := List.getElem?_eq_some_iff.mp hdev
  rw [List.map_set, hsettings, ← hget, ← List.getElem_map ThermDevice.settings,
    List.set_getElem_self]
  rwa [List.length_map]

theorem thermDeviceRun_settings (s : ThermSystem) (idx : ℕ) (sensors : Sensors)
    (clock : ℕ) :
    (thermDeviceRun s idx sensors clock).2.settings = s.settings := by
  cases hdev : s.ctx.devices[idx]? with
  | none => simp only [thermDeviceRun, hdev]
  | some dev =>
      cases henable : dev.enable with
      | false =>
          rcases thermDeviceRun_disabled sensors clock hdev henable with
            hsame | ⟨state, dev', hrun, hsettings, -⟩
          · rw [hsame]
          · rw [hrun]
            exact setDevice_settings hdev hsettings
      | true =>
          obtain ⟨state, dev', hrun, hsettings, -, -⟩ :=
            thermDeviceRun_enabled sensors clock hdev henable
          rw [hrun]
          exact setDevice_settings hdev hsettings

theorem thermMqttSend_settings (s : ThermSystem) (now : ℕ) (published : Bool) :
    (thermMqttSend s now published).settings = s.settings := by
  simp only [thermMqttSend]
  split
  · simp only [thermMqttDviceSend]
    split
    · rfl
    next dev hdev =>
      split
      · exact setDevice_settings hdev rfl
      · exact setDevice_settings hdev rfl
  · split
    · rfl
    · change (s.ctx.devices.map fun dev =>
        ({ dev with force := true } : ThermDevice)).map
          ThermDevice.settings = s.ctx.devices.map ThermDevice.settings
      rw [List.map_map]
      rfl

theorem thermSetStateOne_settings (s : ThermSystem) (i : ℕ) (state : Bool)
    (clock : ℕ) :
    (thermSetStateOne s i state clock).settings = s.settings := by
  simp only [thermSetStateOne]
  split
  · rfl
  next dev hdev =>
    split
    · exact setDevice_settings hdev rfl
    · split
      · exact setDevice_settings hdev rfl
      · exact setDevice_settings hdev rfl

theorem foldl_settings {f : ThermSystem → ℕ → ThermSystem}
    (hf : ∀ s i, (f s i).settings = s.settings) (is : List ℕ)
    (s : ThermSystem) : (is.foldl f s).settings = s.settings := by
  induction is generalizing s with
  | nil => rfl
  | cons i is ih => exact (ih (f s i)).trans (hf s i)

/-- Only the two commands change the thresholds. -/
theorem step_settings (s : ThermSystem) {e : ThermEvent}
    (htemp : ∀ params, e ≠ .temperature params)
    (hhist : ∀ params, e ≠ .hysteresis params) :
    (s.step e).settings = s.settings := by
  cases e with
  | temperature params => exact (htemp params rfl).elim
  | hysteresis params => exact (hhist params rfl).elim
  | ssr e => rfl
  | tick t =>
      have hsend := thermMqttSend_settings s t.sendNow t.published
      simp only [ThermSystem.step, thermRun]
      split
      · exact hsend
      · exact (foldl_settings (fun s i => thermDeviceRun_settings s i _ _) _
          _).trans hsend
  | state params clock =>
      simp only [ThermSystem.step, cmdThermState]
      split
      · rfl
      · split
        · split
          · simp only [thermSetState]
            split
            · split
              · exact thermSetStateOne_settings _ _ _ _
              · rfl
            · exact foldl_settings
                (fun s i => thermSetStateOne_settings s i _ _) _ _
          · rfl
        · rfl

/-! ## Configuration -/

/-- The accepted hysteresis of a setting is not negative, or too small to
change the temperature. -/
def ThermSetting.Fits (v : ThermSetting) : Prop :=
  ∀ off h, v.temperature = some off → v.hysteresis = some h →
    h.le off = true → Negligible off h

/-- The settings that go to a thermostat fit. -/
def ConfigFits (configTherm configDefaults : Option CStr) : Prop :=
  ∀ v ∈ ((tokens configDefaults (lit ";")).filterMap thermSetting).take
      (thermDevices (tokens configTherm (lit ";"))).length, v.Fits

/-- The thermostat before its setting. -/
def ThermDevice.Fresh (dev : ThermDevice) : Prop :=
  dev.offT = Value.zero _ ∧ dev.onT = Value.zero _

theorem ThermDevice.Fresh.ordered {dev : ThermDevice} (h : dev.Fresh) :
    dev.Ordered :=
  ordered_of_units h.1 h.2 (Int.le_refl 0) (Int.le_refl 0)

theorem thermDevice_fresh {tok : CStr} {dev : ThermDevice}
    (h : thermDevice tok = some dev) : dev.Fresh := by
  simp only [thermDevice] at h
  split at h
  · split at h
    · split at h
      · cases h
      · split at h
        · cases h
        · obtain rfl := Option.some.inj h
          exact ⟨rfl, rfl⟩
    · cases h
  · cases h

theorem thermDevices_fresh (toks : List CStr) :
    ∀ dev ∈ thermDevices toks, dev.Fresh := by
  have hfold : ∀ (toks : List CStr) (devices : List ThermDevice),
      (∀ dev ∈ devices, dev.Fresh) →
      ∀ dev ∈ toks.foldl (fun devices tok =>
        if maxThermostatDevices ≤ devices.length then devices
        else devices ++ (thermDevice tok).toList) devices, dev.Fresh := by
    intro toks
    induction toks with
    | nil => exact fun _ h => h
    | cons tok toks ih =>
        intro devices h
        refine ih _ ?_
        beta_reduce
        split
        · exact h
        · intro dev hdev
          rcases List.mem_append.mp hdev with hdev | hdev
          · exact h dev hdev
          · exact thermDevice_fresh (Option.mem_toList.mp hdev)
  exact hfold toks [] (fun _ h => nomatch h)

/-- The text of a temperature has no minus sign. -/
theorem thermSetting_unsigned {tok : CStr} {v : ThermSetting} {off : CFloat32}
    (h : thermSetting tok = some v) (hoff : v.temperature = some off) :
    ∃ a ha, off = .finite a ha ∧ 0 ≤ a := by
  simp only [thermSetting] at h
  split at h
  · split at h
    next tok2 rest2 htok =>
      obtain rfl := Option.some.inj h
      obtain ⟨⟨a, ha, hfin⟩, hvalue⟩ := sysStrtof_finite hoff
      have hunsigned := strtof_unsigned fun hmem =>
        strtokR_token htok _ hmem (by decide)
      exact ⟨a, ha, hfin, hunsigned a ha (hvalue ▸ hfin)⟩
    · cases h
  · cases h

theorem thermDefault_ordered_iff {v : ThermSetting} {dev : ThermDevice}
    (hdev : dev.Fresh)
    (hoff : ∀ off, v.temperature = some off →
      ∃ a ha, off = .finite a ha ∧ 0 ≤ a)
    (hhist : ∀ h, v.hysteresis = some h → IsFinite h) :
    IsFinite (thermDefault v dev).offT ∧
      ((thermDefault v dev).Ordered ↔ v.Fits) := by
  cases htemp : v.temperature with
  | none =>
      simp only [thermDefault, htemp]
      refine ⟨⟨0, _, hdev.1⟩, fun _ off h hv => ?_, fun _ => hdev.ordered⟩
      rw [htemp] at hv
      cases hv
  | some off =>
      obtain ⟨a, ha, rfl, hpos⟩ := hoff off htemp
      cases hhyst : v.hysteresis with
      | none =>
          simp only [thermDefault, htemp, hhyst]
          refine ⟨⟨a, ha, rfl⟩, fun _ off h _ hv => ?_,
            fun _ => ordered_of_units rfl hdev.2 (Int.le_refl 0) hpos⟩
          rw [hhyst] at hv
          cases hv
      | some h =>
          have hfits : v.Fits ↔ (h.le (.finite a ha) = true →
              Negligible (.finite a ha) h) := by
            constructor
            · exact fun hv => hv _ _ htemp hhyst
            · intro hv off h' hoff' hh'
              rw [htemp] at hoff'
              rw [hhyst] at hh'
              cases hoff'
              cases hh'
              exact hv
          simp only [thermDefault, htemp, hhyst]
          rw [hfits]
          split
          next haccept =>
            refine ⟨⟨a, ha, rfl⟩, ?_⟩
            rw [imp_iff_right haccept]
            exact sub_ordered_iff rfl hpos (hhist h hhyst) haccept
          next hreject =>
            refine ⟨⟨a, ha, rfl⟩, fun _ haccept => (hreject haccept).elim,
              fun _ => ordered_of_units rfl hdev.2 (Int.le_refl 0) hpos⟩

theorem thermSetting_hysteresis {tok : CStr} {v : ThermSetting} {h : CFloat32}
    (hv : thermSetting tok = some v) (hh : v.hysteresis = some h) :
    IsFinite h := by
  simp only [thermSetting] at hv
  split at hv
  · split at hv
    · obtain rfl := Option.some.inj hv
      exact (sysStrtof_finite hh).1
    · cases hv
  · cases hv

theorem thermDefaults_ordered_iff (settings : List ThermSetting)
    {devices : List ThermDevice}
    (hsettings : ∀ v ∈ settings, ∃ tok, thermSetting tok = some v)
    (hdevices : ∀ dev ∈ devices, dev.Fresh) :
    (∀ dev ∈ thermDefaults settings devices, IsFinite dev.offT) ∧
      ((∀ dev ∈ thermDefaults settings devices, dev.Ordered) ↔
        ∀ v ∈ settings.take devices.length, v.Fits) := by
  induction settings generalizing devices with
  | nil =>
      refine ⟨fun dev hdev => ⟨0, _, (hdevices dev hdev).1⟩,
        fun _ v hv => ?_, fun _ dev hdev => (hdevices dev hdev).ordered⟩
      rw [List.take_nil] at hv
      cases hv
  | cons v settings ih =>
      cases devices with
      | nil => simp [thermDefaults]
      | cons dev devices =>
          obtain ⟨tok, htok⟩ := hsettings v List.mem_cons_self
          obtain ⟨hfin, hiff⟩ := thermDefault_ordered_iff
            (hdevices dev List.mem_cons_self)
            (fun off hoff => thermSetting_unsigned htok hoff)
            (fun h hh => thermSetting_hysteresis htok hh)
          obtain ⟨hfins, hiffs⟩ := ih
            (fun v hv => hsettings v (List.mem_cons_of_mem _ hv))
            (fun dev hdev => hdevices dev (List.mem_cons_of_mem _ hdev))
          simp only [thermDefaults, List.length_cons, List.take_succ_cons,
            List.forall_mem_cons]
          exact ⟨⟨hfin, hfins⟩, and_congr hiff hiffs⟩

/-- The thresholds after `therm_init`. -/
theorem thermInit_ordered_iff {configTherm configDefaults : Option CStr}
    {registered : ℕ → Bool} {ctx : ThermContext}
    (h : thermInit configTherm configDefaults registered = some ctx) :
    (∀ dev ∈ ctx.devices, IsFinite dev.offT) ∧
      ((∀ dev ∈ ctx.devices, dev.Ordered) ↔
        ConfigFits configTherm configDefaults) := by
  obtain ⟨ctx, hget, rfl⟩ := Option.map_eq_some_iff.mp h
  simp only [thermConfigGet] at hget
  split at hget
  · cases hget
  next config =>
    split at hget
    · cases hget
    · split at hget
      · cases hget
      · obtain rfl := Option.some.inj hget
        have hmap : ∀ (P : ThermDevice → Prop) (devices : List ThermDevice),
            (∀ dev b, P { dev with force := b } ↔ P dev) →
            ((∀ dev ∈ devices.mapIdx fun i dev =>
              { dev with force := registered i }, P dev) ↔
                ∀ dev ∈ devices, P dev) := by
          intro P devices hP
          simp only [List.forall_mem_iff_forall_getElem, List.length_mapIdx,
            List.getElem_mapIdx, hP]
        obtain ⟨hfin, hiff⟩ := thermDefaults_ordered_iff
          ((tokens configDefaults (lit ";")).filterMap thermSetting)
          (fun v hv => by
            obtain ⟨tok, -, htok⟩ := List.mem_filterMap.mp hv
            exact ⟨tok, htok⟩)
          (thermDevices_fresh (tokens (some config) (lit ";")))
        rw [hmap (fun dev => IsFinite dev.offT) _ fun _ _ => Iff.rfl,
          hmap ThermDevice.Ordered _ fun _ _ => Iff.rfl]
        exact ⟨hfin, hiff⟩

/-! ## Runs -/

/-- The module as a machine. -/
def thermMachine : EventMachine ThermSystem ThermEvent where
  step := ThermSystem.step
  enabled := fun _ _ => True

/-- The thresholds of all devices are in order. -/
def ThermSystem.AllOrdered (s : ThermSystem) : Prop :=
  ∀ dev ∈ s.ctx.devices, dev.Ordered

instance (s : ThermSystem) : Decidable s.AllOrdered :=
  inferInstanceAs (Decidable (∀ dev ∈ s.ctx.devices, dev.Ordered))

/-- A rejected command changes nothing, and an accepted one changes one device
as `Kept` tells. -/
def CommandKept (ctx : ThermContext) (params : CStr) (hist : Bool)
    (Kept : ThermDevice → CFloat32 → ThermDevice → Prop) : Prop :=
  let r := cmdThermTemperatures ctx params hist
  (r.1 ≠ 0 → r.2 = ctx) ∧
    (r.1 = 0 → ∃ (i : ℤ) (temp : CFloat32) (dev dev' : ThermDevice),
      commandRequest params = some (i, temp) ∧
        ctx.devices[i.toNat]? = some dev ∧
        r.2 = { ctx with devices := ctx.devices.set i.toNat dev' } ∧
        Kept dev temp dev')

/-- What is promised of the commands. -/
def Promised (s : ThermSystem) : ThermEvent → Prop
  | .temperature params => CommandKept s.ctx params false
      fun dev temp dev' => dev'.offT = temp ∧ dev'.gap = dev.gap
  | .hysteresis params => CommandKept s.ctx params true
      fun dev _ dev' => dev'.offT = dev.offT
  | .state params clock => (cmdThermState s params clock).1 ≠ 0 →
      (cmdThermState s params clock).2 = s
  | _ => True

/-- A hysteresis up to the temperature is not negative, or too small to change
it, and a temperature above the hysteresis needs no rounding. -/
def Fits (s : ThermSystem) : ThermEvent → Prop
  | .temperature params => ∀ i temp dev,
      commandRequest params = some (i, temp) →
      s.ctx.devices[i.toNat]? = some dev →
      (dev.offT.sub dev.onT).le temp = true → Exact dev temp
  | .hysteresis params => ∀ i h dev,
      commandRequest params = some (i, h) →
      s.ctx.devices[i.toNat]? = some dev →
      h.le dev.offT = true → Negligible dev.offT h
  | _ => True

/-- A command keeps what holds of the devices when what it makes of one device
does. -/
theorem command_iff {ctx : ThermContext} (params : CStr) (hist : Bool)
    (Kept : ThermDevice → CFloat32 → ThermDevice → Prop)
    (Fit : ThermDevice → CFloat32 → Prop)
    (hfin : ∀ dev ∈ ctx.devices, IsFinite dev.offT)
    (hord : ∀ dev ∈ ctx.devices, dev.Ordered)
    (haccept : ∀ dev temp dev', dev.Ordered → IsFinite dev.offT →
      IsFinite temp → thermTemperatures dev temp hist = some dev' →
      IsFinite dev'.offT ∧ ((Kept dev temp dev' ∧ dev'.Ordered) ↔
        Fit dev temp)) :
    let r := cmdThermTemperatures ctx params hist
    (∀ dev ∈ r.2.devices, IsFinite dev.offT) ∧
      ((CommandKept ctx params hist Kept ∧ ∀ dev ∈ r.2.devices, dev.Ordered) ↔
        ∀ i temp dev, commandRequest params = some (i, temp) →
          ctx.devices[i.toNat]? = some dev →
          (thermTemperatures dev temp hist).isSome → Fit dev temp) := by
  intro r
  rcases cmdThermTemperatures_cases ctx params hist with ⟨hr, hnone⟩ |
    ⟨i, temp, dev, dev', hrequest, hdev, hnew, hr⟩
  · have hkept : CommandKept ctx params hist Kept := by
      simp only [CommandKept, hr]
      exact ⟨fun _ => trivial, fun h => nomatch h⟩
    rw [show r = _ from hr]
    refine ⟨hfin, fun _ i temp dev hrequest hdev hsome => ?_,
      fun _ => ⟨hkept, hord⟩⟩
    rw [hnone i temp dev hrequest hdev] at hsome
    cases hsome
  · have hmem := List.mem_of_getElem? hdev
    obtain ⟨hfin', hiff⟩ := haccept dev temp dev' (hord dev hmem)
      (hfin dev hmem) (commandRequest_some hrequest).2 hnew
    have hlt := (List.getElem?_eq_some_iff.mp hdev).1
    have hall : ∀ (P : ThermDevice → Prop), (∀ dev ∈ ctx.devices, P dev) →
        ((∀ dev ∈ r.2.devices, P dev) ↔ P dev') := by
      intro P hP
      rw [show r = _ from hr]
      constructor
      · exact fun h => h dev' (List.mem_set hlt dev')
      · intro h x hx
        rcases List.mem_or_eq_of_mem_set hx with hx | rfl
        · exact hP x hx
        · exact h
    have hkept : CommandKept ctx params hist Kept ↔ Kept dev temp dev' := by
      simp only [CommandKept, hr]
      constructor
      · intro h
        obtain ⟨i', temp', x, x', hreq, hx, heq, hkept⟩ := h.2 trivial
        obtain ⟨rfl, rfl⟩ := Prod.mk.inj
          (Option.some.inj (hrequest.symm.trans hreq))
        obtain rfl := Option.some.inj (hdev.symm.trans hx)
        have hset := congrArg (fun ctx => ctx.devices[i.toNat]?) heq
        simp only [List.getElem?_set_self hlt] at hset
        rw [Option.some.inj hset]
        exact hkept
      · exact fun h => ⟨fun h => (h rfl).elim,
          fun _ => ⟨i, temp, dev, dev', hrequest, hdev, rfl, h⟩⟩
    rw [hall _ hfin, hall _ hord, hkept, hiff]
    refine ⟨hfin', ?_⟩
    constructor
    · intro hfit i' temp' x hreq hx _
      obtain ⟨rfl, rfl⟩ := Prod.mk.inj
        (Option.some.inj (hrequest.symm.trans hreq))
      obtain rfl := Option.some.inj (hdev.symm.trans hx)
      exact hfit
    · exact fun h => h i temp dev hrequest hdev (by rw [hnew]; rfl)

theorem cmdThermState_rejected {s : ThermSystem} {params : CStr}
    {clock : ℕ → ℕ} (h : (cmdThermState s params clock).1 ≠ 0) :
    (cmdThermState s params clock).2 = s := by
  simp only [cmdThermState] at h ⊢
  split
  · rfl
  next hform =>
    rw [if_neg hform] at h
    split
    next tok rest htok =>
      rw [htok] at h
      dsimp only at h
      split
      next hid =>
        rw [if_pos hid] at h
        simp only [thermSetState] at h ⊢
        split
        next hpos =>
          rw [if_pos hpos] at h
          split
          next hlt =>
            rw [if_pos hlt] at h
            exact (h rfl).elim
          · rfl
        next hpos =>
          rw [if_neg hpos] at h
          exact (h rfl).elim
      · rfl
    · rfl

/-- What holds of the thresholds does not depend on the other data. -/
theorem forall_settings {s s' : ThermSystem} (h : s'.settings = s.settings)
    (P : CFloat32 → CFloat32 → Prop)
    (hs : ∀ dev ∈ s.ctx.devices, P dev.offT dev.onT) :
    ∀ dev ∈ s'.ctx.devices, P dev.offT dev.onT := by
  intro dev hdev
  have hmem : dev.settings ∈ s.settings := h ▸ List.mem_map_of_mem hdev
  obtain ⟨old, hold, heq⟩ := List.mem_map.mp hmem
  have hpair := (Prod.mk.inj heq).2
  obtain ⟨hoff, hon⟩ := Prod.mk.inj hpair
  rw [← hoff, ← hon]
  exact hs old hold

/-- What one event does to ordered thresholds. -/
theorem step_ordered_iff {s : ThermSystem}
    (hfin : ∀ dev ∈ s.ctx.devices, IsFinite dev.offT) (hord : s.AllOrdered)
    (e : ThermEvent) :
    (∀ dev ∈ (s.step e).ctx.devices, IsFinite dev.offT) ∧
      ((Promised s e ∧ (s.step e).AllOrdered) ↔ Fits s e) := by
  have hother : (s.step e).settings = s.settings → Promised s e → Fits s e →
      (∀ dev ∈ (s.step e).ctx.devices, IsFinite dev.offT) ∧
        ((Promised s e ∧ (s.step e).AllOrdered) ↔ Fits s e) :=
    fun hsettings hpromised hfits =>
      ⟨forall_settings hsettings (fun off _ => IsFinite off) hfin,
        fun _ => hfits, fun _ => ⟨hpromised, forall_settings hsettings
          (fun off on => (Value.zero _).le on = true ∧ on.le off = true) hord⟩⟩
  have hquiet := step_settings s (e := e)
  cases e with
  | tick t => exact hother (hquiet nofun nofun) trivial trivial
  | ssr e => exact hother (hquiet nofun nofun) trivial trivial
  | state params clock =>
      exact hother (hquiet nofun nofun) cmdThermState_rejected trivial
  | temperature params =>
      obtain ⟨hfin', hiff⟩ := command_iff params false
        (fun dev temp dev' => dev'.offT = temp ∧ dev'.gap = dev.gap) Exact
        hfin hord (fun dev temp dev' hdev hoff htemp hnew => by
          obtain ⟨hset, hdev', hgap⟩ :=
            temperature_accepted hdev hoff htemp hnew
          rw [hset]
          refine ⟨htemp, ?_⟩
          constructor
          · exact fun h => hgap.mp h.1.2
          · exact fun h => ⟨⟨rfl, hgap.mpr h⟩, hdev'⟩)
      refine ⟨hfin', hiff.trans ?_⟩
      refine forall₄_congr fun i temp dev hrequest => ?_
      refine forall_congr' fun hdev => ?_
      have hmem := List.mem_of_getElem? hdev
      rw [temperature_isSome_iff (hord dev hmem) (hfin dev hmem)
        (commandRequest_some hrequest).2]
  | hysteresis params =>
      obtain ⟨hfin', hiff⟩ := command_iff params true
        (fun dev _ dev' => dev'.offT = dev.offT)
        (fun dev h => Negligible dev.offT h) hfin hord
        (fun dev h dev' hdev hoff hh hnew => by
          obtain ⟨hset, hneg⟩ := hysteresis_accepted hdev hoff hh hnew
          rw [hset]
          refine ⟨hoff, ?_⟩
          constructor
          · exact fun h => hneg.mp h.2
          · exact fun h => ⟨rfl, hneg.mpr h⟩)
      refine ⟨hfin', hiff.trans ?_⟩
      refine forall₄_congr fun i h dev hrequest => ?_
      refine forall_congr' fun hdev => ?_
      have hmem := List.mem_of_getElem? hdev
      rw [hysteresis_isSome_iff (hfin dev hmem)
        (commandRequest_some hrequest).2]

/-- A run in which every command fits keeps the thresholds in order, and only
such a run does. -/
theorem run_ordered_iff {s : ThermSystem}
    (hfin : ∀ dev ∈ s.ctx.devices, IsFinite dev.offT) (hord : s.AllOrdered)
    (es : List ThermEvent) :
    thermMachine.Along (fun s e => Promised s e ∧ (s.step e).AllOrdered) s es ↔
      thermMachine.Along Fits s es := by
  induction es generalizing s with
  | nil => exact Iff.rfl
  | cons e es ih =>
      obtain ⟨hfin', hiff⟩ := step_ordered_iff hfin hord e
      rw [EventMachine.along_cons, EventMachine.along_cons, hiff]
      refine and_congr_right fun hfits => ?_
      exact ih hfin' (hiff.mpr hfits).2

/-! ## The main result -/

/-- The thresholds are in order after initialisation and after every event, and
every command does what is promised, exactly when the settings of the
configuration and the commands fit. -/
theorem thresholds_ordered (configTherm configDefaults : Option CStr)
    (registered : ℕ → Bool) (ctx : ThermContext)
    (hinit : thermInit configTherm configDefaults registered = some ctx)
    (ssr : SsrState) (es : List ThermEvent) :
    ((ThermSystem.init ctx ssr).AllOrdered ∧
        thermMachine.Along
          (fun s e => Promised s e ∧ (s.step e).AllOrdered)
          (ThermSystem.init ctx ssr) es) ↔
      ConfigFits configTherm configDefaults ∧
        thermMachine.Along Fits (ThermSystem.init ctx ssr) es := by
  obtain ⟨hfin, hiff⟩ := thermInit_ordered_iff hinit
  have hstart : (ThermSystem.init ctx ssr).AllOrdered ↔
      ConfigFits configTherm configDefaults := hiff
  rw [hstart]
  exact and_congr_right fun hfits =>
    run_ordered_iff (s := ThermSystem.init ctx ssr) hfin (hiff.mpr hfits) es

/-- The hysteresis -1 is accepted at the temperature 0: the thermostat then
switches on up to 1 degree and off from 0 degrees, and the next temperature
command is rejected. -/
theorem negative_hysteresis_accepted :
    ∃ ctx ssr, thermInit (some (lit "0:ntc-0")) none (fun _ => false) =
        some ctx ∧
      (ThermSystem.init ctx ssr).AllOrdered ∧
      (cmdThermHist ctx (lit ":0:-1")).1 = 0 ∧
      ¬((ThermSystem.init ctx ssr).run
        [.hysteresis (lit ":0:-1")]).AllOrdered ∧
      (cmdThermTemp (cmdThermHist ctx (lit ":0:-1")).2 (lit ":0:20")).1 =
        -1 := by
  refine ⟨⟨[oneDevice], 0, 0, 0⟩, ssrInit onePin 1 fun _ => false, rfl, ?_⟩
  decide +kernel

/-- The thermostat of `0:ntc-0` and its relay. -/
def oneSystem : ThermSystem :=
  ThermSystem.init ⟨[oneDevice], 0, 0, 0⟩ (ssrInit onePin 1 fun _ => false)

/-- The thermostat is set to 20 degrees with a hysteresis of 2. -/
theorem thresholds_ordered_oneDevice :
    oneSystem.AllOrdered ∧
      thermMachine.Along (fun s e => Promised s e ∧ (s.step e).AllOrdered)
        oneSystem [.temperature (lit ":0:20"), .hysteresis (lit ":0:2")] := by
  refine (thresholds_ordered (some (lit "0:ntc-0")) none (fun _ => false)
    ⟨[oneDevice], 0, 0, 0⟩ rfl _ _).mpr
      ⟨fun v hv => (List.not_mem_nil (a := v) hv).elim, ?_, ?_, trivial⟩
  · intro i temp dev hrequest hdev _
    obtain ⟨hpos, c, hc, rfl⟩ := commandRequest_some hrequest
    have hmem := List.mem_of_getElem? hdev
    obtain rfl := List.mem_singleton.mp hmem
    refine ⟨Format.representable_zero _, ?_⟩
    rw [Int.sub_self, Int.sub_zero]
    exact hc
  · intro i h dev hrequest _ _
    have hread : (commandRequest (lit ":0:2")).map
        (fun r => (Value.zero _).le r.2) = some true := by decide +kernel
    rw [hrequest] at hread
    exact Or.inl (Option.some.inj hread)

end Herak.Thermostat
