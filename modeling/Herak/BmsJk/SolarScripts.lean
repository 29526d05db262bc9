import Herak.BmsJk.Solar

/-!
# Solar scripts

The cron flags of the solar scripts and the state of the tracker live in two
modules.  A frame changes them together; a threshold command changes the state
alone.
-/

namespace Herak.BmsJk

open CInt CString Scripts

/-! ## Cron flags -/

/-- What decides whether a script is scheduled. -/
structure CronFlag where
  name : CStr
  valid : Bool
  enable : Bool
  deriving DecidableEq

namespace CronFlag

/-- The script is scheduled. -/
def Enabled (flag : CronFlag) : Prop :=
  flag.valid = true ∧ flag.enable = true

/-- What no automation changes. -/
def key (flag : CronFlag) : CStr × Bool :=
  (flag.name, flag.valid)

/-- The flags after all valid schedules of a prefix are switched. -/
def switch (name : CStr) (enable : Bool) (flags : List CronFlag) :
    List CronFlag :=
  flags.map fun flag =>
    if name <+: flag.name ∧ flag.valid = true then { flag with enable := enable }
    else flag

end CronFlag

open CronFlag

/-- No script of a prefix is scheduled. -/
def NoneEnabled (name : CStr) (flags : List CronFlag) : Prop :=
  ∀ flag ∈ flags, name <+: flag.name → ¬flag.Enabled

/-- Every script of a prefix with a valid schedule is scheduled. -/
def AllEnabled (name : CStr) (flags : List CronFlag) : Prop :=
  ∀ flag ∈ flags, name <+: flag.name → flag.valid = true → flag.Enabled

/-- No script has both prefixes. -/
def Disjoint (name name' : CStr) (flags : List CronFlag) : Prop :=
  ∀ flag ∈ flags, ¬(name <+: flag.name ∧ name' <+: flag.name)

theorem mem_switch {name : CStr} {enable : Bool} {flags : List CronFlag}
    {flag : CronFlag} (h : flag ∈ switch name enable flags) :
    ∃ old ∈ flags, flag.key = old.key ∧
      (name <+: old.name → old.valid = true → flag.enable = enable) ∧
      (¬name <+: old.name → flag = old) := by
  obtain ⟨old, hold, rfl⟩ := List.mem_map.mp h
  refine ⟨old, hold, ?_, fun hname hvalid => ?_, fun hname => ?_⟩
  · split <;> rfl
  · rw [if_pos ⟨hname, hvalid⟩]
  · rw [if_neg fun h => hname h.1]

@[simp] theorem switch_key (name : CStr) (enable : Bool)
    (flags : List CronFlag) :
    (switch name enable flags).map key = flags.map key := by
  simp only [switch, List.map_map]
  refine List.map_congr_left fun flag _ => ?_
  simp only [Function.comp_apply]
  split <;> rfl

theorem switch_off (name : CStr) (flags : List CronFlag) :
    NoneEnabled name (switch name false flags) := by
  intro flag hflag hname henabled
  obtain ⟨old, _, hkey, hset, _⟩ := mem_switch hflag
  obtain ⟨hn, hv⟩ := Prod.mk.inj hkey
  rw [hn] at hname
  have hoff := hset hname (hv.symm.trans henabled.1)
  exact Bool.false_ne_true (hoff.symm.trans henabled.2)

theorem switch_on (name : CStr) (flags : List CronFlag) :
    AllEnabled name (switch name true flags) := by
  intro flag hflag hname hvalid
  obtain ⟨old, _, hkey, hset, _⟩ := mem_switch hflag
  obtain ⟨hn, hv⟩ := Prod.mk.inj hkey
  rw [hn] at hname
  exact ⟨hvalid, hset hname (hv.symm.trans hvalid)⟩

/-- Scripts of another prefix keep their flags. -/
theorem switch_other {name name' : CStr} {enable : Bool}
    {flags : List CronFlag} (h : Disjoint name name' flags) :
    (NoneEnabled name' flags → NoneEnabled name' (switch name enable flags)) ∧
      (AllEnabled name' flags →
        AllEnabled name' (switch name enable flags)) := by
  have hkept : ∀ flag ∈ switch name enable flags, name' <+: flag.name →
      flag ∈ flags := by
    intro flag hflag hname'
    obtain ⟨old, hold, hkey, _, hsame⟩ := mem_switch hflag
    have hn := (Prod.mk.inj hkey).1
    rw [hn] at hname'
    rw [hsame fun hname => h old hold ⟨hname, hname'⟩]
    exact hold
  exact ⟨fun hnone flag hflag hname =>
      hnone flag (hkept flag hflag hname) hname,
    fun hall flag hflag hname => hall flag (hkept flag hflag hname) hname⟩

/-- Disjointness depends on the names alone. -/
theorem Disjoint.of_key {name name' : CStr} {flags flags' : List CronFlag}
    (h : Disjoint name name' flags)
    (hkey : flags'.map key = flags.map key) : Disjoint name name' flags' := by
  intro flag hflag
  have hmem : flag.key ∈ flags.map key :=
    hkey ▸ List.mem_map_of_mem hflag
  obtain ⟨old, hold, heq⟩ := List.mem_map.mp hmem
  rw [← (Prod.mk.inj heq).1]
  exact h old hold

/-! ## Scripts -/

/-- The cron flags of all scripts. -/
def cronFlags : Option ScriptsContext → List CronFlag
  | none => []
  | some ctx => ctx.scripts.map fun s =>
      { name := s.name, valid := s.cron.valid, enable := s.cron.enable }

theorem nameMatches_prefix (name : CStr) (s : Script) :
    nameMatches name true s = true ↔ name <+: s.name := by
  simp only [nameMatches, if_true, decide_eq_true_eq]
  exact strlen_strncmp_prefix_iff name s.name

/-- The loop over a prefix acts on every script that has it. -/
theorem forNamed_prefix (f : Script → Option Script) (name : CStr)
    (scripts : List Script) :
    (forNamed f name true scripts).2 = scripts.map fun s =>
      if name <+: s.name then (f s).getD s else s := by
  induction scripts with
  | nil => rfl
  | cons s rest ih =>
      simp only [forNamed, nameMatches_prefix, List.map_cons]
      by_cases hname : name <+: s.name
      · simp only [if_pos hname]
        cases f s with
        | none => simp [ih]
        | some s' => simp [ih]
      · simp [if_neg hname, ih]

theorem scriptAuto_flags (cronNext : CronExpr → ℤ → ℤ)
    (scripts : Option ScriptsContext) (name : CStr) (enable : Bool)
    (clock : ScriptClock) :
    cronFlags (scriptAuto cronNext scripts name enable clock) =
      switch name enable (cronFlags scripts) := by
  cases scripts with
  | none => rfl
  | some ctx =>
      simp only [scriptAuto, Option.map_some, cronFlags, scriptNameAutoRun,
        forNamed_prefix, switch, List.map_map]
      refine List.map_congr_left fun s _ => ?_
      simp only [Function.comp_apply]
      by_cases hname : name <+: s.name
      · cases hvalid : s.cron.valid with
        | false => simp [hvalid]
        | true =>
            cases enable with
            | false => simp [hname]
            | true =>
                simp only [hname, Bool.true_eq_false, if_true, if_false,
                  Option.getD_some, true_and, scriptCronSetNext]
                cases clock.tm <;> simp
      · simp [hname]

theorem scriptRun_flags (scripts : Option ScriptsContext) (name : CStr)
    (clock : ScriptClock) :
    cronFlags (scriptRun scripts name clock) = cronFlags scripts := by
  cases scripts with
  | none => rfl
  | some ctx =>
      simp only [scriptRun, Option.map_some, cronFlags, scriptNameRun,
        forNamed_prefix, List.map_map]
      refine List.map_congr_left fun s _ => ?_
      simp only [Function.comp_apply]
      split <;> rfl

/-- The flags after the scripts of a new state are run. -/
def switchState (off on : Option CStr) (flags : List CronFlag) :
    List CronFlag :=
  let flags := match off with
    | none => flags
    | some name => switch name false flags
  match on with
  | none => flags
  | some name => switch name true flags

theorem jkBtAutoAction_flags (cronNext : CronExpr → ℤ → ℤ)
    (scripts : Option ScriptsContext) (clock : ScriptClock)
    (aauto : AutoAction) :
    cronFlags (jkBtAutoAction cronNext scripts clock aauto).1 =
      switchState (aauto.scriptPrefix (!aauto.state))
        (aauto.scriptPrefix aauto.state) (cronFlags scripts) := by
  simp only [jkBtAutoAction, switchState]
  cases aauto.scriptPrefix (!aauto.state) <;>
    cases aauto.scriptPrefix aauto.state <;>
    simp [scriptAuto_flags, scriptRun_flags]

/-! ## The solar scripts of a device -/

/-- The prefix of the scripts that run on an excess of solar power. -/
def solarOn (name : CStr) : CStr :=
  name ++ lit "_" ++ lit "solar_on" ++ lit "_"

/-- The prefix of the scripts that run on a deficiency. -/
def solarOff (name : CStr) : CStr :=
  name ++ lit "_" ++ lit "solar_off" ++ lit "_"

/-- No text has both prefixes. -/
theorem solarOn_solarOff (name text : CStr) (hon : solarOn name <+: text)
    (hoff : solarOff name <+: text) : False := by
  have hlong : solarOn name <+: solarOff name := by
    refine List.prefix_of_prefix_length_le hon hoff ?_
    simp only [solarOn, solarOff, List.length_append]
    exact Nat.add_le_add_right (Nat.add_le_add_left (by decide) _) _
  simp only [solarOn, solarOff, List.append_assoc] at hlong
  rw [List.prefix_append_right_inj] at hlong
  exact absurd hlong (by decide)

/-- The automation of a device uses the solar scripts of a name. -/
def SolarKnown (name : CStr) (aauto : AutoAction) : Prop :=
  aauto.scriptPrefix true = some (solarOn name) ∧
    aauto.scriptPrefix false = some (solarOff name)

/-- The scripts of both prefixes are there and known when they are needed, and
the battery has scripts of its own. -/
structure SolarReady (name : CStr) (scripts : Option ScriptsContext)
    (dev : JkBmsDev) : Prop where
  on_present : 0 < scriptExistPrefix scripts (solarOn name)
  off_present : 0 < scriptExistPrefix scripts (solarOff name)
  known : SolarKnown name dev.autoSolar ∨
    dev.autoSolar.enabled = false ∧ dev.autoSolar.scriptOnCount = 0 ∧
      dev.autoSolar.scriptOffCount = 0 ∧ devName dev = name
  batt : ∀ on batt, dev.autoBatt.scriptPrefix on = some batt →
    Disjoint batt (solarOn name) (cronFlags scripts) ∧
      Disjoint batt (solarOff name) (cronFlags scripts)

theorem scriptPrefix_count {aauto : AutoAction} {name : CStr}
    (h : aauto.scriptPrefix true = some name) : aauto.scriptOnCount ≠ 0 := by
  intro hcount
  simp [AutoAction.scriptPrefix, hcount] at h

/-- A device that looks for its scripts finds them. -/
theorem jkBtFindAutoScripts_known {scripts : Option ScriptsContext}
    {dev : JkBmsDev} {aauto : AutoAction} {name : CStr}
    (hon : 0 < scriptExistPrefix scripts (solarOn name))
    (hoff : 0 < scriptExistPrefix scripts (solarOff name))
    (hcounts : aauto.scriptOnCount = 0 ∧ aauto.scriptOffCount = 0)
    (hname : devName dev = name)
    (hnames : aauto.scriptOnName = lit "solar_on" ∧
      aauto.scriptOffName = lit "solar_off") :
    SolarKnown name (jkBtFindAutoScripts scripts dev aauto) := by
  have honp : scriptsPrefix dev aauto.scriptOnName = solarOn name := by
    rw [hnames.1, scriptsPrefix, hname]
    rfl
  have hoffp : scriptsPrefix dev aauto.scriptOffName = solarOff name := by
    rw [hnames.2, scriptsPrefix, hname]
    rfl
  simp only [jkBtFindAutoScripts, hcounts.1, hcounts.2, ne_eq, not_true,
    or_self, if_false, honp, hoffp]
  constructor
  · simp [AutoAction.scriptPrefix, Int.ne_of_gt hon]
  · simp [AutoAction.scriptPrefix, Int.ne_of_gt hoff]

/-- How many scripts a prefix has depends on their names alone. -/
theorem scriptExistPrefix_of_key {scripts scripts' : Option ScriptsContext}
    {name : CStr} (h : 0 < scriptExistPrefix scripts name)
    (hkey : (cronFlags scripts').map key = (cronFlags scripts).map key)
    (hsome : scripts'.isSome = scripts.isSome) :
    0 < scriptExistPrefix scripts' name := by
  have hcount : ∀ list : List Script, (forNamed some name true list).1 =
      list.countP fun s => name <+: s.name := by
    intro list
    induction list with
    | nil => rfl
    | cons s rest ih =>
        simp only [forNamed, nameMatches_prefix]
        by_cases hname : name <+: s.name
        · simp [hname, ih]
        · simp [hname, ih]
  have hnames : ∀ ctx : ScriptsContext, (scriptExist ctx name true) =
      ((cronFlags (some ctx)).map key).countP fun k => name <+: k.1 := by
    intro ctx
    rw [scriptExist, hcount]
    simp only [cronFlags, List.map_map, List.countP_map]
    rfl
  cases scripts with
  | none => simp [scriptExistPrefix] at h
  | some ctx =>
      cases scripts' with
      | none => simp at hsome
      | some ctx' =>
          simp only [scriptExistPrefix] at h ⊢
          rw [hnames, hkey, ← hnames]
          exact h

/-! ## Steps -/

/-- Scripts of other prefixes may have been switched. -/
structure SolarKept (name : CStr) (scripts scripts' : Option ScriptsContext) :
    Prop where
  isSome : scripts'.isSome = scripts.isSome
  key : (cronFlags scripts').map key = (cronFlags scripts).map key
  none_on : NoneEnabled (solarOn name) (cronFlags scripts) →
    NoneEnabled (solarOn name) (cronFlags scripts')
  none_off : NoneEnabled (solarOff name) (cronFlags scripts) →
    NoneEnabled (solarOff name) (cronFlags scripts')
  all_on : AllEnabled (solarOn name) (cronFlags scripts) →
    AllEnabled (solarOn name) (cronFlags scripts')

theorem SolarKept.refl (name : CStr) (scripts : Option ScriptsContext) :
    SolarKept name scripts scripts :=
  ⟨rfl, rfl, id, id, id⟩

@[simp] theorem switchState_key (off on : Option CStr)
    (flags : List CronFlag) :
    (switchState off on flags).map key = flags.map key := by
  simp only [switchState]
  cases off <;> cases on <;> simp

theorem switchState_other {off on : Option CStr} {name : CStr}
    {flags : List CronFlag}
    (hoff : ∀ batt, off = some batt → Disjoint batt name flags)
    (hon : ∀ batt, on = some batt → Disjoint batt name flags) :
    (NoneEnabled name flags → NoneEnabled name (switchState off on flags)) ∧
      (AllEnabled name flags →
        AllEnabled name (switchState off on flags)) := by
  have hfirst : ∀ flags' : List CronFlag, flags'.map key = flags.map key →
      (NoneEnabled name flags' →
          NoneEnabled name (switchState none on flags')) ∧
        (AllEnabled name flags' →
          AllEnabled name (switchState none on flags')) := by
    intro flags' hkey
    cases on with
    | none => exact ⟨id, id⟩
    | some batt => exact switch_other ((hon batt rfl).of_key hkey)
  cases off with
  | none => exact hfirst flags rfl
  | some batt =>
      have hswitch : (NoneEnabled name flags →
            NoneEnabled name (switch batt false flags)) ∧
          (AllEnabled name flags →
            AllEnabled name (switch batt false flags)) :=
        switch_other (hoff batt rfl)
      have hrest := hfirst (switch batt false flags) (switch_key _ _ _)
      exact ⟨fun h => hrest.1 (hswitch.1 h), fun h => hrest.2 (hswitch.2 h)⟩

theorem jkBtAutoAction_isSome (cronNext : CronExpr → ℤ → ℤ)
    (scripts : Option ScriptsContext) (clock : ScriptClock)
    (aauto : AutoAction) :
    (jkBtAutoAction cronNext scripts clock aauto).1.isSome =
      scripts.isSome := by
  simp only [jkBtAutoAction]
  cases aauto.scriptPrefix (!aauto.state) <;>
    cases aauto.scriptPrefix aauto.state <;>
    simp [scriptAuto, scriptRun]

section

variable (cronNext : CronExpr → ℤ → ℤ) {name : CStr}

/-- The actions of the battery keep the solar scripts. -/
theorem battAction_kept {scripts : Option ScriptsContext} {aauto : AutoAction}
    (clock : ScriptClock)
    (hbatt : ∀ on batt, aauto.scriptPrefix on = some batt →
      Disjoint batt (solarOn name) (cronFlags scripts) ∧
        Disjoint batt (solarOff name) (cronFlags scripts)) :
    SolarKept name scripts
      (jkBtAutoAction cronNext scripts clock aauto).1 := by
  have hon := switchState_other (fun batt h => (hbatt (!aauto.state) batt h).1)
    (fun batt h => (hbatt aauto.state batt h).1)
  have hoff := switchState_other (fun batt h => (hbatt (!aauto.state) batt h).2)
    (fun batt h => (hbatt aauto.state batt h).2)
  exact
    { isSome := jkBtAutoAction_isSome cronNext scripts clock aauto
      key := by rw [jkBtAutoAction_flags, switchState_key]
      none_on := by
        rw [jkBtAutoAction_flags]
        exact hon.1
      none_off := by
        rw [jkBtAutoAction_flags]
        exact hoff.1
      all_on := by
        rw [jkBtAutoAction_flags]
        exact hon.2 }

/-- What the automation of a device is known by. -/
structure SameDevice (dev dev' : JkBmsDev) : Prop where
  solar : ∀ on, dev'.autoSolar.scriptPrefix on = dev.autoSolar.scriptPrefix on
  counts : dev'.autoSolar.scriptOnCount = dev.autoSolar.scriptOnCount ∧
    dev'.autoSolar.scriptOffCount = dev.autoSolar.scriptOffCount
  enabled : dev'.autoSolar.enabled = dev.autoSolar.enabled
  batt : ∀ on, dev'.autoBatt.scriptPrefix on = dev.autoBatt.scriptPrefix on
  devName : devName dev' = devName dev

theorem SolarReady.kept {scripts scripts' : Option ScriptsContext}
    {dev dev' : JkBmsDev} (h : SolarReady name scripts dev)
    (hisSome : scripts'.isSome = scripts.isSome)
    (hkey : (cronFlags scripts').map key = (cronFlags scripts).map key)
    (hdev : SameDevice dev dev') : SolarReady name scripts' dev' where
  on_present := scriptExistPrefix_of_key h.on_present hkey hisSome
  off_present := scriptExistPrefix_of_key h.off_present hkey hisSome
  known := by
    rcases h.known with hknown | ⟨hdisabled, hon, hoff, hname⟩
    · refine Or.inl ⟨?_, ?_⟩
      · rw [hdev.solar]
        exact hknown.1
      · rw [hdev.solar]
        exact hknown.2
    · exact Or.inr ⟨hdev.enabled.trans hdisabled, hdev.counts.1.trans hon,
        hdev.counts.2.trans hoff, hdev.devName.trans hname⟩
  batt := by
    intro on batt hbatt
    obtain ⟨hon, hoff⟩ := h.batt on batt (by rwa [← hdev.batt on])
    exact ⟨hon.of_key hkey, hoff.of_key hkey⟩

/-- The check of the cells keeps the solar scripts and the tracker. -/
theorem checkCellLevels_kept {scripts : Option ScriptsContext} {dev : JkBmsDev}
    (h : SolarReady name scripts dev) (clock : ScriptClock) :
    let after := jkBtCheckCellLevels cronNext scripts clock dev
    SolarKept name scripts after.1 ∧ SameDevice dev after.2 ∧
      after.2.autoSolar.state = dev.autoSolar.state := by
  have hsame : SameDevice dev dev :=
    ⟨fun _ => rfl, ⟨rfl, rfl⟩, rfl, fun _ => rfl, rfl⟩
  simp only [jkBtCheckCellLevels]
  split
  · exact ⟨SolarKept.refl name scripts, hsame, rfl⟩
  · split
    · split
      · exact ⟨battAction_kept cronNext clock h.batt, ⟨fun _ => rfl, ⟨rfl, rfl⟩, rfl,
          fun _ => rfl, rfl⟩, rfl⟩
      · exact ⟨SolarKept.refl name scripts, ⟨fun _ => rfl, ⟨rfl, rfl⟩, rfl,
          fun _ => rfl, rfl⟩, rfl⟩
    · split
      · exact ⟨SolarKept.refl name scripts, ⟨fun _ => rfl, ⟨rfl, rfl⟩, rfl,
          fun _ => rfl, rfl⟩, rfl⟩
      · exact ⟨battAction_kept cronNext clock h.batt, ⟨fun _ => rfl, ⟨rfl, rfl⟩, rfl,
          fun _ => rfl, rfl⟩, rfl⟩

/-- A step that keeps the state and the solar scripts, or moves both. -/
def Moves (name : CStr) (s s' : Option ScriptsContext × JkBmsDev) : Prop :=
  (s'.2.autoSolar.state = s.2.autoSolar.state ∧ SolarKept name s.1 s'.1) ∨
    (s'.2.autoSolar.state = true ∧
      NoneEnabled (solarOff name) (cronFlags s'.1) ∧
      AllEnabled (solarOn name) (cronFlags s'.1)) ∨
    (s'.2.autoSolar.state = false ∧
      NoneEnabled (solarOn name) (cronFlags s'.1))

theorem disjoint_on_off (name : CStr) (flags : List CronFlag) :
    Disjoint (solarOn name) (solarOff name) flags :=
  fun flag _ h => solarOn_solarOff name flag.name h.1 h.2

theorem disjoint_off_on (name : CStr) (flags : List CronFlag) :
    Disjoint (solarOff name) (solarOn name) flags :=
  fun flag _ h => solarOn_solarOff name flag.name h.2 h.1

/-- A new state of the tracker moves the scripts with it. -/
theorem solarAction_flags {aauto : AutoAction} (h : SolarKnown name aauto)
    (scripts : Option ScriptsContext) (clock : ScriptClock) :
    let flags := cronFlags (jkBtAutoAction cronNext scripts clock aauto).1
    if aauto.state then
      NoneEnabled (solarOff name) flags ∧ AllEnabled (solarOn name) flags
    else NoneEnabled (solarOn name) flags := by
  intro flags
  simp only [flags, jkBtAutoAction_flags]
  cases hstate : aauto.state with
  | true =>
      simp only [Bool.not_true, h.1, h.2, switchState, if_true]
      constructor
      · exact (switch_other (disjoint_on_off name _)).1 (switch_off _ _)
      · exact switch_on _ _
  | false =>
      simp only [Bool.not_false, h.1, h.2, switchState, Bool.false_eq_true,
        if_false]
      exact (switch_other (disjoint_off_on name _)).1 (switch_off _ _)

theorem checkSolar_moves (scripts : Option ScriptsContext) {dev : JkBmsDev}
    (h : SolarKnown name dev.autoSolar) (now : ℕ) (clock : ScriptClock) :
    let after := jkBtCheckSolar cronNext scripts now clock dev
    Moves name (scripts, dev) after ∧ SameDevice dev after.2 ∧
      after.1.isSome = scripts.isSome ∧
      (cronFlags after.1).map key = (cronFlags scripts).map key := by
  have hstay : ∀ dev' : JkBmsDev, dev' = dev →
      Moves name (scripts, dev) (scripts, dev') ∧ SameDevice dev dev' ∧
        scripts.isSome = scripts.isSome ∧
        (cronFlags scripts).map key = (cronFlags scripts).map key := by
    rintro _ rfl
    exact ⟨Or.inl ⟨rfl, SolarKept.refl name scripts⟩,
      ⟨fun _ => rfl, ⟨rfl, rfl⟩, rfl, fun _ => rfl, rfl⟩, rfl, rfl⟩
  simp only [jkBtCheckSolar]
  split
  · exact hstay dev rfl
  · split
    · exact hstay dev rfl
    · split
      · generalize hasExcess dev.cellInfo dev.chargeCurrentThreshold = excess
        have hknown : SolarKnown name { dev.autoSolar with state := excess } :=
          h
        have hflags := solarAction_flags cronNext hknown scripts clock
        refine ⟨?_, ⟨fun _ => rfl, ⟨rfl, rfl⟩, rfl, fun _ => rfl, rfl⟩,
          jkBtAutoAction_isSome _ _ _ _, ?_⟩
        · cases excess with
          | true => exact Or.inr (Or.inl ⟨rfl, hflags.1, hflags.2⟩)
          | false => exact Or.inr (Or.inr ⟨rfl, hflags⟩)
        · rw [jkBtAutoAction_flags, switchState_key]
      · exact hstay dev rfl

/-- A frame moves the tracker and the scripts together. -/
theorem cellFrameStep_moves {s : Option ScriptsContext × JkBmsDev}
    (h : SolarReady name s.1 s.2) (frame : CellFrame) :
    let s' := cellFrameStep cronNext s frame
    Moves name s s' ∧ SolarReady name s'.1 s'.2 := by
  intro s'
  have hframe : SolarReady name s.1 (frameDev s.2 frame) :=
    h.kept rfl rfl ⟨fun _ => rfl, ⟨rfl, rfl⟩, rfl, fun _ => rfl, rfl⟩
  let batt := if (frameDev s.2 frame).autoBatt.enabled then
      jkBtCheckCellLevels cronNext s.1 frame.clock.batt (frameDev s.2 frame)
    else (s.1, frameDev s.2 frame)
  have hbatt : SolarKept name s.1 batt.1 ∧
      SameDevice (frameDev s.2 frame) batt.2 ∧
      batt.2.autoSolar.state = s.2.autoSolar.state := by
    simp only [batt]
    split
    · exact checkCellLevels_kept cronNext hframe frame.clock.batt
    · exact ⟨SolarKept.refl name s.1,
        ⟨fun _ => rfl, ⟨rfl, rfl⟩, rfl, fun _ => rfl, rfl⟩, rfl⟩
  have hstep : s' =
      if batt.2.autoSolar.enabled then
        jkBtCheckSolar cronNext batt.1 frame.clock.solarNow frame.clock.solar
          batt.2
      else batt := rfl
  obtain ⟨hkept, hdev, hstate⟩ := hbatt
  have hready := hframe.kept hkept.isSome hkept.key hdev
  rw [hstep]
  split
  next henabled =>
    have hknown : SolarKnown name batt.2.autoSolar := by
      rcases hready.known with hknown | hdisabled
      · exact hknown
      · exact absurd henabled (by simp [hdisabled.1])
    obtain ⟨hmoves, hsame, hisSome, hkey⟩ := checkSolar_moves cronNext batt.1
      hknown frame.clock.solarNow frame.clock.solar
    refine ⟨?_, hready.kept hisSome hkey hsame⟩
    rcases hmoves with ⟨hsamestate, hkept'⟩ | hmoved
    · refine Or.inl ⟨hsamestate.trans hstate, ?_⟩
      exact
        { isSome := hkept'.isSome.trans hkept.isSome
          key := hkept'.key.trans hkept.key
          none_on := fun h => hkept'.none_on (hkept.none_on h)
          none_off := fun h => hkept'.none_off (hkept.none_off h)
          all_on := fun h => hkept'.all_on (hkept.all_on h) }
    · exact Or.inr hmoved
  · exact ⟨Or.inl ⟨hstate, hkept⟩, hready⟩

/-- A device that tracks the solar power knows its scripts. -/
theorem jkBtEnableSolarTrack_ready {scripts : Option ScriptsContext}
    {dev : JkBmsDev} (h : SolarReady name scripts dev) (current : ℤ) :
    SolarReady name scripts (jkBtEnableSolarTrack scripts dev current) := by
  have hname : devName (jkBtEnableSolarTrack scripts dev current) = devName dev := by
    simp only [jkBtEnableSolarTrack]
    split <;> rfl
  have hbatt : (jkBtEnableSolarTrack scripts dev current).autoBatt = dev.autoBatt := by
    simp only [jkBtEnableSolarTrack]
    split <;> rfl
  refine ⟨h.on_present, h.off_present, ?_, fun on batt hp => ?_⟩
  · rcases h.known with hknown | ⟨_, hon, hoff, hdev⟩
    · refine Or.inl ?_
      have hcount := scriptPrefix_count hknown.1
      change SolarKnown name (jkBtEnableSolarTrack scripts dev current).autoSolar
      simp only [jkBtEnableSolarTrack, hcount, false_and, and_false, if_false]
      exact hknown
    · rw [hname]
      simp only [jkBtEnableSolarTrack]
      split
      · exact Or.inl (jkBtFindAutoScripts_known h.on_present h.off_present
          ⟨hon, hoff⟩ hdev ⟨rfl, rfl⟩)
      next hdisabled =>
        refine Or.inr ⟨?_, hon, hoff, hdev⟩
        simpa only [hon, hoff, and_true, Bool.not_eq_true] using hdisabled
  · refine h.batt on batt ?_
    rw [← hbatt]
    exact hp

/-- A command keeps the scripts and ends the excess. -/
theorem thresholdStep_ready {s : Option ScriptsContext × JkBmsDev}
    (h : SolarReady name s.1 s.2) (current : ℤ) :
    let s' := (solarMachine cronNext).step s (.threshold current)
    s'.1 = s.1 ∧ s'.2.autoSolar.state = false ∧
      SolarReady name s'.1 s'.2 :=
  ⟨rfl, (jkBtEnableSolarTrack_tracker s.1 s.2 _).2.1,
    jkBtEnableSolarTrack_ready h _⟩

/-! ## Runs -/

/-- The cron flags agree with the state of the tracker. -/
structure SolarAgree (name : CStr) (s : Option ScriptsContext × JkBmsDev) :
    Prop where
  excess : s.2.autoSolar.state = true →
    NoneEnabled (solarOff name) (cronFlags s.1)
  deficiency : s.2.autoSolar.state = false →
    NoneEnabled (solarOn name) (cronFlags s.1)

/-- The scripts of an excess are on. -/
def ExcessOn (name : CStr) (s : Option ScriptsContext × JkBmsDev) : Prop :=
  SolarReady name s.1 s.2 ∧
    (s.2.autoSolar.state = true →
      NoneEnabled (solarOff name) (cronFlags s.1) ∧
        AllEnabled (solarOn name) (cronFlags s.1))

/-- Some script of the excess can be scheduled. -/
def OnValid (name : CStr) (scripts : Option ScriptsContext) : Prop :=
  ∃ flag ∈ cronFlags scripts, solarOn name <+: flag.name ∧ flag.valid = true

/-- No command arrives during an excess that has a script to schedule. -/
def NoCommandInExcess (name : CStr)
    (s : Option ScriptsContext × JkBmsDev) : SolarEvent → Prop
  | .frame _ => True
  | .threshold _ => s.2.autoSolar.state = true → ¬OnValid name s.1

theorem excessOn_step (s : Option ScriptsContext × JkBmsDev) (e : SolarEvent)
    (h : ExcessOn name s) : ExcessOn name ((solarMachine cronNext).step s e) := by
  cases e with
  | frame frame =>
      obtain ⟨hmoves, hready⟩ := cellFrameStep_moves cronNext h.1 frame
      refine ⟨hready, fun hstate => ?_⟩
      rcases hmoves with ⟨hsame, hkept⟩ | ⟨_, hflags⟩ | ⟨hoff, _⟩
      · obtain ⟨hnone, hall⟩ := h.2 (hsame.symm.trans hstate)
        exact ⟨hkept.none_off hnone, hkept.all_on hall⟩
      · exact hflags
      · exact absurd (hoff.symm.trans hstate) Bool.false_ne_true
  | threshold current =>
      obtain ⟨_, hoff, hready⟩ := thresholdStep_ready cronNext h.1 current
      exact ⟨hready, fun hstate =>
        absurd (hoff.symm.trans hstate) Bool.false_ne_true⟩

/-- Once the tracker has moved, steps outside the condition of
`NoCommandInExcess` are needed to break the agreement. -/
theorem solarAgree_step (s : Option ScriptsContext × JkBmsDev)
    (e : SolarEvent) (h : ExcessOn name s ∧ SolarAgree name s)
    (he : NoCommandInExcess name s e) :
    ExcessOn name ((solarMachine cronNext).step s e) ∧
      SolarAgree name ((solarMachine cronNext).step s e) := by
  have hexcess := excessOn_step cronNext s e h.1
  refine ⟨hexcess, fun hstate => (hexcess.2 hstate).1, fun hstate => ?_⟩
  cases e with
  | frame frame =>
      rcases (cellFrameStep_moves cronNext h.1.1 frame).1 with
        ⟨hsame, hkept⟩ | ⟨hon, _⟩ | ⟨_, hnone⟩
      · exact hkept.none_on (h.2.deficiency (hsame.symm.trans hstate))
      · exact absurd (hon.symm.trans hstate) (by simp)
      · exact hnone
  | threshold current =>
      rw [(thresholdStep_ready cronNext h.1.1 current).1]
      cases hbefore : s.2.autoSolar.state with
      | true =>
          intro flag hflag hname henabled
          exact he hbefore ⟨flag, hflag, hname, henabled.1⟩
      | false => exact h.2.deficiency hbefore

/-- The tracker has moved at some point of the schedule. -/
def HasMoved (s : Option ScriptsContext × JkBmsDev) (es : List SolarEvent) :
    Prop :=
  ∃ pre, pre <+: es ∧ ((solarMachine cronNext).run s pre).2.autoSolar.state = true

/-- In a run from a tracker that has not moved, the scripts agree with the
tracker after its first move exactly as long as no command arrives during an
excess that has a script to schedule. -/
theorem solarScripts_agree_iff {s : Option ScriptsContext × JkBmsDev}
    (h : SolarReady name s.1 s.2) (hstart : s.2.autoSolar.state = false)
    (es : List SolarEvent) :
    (∀ pre, pre <+: es → HasMoved cronNext s pre →
        SolarAgree name ((solarMachine cronNext).run s pre)) ↔
      (solarMachine cronNext).Along (NoCommandInExcess name) s es := by
  have hzero : ExcessOn name s := ⟨h, fun hstate =>
    absurd (hstart.symm.trans hstate) Bool.false_ne_true⟩
  have hexcess : ∀ fs, ExcessOn name ((solarMachine cronNext).run s fs) :=
    EventMachine.invariant (excessOn_step cronNext) hzero
  constructor
  · intro hagree
    by_contra hnot
    obtain ⟨before, e, after, rfl, _, he⟩ :=
      EventMachine.exists_first_failure hnot
    cases e with
    | frame frame => exact he trivial
    | threshold current =>
        simp only [NoCommandInExcess, Classical.not_imp, not_not] at he
        obtain ⟨hstate, flag, hflag, hname, hvalid⟩ := he
        have hrun : (solarMachine cronNext).run s (before ++ [.threshold current]) =
            (solarMachine cronNext).step ((solarMachine cronNext).run s before)
              (.threshold current) :=
          EventMachine.run_append _ _ _ _
        obtain ⟨hscripts, hoff, _⟩ := thresholdStep_ready cronNext
          (hexcess before).1 current
        have hbroken := hagree (before ++ [.threshold current])
          ⟨after, by simp⟩ ⟨before, ⟨[.threshold current], rfl⟩, hstate⟩
        rw [hrun] at hbroken
        have hnone := hbroken.deficiency hoff
        rw [hscripts] at hnone
        exact hnone flag hflag hname
          (((hexcess before).2 hstate).2 flag hflag hname hvalid)
  · rintro halong pre hpre ⟨first, ⟨rest, rfl⟩, hmoved⟩
    have hrest := ((EventMachine.along_append _).mp
      (halong.of_prefix hpre)).2
    rw [EventMachine.run_append]
    refine (hrest.invariant (solarAgree_step cronNext) ⟨hexcess first, ?_⟩).2
    exact
      { excess := fun _ => ((hexcess first).2 hmoved).1
        deficiency := fun hoff =>
          absurd (hmoved.symm.trans hoff) Bool.true_eq_false.mp }

end

/-- A device is ready at boot when its scripts are there. -/
theorem getBmsConfigOne_ready {scripts : Option ScriptsContext} {name : CStr}
    (btIndex : ℤ) (config : BmsConfig)
    (hname : config.userName.getD (lit "(null)") = name)
    (hon : 0 < scriptExistPrefix scripts (solarOn name))
    (hoff : 0 < scriptExistPrefix scripts (solarOff name)) :
    SolarReady name scripts (getBmsConfigOne scripts btIndex config) := by
  have hclear : ∀ dev : JkBmsDev, dev.autoSolar = AutoAction.cleared →
      (∀ on, dev.autoBatt.scriptPrefix on = none) → devName dev = name →
      SolarReady name scripts dev := by
    intro dev hsolar hbatt hdev
    refine ⟨hon, hoff, Or.inr ?_, fun on batt hp => ?_⟩
    · rw [hsolar]
      exact ⟨rfl, rfl, rfl, hdev⟩
    · rw [hbatt on] at hp
      cases hp
  have hdev : devName
      (JkBmsDev.cleared config.userName btIndex config.timeoutMsec) = name :=
    hname
  have hcleared : SolarReady name scripts
      (JkBmsDev.cleared config.userName btIndex config.timeoutMsec) :=
    hclear _ rfl (fun on => by cases on <;> rfl) hdev
  have hlevels (low high : ℕ) : SolarReady name scripts
      (jkBtEnableBatteryTrack
        (JkBmsDev.cleared config.userName btIndex config.timeoutMsec) low
        high) := by
    simp only [jkBtEnableBatteryTrack]
    split
    · exact hcleared
    · exact hclear _ rfl (fun on => by cases on <;> rfl) hdev
  simp only [getBmsConfigOne]
  cases config.threshold with
  | none =>
      cases config.cellLevels with
      | none => exact hcleared
      | some levels => exact hlevels levels.1 levels.2
  | some current =>
      refine jkBtEnableSolarTrack_ready ?_ current
      cases config.cellLevels with
      | none => exact hcleared
      | some levels => exact hlevels levels.1 levels.2

/-- A scheduled script of each state. -/
def solarExampleScripts : Option ScriptsContext :=
  let cron : ScriptCron :=
    { valid := true, enable := false, schedule := ⟨[], [], [], [], [], []⟩,
      next := 0 }
  let script (name : CStr) : Script :=
    { name := name, file := name, runNow := 0, startupMs := 0, execCount := 0,
      fd := -1, lastRun := 0, cron := cron }
  some
    { scripts := [script (lit "bms_solar_on_a"), script (lit "bms_solar_off_a")]
      run := none
      startupCount := 0
      lastCron := 0
      line := [] }

/-- The scripts and a device with a threshold of 10 A. -/
def solarExample : Option ScriptsContext × JkBmsDev :=
  (solarExampleScripts, getBmsConfigOne solarExampleScripts 0
    ⟨some (lit "bms"), 0, none, some 10⟩)

theorem solarExample_ready :
    SolarReady (lit "bms") solarExample.1 solarExample.2 :=
  getBmsConfigOne_ready 0 ⟨some (lit "bms"), 0, none, some 10⟩ rfl
    (by decide +kernel) (by decide +kernel)

theorem solarExample_start : solarExample.2.autoSolar.state = false := by
  decide +kernel

/-- A frame with a charge current of 20 A. -/
def solarExampleExcess : SolarEvent :=
  .frame (solarFrame [0x20, 0x4e, 0, 0] 120000)

theorem solarExample_excess :
    ((solarMachine fun _ tm => tm).run solarExample
      [solarExampleExcess]).2.autoSolar.state = true := by
  decide +kernel

/-- An excess runs the scripts and makes them scheduled. -/
theorem solarScripts_agree_excess :
    SolarAgree (lit "bms") ((solarMachine fun _ tm => tm).run solarExample
      [solarExampleExcess]) := by
  have hmoved : HasMoved (fun _ tm => tm) solarExample [solarExampleExcess] :=
    ⟨_, List.prefix_refl _, solarExample_excess⟩
  have hquiet : (solarMachine fun _ tm => tm).Along
      (NoCommandInExcess (lit "bms")) solarExample [solarExampleExcess] := by
    rw [EventMachine.along_cons]
    exact ⟨trivial, EventMachine.along_nil _ _ _⟩
  have hagree := (solarScripts_agree_iff (fun _ tm => tm) solarExample_ready
    solarExample_start [solarExampleExcess]).mpr hquiet
  exact hagree [solarExampleExcess] (List.prefix_refl _) hmoved

/-- A command that disables the tracker during an excess leaves the script of
the excess scheduled. -/
theorem solarScripts_not_agree :
    ¬∀ (s : Option ScriptsContext × JkBmsDev) (es : List SolarEvent),
      SolarReady (lit "bms") s.1 s.2 → s.2.autoSolar.state = false →
      HasMoved (fun _ tm => tm) s es →
      SolarAgree (lit "bms") ((solarMachine fun _ tm => tm).run s es) := by
  intro h
  let es : List SolarEvent := [solarExampleExcess, .threshold 0]
  have hagree := h solarExample es solarExample_ready solarExample_start
    ⟨[solarExampleExcess], ⟨[.threshold 0], rfl⟩, solarExample_excess⟩
  have hstate : ((solarMachine fun _ tm => tm).run solarExample
      es).2.autoSolar.state = false := by decide +kernel
  have hflag : (⟨lit "bms_solar_on_a", true, true⟩ : CronFlag) ∈
      cronFlags ((solarMachine fun _ tm => tm).run solarExample es).1 := by
    decide +kernel
  exact hagree.deficiency hstate _ hflag (by decide +kernel) ⟨rfl, rfl⟩

end Herak.BmsJk
