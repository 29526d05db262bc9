import Mathlib.Data.Finset.Card
import Herak.Cfg.Base64
import Herak.Support.EventMachine

/-!
# Configuration store

`cfg_store.c`: the parameters of the device are files of a directory with the
values in base64, and a table holds the names that were asked for.  The file
that a path names is a parameter here, as the file system decides it; its
operations succeed.
-/

namespace Herak.Cfg

open CString

/-- `CFG_DIR` -/
def cfgDir : CStr := lit "/device_cfg"

/-- `MAX_VARS` -/
def maxVars : ℕ := 100

/-- `BUFF_SIZE` -/
def buffSize : ℕ := 300

/-- The path that is written into the buffer. -/
def cfgPath (name : CStr) : CStr :=
  snprintf buffSize (cfgDir ++ lit "/" ++ name)

/-- `cfgs_context_t`, with the content of the file system. -/
structure CfgStore (File : Type*) where
  params : List CStr
  disk : File → Option (List UInt8)

variable {File : Type*} [DecidableEq File] (fileOf : CStr → File)

namespace CfgStore

/-- The context after a start of the device. -/
def boot (disk : File → Option (List UInt8)) : CfgStore File :=
  ⟨[], disk⟩

/-- `cfgs_param_find` -/
def cfgsParamFind (s : CfgStore File) (name : CStr) : Option CStr :=
  s.params.find? fun param =>
    strlen name == strlen param && strcmp name param == 0

/-- `cfgs_param_register` -/
def cfgsParamRegister (s : CfgStore File) (name : CStr) :
    Option CStr × CfgStore File :=
  if maxVars ≤ s.params.length then (none, s)
  else (some name, { s with params := s.params ++ [name] })

/-- `cfgs_param_find`, or else `cfgs_param_register`. -/
def findOrRegister (s : CfgStore File) (name : CStr) :
    Option CStr × CfgStore File :=
  match s.cfgsParamFind name with
  | some var => (some var, s)
  | none => s.cfgsParamRegister name

/-- `cfgs_param_read` -/
def cfgsParamRead (s : CfgStore File) (var : CStr) : Option (List UInt8) :=
  match s.disk (fileOf (cfgPath var)) with
  | none => none
  | some content =>
      if 1 < (content.take buffSize).length then
        base64Decode (content.take buffSize)
      else none

/-- `cfgs_param_set` -/
def cfgsParamSet (s : CfgStore File) (name value : CStr) :
    ℤ × CfgStore File :=
  let s := (s.findOrRegister name).2
  (0, { s with
    disk := Function.update s.disk (fileOf (cfgPath name))
      (some (base64Encode value)) })

/-- `cfgs_param_get` -/
def cfgsParamGet (s : CfgStore File) (name : CStr) :
    Option (List UInt8) × CfgStore File :=
  match s.findOrRegister name with
  | (none, s) => (none, s)
  | (some var, s) => (s.cfgsParamRead fileOf var, s)

/-- `cfgs_param_del` -/
def cfgsParamDel (s : CfgStore File) (name : CStr) : ℤ × CfgStore File :=
  (0, { s with
    disk := Function.update s.disk (fileOf (cfgPath name)) none })

end CfgStore

/-! ## Histories -/

inductive CfgEvent
  | set (name value : CStr)
  | get (name : CStr)
  | del (name : CStr)

namespace CfgEvent

def name : CfgEvent → CStr
  | .set name _ | .get name | .del name => name

/-- The event changes the parameter. -/
def Writes (param : CStr) : CfgEvent → Prop
  | .set name _ | .del name => name = param
  | .get _ => False

end CfgEvent

def cfgMachine : EventMachine (CfgStore File) CfgEvent where
  step := fun s e =>
    match e with
    | .set name value => (s.cfgsParamSet fileOf name value).2
    | .get name => (s.cfgsParamGet fileOf name).2
    | .del name => (s.cfgsParamDel fileOf name).2
  enabled := fun _ _ => True

/-- What `cfgs_param_get` returns after a history. -/
def valueAfter (disk : File → Option (List UInt8)) (es : List CfgEvent)
    (name : CStr) : Option (List UInt8) :=
  (((cfgMachine fileOf).run (.boot disk) es).cfgsParamGet fileOf name).1

/-- What is asked of a history that uses some names: a value that was set is
returned until its parameter is written again, and setting it changes no other
parameter. -/
def RoundTrip (names : Set CStr) (disk : File → Option (List UInt8))
    (es : List CfgEvent) : Prop :=
  ∀ before name value after, before ++ .set name value :: after <+: es →
    (((cfgMachine fileOf).run (.boot disk) before).cfgsParamSet fileOf name
      value).1 = 0 →
    ((∀ e ∈ after, ¬e.Writes name) →
        valueAfter fileOf disk (before ++ .set name value :: after) name =
          some value) ∧
      ∀ other ∈ names, other ≠ name →
        valueAfter fileOf disk (before ++ [.set name value]) other =
          valueAfter fileOf disk before other

/-- A value that is set has between 1 and 225 characters. -/
def CfgEvent.Fits : CfgEvent → Prop
  | .set _ value => 0 < value.length ∧ value.length ≤ 225
  | .get _ | .del _ => True

instance : ∀ e : CfgEvent, Decidable e.Fits
  | .set _ _ => inferInstanceAs (Decidable (_ ∧ _))
  | .get _ | .del _ => .isTrue trivial

/-! ## Values -/

/-- What is read back of a value. -/
theorem read_encode_eq (value : List UInt8) :
    (if 1 < ((base64Encode value).take buffSize).length then
      base64Decode ((base64Encode value).take buffSize) else none) =
      if value = [] then none else some (value.take 225) := by
  have hlen := base64Encode_length value
  by_cases hnil : value = []
  · subst hnil
    rfl
  · have hpos : 0 < value.length := List.length_pos_of_ne_nil hnil
    have hbuff : ((base64Encode value).take buffSize).length =
        min 300 ((value.length + 2) / 3 * 4) := by
      rw [List.length_take, hlen]
      rfl
    have hbytes : base64Bytes ((base64Encode value).take buffSize) =
        value.take 225 := by
      by_cases hlong : 225 ≤ value.length
      · have htake := base64Encode_take 75 value hlong
        rw [show buffSize = 4 * 75 from rfl, htake, base64Bytes_encode]
      · rw [List.take_of_length_le (by rw [hlen, buffSize]; omega),
          base64Bytes_encode, List.take_of_length_le (by omega)]
    rw [if_pos (by rw [hbuff]; omega), if_neg hnil, base64Decode,
      if_neg (by rw [hbuff]; omega), hbytes]

/-- A value is read back exactly if it has between 1 and 225 characters. -/
theorem read_encode_eq_some_iff (value : List UInt8) :
    (if value = [] then none else some (value.take 225)) = some value ↔
      0 < value.length ∧ value.length ≤ 225 := by
  by_cases hnil : value = []
  · simp [hnil]
  · rw [if_neg hnil, Option.some.injEq, List.take_eq_self_iff]
    have hpos : 0 < value.length := List.length_pos_of_ne_nil hnil
    simp [hpos]

/-! ## The table of names -/

namespace CfgStore

variable {fileOf} {s : CfgStore File} {name : CStr}

omit [DecidableEq File] in
theorem cfgsParamFind_eq (s : CfgStore File) (name : CStr) :
    s.cfgsParamFind name = if name ∈ s.params then some name else none := by
  have hsame : ∀ param : CStr,
      (strlen name == strlen param && strcmp name param == 0) = true ↔
        param = name := by
    intro param
    rw [Bool.and_eq_true, beq_iff_eq, beq_iff_eq, strcmp_eq_zero_iff]
    exact ⟨fun h => h.2.symm, fun h => ⟨congrArg strlen h.symm, h.symm⟩⟩
  unfold cfgsParamFind
  by_cases hmem : name ∈ s.params
  · rw [if_pos hmem]
    cases hfind : s.params.find? fun param =>
        strlen name == strlen param && strcmp name param == 0 with
    | none =>
        have hnot := List.find?_eq_none.mp hfind name hmem
        exact (hnot ((hsame name).mpr rfl)).elim
    | some param =>
        have hparam := List.find?_some hfind
        rw [(hsame param).mp hparam]
  · rw [if_neg hmem, List.find?_eq_none]
    intro param hparam heq
    exact hmem ((hsame param).mp heq ▸ hparam)

/-- The table holds different names of a set. -/
structure Names (names : Finset CStr) (s : CfgStore File) : Prop where
  nodup : s.params.Nodup
  mem : ∀ param ∈ s.params, param ∈ names

variable {names : Finset CStr}

omit [DecidableEq File] in
theorem names_boot (disk : File → Option (List UInt8)) :
    Names names (boot disk) :=
  ⟨List.nodup_nil, fun _ h => (List.not_mem_nil h).elim⟩

omit [DecidableEq File] in
/-- There is room for every name of the set. -/
theorem Names.lt (h : Names names s) (hcard : names.card ≤ maxVars)
    (hname : name ∈ names) (hnew : name ∉ s.params) :
    s.params.length < maxVars := by
  have hsub : s.params.toFinset ⊂ names := by
    rw [Finset.ssubset_iff_of_subset]
    · exact ⟨name, hname, fun hmem => hnew (List.mem_toFinset.mp hmem)⟩
    · exact fun param hparam => h.mem param (List.mem_toFinset.mp hparam)
  have hlt := Finset.card_lt_card hsub
  rw [List.toFinset_card_of_nodup h.nodup] at hlt
  omega

omit [DecidableEq File] in
theorem Names.findOrRegister (h : Names names s) (hcard : names.card ≤ maxVars)
    (hname : name ∈ names) :
    (s.findOrRegister name).1 = some name ∧
      (s.findOrRegister name).2.disk = s.disk ∧
      Names names (s.findOrRegister name).2 := by
  unfold CfgStore.findOrRegister
  rw [cfgsParamFind_eq]
  by_cases hmem : name ∈ s.params
  · rw [if_pos hmem]
    exact ⟨rfl, rfl, h⟩
  · have hlt := h.lt hcard hname hmem
    rw [if_neg hmem]
    dsimp only
    rw [cfgsParamRegister, if_neg hlt.not_ge]
    refine ⟨rfl, rfl, ?_, ?_⟩
    · apply List.Nodup.append h.nodup (List.nodup_singleton name)
      rw [List.disjoint_singleton]
      exact hmem
    · intro param hparam
      rcases List.mem_append.mp hparam with hparam | hparam
      · exact h.mem param hparam
      · rw [List.mem_singleton.mp hparam]
        exact hname

/-! ## Calls -/

variable (fileOf) in
omit [DecidableEq File] in
theorem Names.cfgsParamGet (h : Names names s) (hcard : names.card ≤ maxVars)
    (hname : name ∈ names) :
    (s.cfgsParamGet fileOf name).1 = s.cfgsParamRead fileOf name ∧
      (s.cfgsParamGet fileOf name).2.disk = s.disk ∧
      Names names (s.cfgsParamGet fileOf name).2 := by
  obtain ⟨hvar, hdisk, hnames⟩ := h.findOrRegister hcard hname
  unfold CfgStore.cfgsParamGet
  generalize s.findOrRegister name = result at hvar hdisk hnames
  obtain ⟨var, s'⟩ := result
  obtain rfl : var = some name := hvar
  refine ⟨?_, hdisk, hnames⟩
  simp only [cfgsParamRead]
  rw [show s'.disk = s.disk from hdisk]

variable (fileOf) in
/-- A step changes the file of its own name at most. -/
theorem Names.step (h : Names names s) (hcard : names.card ≤ maxVars)
    {e : CfgEvent} (he : e.name ∈ names) :
    Names names ((cfgMachine fileOf).step s e) ∧
      ∀ file, (∀ param, e.Writes param → file ≠ fileOf (cfgPath param)) →
        ((cfgMachine fileOf).step s e).disk file = s.disk file := by
  cases e with
  | set name value =>
      obtain ⟨-, hdisk, hnames⟩ := h.findOrRegister hcard he
      refine ⟨⟨hnames.nodup, hnames.mem⟩, fun file hfile => ?_⟩
      have hne := hfile name rfl
      exact (Function.update_of_ne hne _ _).trans (congrFun hdisk file)
  | get name =>
      obtain ⟨-, hdisk, hnames⟩ := h.cfgsParamGet fileOf hcard he
      exact ⟨hnames, fun file _ => congrFun hdisk file⟩
  | del name =>
      refine ⟨⟨h.nodup, h.mem⟩, fun file hfile => ?_⟩
      exact Function.update_of_ne (hfile name rfl) _ _

variable (fileOf) in
theorem Names.run (hcard : names.card ≤ maxVars) {es : List CfgEvent}
    (hes : ∀ e ∈ es, e.name ∈ names) (h : Names names s) :
    Names names ((cfgMachine fileOf).run s es) := by
  induction es generalizing s with
  | nil => exact h
  | cons e es ih =>
      obtain ⟨hnames, -⟩ := h.step fileOf hcard
        (hes e List.mem_cons_self)
      exact ih (fun e he => hes e (List.mem_cons_of_mem _ he)) hnames

/-- What is not written stays. -/
theorem Names.run_disk (hcard : names.card ≤ maxVars) {es : List CfgEvent}
    (hes : ∀ e ∈ es, e.name ∈ names) {file : File}
    (hfile : ∀ e ∈ es, ∀ param, e.Writes param → file ≠ fileOf (cfgPath param))
    (h : Names names s) :
    ((cfgMachine fileOf).run s es).disk file = s.disk file := by
  induction es generalizing s with
  | nil => rfl
  | cons e es ih =>
      obtain ⟨hnames, hdisk⟩ := h.step fileOf hcard
        (hes e List.mem_cons_self)
      rw [EventMachine.run_cons,
        ih (fun e he => hes e (List.mem_cons_of_mem _ he))
          (fun e he => hfile e (List.mem_cons_of_mem _ he)) hnames,
        hdisk file (hfile e List.mem_cons_self)]

end CfgStore

open CfgStore

theorem CfgEvent.name_of_writes {e : CfgEvent} {param : CStr}
    (h : e.Writes param) : e.name = param := by
  cases e with
  | set name value => exact h
  | get name => exact h.elim
  | del name => exact h

theorem valueAfter_eq {names : Finset CStr}
    (hcard : names.card ≤ maxVars) {disk : File → Option (List UInt8)}
    {es : List CfgEvent} (hes : ∀ e ∈ es, e.name ∈ names) {name : CStr}
    (hname : name ∈ names) :
    valueAfter fileOf disk es name =
      ((cfgMachine fileOf).run (.boot disk) es).cfgsParamRead fileOf name :=
  ((names_boot disk).run fileOf hcard hes).cfgsParamGet fileOf hcard hname |>.1

/-- Values of fitting length are kept for at most a hundred names whose paths
name different files. -/
theorem config_round_trip {names : Finset CStr}
    (hcard : names.card ≤ maxVars)
    (hfiles : Set.InjOn (fun name => fileOf (cfgPath name)) names)
    (disk : File → Option (List UInt8)) {es : List CfgEvent}
    (hes : ∀ e ∈ es, e.name ∈ names ∧ e.Fits) :
    RoundTrip fileOf names disk es := by
  intro before name value after hbefore _
  have hmem : ∀ e ∈ before ++ .set name value :: after,
      e.name ∈ names ∧ e.Fits := fun e he =>
    hes e (hbefore.subset he)
  obtain ⟨hname, hfits⟩ : name ∈ names ∧
      0 < value.length ∧ value.length ≤ 225 := hmem (.set name value) (by simp)
  have hbefore : ∀ e ∈ before, e.name ∈ names := fun e he =>
    (hmem e (List.mem_append_left _ he)).1
  have hafter : ∀ e ∈ after, e.name ∈ names := fun e he =>
    (hmem e (List.mem_append_right _ (List.mem_cons_of_mem _ he))).1
  have hset : ∀ e ∈ before ++ [.set name value], e.name ∈ names := by
    intro e he
    rcases List.mem_append.mp he with he | he
    · exact hbefore e he
    · rw [List.mem_singleton.mp he]
      exact hname
  have hother : ∀ param ∈ names, param ≠ name →
      fileOf (cfgPath param) ≠ fileOf (cfgPath name) := fun param hparam hne =>
    mt (fun h => hfiles hparam hname h) hne
  have hnames := (names_boot disk).run fileOf hcard hbefore
  have hstep := hnames.step fileOf hcard (e := .set name value) hname
  constructor
  · intro hkeep
    have hnew : ((cfgMachine fileOf).run (.boot disk)
        (before ++ .set name value :: after)).disk (fileOf (cfgPath name)) =
          some (base64Encode value) := by
      rw [EventMachine.run_append, EventMachine.run_cons,
        hstep.1.run_disk hcard hafter]
      · exact Function.update_self ..
      · intro e he param hparam
        have hne : param ≠ name := fun heq => hkeep e he (heq ▸ hparam)
        have hmem' : param ∈ names :=
          CfgEvent.name_of_writes hparam ▸ hafter e he
        exact (hother param hmem' hne).symm
    rw [valueAfter_eq fileOf hcard (fun e he => (hmem e he).1) hname,
      cfgsParamRead, hnew]
    exact (read_encode_eq value).trans ((read_encode_eq_some_iff value).mpr hfits)
  · intro other hmem' hne
    have hsame : ((cfgMachine fileOf).run (.boot disk)
        (before ++ [.set name value])).disk (fileOf (cfgPath other)) =
          ((cfgMachine fileOf).run (.boot disk) before).disk
            (fileOf (cfgPath other)) := by
      rw [EventMachine.run_append]
      apply hstep.2
      intro param hparam
      rw [← show name = param from hparam]
      exact hother other hmem' hne
    rw [valueAfter_eq fileOf hcard hset hmem',
      valueAfter_eq fileOf hcard hbefore hmem', cfgsParamRead, hsame,
      ← cfgsParamRead]

/-- Two names, each with a value that is changed once. -/
theorem config_round_trip_two :
    RoundTrip id ({lit "HOST", lit "SSR"} : Finset CStr) (fun _ => none)
      [.set (lit "HOST") (lit "pico"), .set (lit "SSR") (lit "0:1"),
        .get (lit "HOST"), .set (lit "HOST") (lit "herak")] := by
  refine config_round_trip id (by decide +kernel) ?_ _ ?_
  · have hinj : ∀ a ∈ ({lit "HOST", lit "SSR"} : Finset CStr),
        ∀ b ∈ ({lit "HOST", lit "SSR"} : Finset CStr),
          cfgPath a = cfgPath b → a = b := by decide +kernel
    exact fun a ha b hb => hinj a ha b hb
  · decide +kernel

/-- An empty value is not read back. -/
theorem not_config_round_trip :
    ¬∀ (disk : CStr → Option (List UInt8)) (es : List CfgEvent),
      RoundTrip id Set.univ disk es := by
  intro h
  have hread := (h (fun _ => none) [.set (lit "SSR") []] [] (lit "SSR") [] []
    (List.prefix_refl _) rfl).1 (fun _ he => (List.not_mem_nil he).elim)
  exact absurd hread (by decide +kernel)

end Herak.Cfg
