import Herak.Commands.Dispatch

/-!
# System modules

The table of modules that the main loop runs, and how their commands come into
the registry: for each module its own table first and the table of the common
commands after it.
-/

namespace Herak.Commands

open CString

abbrev maxModules : ℕ := 30

/-- `OTA_JOB`, the job bit of an update. -/
def otaJob : UInt32 := 1

/-- `sys_module_t`; `self` is the pointer to the structure. -/
structure SysModule (Cb UserData : Type*) where
  name : CStr
  hooks : Option (List (AppCommand Cb))
  description : CStr
  context : UserData
  self : UserData
  jobFlags : UInt32
  run : Bool

/-- `sys_modules_context` -/
structure SysModules (Cb UserData : Type*) where
  modules : List (SysModule Cb UserData)
  jobState : UInt32
  modules_le : modules.length ≤ maxModules

variable {Cb UserData : Type*}

def SysModules.init : SysModules Cb UserData where
  modules := []
  jobState := 0
  modules_le := Nat.zero_le _

def sysJobStateSet (jobState job : UInt32) : UInt32 :=
  jobState ||| job

def sysJobStateClear (jobState job : UInt32) : UInt32 :=
  jobState &&& ~~~job

/-- The modules that one round of `sys_modules_run` runs: during a job only
those that take part in it. -/
def sysModulesRun (ms : SysModules Cb UserData) :
    List (SysModule Cb UserData) :=
  ms.modules.filter fun m =>
    m.run && !(ms.jobState != 0 && ms.jobState &&& m.jobFlags == 0)

/-! ## Registration of the commands -/

def cmdCommonDesc : CStr := lit "Common module commands"

/-- The table of a module itself. -/
def ownRegistration (m : SysModule Cb UserData)
    (hooks : List (AppCommand Cb)) (alloc : Bool × Bool) :
    Registration Cb UserData where
  module := m.name
  commands := hooks
  description := m.description
  userData := m.context
  moduleAllocated := alloc.1
  tableAllocated := alloc.2

/-- `module_common_requests` of a module. -/
def commonRegistration (common : List (AppCommand Cb))
    (m : SysModule Cb UserData) (alloc : Bool × Bool) :
    Registration Cb UserData where
  module := m.name
  commands := common
  description := cmdCommonDesc
  userData := m.self
  moduleAllocated := alloc.1
  tableAllocated := alloc.2

/-- What the allocations of the two additions of each module yield. -/
structure AllocOutcome (Cb UserData : Type*) where
  own : SysModule Cb UserData → Bool × Bool
  common : SysModule Cb UserData → Bool × Bool

def moduleRegistrations (common : List (AppCommand Cb))
    (alloc : AllocOutcome Cb UserData) (m : SysModule Cb UserData) :
    List (Registration Cb UserData) :=
  let commonTable := commonRegistration common m (alloc.common m)
  match m.hooks with
  | none => [commonTable]
  | some hooks => [ownRegistration m hooks (alloc.own m), commonTable]

/-- The additions of `sys_modules_init`. -/
def sysModulesInit (common : List (AppCommand Cb))
    (alloc : AllocOutcome Cb UserData) (ms : SysModules Cb UserData) :
    List (Registration Cb UserData) :=
  ms.modules.flatMap (moduleRegistrations common alloc)

/-- The additions that succeed are in the order of all of them. -/
theorem added_sublist (s : RegistryRun Cb UserData)
    (regs : List (Registration Cb UserData)) :
    ∃ kept, (RegistryRun.machine.run s regs).added = s.added ++ kept ∧
      kept.Sublist regs := by
  induction regs generalizing s with
  | nil => exact ⟨[], by simp, List.Sublist.refl _⟩
  | cons r regs ih =>
      obtain ⟨kept, hkept, hsub⟩ := ih (s.step r)
      by_cases hret : (cmdHandlerAdd s.ctx r).1 = 0
      · refine ⟨r :: kept, ?_, hsub.cons_cons r⟩
        calc
          _ = (s.step r).added ++ kept := hkept
          _ = s.added ++ r :: kept := by simp [RegistryRun.step, hret]
      · refine ⟨kept, ?_, hsub.cons r⟩
        calc
          _ = (s.step r).added ++ kept := hkept
          _ = s.added ++ kept := by simp [RegistryRun.step, hret]

theorem mem_moduleRegistrations {common : List (AppCommand Cb)}
    {alloc : AllocOutcome Cb UserData} {m : SysModule Cb UserData}
    {r : Registration Cb UserData}
    (hr : r ∈ moduleRegistrations common alloc m) : r.module = m.name := by
  unfold moduleRegistrations at hr
  split at hr
  · obtain rfl := List.mem_singleton.mp hr
    rfl
  · rcases List.mem_cons.mp hr with rfl | hr
    · rfl
    · obtain rfl := List.mem_singleton.mp hr
      rfl

/-- The additions for one module name, when no two modules share a name. -/
theorem filter_sysModulesInit {common : List (AppCommand Cb)}
    {alloc : AllocOutcome Cb UserData} {modules : List (SysModule Cb UserData)}
    (hnames : (modules.map (·.name)).Nodup) {m : SysModule Cb UserData}
    (hm : m ∈ modules) :
    (modules.flatMap (moduleRegistrations common alloc)).filter
        (fun r => r.module = m.name) =
      moduleRegistrations common alloc m := by
  induction modules with
  | nil => simp at hm
  | cons k modules ih =>
      rw [List.flatMap_cons, List.filter_append]
      simp only [List.map_cons, List.nodup_cons] at hnames
      rcases List.mem_cons.mp hm with rfl | hmem
      · have hrest : (modules.flatMap (moduleRegistrations common alloc)).filter
            (fun r => r.module = m.name) = [] := by
          rw [List.filter_eq_nil_iff]
          intro r hr hname
          obtain ⟨k, hk, hr⟩ := List.mem_flatMap.mp hr
          rw [mem_moduleRegistrations hr] at hname
          exact hnames.1 (List.mem_map.mpr ⟨k, hk, by simpa using hname⟩)
        rw [hrest, List.append_nil, List.filter_eq_self]
        intro r hr
        simp [mem_moduleRegistrations hr]
      · have hfirst : (moduleRegistrations common alloc k).filter
            (fun r => r.module = m.name) = [] := by
          rw [List.filter_eq_nil_iff]
          intro r hr hname
          rw [mem_moduleRegistrations hr] at hname
          exact hnames.1 (List.mem_map.mpr
            ⟨m, hmem, by simpa using (of_decide_eq_true hname).symm⟩)
        rw [hfirst, List.nil_append, ih hnames.2 hmem]

theorem sublist_pair_of_mem {α : Type*} {l : List α} {a b : α}
    (hsub : l.Sublist [a, b]) (ha : a ∈ l) : ∃ rest, l = a :: rest := by
  cases hsub with
  | cons _ hsub =>
      cases hsub with
      | cons _ hsub =>
          rw [List.sublist_nil.mp hsub] at ha
          simp at ha
      | cons_cons _ hsub =>
          rw [List.sublist_nil.mp hsub] at ha ⊢
          obtain rfl := List.mem_singleton.mp ha
          exact ⟨[], rfl⟩
  | cons_cons _ hsub => exact ⟨_, rfl⟩

/-- A module's own command shadows the common one of its name, once the
module's own table is registered. -/
theorem own_shadows_common {common : List (AppCommand Cb)}
    {alloc : AllocOutcome Cb UserData} {ms : SysModules Cb UserData}
    (hnames : (ms.modules.map (·.name)).Nodup) {m : SysModule Cb UserData}
    (hm : m ∈ ms.modules) {hooks : List (AppCommand Cb)}
    (hhooks : m.hooks = some hooks)
    (hown : ownRegistration m hooks (alloc.own m) ∈
      (RegistryRun.machine.run RegistryRun.init
        (sysModulesInit common alloc ms)).added)
    {cmd : AppCommand Cb} (hcmd : cmd ∈ hooks) (hcb : cmd.cb.isSome = true) :
    ∃ own ∈ hooks, own.command = cmd.command ∧
      firstHook (RegistryRun.machine.run RegistryRun.init
          (sysModulesInit common alloc ms)).added m.name cmd.command =
        some (own, m.context) := by
  obtain ⟨kept, hkept, hsub⟩ := added_sublist RegistryRun.init
    (sysModulesInit common alloc ms)
  rw [hkept, RegistryRun.init, List.nil_append] at hown ⊢
  -- what is kept of this module starts with its own table
  have hfilter := hsub.filter (fun r => r.module = m.name)
  rw [sysModulesInit, filter_sysModulesInit hnames hm, moduleRegistrations,
    hhooks] at hfilter
  have hmem : ownRegistration m hooks (alloc.own m) ∈
      kept.filter fun r => r.module = m.name :=
    List.mem_filter.mpr ⟨hown, by simp [ownRegistration]⟩
  obtain ⟨rest, hstart⟩ := sublist_pair_of_mem hfilter hmem
  have hooksEq : hooksOf kept m.name =
      hooks.map (fun cmd => (cmd, m.context)) ++
        rest.flatMap fun r => r.commands.map fun cmd => (cmd, r.userData) := by
    rw [hooksOf, hstart, List.flatMap_cons]
    rfl
  have hsome : ((hooks.map fun cmd => (cmd, m.context)).find? fun hook =>
      hook.1.command = cmd.command ∧ hook.1.cb.isSome).isSome :=
    List.find?_isSome.mpr ⟨(cmd, m.context), List.mem_map.mpr ⟨cmd, hcmd, rfl⟩,
      by simp [hcb]⟩
  obtain ⟨hook, hhook⟩ := Option.isSome_iff_exists.mp hsome
  obtain ⟨own, hmemOwn, rfl⟩ := List.mem_map.mp (List.mem_of_find?_eq_some hhook)
  have hname := List.find?_some hhook
  simp only [decide_eq_true_eq] at hname
  refine ⟨own, hmemOwn, hname.1, ?_⟩
  rw [firstHook, hooksEq, List.find?_append, hhook]
  rfl

end Herak.Commands
