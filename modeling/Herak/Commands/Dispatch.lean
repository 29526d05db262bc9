import Mathlib.Data.List.Find
import Mathlib.Data.List.Nodup
import Herak.Commands.Registry
import Herak.Support.EventMachine

/-!
# Dispatch

A registry is what a sequence of `cmdHandlerAdd` calls makes of an empty one.
Whatever the calls and their outcomes, `cmdExec` runs the first enabled command
that the grammar `module?command` with an optional `:`-suffix selects, in the
order in which the tables were added.
-/

namespace Herak.Commands

open CString

variable {Cb UserData Context : Type*}

/-- A registry with the additions that succeeded, in their order. -/
structure RegistryRun (Cb UserData : Type*) where
  ctx : CmdContext Cb UserData
  added : List (Registration Cb UserData)

namespace RegistryRun

def init : RegistryRun Cb UserData where
  ctx := CmdContext.init
  added := []

def step (s : RegistryRun Cb UserData) (r : Registration Cb UserData) :
    RegistryRun Cb UserData :=
  let result := cmdHandlerAdd s.ctx r
  { ctx := result.2
    added := if result.1 = 0 then s.added ++ [r] else s.added }

/-- Module names have no delimiter in them and command names no separator. -/
def NamesOk (r : Registration Cb UserData) : Prop :=
  cmdParamDelimiter ∉ r.module ∧
    ∀ cmd ∈ r.commands, cmdParamSeparator ∉ cmd.command

instance (r : Registration Cb UserData) : Decidable (NamesOk r) :=
  inferInstanceAs (Decidable (_ ∧ _))

def machine : EventMachine (RegistryRun Cb UserData)
    (Registration Cb UserData) where
  step := step
  enabled := fun _ r => NamesOk r

instance (s : RegistryRun Cb UserData) (r : Registration Cb UserData) :
    Decidable (machine.enabled s r) :=
  inferInstanceAs (Decidable (NamesOk r))

end RegistryRun

/-- The commands of a module with the user data of their tables, in the order
in which they were added. -/
def hooksOf (added : List (Registration Cb UserData)) (module : CStr) :
    List (AppCommand Cb × UserData) :=
  (added.filter fun r => r.module = module).flatMap fun r =>
    r.commands.map fun cmd => (cmd, r.userData)

/-- The first enabled command of a name. -/
def firstHook (added : List (Registration Cb UserData))
    (module command : CStr) : Option (AppCommand Cb × UserData) :=
  (hooksOf added module).find? fun hook =>
    hook.1.command = command ∧ hook.1.cb.isSome

/-! ## What an addition does -/

namespace CmdContext

def modules (ctx : CmdContext Cb UserData) : List CStr :=
  ctx.handlers.map (·.module)

/-- The tables of a module. -/
def tablesOf (ctx : CmdContext Cb UserData) (module : CStr) :
    List (CmdHandler Cb UserData) :=
  match ctx.handlers.find? fun h => h.module = module with
  | some h => h.modCb
  | none => []

theorem tablesOf_of_mem (ctx : CmdContext Cb UserData)
    {h : CmdModHandler Cb UserData} (hh : h ∈ ctx.handlers) :
    ctx.tablesOf h.module = h.modCb := by
  have hfind : ctx.handlers.find? (fun k => k.module = h.module) = some h := by
    obtain ⟨k, hk⟩ := Option.isSome_iff_exists.mp
      (List.find?_isSome.mpr ⟨h, hh, by simp⟩ :
        (ctx.handlers.find? fun k => k.module = h.module).isSome)
    have hmod : k.module = h.module := by simpa using List.find?_some hk
    have : k = h := List.inj_on_of_nodup_map ctx.handlers_nodup
      (List.mem_of_find?_eq_some hk) hh hmod
    rw [hk, this]
  rw [tablesOf, hfind]

theorem tablesOf_of_notMem {ctx : CmdContext Cb UserData} {module : CStr}
    (h : module ∉ ctx.modules) : ctx.tablesOf module = [] := by
  have hfind : ctx.handlers.find? (fun k => k.module = module) = none := by
    rw [List.find?_eq_none]
    intro k hk hmod
    exact h (List.mem_map.mpr ⟨k, hk, by simpa using hmod⟩)
  rw [tablesOf, hfind]

@[simp] theorem addModule_modules (ctx : CmdContext Cb UserData)
    (module : CStr) (hroom : ctx.handlers.length < maxCmdModHandlers)
    (hnew : module ∉ ctx.handlers.map (·.module)) :
    (ctx.addModule module hroom hnew).modules = ctx.modules ++ [module] := by
  simp [modules, addModule]

theorem addModule_tablesOf (ctx : CmdContext Cb UserData)
    (module : CStr) (hroom : ctx.handlers.length < maxCmdModHandlers)
    (hnew : module ∉ ctx.handlers.map (·.module)) (m : CStr) :
    (ctx.addModule module hroom hnew).tablesOf m = ctx.tablesOf m := by
  by_cases hm : m ∈ ctx.modules
  · obtain ⟨h, hh, rfl⟩ := List.mem_map.mp hm
    rw [tablesOf_of_mem _ hh]
    exact tablesOf_of_mem _ (List.mem_append_left _ hh)
  · rw [tablesOf_of_notMem hm]
    by_cases heq : m = module
    · subst heq
      exact tablesOf_of_mem (ctx.addModule m hroom hnew)
        (List.mem_append_right _ (List.mem_singleton_self _))
    · refine tablesOf_of_notMem ?_
      simp [hm, heq]

@[simp] theorem addTable_modules (ctx : CmdContext Cb UserData)
    (i : Fin ctx.handlers.length) (t : CmdHandler Cb UserData)
    (hroom : (ctx.handlers.get i).modCb.length < maxCmdModHooks) :
    (ctx.addTable i t hroom).modules = ctx.modules := by
  have hi : i < (ctx.handlers.map (·.module)).length := by simp
  simpa [modules, addTable, List.map_set] using List.set_getElem_self hi

theorem addTable_tablesOf (ctx : CmdContext Cb UserData)
    (i : Fin ctx.handlers.length) (t : CmdHandler Cb UserData)
    (hroom : (ctx.handlers.get i).modCb.length < maxCmdModHooks) (m : CStr) :
    (ctx.addTable i t hroom).tablesOf m =
      ctx.tablesOf m ++
        if (ctx.handlers.get i).module = m then [t] else [] := by
  by_cases heq : (ctx.handlers.get i).module = m
  · subst heq
    have hold := tablesOf_of_mem ctx (ctx.handlers.getElem_mem i.isLt)
    rw [if_pos rfl]
    change _ = ctx.tablesOf ctx.handlers[i.val].module ++ [t]
    rw [hold]
    exact tablesOf_of_mem (ctx.addTable i t hroom)
      (List.mem_set i.isLt _)
  · rw [if_neg heq, List.append_nil]
    by_cases hm : m ∈ ctx.modules
    · obtain ⟨h, hh, rfl⟩ := List.mem_map.mp hm
      rw [tablesOf_of_mem _ hh]
      refine tablesOf_of_mem (ctx.addTable i t hroom) ?_
      obtain ⟨k, hk, rfl⟩ := List.mem_iff_getElem.mp hh
      have hne : (i : ℕ) ≠ k := by
        rintro rfl
        exact heq rfl
      exact List.mem_iff_getElem.mpr
        ⟨k, by simpa [addTable] using hk, by simp [addTable, hne]⟩
    · rw [tablesOf_of_notMem hm]
      exact tablesOf_of_notMem (by simpa using hm)

theorem handlerAdd_modules (ctx : CmdContext Cb UserData)
    (i : Fin ctx.handlers.length) (r : Registration Cb UserData) :
    (ctx.handlerAdd i r).2.modules = ctx.modules := by
  unfold handlerAdd
  split
  · split
    · simp
    · rfl
  · rfl

theorem handlerAdd_tablesOf (ctx : CmdContext Cb UserData)
    (i : Fin ctx.handlers.length) (r : Registration Cb UserData)
    (hi : (ctx.handlers.get i).module = r.module) (m : CStr) :
    (ctx.handlerAdd i r).2.tablesOf m =
      ctx.tablesOf m ++
        if r.module = m ∧ (ctx.handlerAdd i r).1 = 0 then [r.table] else [] := by
  unfold handlerAdd
  split
  · split
    · rw [addTable_tablesOf, hi]
      simp
    · simp
  · simp

end CmdContext

open CmdContext

/-- An addition that succeeds appends its table to its module, and nothing
else changes the tables of any module. -/
theorem cmdHandlerAdd_tablesOf (ctx : CmdContext Cb UserData)
    (r : Registration Cb UserData) (m : CStr) :
    (cmdHandlerAdd ctx r).2.tablesOf m =
      ctx.tablesOf m ++
        if r.module = m ∧ (cmdHandlerAdd ctx r).1 = 0 then [r.table]
        else [] := by
  unfold cmdHandlerAdd
  split
  next i hfind =>
    exact handlerAdd_tablesOf ctx i r (findModule_spec hfind) m
  next hfind =>
    split
    · split
      · rw [handlerAdd_tablesOf _ _ _ (by simp [addModule]),
          addModule_tablesOf]
      · simp
    · simp

theorem cmdHandlerAdd_modules (ctx : CmdContext Cb UserData)
    (r : Registration Cb UserData) {m : CStr}
    (hm : m ∈ (cmdHandlerAdd ctx r).2.modules) :
    m ∈ ctx.modules ∨ m = r.module := by
  unfold cmdHandlerAdd at hm
  split at hm
  · rw [handlerAdd_modules] at hm
    exact Or.inl hm
  · split at hm
    · split at hm
      · rw [handlerAdd_modules, addModule_modules] at hm
        simpa using hm
      · exact Or.inl hm
    · exact Or.inl hm

/-! ## The registry invariant -/

structure RegistryInv (s : RegistryRun Cb UserData) : Prop where
  tables : ∀ m, s.ctx.tablesOf m =
    (s.added.filter fun r => r.module = m).map (·.table)
  modules : ∀ m ∈ s.ctx.modules, cmdParamDelimiter ∉ m
  commands : ∀ r ∈ s.added, ∀ cmd ∈ r.commands,
    cmdParamSeparator ∉ cmd.command

theorem registryInv_init :
    RegistryInv (RegistryRun.init : RegistryRun Cb UserData) where
  tables := fun _ => rfl
  modules := by simp [RegistryRun.init, CmdContext.init, CmdContext.modules]
  commands := by simp [RegistryRun.init]

theorem registryInv_step {s : RegistryRun Cb UserData} (h : RegistryInv s)
    {r : Registration Cb UserData} (hr : RegistryRun.NamesOk r) :
    RegistryInv (s.step r) := by
  refine ⟨?_, ?_, ?_⟩
  · intro m
    rw [RegistryRun.step, cmdHandlerAdd_tablesOf, h.tables]
    by_cases hret : (cmdHandlerAdd s.ctx r).1 = 0
    · by_cases hm : r.module = m
      · simp [hret, hm]
      · simp [hret, hm]
    · simp [hret]
  · intro m hm
    rcases cmdHandlerAdd_modules s.ctx r hm with hold | rfl
    · exact h.modules m hold
    · exact hr.1
  · intro r' hr'
    by_cases hret : (cmdHandlerAdd s.ctx r).1 = 0
    · have hr' : r' ∈ s.added ++ [r] := by
        simpa [RegistryRun.step, hret] using hr'
      rcases List.mem_append.mp hr' with hold | hnew
      · exact h.commands r' hold
      · rw [List.mem_singleton.mp hnew]
        exact hr.2
    · exact h.commands r' (by simpa [RegistryRun.step, hret] using hr')

theorem registryInv_run {regs : List (Registration Cb UserData)}
    (hregs : RegistryRun.machine.Admits RegistryRun.init regs) :
    RegistryInv (RegistryRun.machine.run RegistryRun.init regs) := by
  have hstep : ∀ (s : RegistryRun Cb UserData) r, RegistryInv s →
      RegistryRun.machine.enabled s r →
      RegistryInv (RegistryRun.machine.step s r) :=
    fun _ _ hs hr => registryInv_step hs hr
  exact hregs.invariant hstep registryInv_init

/-! ## The lookup -/

/-- The call that one command of a module answers the text behind the
delimiter with. -/
def hookCall (cmdCtx : CmdRunContext Context) (rest : CStr)
    (hook : AppCommand Cb × UserData) :
    Option (CmdCall Cb UserData Context) :=
  match hook.1.cb with
  | none => none
  | some cb =>
      if commandMatches hook.1.command rest then
        some
          { cb := cb
            cmdCtx := cmdCtx
            command := hook.1.command
            params := rest.drop (strlen hook.1.command)
            userData := hook.2 }
      else none

theorem table_lookup (r : Registration Cb UserData)
    (cmdCtx : CmdRunContext Context) (rest : CStr) :
    r.table.lookup cmdCtx rest =
      (r.commands.map fun cmd => (cmd, r.userData)).findSome?
        (hookCall cmdCtx rest) := by
  rw [List.findSome?_map]
  rfl

/-- Searching the tables of a module is searching its commands in order. -/
theorem tables_lookup (regs : List (Registration Cb UserData))
    (cmdCtx : CmdRunContext Context) (rest : CStr) :
    (regs.map (·.table)).findSome? (fun t => t.lookup cmdCtx rest) =
      (regs.flatMap fun r => r.commands.map fun cmd =>
        (cmd, r.userData)).findSome? (hookCall cmdCtx rest) := by
  induction regs with
  | nil => rfl
  | cons r regs ih =>
      rw [List.flatMap_cons, List.findSome?_append, ← table_lookup, ← ih,
        List.map_cons, List.findSome?_cons]
      cases r.table.lookup cmdCtx rest <;> rfl

/-- A module without a delimiter in its name is told from its command at the
first delimiter. -/
theorem moduleMatches_eq {m m' rest : CStr} (hm : cmdParamDelimiter ∉ m)
    (hm' : cmdParamDelimiter ∉ m') :
    moduleMatches m (m' ++ cmdParamDelimiter :: rest) = true ↔ m = m' := by
  rw [moduleMatches_iff]
  constructor
  · rintro ⟨rest', heq⟩
    exact (append_delim_inj hm' hm heq).1.symm
  · rintro rfl
    exact ⟨rest, rfl⟩

theorem lookup_eq {s : RegistryRun Cb UserData} (h : RegistryInv s)
    (cmdCtx : CmdRunContext Context) {m rest : CStr}
    (hm : cmdParamDelimiter ∉ m) :
    s.ctx.lookup cmdCtx (m ++ cmdParamDelimiter :: rest) =
      (hooksOf s.added m).findSome? (hookCall cmdCtx rest) := by
  have hfind : (s.ctx.handlers.find? fun k =>
        moduleMatches k.module (m ++ cmdParamDelimiter :: rest)) =
      s.ctx.handlers.find? fun k => k.module = m := by
    refine List.find?_congr fun k hk => ?_
    have hk : cmdParamDelimiter ∉ k.module :=
      h.modules _ (List.mem_map_of_mem hk)
    rw [Bool.eq_iff_iff, moduleMatches_eq hk hm]
    simp
  have htables := h.tables m
  rw [CmdContext.lookup, hfind, hooksOf, ← tables_lookup, ← htables,
    CmdContext.tablesOf]
  cases hget : s.ctx.handlers.find? fun k => k.module = m with
  | none => rfl
  | some k =>
      have hk : k.module = m := by simpa using List.find?_some hget
      simp [hk]

/-- A name without a separator in it is told from its parameters at the first
separator. -/
theorem command_unique {c c' suffix suffix' : CStr}
    (hc : cmdParamSeparator ∉ c) (hc' : cmdParamSeparator ∉ c')
    (hs : Suffix suffix) (hs' : Suffix suffix')
    (heq : c ++ suffix = c' ++ suffix') : c = c' ∧ suffix = suffix' := by
  rcases hs with rfl | ⟨rest, rfl⟩
  · rcases hs' with rfl | ⟨rest', rfl⟩
    · simpa using heq
    · simp only [List.append_nil] at heq
      subst heq
      simp at hc
  · rcases hs' with rfl | ⟨rest', rfl⟩
    · simp only [List.append_nil] at heq
      subst heq
      simp at hc'
    · obtain ⟨rfl, rfl⟩ := append_delim_inj hc hc' heq
      exact ⟨rfl, rfl⟩

/-- A command answers exactly its own name, with the suffix as parameters. -/
theorem hookCall_eq (cmdCtx : CmdRunContext Context)
    (hook : AppCommand Cb × UserData) {c suffix : CStr}
    (hhook : cmdParamSeparator ∉ hook.1.command)
    (hc : cmdParamSeparator ∉ c) (hs : Suffix suffix) :
    hookCall cmdCtx (c ++ suffix) hook =
      if hook.1.command = c then
        hook.1.cb.map fun cb =>
          { cb := cb, cmdCtx := cmdCtx, command := c, params := suffix,
            userData := hook.2 }
      else none := by
  have hmatch : commandMatches hook.1.command (c ++ suffix) = true ↔
      hook.1.command = c := by
    rw [commandMatches_iff]
    constructor
    · rintro ⟨suffix', heq, hs'⟩
      exact (command_unique hc hhook hs hs' heq).1.symm
    · rintro rfl
      exact ⟨suffix, rfl, hs⟩
  unfold hookCall
  by_cases heq : hook.1.command = c
  · have hm := hmatch.mpr heq
    subst heq
    cases hook.1.cb with
    | none => simp
    | some cb => simp [hm]
  · have hm : commandMatches hook.1.command (c ++ suffix) = false := by
      simpa using mt hmatch.mp heq
    cases hook.1.cb with
    | none => simp [heq]
    | some cb => simp [heq, hm]

/-- Searching a list of commands for an answer is searching it for the first
enabled one of the name. -/
theorem findSome?_hookCall (cmdCtx : CmdRunContext Context)
    {hooks : List (AppCommand Cb × UserData)} {c suffix : CStr}
    (hhooks : ∀ hook ∈ hooks, cmdParamSeparator ∉ hook.1.command)
    (hc : cmdParamSeparator ∉ c) (hs : Suffix suffix) :
    hooks.findSome? (hookCall cmdCtx (c ++ suffix)) =
      (hooks.find? fun hook =>
          hook.1.command = c ∧ hook.1.cb.isSome).bind fun hook =>
        hook.1.cb.map fun cb =>
          { cb := cb, cmdCtx := cmdCtx, command := c, params := suffix,
            userData := hook.2 } := by
  induction hooks with
  | nil => rfl
  | cons hook hooks ih =>
      have hhook := hhooks hook List.mem_cons_self
      have ih := ih fun h hh => hhooks h (List.mem_cons_of_mem _ hh)
      rw [List.findSome?_cons, List.find?_cons,
        hookCall_eq cmdCtx hook hhook hc hs]
      by_cases heq : hook.1.command = c
      · cases hcb : hook.1.cb with
        | none => simp [heq, ih]
        | some cb => simp [heq, hcb]
      · simp [heq, ih]

theorem mem_hooksOf_command {s : RegistryRun Cb UserData} (h : RegistryInv s)
    {m : CStr} {hook : AppCommand Cb × UserData}
    (hhook : hook ∈ hooksOf s.added m) :
    cmdParamSeparator ∉ hook.1.command := by
  obtain ⟨r, hr, hmem⟩ := List.mem_flatMap.mp hhook
  obtain ⟨cmd, hcmd, rfl⟩ := List.mem_map.mp hmem
  exact h.commands r (List.mem_of_mem_filter hr) cmd hcmd

theorem mem_hooksOf_module {s : RegistryRun Cb UserData} (h : RegistryInv s)
    {m : CStr} {hook : AppCommand Cb × UserData}
    (hhook : hook ∈ hooksOf s.added m) : cmdParamDelimiter ∉ m := by
  obtain ⟨r, hr, -⟩ := List.mem_flatMap.mp hhook
  by_cases hm : m ∈ s.ctx.modules
  · exact h.modules m hm
  · have htables := h.tables m
    rw [CmdContext.tablesOf_of_notMem hm, eq_comm, List.map_eq_nil_iff]
      at htables
    rw [htables] at hr
    simp at hr

/-- The lookup of a command text that the grammar parses. -/
theorem lookup_of_grammar {s : RegistryRun Cb UserData} (h : RegistryInv s)
    (cmdCtx : CmdRunContext Context) {m c suffix : CStr}
    (hm : cmdParamDelimiter ∉ m) (hc : cmdParamSeparator ∉ c)
    (hs : Suffix suffix) :
    s.ctx.lookup cmdCtx (m ++ cmdParamDelimiter :: (c ++ suffix)) =
      (firstHook s.added m c).bind fun hook =>
        hook.1.cb.map fun cb =>
          { cb := cb, cmdCtx := cmdCtx, command := c, params := suffix,
            userData := hook.2 } := by
  rw [lookup_eq h cmdCtx hm,
    findSome?_hookCall cmdCtx (fun _ hk => mem_hooksOf_command h hk) hc hs]
  rfl

/-- A text that is answered is one of a registered and enabled command. -/
theorem grammar_of_lookup {s : RegistryRun Cb UserData} (h : RegistryInv s)
    {cmdCtx : CmdRunContext Context} {cmdStr : CStr}
    {call : CmdCall Cb UserData Context}
    (hcall : s.ctx.lookup cmdCtx cmdStr = some call) :
    ∃ m c suffix, cmdStr = m ++ cmdParamDelimiter :: (c ++ suffix) ∧
      Suffix suffix ∧
      ∃ hook ∈ hooksOf s.added m,
        hook.1.command = c ∧ hook.1.cb.isSome = true := by
  have hfound : ∃ k ∈ s.ctx.handlers,
      moduleMatches k.module cmdStr = true := by
    unfold CmdContext.lookup at hcall
    split at hcall
    · simp at hcall
    next k hk =>
      have hmatch := List.find?_some hk
      exact ⟨k, List.mem_of_find?_eq_some hk, hmatch⟩
  obtain ⟨k, hk, hmatch⟩ := hfound
  obtain ⟨rest, rfl⟩ := moduleMatches_iff.mp hmatch
  have hm : cmdParamDelimiter ∉ k.module :=
    h.modules _ (List.mem_map_of_mem hk)
  rw [lookup_eq h cmdCtx hm] at hcall
  obtain ⟨hook, hhook, hanswer⟩ := List.exists_of_findSome?_eq_some hcall
  unfold hookCall at hanswer
  split at hanswer
  · simp at hanswer
  next cb hcb =>
    split at hanswer
    next hcmd =>
      obtain ⟨suffix, rfl, hs⟩ := commandMatches_iff.mp hcmd
      exact ⟨k.module, hook.1.command, suffix, rfl, hs, hook, hhook, rfl,
        by rw [hcb]; rfl⟩
    · simp at hanswer

theorem firstHook_isSome {s : RegistryRun Cb UserData} {m c : CStr} :
    (∃ hook ∈ hooksOf s.added m,
        hook.1.command = c ∧ hook.1.cb.isSome = true) ↔
      ∃ hook cb, firstHook s.added m c = some hook ∧
        hook.1.cb = some cb := by
  constructor
  · rintro ⟨hook, hhook, hc, hcb⟩
    have hsome : (firstHook s.added m c).isSome :=
      List.find?_isSome.mpr ⟨hook, hhook, by simp [hc, hcb]⟩
    obtain ⟨first, hfirst⟩ := Option.isSome_iff_exists.mp hsome
    have hspec := List.find?_some hfirst
    simp only [decide_eq_true_eq] at hspec
    obtain ⟨cb, hcb⟩ := Option.isSome_iff_exists.mp hspec.2
    exact ⟨first, cb, hfirst, hcb⟩
  · rintro ⟨hook, cb, hfirst, hcb⟩
    have hspec := List.find?_some hfirst
    simp only [decide_eq_true_eq] at hspec
    exact ⟨hook, List.mem_of_find?_eq_some hfirst, hspec⟩

/-- `cmdExec` runs a callback exactly for the texts `module?command` and
`module?command:...` of a registered and enabled command.  It is then the
first one of that name in the order of registration, run once with the suffix
and with the user data of its own table, and its result is returned.  Every
other text but the global help command is refused. -/
theorem cmdExec_dispatch (regs : List (Registration Cb UserData))
    (hregs : RegistryRun.machine.Admits RegistryRun.init regs)
    (invoke : CmdCall Cb UserData Context → ℤ)
    (cmdCtx : CmdRunContext Context) (cmdStr : CStr) :
    let s := RegistryRun.machine.run RegistryRun.init regs
    let result := cmdExec (some s.ctx) invoke cmdCtx (some cmdStr)
    (result.calls ≠ [] ↔
      ∃ m c suffix, cmdStr = m ++ cmdParamDelimiter :: (c ++ suffix) ∧
        Suffix suffix ∧
        ∃ hook ∈ hooksOf s.added m,
          hook.1.command = c ∧ hook.1.cb.isSome = true) ∧
      (∀ m c suffix hook cb,
        cmdStr = m ++ cmdParamDelimiter :: (c ++ suffix) → Suffix suffix →
        firstHook s.added m c = some hook → hook.1.cb = some cb →
        let call := { cb := cb, cmdCtx := cmdCtx, command := c,
                      params := suffix, userData := hook.2 }
        result = { ret := invoke call, calls := [call] }) ∧
      (result.calls = [] →
        result.ret = if cmdStr = helpCmd then 0 else -1) := by
  intro s result
  have h : RegistryInv s := registryInv_run hregs
  -- a text with an enabled command is answered by the first of its name
  have hanswer : ∀ m c suffix hook cb,
      cmdStr = m ++ cmdParamDelimiter :: (c ++ suffix) → Suffix suffix →
      firstHook s.added m c = some hook → hook.1.cb = some cb →
      s.ctx.lookup cmdCtx cmdStr =
        some { cb := cb, cmdCtx := cmdCtx, command := c, params := suffix,
               userData := hook.2 } := by
    rintro m c suffix hook cb rfl hs hfirst hcb
    have hmem := List.mem_of_find?_eq_some hfirst
    have hname := List.find?_some hfirst
    simp only [decide_eq_true_eq] at hname
    have hc : cmdParamSeparator ∉ c := hname.1 ▸ mem_hooksOf_command h hmem
    rw [lookup_of_grammar h cmdCtx (mem_hooksOf_module h hmem) hc hs, hfirst]
    simp [hcb]
  refine ⟨⟨?_, ?_⟩, ?_, ?_⟩
  · intro hcalls
    cases hlookup : s.ctx.lookup cmdCtx cmdStr with
    | none => simp [result, cmdExec, hlookup] at hcalls
    | some call => exact grammar_of_lookup h hlookup
  · rintro ⟨m, c, suffix, hstr, hs, hhook⟩
    obtain ⟨hook, cb, hfirst, hcb⟩ := firstHook_isSome.mp hhook
    simp [result, cmdExec, hanswer m c suffix hook cb hstr hs hfirst hcb]
  · intro m c suffix hook cb hstr hs hfirst hcb call
    simp only [result, cmdExec, hanswer m c suffix hook cb hstr hs hfirst hcb]
    rfl
  · intro hcalls
    cases hlookup : s.ctx.lookup cmdCtx cmdStr with
    | none => simp only [result, cmdExec, hlookup, cmdHelp_eq]
    | some call => simp [result, cmdExec, hlookup] at hcalls

/-- A module whose own table shadows a command of a later one. -/
def shadowingRun : List (Registration ℕ ℕ) :=
  [⟨lit "ssr", [⟨lit "set", [], some 1⟩, ⟨lit "status", [], some 2⟩], [], 10,
      true, true⟩,
    ⟨lit "ssr", [⟨lit "debug", [], some 3⟩, ⟨lit "status", [], some 4⟩], [],
      20, true, true⟩]

theorem cmdExec_dispatch_shadowingRun :
    (cmdExec (some (RegistryRun.machine.run RegistryRun.init shadowingRun).ctx)
        (fun call => call.cb) (⟨.mqtt, ()⟩ : CmdRunContext Unit)
        (some (lit "ssr?status:x"))).calls =
      [{ cb := 2, cmdCtx := ⟨.mqtt, ()⟩, command := lit "status",
         params := lit ":x", userData := 10 }] := by
  rw [(cmdExec_dispatch shadowingRun (by decide) (fun call => (call.cb : ℤ))
    (⟨.mqtt, ()⟩ : CmdRunContext Unit) (lit "ssr?status:x")).2.1 (lit "ssr")
    (lit "status") (lit ":x") (⟨lit "status", [], some 2⟩, 10) 2 (by decide)
    (Or.inr ⟨lit "x", by decide⟩) rfl rfl]

end Herak.Commands
