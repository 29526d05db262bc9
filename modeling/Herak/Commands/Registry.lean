import Herak.Support.CString

/-!
# The command registry

Modules hand tables of commands to `cmdHandlerAdd`; every text command of the
system (MQTT, HTTP, scripts) is looked up in them by `cmdExec`.
-/

namespace Herak.Commands

open CString

abbrev maxCmdModHandlers : ℕ := 64
abbrev maxCmdModHooks : ℕ := 2

/-- The character `?`. -/
def cmdParamDelimiter : UInt8 := 63

/-- The character `:`. -/
def cmdParamSeparator : UInt8 := 58

def helpCmd : CStr := lit "help"

inductive RunType
  | web
  | mqtt
  | script
  deriving DecidableEq

/-- `cmd_run_context_t` -/
structure CmdRunContext (Context : Type*) where
  type : RunType
  context : Context

/-- `app_command_t`; a command without a callback is disabled. -/
structure AppCommand (Cb : Type*) where
  command : CStr
  help : CStr
  cb : Option Cb

/-- `cmd_handler_t`, a table of commands. -/
structure CmdHandler (Cb UserData : Type*) where
  description : CStr
  userData : UserData
  cmdCb : List (AppCommand Cb)

/-- `cmd_mod_handler_t`, the tables of one module in the order in which they
were added. -/
structure CmdModHandler (Cb UserData : Type*) where
  module : CStr
  modCb : List (CmdHandler Cb UserData)
  modCb_le : modCb.length ≤ maxCmdModHooks

/-- `cmd_context_t` -/
structure CmdContext (Cb UserData : Type*) where
  handlers : List (CmdModHandler Cb UserData)
  debug : UInt32
  handlers_le : handlers.length ≤ maxCmdModHandlers
  handlers_nodup : (handlers.map (·.module)).Nodup

/-- One call of a command callback. -/
structure CmdCall (Cb UserData Context : Type*) where
  cb : Cb
  cmdCtx : CmdRunContext Context
  command : CStr
  params : CStr
  userData : UserData

/-- The arguments of `cmd_handler_add` and what its allocations yield. -/
structure Registration (Cb UserData : Type*) where
  module : CStr
  commands : List (AppCommand Cb)
  description : CStr
  userData : UserData
  moduleAllocated : Bool
  tableAllocated : Bool

variable {Cb UserData Context : Type*}

/-- `sys_cmd_init` -/
def CmdContext.init : CmdContext Cb UserData where
  handlers := []
  debug := 0
  handlers_le := Nat.zero_le _
  handlers_nodup := List.nodup_nil

def Registration.table (r : Registration Cb UserData) :
    CmdHandler Cb UserData where
  description := r.description
  userData := r.userData
  cmdCb := r.commands

namespace CmdContext

/-- The entry of a module, found by the length and the characters of its
name. -/
def findModule (ctx : CmdContext Cb UserData) (module : CStr) :
    Option (Fin ctx.handlers.length) :=
  ctx.handlers.findFinIdx? fun h =>
    strlen module == strlen h.module &&
      strncmp module h.module (strlen module) == 0

theorem findModule_eq_none {ctx : CmdContext Cb UserData} {module : CStr}
    (h : ctx.findModule module = none) :
    module ∉ ctx.handlers.map (·.module) := by
  intro hmem
  obtain ⟨m, hm, rfl⟩ := List.mem_map.mp hmem
  have hno := List.findFinIdx?_eq_none_iff.mp h m hm
  obtain ⟨-, hcmp⟩ := (strlen_strncmp_eq_iff m.module m.module).mpr rfl
  rw [hcmp] at hno
  simp at hno

theorem findModule_spec {ctx : CmdContext Cb UserData} {module : CStr}
    {i : Fin ctx.handlers.length} (h : ctx.findModule module = some i) :
    ctx.handlers[i].module = module := by
  have hi := (List.findFinIdx?_eq_some_iff.mp h).1
  simp only [Bool.and_eq_true, beq_iff_eq] at hi
  exact ((strlen_strncmp_eq_iff _ _).mp hi).symm

/-- Append an entry without tables. -/
def addModule (ctx : CmdContext Cb UserData) (module : CStr)
    (hroom : ctx.handlers.length < maxCmdModHandlers)
    (hnew : module ∉ ctx.handlers.map (·.module)) :
    CmdContext Cb UserData where
  handlers := ctx.handlers ++
    [{ module := module, modCb := [], modCb_le := Nat.zero_le _ }]
  debug := ctx.debug
  handlers_le := by simpa using Nat.succ_le_of_lt hroom
  handlers_nodup := by
    rw [List.map_append, List.nodup_append]
    refine ⟨ctx.handlers_nodup, by simp, ?_⟩
    rintro m hm m' hm' rfl
    simp only [List.map_cons, List.map_nil, List.mem_singleton] at hm'
    exact hnew (hm' ▸ hm)

/-- The entry with one more table. -/
def addTable (ctx : CmdContext Cb UserData) (i : Fin ctx.handlers.length)
    (t : CmdHandler Cb UserData)
    (hroom : ctx.handlers[i].modCb.length < maxCmdModHooks) :
    CmdContext Cb UserData where
  handlers := ctx.handlers.set i
    { module := ctx.handlers[i].module
      modCb := ctx.handlers[i].modCb ++ [t]
      modCb_le := by simpa using Nat.succ_le_of_lt hroom }
  debug := ctx.debug
  handlers_le := by simpa using ctx.handlers_le
  handlers_nodup := by
    have hsame : (ctx.handlers.map (·.module)).set i ctx.handlers[i].module =
        ctx.handlers.map (·.module) := by
      have hi : i < (ctx.handlers.map (·.module)).length := by simp
      simpa using List.set_getElem_self hi
    rw [List.map_set, hsame]
    exact ctx.handlers_nodup

/-- The second half of `cmd_handler_add`. -/
def handlerAdd (ctx : CmdContext Cb UserData) (i : Fin ctx.handlers.length)
    (r : Registration Cb UserData) : ℤ × CmdContext Cb UserData :=
  if hroom : ctx.handlers[i].modCb.length < maxCmdModHooks then
    if r.tableAllocated then (0, ctx.addTable i r.table hroom) else (-1, ctx)
  else (-1, ctx)

end CmdContext

open CmdContext

/-- `cmd_handler_add` on the registry that `sys_commands_register` created.  A
module whose table cannot be allocated stays registered without it. -/
def cmdHandlerAdd (ctx : CmdContext Cb UserData)
    (r : Registration Cb UserData) : ℤ × CmdContext Cb UserData :=
  match hfind : ctx.findModule r.module with
  | some i => ctx.handlerAdd i r
  | none =>
      if hroom : ctx.handlers.length < maxCmdModHandlers then
        if r.moduleAllocated then
          (ctx.addModule r.module hroom (findModule_eq_none hfind)).handlerAdd
            ⟨ctx.handlers.length, by simp [addModule]⟩ r
        else (-1, ctx)
      else (-1, ctx)

/-- The command text starts with the module name and the delimiter. -/
def moduleMatches (module cmdStr : CStr) : Bool :=
  strlen module ≤ strlen cmdStr &&
    strncmp module cmdStr (strlen module) == 0 &&
    cmdStr.getD (strlen module) 0 == cmdParamDelimiter

/-- The text behind the delimiter is the command name, alone or with a
separator behind it. -/
def commandMatches (command rest : CStr) : Bool :=
  strlen command ≤ strlen rest &&
    strncmp command rest (strlen command) == 0 &&
    (strlen rest ≤ strlen command ||
      rest.getD (strlen command) 0 == cmdParamSeparator)

/-- The loop over one table. -/
def CmdHandler.lookup (t : CmdHandler Cb UserData)
    (cmdCtx : CmdRunContext Context) (rest : CStr) :
    Option (CmdCall Cb UserData Context) :=
  t.cmdCb.findSome? fun cmd =>
    match cmd.cb with
    | none => none
    | some cb =>
        if commandMatches cmd.command rest then
          some
            { cb := cb
              cmdCtx := cmdCtx
              command := cmd.command
              params := rest.drop (strlen cmd.command)
              userData := t.userData }
        else none

/-- The loops over the modules and over their tables: the first module whose
name matches is the only one that is searched. -/
def CmdContext.lookup (ctx : CmdContext Cb UserData)
    (cmdCtx : CmdRunContext Context) (cmdStr : CStr) :
    Option (CmdCall Cb UserData Context) :=
  match ctx.handlers.find? fun h => moduleMatches h.module cmdStr with
  | none => none
  | some h =>
      h.modCb.findSome? fun t =>
        t.lookup cmdCtx (cmdStr.drop (strlen h.module + 1))

/-- The global help command. -/
def cmdHelp (cmdStr : CStr) : ℤ :=
  if strlen helpCmd ≠ strlen cmdStr then -1
  else if strncmp helpCmd cmdStr (strlen helpCmd) ≠ 0 then -1
  else 0

/-- What `cmd_exec` returns, and the callbacks it ran. -/
structure CmdResult (Cb UserData Context : Type*) where
  ret : ℤ
  calls : List (CmdCall Cb UserData Context)

/-- `cmd_exec`; `invoke` is the result of a callback. -/
def cmdExec (ctx : Option (CmdContext Cb UserData))
    (invoke : CmdCall Cb UserData Context → ℤ)
    (cmdCtx : CmdRunContext Context) (cmdStr : Option CStr) :
    CmdResult Cb UserData Context :=
  match ctx, cmdStr with
  | some ctx, some cmdStr =>
      match ctx.lookup cmdCtx cmdStr with
      | some call => { ret := invoke call, calls := [call] }
      | none => { ret := cmdHelp cmdStr, calls := [] }
  | _, _ => { ret := -1, calls := [] }

/-! ## What the tests say -/

theorem moduleMatches_iff {module cmdStr : CStr} :
    moduleMatches module cmdStr = true ↔
      ∃ rest, cmdStr = module ++ cmdParamDelimiter :: rest := by
  simp only [moduleMatches, Bool.and_eq_true, decide_eq_true_eq, beq_iff_eq]
  rw [strlen_strncmp_prefix_iff]
  constructor
  · rintro ⟨⟨rest, rfl⟩, hdelim⟩
    cases rest with
    | nil => simp [cmdParamDelimiter] at hdelim
    | cons c rest =>
        simp at hdelim
        exact ⟨rest, by rw [hdelim]⟩
  · rintro ⟨rest, rfl⟩
    exact ⟨List.prefix_append _ _, by simp⟩

/-- A command's parameters are empty or start with the separator. -/
def Suffix (suffix : CStr) : Prop :=
  suffix = [] ∨ ∃ rest, suffix = cmdParamSeparator :: rest

theorem commandMatches_iff {command rest : CStr} :
    commandMatches command rest = true ↔
      ∃ suffix, rest = command ++ suffix ∧ Suffix suffix := by
  simp only [commandMatches, Bool.and_eq_true, Bool.or_eq_true,
    decide_eq_true_eq, beq_iff_eq]
  rw [strlen_strncmp_prefix_iff]
  constructor
  · rintro ⟨⟨suffix, rfl⟩, hend⟩
    refine ⟨suffix, rfl, ?_⟩
    cases suffix with
    | nil => exact Or.inl rfl
    | cons c suffix =>
        have hc : c = cmdParamSeparator := by
          refine hend.elim (fun hlen => ?_) (fun hc => by simpa using hc)
          simp only [strlen_eq, List.length_append, List.length_cons] at hlen
          omega
        exact Or.inr ⟨suffix, by rw [hc]⟩
  · rintro ⟨suffix, rfl, rfl | ⟨suffix, rfl⟩⟩
    · exact ⟨by simp, Or.inl (by simp)⟩
    · exact ⟨List.prefix_append _ _, Or.inr (by simp)⟩

theorem cmdHelp_eq (cmdStr : CStr) :
    cmdHelp cmdStr = if cmdStr = helpCmd then 0 else -1 := by
  have h := strlen_strncmp_eq_iff helpCmd cmdStr
  unfold cmdHelp
  by_cases heq : cmdStr = helpCmd
  · obtain ⟨hlen, hcmp⟩ := h.mpr heq.symm
    rw [if_pos heq, if_neg (not_not.mpr hlen), if_neg (not_not.mpr hcmp)]
  · rw [if_neg heq]
    by_cases hlen : strlen helpCmd = strlen cmdStr
    · have hcmp : strncmp helpCmd cmdStr (strlen helpCmd) ≠ 0 :=
        fun hcmp => heq (h.mp ⟨hlen, hcmp⟩).symm
      rw [if_neg (not_not.mpr hlen), if_pos hcmp]
    · rw [if_pos hlen]

end Herak.Commands
