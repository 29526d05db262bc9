import Herak.Commands.Modules
import Herak.System.Watchdog

/-!
# Main loop

One round of the main loop reconnects the modules when it was asked to, and then
runs them, but for those that a job holds up.  What a module does is open: it may
take time, update the watchdog, force a reboot, ask for a reconnect, begin or end
a job.
-/

namespace Herak.System

/-- The fields of `sys_module_t` that the main loop reads. -/
structure LoopModule where
  run : Bool
  reconnect : Bool
  jobFlags : UInt32

/-- The functions that the main loop calls. -/
inductive LoopCall
  | logWdBoot
  | reconnect (i : ℕ)
  | run (i : ℕ)
  deriving DecidableEq

/-- A call with what the function did, or the end of a reconnect. -/
inductive LoopItem
  | call (function : LoopCall) (did : List SysCall)
  | reconnected

/-- `sys_context`, `sys_modules_context` and the watchdog. -/
structure SysContext where
  watch : Watch
  reconnect : Bool
  modules : List LoopModule
  jobState : UInt32

/-- What a function of a module does, from all that was done before. -/
abbrev Behaviour := List LoopItem → LoopCall → List SysCall

namespace SysContext

/-- `system_common_init`, with the modules that were registered. -/
def boot (modules : List LoopModule) (now : ℕ) : SysContext where
  watch := Watch.boot now
  reconnect := false
  modules := modules
  jobState := 0

/-- `system_reconnect`, `sys_job_state_set`, `sys_job_state_clear`, and the calls
that are about the watchdog. -/
def exec (ctx : SysContext) : SysCall → SysContext
  | .reconnect => { ctx with reconnect := true }
  | .jobStateSet job =>
      { ctx with jobState := Commands.sysJobStateSet ctx.jobState job }
  | .jobStateClear job =>
      { ctx with jobState := Commands.sysJobStateClear ctx.jobState job }
  | .runStop i =>
      { ctx with modules := ctx.modules.modify i fun m => { m with run := false } }
  | call => { ctx with watch := ctx.watch.exec call }

end SysContext

/-- The system, and what the main loop did so far. -/
structure LoopState where
  ctx : SysContext
  trace : List LoopItem

variable (behaviour : Behaviour)

/-- `LOOP_FUNC_RUN` -/
def loopFuncRun (function : LoopCall) (s : LoopState) : LoopState where
  ctx := ((behaviour s.trace function).foldl SysContext.exec s.ctx).exec .wdUpdate
  trace := s.trace ++ [.call function (behaviour s.trace function)]

/-- The turn of a module in `sys_modules_reconnect`. -/
def reconnectModule (s : LoopState) (i : ℕ) : LoopState :=
  match s.ctx.modules[i]? with
  | none => s
  | some m => if m.reconnect then loopFuncRun behaviour (.reconnect i) s else s

/-- `sys_modules_reconnect` -/
def sysModulesReconnect (s : LoopState) : LoopState :=
  (List.range s.ctx.modules.length).foldl (reconnectModule behaviour) s

/-- The turn of a module in `sys_modules_run`. -/
def runModule (s : LoopState) (i : ℕ) : LoopState :=
  match s.ctx.modules[i]? with
  | none => s
  | some m =>
      if m.run = false then s
      else if s.ctx.jobState ≠ 0 ∧ s.ctx.jobState &&& m.jobFlags = 0 then s
      else loopFuncRun behaviour (.run i) s

/-- `sys_modules_run` -/
def sysModulesRun (s : LoopState) : LoopState :=
  (List.range s.ctx.modules.length).foldl (runModule behaviour) s

/-- `do_system_reconnect`, and the end of it -/
def doSystemReconnect (s : LoopState) : LoopState :=
  let s := sysModulesReconnect behaviour s
  { ctx := { s.ctx with reconnect := false }, trace := s.trace ++ [.reconnected] }

/-- `system_common_run` -/
def systemCommonRun (s : LoopState) : LoopState :=
  let s := loopFuncRun behaviour .logWdBoot s
  let s := if s.ctx.reconnect then doSystemReconnect behaviour s else s
  sysModulesRun behaviour s

/-- The rounds of `system_common_main`. -/
def systemCommonMain (s : LoopState) : ℕ → LoopState
  | 0 => s
  | rounds + 1 => systemCommonRun behaviour (systemCommonMain s rounds)

/-- `system_common_main` from the boot on. -/
def mainLoop (modules : List LoopModule) (start rounds : ℕ) : LoopState :=
  systemCommonMain behaviour ⟨SysContext.boot modules start, []⟩ rounds

/-! ## What was done -/

/-- All that was called of the system, with the update behind each function. -/
def calls (trace : List LoopItem) : List SysCall :=
  trace.flatMap fun
    | .call _ did => did ++ [.wdUpdate]
    | .reconnected => []

/-- The functions that were called. -/
def functions (trace : List LoopItem) : List LoopCall :=
  trace.filterMap fun
    | .call function _ => some function
    | .reconnected => none

/-- A reconnect was asked for, and there was none since. -/
def Owed (trace : List LoopItem) : Prop :=
  ∃ before function did after, trace = before ++ .call function did :: after ∧
    .reconnect ∈ did ∧ .reconnected ∉ after

def jobAfter (jobState : UInt32) : SysCall → UInt32
  | .jobStateSet job => Commands.sysJobStateSet jobState job
  | .jobStateClear job => Commands.sysJobStateClear jobState job
  | _ => jobState

/-- The jobs that were begun and not ended. -/
def jobOf (trace : List LoopItem) : UInt32 := (calls trace).foldl jobAfter 0

/-- The modules that have a function to reconnect. -/
def reconnectHooks (modules : List LoopModule) : List ℕ :=
  (List.range modules.length).filter fun i => modules[i]?.any LoopModule.reconnect

/-- A job holds a module up. -/
def Held (trace : List LoopItem) (m : LoopModule) : Prop :=
  jobOf trace ≠ 0 ∧ jobOf trace &&& m.jobFlags = 0

instance (trace : List LoopItem) (m : LoopModule) : Decidable (Held trace m) :=
  inferInstanceAs (Decidable (_ ∧ _))

/-- The functions of the modules that were called in a round: in the order of the
modules, none that a job holds up, and no other one left out. -/
structure RunPass (modules : List LoopModule) (ids : List ℕ)
    (trace runs : List LoopItem) : Prop where
  order : ∃ called : List ℕ, functions runs = called.map .run ∧ called.Sublist ids
  allowed : ∀ before i did after, runs = before ++ .call (.run i) did :: after →
    ∃ m, modules[i]? = some m ∧ m.run = true ∧ ¬Held (trace ++ before) m
  passed : ∀ i ∈ ids, ∀ m, modules[i]? = some m → m.run = true →
    .runStop i ∉ calls (trace ++ runs) → .run i ∉ functions runs →
      ∃ before after, runs = before ++ after ∧ Held (trace ++ before) m

/-- One round of the main loop: all modules are reconnected in their order if one
of them asked for it, and then they run. -/
structure Round (modules : List LoopModule) (trace : List LoopItem)
    (did : List SysCall) (pass runs : List LoopItem) : Prop where
  reconnect : Owed (trace ++ [.call .logWdBoot did]) → ∃ items,
    pass = items ++ [.reconnected] ∧
      functions items = (reconnectHooks modules).map .reconnect
  calm : ¬Owed (trace ++ [.call .logWdBoot did]) → pass = []
  run : RunPass modules (List.range modules.length)
    (trace ++ .call .logWdBoot did :: pass) runs

section

variable {trace trace' : List LoopItem} {function : LoopCall}
  {did : List SysCall}

theorem calls_append : calls (trace ++ trace') = calls trace ++ calls trace' :=
  List.flatMap_append

theorem calls_call : calls [.call function did] = did ++ [.wdUpdate] :=
  List.append_nil _

theorem not_owed_nil : ¬Owed [] := by
  rintro ⟨before, function, did, after, hnil, -⟩
  cases before with
  | nil => cases hnil
  | cons item before => cases hnil

theorem owed_append_call :
    Owed (trace ++ [.call function did]) ↔ Owed trace ∨ .reconnect ∈ did := by
  constructor
  · rintro ⟨before, function', did', after, htrace, hasked, hsince⟩
    rcases List.eq_nil_or_concat' after with rfl | ⟨after, last, rfl⟩
    · obtain ⟨-, heq⟩ := List.append_inj' htrace rfl
      cases heq
      exact Or.inr hasked
    · rw [← List.cons_append, ← List.append_assoc] at htrace
      obtain ⟨rfl, -⟩ := List.append_inj' htrace rfl
      exact Or.inl ⟨before, function', did', after, rfl, hasked,
        fun hmem => hsince (List.mem_append_left _ hmem)⟩
  · rintro (⟨before, function', did', after, rfl, hasked, hsince⟩ | hasked)
    · refine ⟨before, function', did', after ++ [.call function did], ?_, hasked, ?_⟩
      · rw [List.append_assoc, List.cons_append]
      · intro hmem
        rcases List.mem_append.mp hmem with hmem | hmem
        · exact hsince hmem
        · cases List.mem_singleton.mp hmem
    · exact ⟨trace, function, did, [], rfl, hasked, List.not_mem_nil⟩

theorem not_owed_reconnected : ¬Owed (trace ++ [.reconnected]) := by
  rintro ⟨before, function, did, after, htrace, -, hsince⟩
  rcases List.eq_nil_or_concat' after with rfl | ⟨after, last, rfl⟩
  · obtain ⟨-, heq⟩ := List.append_inj' htrace rfl
    cases heq
  · rw [← List.cons_append, ← List.append_assoc] at htrace
    obtain ⟨-, heq⟩ := List.append_inj' htrace rfl
    cases heq
    exact hsince (List.mem_append_right _ List.mem_cons_self)

end

/-! ## The context after what was done -/

/-- Equal but for the request of a reconnect. -/
structure SysContext.Same (ctx ctx' : SysContext) : Prop where
  watch : ctx.watch = ctx'.watch
  modules : ctx.modules = ctx'.modules
  jobState : ctx.jobState = ctx'.jobState

namespace SysContext

variable {ctx ctx' : SysContext}

theorem Same.exec (h : Same ctx ctx') (call : SysCall) :
    Same (ctx.exec call) (ctx'.exec call) := by
  obtain ⟨hwatch, hmodules, hjob⟩ := h
  cases call with
  | reconnect => exact ⟨hwatch, hmodules, hjob⟩
  | jobStateSet job => exact ⟨hwatch, hmodules, congrArg (· ||| job) hjob⟩
  | jobStateClear job => exact ⟨hwatch, hmodules, congrArg (· &&& ~~~job) hjob⟩
  | runStop i => exact ⟨hwatch, congrArg (List.modify · i _) hmodules, hjob⟩
  | elapse ms => exact ⟨congrArg (Watch.exec · (.elapse ms)) hwatch, hmodules, hjob⟩
  | wdUpdate => exact ⟨congrArg (Watch.exec · .wdUpdate) hwatch, hmodules, hjob⟩
  | forceReboot delayMs =>
      exact ⟨congrArg (Watch.exec · (.forceReboot delayMs)) hwatch, hmodules, hjob⟩

theorem Same.foldl (h : Same ctx ctx') (did : List SysCall) :
    Same (did.foldl SysContext.exec ctx) (did.foldl SysContext.exec ctx') := by
  induction did generalizing ctx ctx' with
  | nil => exact h
  | cons call did ih => exact ih (h.exec call)

theorem watch_foldl (ctx : SysContext) (did : List SysCall) :
    (did.foldl SysContext.exec ctx).watch = watchMachine.run ctx.watch did := by
  induction did generalizing ctx with
  | nil => rfl
  | cons call did ih =>
      refine (ih _).trans ?_
      cases call <;> rfl

theorem reconnect_foldl (ctx : SysContext) (did : List SysCall) :
    (did.foldl SysContext.exec ctx).reconnect = true ↔
      ctx.reconnect = true ∨ .reconnect ∈ did := by
  induction did generalizing ctx with
  | nil => exact (or_iff_left List.not_mem_nil).symm
  | cons call did ih =>
      refine (ih _).trans ?_
      rw [List.mem_cons]
      cases call with
      | reconnect => exact iff_of_true (Or.inl rfl) (Or.inr (Or.inl rfl))
      | _ => exact or_congr_right (or_iff_right nofun).symm

theorem jobState_foldl (ctx : SysContext) (did : List SysCall) :
    (did.foldl SysContext.exec ctx).jobState = did.foldl jobAfter ctx.jobState := by
  induction did generalizing ctx with
  | nil => rfl
  | cons call did ih =>
      refine (ih _).trans ?_
      cases call <;> rfl

theorem modules_exec (ctx : SysContext) (call : SysCall) (i : ℕ) :
    (ctx.exec call).modules[i]? = ctx.modules[i]?.map fun m =>
      if call = .runStop i then { m with run := false } else m := by
  cases call with
  | runStop j =>
      refine (List.getElem?_modify _ _ _ _).trans ?_
      simp only [SysCall.runStop.injEq, Option.map_eq_map]
  | _ => exact Option.map_id'.symm

/-- Only the run function of a module changes, when it is stopped. -/
theorem modules_foldl (ctx : SysContext) (did : List SysCall) (i : ℕ) :
    (did.foldl SysContext.exec ctx).modules[i]? = ctx.modules[i]?.map fun m =>
      if .runStop i ∈ did then { m with run := false } else m := by
  induction did generalizing ctx with
  | nil => exact Option.map_id'.symm
  | cons call did ih =>
      refine (ih _).trans ?_
      rw [modules_exec, Option.map_map]
      refine congrFun (congrArg _ (funext fun m => ?_)) _
      rw [Function.comp_apply]
      by_cases hcall : call = .runStop i
      · subst hcall
        rw [if_pos rfl, if_pos List.mem_cons_self, ite_self]
      · rw [if_neg hcall]
        have hmem : .runStop i ∈ call :: did ↔ .runStop i ∈ did :=
          List.mem_cons.trans (or_iff_right fun heq => hcall heq.symm)
        rw [if_congr hmem rfl rfl]

end SysContext

/-- The context of the main loop is what was done made of it. -/
structure Tracks (behaviour : Behaviour) (modules : List LoopModule) (start : ℕ)
    (s : LoopState) : Prop where
  origin : ∀ function did, .call function did ∈ s.trace →
    ∃ before, did = behaviour before function
  same : s.ctx.Same
    ((calls s.trace).foldl SysContext.exec (SysContext.boot modules start))
  owed : s.ctx.reconnect = true ↔ Owed s.trace

namespace Tracks

variable {behaviour : Behaviour} {modules : List LoopModule} {start : ℕ}
  {s : LoopState}

theorem boot : Tracks behaviour modules start ⟨SysContext.boot modules start, []⟩ :=
  ⟨nofun, ⟨rfl, rfl, rfl⟩, iff_of_false Bool.false_ne_true not_owed_nil⟩

theorem call (h : Tracks behaviour modules start s) (function : LoopCall) :
    Tracks behaviour modules start (loopFuncRun behaviour function s) := by
  refine ⟨fun function' did hmem => ?_, ?_, ?_⟩
  · rcases List.mem_append.mp hmem with hmem | hmem
    · exact h.origin function' did hmem
    · cases List.mem_singleton.mp hmem
      exact ⟨s.trace, rfl⟩
  · rw [loopFuncRun, calls_append, calls_call, List.foldl_append, List.foldl_append]
    exact (h.same.foldl _).exec .wdUpdate
  · rw [loopFuncRun, owed_append_call, ← h.owed]
    exact SysContext.reconnect_foldl s.ctx _

theorem reconnected (h : Tracks behaviour modules start s) :
    Tracks behaviour modules start
      ⟨{ s.ctx with reconnect := false }, s.trace ++ [.reconnected]⟩ := by
  refine ⟨fun function did hmem => ?_, ?_,
    iff_of_false Bool.false_ne_true not_owed_reconnected⟩
  · rcases List.mem_append.mp hmem with hmem | hmem
    · exact h.origin function did hmem
    · cases List.mem_singleton.mp hmem
  rw [calls_append]
  exact ⟨h.same.watch.trans (by rw [List.foldl_append]; rfl),
    h.same.modules.trans (by rw [List.foldl_append]; rfl),
    h.same.jobState.trans (by rw [List.foldl_append]; rfl)⟩

theorem watch (h : Tracks behaviour modules start s) :
    s.ctx.watch = watchMachine.run (Watch.boot start) (calls s.trace) :=
  h.same.watch.trans (SysContext.watch_foldl _ _)

theorem jobState (h : Tracks behaviour modules start s) : s.ctx.jobState = jobOf s.trace :=
  h.same.jobState.trans (SysContext.jobState_foldl _ _)

theorem getElem?_modules (h : Tracks behaviour modules start s) (i : ℕ) :
    s.ctx.modules[i]? = modules[i]?.map fun m =>
      if .runStop i ∈ calls s.trace then { m with run := false } else m := by
  rw [h.same.modules]
  exact SysContext.modules_foldl _ _ i

theorem length_modules (h : Tracks behaviour modules start s) :
    s.ctx.modules.length = modules.length := by
  have hsame : ∀ i, s.ctx.modules[i]? = none ↔ modules[i]? = none := fun i => by
    rw [h.getElem?_modules, Option.map_eq_none_iff]
  simp only [List.getElem?_eq_none_iff] at hsame
  exact le_antisymm ((hsame _).mpr le_rfl) ((hsame _).mp le_rfl)

/-- The module whose turn it is is reconnected if it has a function for it. -/
theorem reconnectModule_eq (h : Tracks behaviour modules start s) (i : ℕ) :
    reconnectModule behaviour s i =
      if modules[i]?.any LoopModule.reconnect then
        loopFuncRun behaviour (.reconnect i) s
      else s := by
  rw [reconnectModule, h.getElem?_modules]
  cases modules[i]? with
  | none => rfl
  | some m =>
      rw [Option.map_some]
      by_cases hstop : .runStop i ∈ calls s.trace
      · rw [if_pos hstop]
        rfl
      · rw [if_neg hstop]
        rfl

theorem reconnect_pass (h : Tracks behaviour modules start s) (ids : List ℕ) :
    ∃ items, (ids.foldl (reconnectModule behaviour) s).trace = s.trace ++ items ∧
      functions items = (ids.filter fun i =>
        modules[i]?.any LoopModule.reconnect).map .reconnect ∧
      Tracks behaviour modules start (ids.foldl (reconnectModule behaviour) s) := by
  induction ids generalizing s with
  | nil => exact ⟨[], (List.append_nil _).symm, rfl, h⟩
  | cons i ids ih =>
      rw [List.foldl_cons, h.reconnectModule_eq, List.filter_cons]
      split
      next hhook =>
          obtain ⟨items, htrace, hitems, htracks⟩ :=
            ih (h.call (.reconnect i))
          refine ⟨.call (.reconnect i) (behaviour s.trace (.reconnect i)) :: items,
            ?_, ?_, htracks⟩
          · rw [htrace, loopFuncRun, List.append_assoc]
            rfl
          · exact congrArg (LoopCall.reconnect i :: ·) hitems
      next => exact ih h

/-- The module whose turn it is runs if it was not stopped, and no job holds it
up. -/
theorem runModule_eq (h : Tracks behaviour modules start s) (i : ℕ) :
    runModule behaviour s i =
      match modules[i]? with
      | none => s
      | some m =>
          if m.run = true ∧ .runStop i ∉ calls s.trace ∧ ¬Held s.trace m then
            loopFuncRun behaviour (.run i) s
          else s := by
  rw [runModule, h.getElem?_modules, h.jobState]
  cases modules[i]? with
  | none => rfl
  | some m =>
      rw [Option.map_some]
      by_cases hstop : .runStop i ∈ calls s.trace
      · rw [if_pos hstop]
        exact (if_pos rfl).trans (if_neg fun hrun => hrun.2.1 hstop).symm
      · rw [if_neg hstop]
        change (if m.run = false then s else if Held s.trace m then s else _) = _
        by_cases hrun : m.run = true
        · refine (if_neg fun hfalse => Bool.false_ne_true (hfalse.symm.trans hrun)).trans ?_
          by_cases hheld : Held s.trace m
          · exact (if_pos hheld).trans (if_neg fun h => h.2.2 hheld).symm
          · exact (if_neg hheld).trans (if_pos ⟨hrun, hstop, hheld⟩).symm
        · exact (if_pos (Bool.not_eq_true _ ▸ hrun)).trans
            (if_neg fun h => hrun h.1).symm

end Tracks

/-! ## Rounds -/

section

variable {modules : List LoopModule} {i : ℕ} {ids : List ℕ}
  {trace runs : List LoopItem}

theorem RunPass.nil (modules : List LoopModule) (trace : List LoopItem) :
    RunPass modules [] trace [] := by
  refine ⟨⟨[], rfl, List.Sublist.refl []⟩, ?_, nofun⟩
  intro before i did after hnil
  cases before with
  | nil => cases hnil
  | cons item before => cases hnil

theorem RunPass.skip (h : RunPass modules ids trace runs)
    (hskip : ∀ m, modules[i]? = some m → m.run = true →
      .runStop i ∉ calls trace → Held trace m) :
    RunPass modules (i :: ids) trace runs := by
  obtain ⟨called, hcalled, hsublist⟩ := h.order
  refine ⟨⟨called, hcalled, hsublist.cons i⟩, h.allowed, ?_⟩
  intro j hj m hm hrun hstop hnot
  rcases List.mem_cons.mp hj with rfl | hj
  · refine ⟨[], runs, rfl, ?_⟩
    rw [List.append_nil]
    refine hskip m hm hrun fun hmem => hstop ?_
    rw [calls_append]
    exact List.mem_append_left _ hmem
  · exact h.passed j hj m hm hrun hstop hnot

theorem RunPass.call {did : List SysCall} {m : LoopModule}
    (h : RunPass modules ids (trace ++ [.call (.run i) did]) runs)
    (hm : modules[i]? = some m) (hrun : m.run = true) (hfree : ¬Held trace m) :
    RunPass modules (i :: ids) trace (.call (.run i) did :: runs) := by
  obtain ⟨called, hcalled, hsublist⟩ := h.order
  refine ⟨⟨i :: called, congrArg (LoopCall.run i :: ·) hcalled,
    hsublist.cons_cons i⟩, ?_, ?_⟩
  · intro before j did' after hruns
    cases before with
    | nil =>
        cases hruns
        exact ⟨m, hm, hrun, (List.append_nil trace).symm ▸ hfree⟩
    | cons item before =>
        rw [List.cons_append, List.cons.injEq] at hruns
        obtain ⟨rfl, hruns⟩ := hruns
        obtain ⟨m', hm', hrun', hfree'⟩ := h.allowed before j did' after hruns
        rw [List.append_assoc] at hfree'
        exact ⟨m', hm', hrun', hfree'⟩
  · intro j hj m' hm' hrun' hstop hnot
    have hne : .run j ∉ functions runs := fun hmem =>
      hnot (List.mem_cons_of_mem _ hmem)
    rcases List.mem_cons.mp hj with rfl | hj
    · exact absurd List.mem_cons_self hnot
    · rw [← List.singleton_append, ← List.append_assoc] at hstop
      obtain ⟨before, after, rfl, hheld⟩ := h.passed j hj m' hm' hrun' hstop hne
      refine ⟨.call (.run i) did :: before, after, rfl, ?_⟩
      rwa [List.append_assoc] at hheld

end

section

variable {behaviour : Behaviour} {modules : List LoopModule} {start : ℕ}
  {s : LoopState}

theorem Tracks.run_pass (h : Tracks behaviour modules start s) (ids : List ℕ) :
    ∃ runs, (ids.foldl (runModule behaviour) s).trace = s.trace ++ runs ∧
      RunPass modules ids s.trace runs ∧
      Tracks behaviour modules start (ids.foldl (runModule behaviour) s) := by
  induction ids generalizing s with
  | nil => exact ⟨[], (List.append_nil _).symm, RunPass.nil modules _, h⟩
  | cons i ids ih =>
      rw [List.foldl_cons, h.runModule_eq]
      cases hm : modules[i]? with
      | none =>
          obtain ⟨runs, htrace, hpass, htracks⟩ := ih h
          refine ⟨runs, htrace, hpass.skip fun m hm' => ?_, htracks⟩
          rw [hm] at hm'
          cases hm'
      | some m =>
          by_cases hrun : m.run = true ∧ .runStop i ∉ calls s.trace ∧ ¬Held s.trace m
          · obtain ⟨runs, htrace, hpass, htracks⟩ :=
              ih (h.call (.run i))
            simp only [if_pos hrun]
            refine ⟨.call (.run i) (behaviour s.trace (.run i)) :: runs, ?_,
              hpass.call hm hrun.1 hrun.2.2, htracks⟩
            rw [htrace, loopFuncRun, List.append_assoc]
            rfl
          · obtain ⟨runs, htrace, hpass, htracks⟩ := ih h
            simp only [if_neg hrun]
            refine ⟨runs, htrace, hpass.skip fun m' hm' hrun' hstop => ?_, htracks⟩
            rw [hm] at hm'
            cases hm'
            by_contra hheld
            exact hrun ⟨hrun', hstop, hheld⟩

theorem Tracks.doSystemReconnect (h : Tracks behaviour modules start s) :
    Tracks behaviour modules start (doSystemReconnect behaviour s) ∧ ∃ items,
      (System.doSystemReconnect behaviour s).trace =
        s.trace ++ (items ++ [.reconnected]) ∧
      functions items = (reconnectHooks modules).map .reconnect := by
  obtain ⟨items, htrace, hitems, htracks⟩ :=
    h.reconnect_pass (List.range modules.length)
  rw [System.doSystemReconnect, sysModulesReconnect, h.length_modules]
  refine ⟨htracks.reconnected, items, ?_, hitems⟩
  rw [htrace, List.append_assoc]

theorem Tracks.reconnect_if (h : Tracks behaviour modules start s) : ∃ s' pass,
    (if s.ctx.reconnect = true then System.doSystemReconnect behaviour s else s) =
        s' ∧
      Tracks behaviour modules start s' ∧ s'.trace = s.trace ++ pass ∧
      (Owed s.trace → ∃ items, pass = items ++ [.reconnected] ∧
        functions items = (reconnectHooks modules).map .reconnect) ∧
      (¬Owed s.trace → pass = []) := by
  by_cases howed : s.ctx.reconnect = true
  · obtain ⟨htracks, items, htrace, hitems⟩ := h.doSystemReconnect
    exact ⟨_, items ++ [.reconnected], if_pos howed, htracks, htrace,
      fun _ => ⟨items, rfl, hitems⟩, fun hnot => absurd (h.owed.mp howed) hnot⟩
  · exact ⟨s, [], if_neg howed, h, (List.append_nil _).symm,
      fun hyes => absurd (h.owed.mpr hyes) howed, fun _ => rfl⟩

/-- A round of the main loop. -/
theorem Tracks.round (h : Tracks behaviour modules start s) :
    Tracks behaviour modules start (systemCommonRun behaviour s) ∧
      ∃ did pass runs, (systemCommonRun behaviour s).trace =
          s.trace ++ .call .logWdBoot did :: (pass ++ runs) ∧
        Round modules s.trace did pass runs := by
  obtain ⟨s', pass, hs', htracks, htrace, hreconnect, hcalm⟩ :=
    (h.call .logWdBoot).reconnect_if
  obtain ⟨runs, hruns, hpass, hlast⟩ := htracks.run_pass (List.range modules.length)
  rw [← htracks.length_modules] at hruns hlast
  have hround : systemCommonRun behaviour s = sysModulesRun behaviour s' :=
    congrArg (sysModulesRun behaviour) hs'
  rw [hround]
  refine ⟨hlast, behaviour s.trace .logWdBoot, pass, runs, ?_, hreconnect, hcalm, ?_⟩
  · refine hruns.trans ?_
    rw [htrace, loopFuncRun, List.append_assoc, List.append_assoc]
    rfl
  · rw [htrace, loopFuncRun, List.append_assoc] at hpass
    exact hpass

end

section

variable (behaviour : Behaviour) (modules : List LoopModule) (start rounds : ℕ)

theorem tracks_mainLoop :
    Tracks behaviour modules start (mainLoop behaviour modules start rounds) := by
  induction rounds with
  | zero => exact Tracks.boot
  | succ rounds ih => exact ih.round.1

/-- In every round the modules are reconnected exactly if one of them asked for it
since they were last, all of them in their order, before any of them runs.  Then
they run in their order, but for those that a job holds up. -/
theorem mainLoop_round : ∃ did pass runs,
    (mainLoop behaviour modules start (rounds + 1)).trace =
        (mainLoop behaviour modules start rounds).trace ++
          .call .logWdBoot did :: (pass ++ runs) ∧
      Round modules (mainLoop behaviour modules start rounds).trace did pass runs :=
  (tracks_mainLoop behaviour modules start rounds).round.2

end

/-! ## When the device resets -/

section

variable {behaviour : Behaviour} {g : ℕ} {trace : List LoopItem}

theorem brief_calls
    (h : ∀ function did, .call function did ∈ trace → Brief g 0 did) :
    Brief g 0 (calls trace) := by
  induction trace with
  | nil => trivial
  | cons item trace ih =>
      have hrest := ih fun function did hmem =>
        h function did (List.mem_cons_of_mem _ hmem)
      cases item with
      | reconnected => exact hrest
      | call function did =>
          have hcall : calls (.call function did :: trace) =
              did ++ .wdUpdate :: calls trace :=
            List.append_assoc did [.wdUpdate] (calls trace)
          rw [hcall]
          exact (h function did List.mem_cons_self).append hrest

/-- While no function of a module works for long without an update of the
watchdog, the device does not reset but for a forced reboot, and then not before
its delay.  And behind the delay it resets, whatever the modules do. -/
theorem mainLoop_reboot (behaviour : Behaviour) (modules : List LoopModule)
    {start : ℕ} (hstart : 0 < start) (rounds : ℕ) {done : List SysCall}
    (hdone : done <+: calls (mainLoop behaviour modules start rounds).trace) :
    (mainLoop behaviour modules start rounds).ctx.watch =
        watchMachine.run (Watch.boot start)
          (calls (mainLoop behaviour modules start rounds).trace) ∧
    (∀ g ≤ watchdogTimeoutMs,
      (∀ trace function, Brief g 0 (behaviour trace function)) →
      watchMachine.Admits (Watch.boot start) done →
        (Calm done → ¬(watchMachine.run (Watch.boot start) done).Expired) ∧
          ∀ (before : List SysCall) (delayMs : ℤ) (after : List SysCall),
            done = before ++ .forceReboot delayMs :: after → Calm after →
            ((watchMachine.run (Watch.boot start) done).now : ℤ) + g ≤
              (watchMachine.run (Watch.boot start) before).now +
                max delayMs watchdogTimeoutMs →
            ¬(watchMachine.run (Watch.boot start) done).Expired) ∧
      ∀ (before : List SysCall) (delayMs : ℤ) (after : List SysCall),
        done = before ++ .forceReboot delayMs :: after → Calm after →
        ((watchMachine.run (Watch.boot start) before).now : ℤ) +
            max delayMs watchdogTimeoutMs <
          (watchMachine.run (Watch.boot start) done).now →
        (watchMachine.run (Watch.boot start) done).Expired := by
  refine ⟨(tracks_mainLoop behaviour modules start rounds).watch,
    fun g hg hbrief hadmits => ?_, ?_⟩
  · obtain ⟨rest, hrest⟩ := hdone
    have hcalls : Brief g 0 (calls (mainLoop behaviour modules start rounds).trace) :=
      brief_calls fun function did hmem => by
        obtain ⟨before, rfl⟩ :=
          (tracks_mainLoop behaviour modules start rounds).origin function did hmem
        exact hbrief before function
    rw [← hrest] at hcalls
    exact Watch.not_expired_boot hg hstart hcalls.of_append hadmits
  · rintro before delayMs after rfl hcalm hlate
    exact Watch.expired_boot hstart hcalm hlate

/-- One module, which forces a reboot in 10 seconds when it runs first. -/
def rebootOnce : Behaviour := fun trace function =>
  if function = .run 0 ∧ trace.length = 1 then [.elapse 100, .forceReboot 10000]
  else [.elapse 100]

theorem mainLoop_reboot_once :
    ¬(watchMachine.run (Watch.boot 4000)
      (calls (mainLoop rebootOnce [⟨true, false, 0⟩] 4000 2).trace)).Expired := by
  have hbrief : ∀ trace function, Brief 100 0 (rebootOnce trace function) := by
    intro trace function
    rw [rebootOnce]
    split
    · decide
    · decide
  refine ((mainLoop_reboot rebootOnce [⟨true, false, 0⟩] (by decide) 2
    (List.prefix_refl _)).2.1 100 (by decide) hbrief (by decide)).2
      [.elapse 100, .wdUpdate, .elapse 100] 10000
      [.wdUpdate, .elapse 100, .wdUpdate, .elapse 100, .wdUpdate] rfl ?_ (by decide)
  intro delayMs hmem
  simp at hmem

end

end Herak.System
