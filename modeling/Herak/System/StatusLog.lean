import Mathlib
import Herak.Support.CInt
import Herak.Support.EventMachine

/-!
# The status log

A status log calls the hooks of the modules one after the other, one call in a
round of the main loop, and each hook until it tells that it is done.
-/

namespace Herak.System

open CInt

/-- `LOG_STATUS_HOOKS_COUNT` -/
def logStatusHooksCount : ℕ := 128

/-- `PERIODIC_LOG_MS` -/
def periodicLogMsDefault : ℕ := 60 * 60 * 1000

/-- `LOG_STATUS_DELAY_MS` -/
def logStatusDelayMs : ℕ := 100

/-- `struct sys_state_context_t`, with a hook for each function and its context;
nothing stands for a null function. -/
structure SysStateContext (Hook : Type) where
  periodicLogMs : ℕ
  lastLog : ℕ
  lastRun : ℕ
  logStatus : List (Option Hook)
  logStatusProgress : ℤ

/-- `syslog_init`, with the number that the parameter holds, if there is one. -/
def syslogInit (Hook : Type) (cfg : Option ℤ) : SysStateContext Hook where
  periodicLogMs :=
    match cfg with
    | some sec => (sec % 2 ^ 16).toNat * 1000
    | none => periodicLogMsDefault
  lastLog := 0
  lastRun := 0
  logStatus := []
  logStatusProgress := -1

/-- What is logged: the begin with the number of hooks, the calls of the hooks
with their results, and the end. -/
inductive StatusAction (Hook : Type)
  | start (count : ℕ)
  | call (idx : ℕ) (hook : Option Hook) (ret : Bool) (now : ℕ)
  | finish (count : ℕ)

variable {Hook : Type}

/-- `sys_state_log_start` -/
def sysStateLogStart (ctx : SysStateContext Hook) :
    SysStateContext Hook × List (StatusAction Hook) :=
  ({ ctx with logStatusProgress := 0 }, [.start ctx.logStatus.length])

/-- `sys_state_periodic` -/
def sysStatePeriodic (ctx : SysStateContext Hook) (now : ℕ) :
    SysStateContext Hook × List (StatusAction Hook) :=
  if ctx.periodicLogMs = 0 then (ctx, [])
  else if ctx.periodicLogMs < subU64 now ctx.lastLog then
    sysStateLogStart { ctx with lastLog := now }
  else (ctx, [])

/-- `sys_state_log_run`; `ret` is the result of the hook, and `later` the time
after its call. -/
def sysStateLogRun (ctx : SysStateContext Hook) (now later : ℕ) (ret : Bool) :
    SysStateContext Hook × List (StatusAction Hook) :=
  if ctx.logStatusProgress < 0 ∨ ctx.logStatus.length ≤ ctx.logStatusProgress then
    sysStatePeriodic ctx later
  else if subU64 now ctx.lastRun < logStatusDelayMs then (ctx, [])
  else
    let idx := ctx.logStatusProgress.toNat
    let hook := ctx.logStatus.getD idx none
    let ret := hook.isNone || ret
    let progress := if ret then ctx.logStatusProgress + 1 else ctx.logStatusProgress
    if ctx.logStatus.length ≤ progress then
      ({ ctx with logStatusProgress := -1, lastLog := later, lastRun := now },
        [.call idx hook ret now, .finish ctx.logStatus.length])
    else
      ({ ctx with logStatusProgress := progress, lastRun := now },
        [.call idx hook ret now])

/-- `sys_state_log_status` -/
def sysStateLogStatus (ctx : SysStateContext Hook) :
    SysStateContext Hook × List (StatusAction Hook) :=
  if 0 ≤ ctx.logStatusProgress ∧ ctx.logStatusProgress < ctx.logStatus.length then
    (ctx, [])
  else sysStateLogStart ctx

/-- `sys_state_callback_add` -/
def sysStateCallbackAdd (ctx : SysStateContext Hook) (hook : Option Hook) :
    SysStateContext Hook × List (StatusAction Hook) :=
  if logStatusHooksCount ≤ ctx.logStatus.length then (ctx, [])
  else ({ ctx with logStatus := ctx.logStatus ++ [hook] }, [])

/-- `sys_state_set_periodic_log_ms` -/
def sysStateSetPeriodicLogMs (ctx : SysStateContext Hook) (ms : ℤ) :
    SysStateContext Hook × List (StatusAction Hook) :=
  ({ ctx with
      periodicLogMs := if 0 ≤ ms then ms.toNat else periodicLogMsDefault }, [])

/-- A round of the main loop, and what the other modules may call between two
rounds. -/
inductive SysStateEvent (Hook : Type)
  | run (now later : ℕ) (ret : Bool)
  | logStatus
  | callbackAdd (hook : Option Hook)
  | setPeriodicLogMs (ms : ℤ)

def sysStateCall (ctx : SysStateContext Hook) :
    SysStateEvent Hook → SysStateContext Hook × List (StatusAction Hook)
  | .run now later ret => sysStateLogRun ctx now later ret
  | .logStatus => sysStateLogStatus ctx
  | .callbackAdd hook => sysStateCallbackAdd ctx hook
  | .setPeriodicLogMs ms => sysStateSetPeriodicLogMs ctx ms

/-- The context and all that was logged.  The clock does not go back behind the
last call of a hook. -/
def statusMachine (Hook : Type) :
    EventMachine (SysStateContext Hook × List (StatusAction Hook))
      (SysStateEvent Hook) where
  step := fun s e =>
    ((sysStateCall s.1 e).1, s.2 ++ (sysStateCall s.1 e).2)
  enabled := fun s e =>
    match e with
    | .run now _ _ => s.1.lastRun ≤ now ∧ now < 2 ^ 64
    | _ => True

instance (s : SysStateContext Hook × List (StatusAction Hook)) :
    ∀ e, Decidable ((statusMachine Hook).enabled s e)
  | .run _ _ _ => inferInstanceAs (Decidable (_ ∧ _))
  | .logStatus => .isTrue trivial
  | .callbackAdd _ => .isTrue trivial
  | .setPeriodicLogMs _ => .isTrue trivial

/-! ## What is logged in a row -/

/-- A hook is called until it is done, and then the next one, at least 100
milliseconds later.  Behind the last one the log ends.  Another log starts behind
the end, or as long as there are no hooks. -/
def Follows : StatusAction Hook → StatusAction Hook → Prop
  | .start _, .start count => count = 0
  | .start _, .call idx _ _ _ => idx = 0
  | .start _, .finish _ => False
  | .call _ _ _ _, .start _ => False
  | .call idx _ ret now, .call idx' _ _ now' =>
      idx' = (if ret then idx + 1 else idx) ∧ now + logStatusDelayMs ≤ now'
  | .call idx _ ret _, .finish count => ret = true ∧ count = idx + 1
  | .finish _, .start _ => True
  | .finish _, .call _ _ _ _ => False
  | .finish _, .finish _ => False

/-- The hooks that are done, by their numbers. -/
def passed : List (StatusAction Hook) → List ℕ
  | [] => []
  | .call idx _ true _ :: rest => idx :: passed rest
  | _ :: rest => passed rest

/-- The number of the hook whose turn it is behind an action. -/
def StatusAction.nextIdx : StatusAction Hook → ℕ
  | .call idx _ ret _ => if ret then idx + 1 else idx
  | _ => 0

theorem passed_of_chain {a : StatusAction Hook} {mid : List (StatusAction Hook)}
    {count : ℕ} (hopen : ∀ n, a ≠ .finish n) (hmid : ∀ n, .start n ∉ mid)
    (h : (a :: (mid ++ [.finish count])).IsChain Follows) :
    a.nextIdx ≤ count ∧
      passed mid = List.range' a.nextIdx (count - a.nextIdx) := by
  induction mid generalizing a with
  | nil =>
      have hlast := (List.isChain_cons_cons.mp h).1
      cases a with
      | start => exact hlast.elim
      | finish n => exact (hopen n rfl).elim
      | call idx hook ret now =>
          obtain ⟨hret, hcount⟩ := hlast
          subst hret hcount
          have hnext : (StatusAction.call idx hook true now).nextIdx = idx + 1 :=
            rfl
          rw [hnext, Nat.sub_self]
          exact ⟨le_rfl, rfl⟩
  | cons b mid ih =>
      obtain ⟨hab, hrest⟩ := List.isChain_cons_cons.mp h
      have hmid' : ∀ n, .start n ∉ mid :=
        fun n hn => hmid n (List.mem_cons_of_mem b hn)
      cases b with
      | start n => exact (hmid n List.mem_cons_self).elim
      | finish n =>
          -- Behind an end there is only a start.
          cases mid with
          | nil => exact (List.isChain_cons_cons.mp hrest).1.elim
          | cons c mid =>
              have hc := (List.isChain_cons_cons.mp hrest).1
              cases c with
              | start n => exact (hmid' n List.mem_cons_self).elim
              | call => exact hc.elim
              | finish => exact hc.elim
      | call idx hook ret now =>
          have hidx : idx = a.nextIdx := by
            cases a with
            | start => exact hab
            | call => exact hab.1
            | finish n => exact (hopen n rfl).elim
          obtain ⟨hle, hpassed⟩ := ih (fun n hn => by cases hn) hmid' hrest
          cases ret with
          | false =>
              rw [← hidx]
              exact ⟨hle, hpassed⟩
          | true =>
              change idx + 1 ≤ count at hle
              rw [← hidx]
              refine ⟨Nat.le_of_succ_le hle, ?_⟩
              obtain ⟨left, hleft⟩ : ∃ left, count - idx = left + 1 :=
                ⟨count - idx - 1, by omega⟩
              have hnext : (StatusAction.call idx hook true now).nextIdx =
                idx + 1 := rfl
              rw [hnext, show count - (idx + 1) = left by omega] at hpassed
              rw [passed, hpassed, hleft, List.range'_succ]

/-! ## Runs -/

/-- A call is the one of the hook with its number. -/
def StatusAction.Fits (hooks : List (Option Hook)) : StatusAction Hook → Prop
  | .call idx hook ret _ =>
      hooks[idx]? = some hook ∧ (hook = none → ret = true)
  | _ => True

/-- What is left of the last action. -/
def Pending (ctx : SysStateContext Hook) : Option (StatusAction Hook) → Prop
  | none => ctx.logStatusProgress = -1
  | some (.start count) =>
      ctx.logStatusProgress = 0 ∧ (ctx.logStatus = [] → count = 0)
  | some (.call idx _ ret now) =>
      ctx.logStatusProgress = (if ret then idx + 1 else idx : ℕ) ∧
        ctx.logStatusProgress < ctx.logStatus.length ∧ ctx.lastRun = now
  | some (.finish _) => ctx.logStatusProgress = -1

/-- What holds after every event of a run. -/
structure Logging (s : SysStateContext Hook × List (StatusAction Hook)) : Prop where
  chain : s.2.IsChain Follows
  fits : ∀ a ∈ s.2, a.Fits s.1.logStatus
  pending : Pending s.1 s.2.getLast?

variable {s : SysStateContext Hook × List (StatusAction Hook)}
  {ctx : SysStateContext Hook}

/-- The log is not in progress. -/
def SysStateContext.Idle (ctx : SysStateContext Hook) : Prop :=
  ¬(0 ≤ ctx.logStatusProgress ∧ ctx.logStatusProgress < ctx.logStatus.length)

theorem Logging.keep (h : Logging s) (hhooks : ctx.logStatus = s.1.logStatus)
    (hprogress : ctx.logStatusProgress = s.1.logStatusProgress)
    (hrun : ctx.lastRun = s.1.lastRun) : Logging (ctx, s.2 ++ []) := by
  rw [List.append_nil]
  refine ⟨h.chain, by rw [hhooks]; exact h.fits, ?_⟩
  have hpending := h.pending
  cases hlast : s.2.getLast? with
  | none =>
      rw [hlast] at hpending
      exact hprogress.trans hpending
  | some a =>
      rw [hlast] at hpending
      cases a with
      | start count =>
          rw [Pending, hprogress, hhooks]
          exact hpending
      | call idx hook ret now =>
          rw [Pending, hprogress, hhooks, hrun]
          exact hpending
      | finish count => exact hprogress.trans hpending

/-- A log starts. -/
theorem Logging.start (h : Logging s) (hidle : s.1.Idle)
    (hhooks : ctx.logStatus = s.1.logStatus) :
    Logging ((sysStateLogStart ctx).1, s.2 ++ (sysStateLogStart ctx).2) := by
  have hpending := h.pending
  refine ⟨?_, ?_, ?_⟩
  · refine List.isChain_append.mpr ⟨h.chain, List.isChain_singleton _, ?_⟩
    rintro a ha b hb
    obtain rfl := Option.some.inj hb
    rw [Option.mem_def.mp ha] at hpending
    cases a with
    | start count =>
        rw [Follows, hhooks]
        have hempty : ¬(0 : ℤ) < s.1.logStatus.length := fun hpos =>
          hidle ⟨hpending.1.ge, by rwa [hpending.1]⟩
        omega
    | call idx hook ret now =>
        refine (hidle ⟨?_, hpending.2.1⟩).elim
        rw [hpending.1]
        exact Int.natCast_nonneg _
    | finish count => trivial
  · intro a ha
    rcases List.mem_append.mp ha with ha | ha
    · have hfits := h.fits a ha
      rw [← hhooks] at hfits
      exact hfits
    · obtain rfl := List.mem_singleton.mp ha
      trivial
  · rw [sysStateLogStart, List.getLast?_concat]
    refine ⟨rfl, fun hnone => ?_⟩
    rw [List.length_eq_zero_iff]
    exact hnone

theorem Logging.periodic (h : Logging s) (hidle : s.1.Idle) (now : ℕ) :
    Logging ((sysStatePeriodic s.1 now).1, s.2 ++ (sysStatePeriodic s.1 now).2) := by
  rw [sysStatePeriodic]
  split
  · exact h.keep rfl rfl rfl
  · split
    · exact h.start hidle rfl
    · exact h.keep rfl rfl rfl

theorem idle_iff (ctx : SysStateContext Hook) :
    ctx.Idle ↔
      ctx.logStatusProgress < 0 ∨ ctx.logStatus.length ≤ ctx.logStatusProgress := by
  rw [SysStateContext.Idle]
  omega

/-- A call of the hook whose turn it is. -/
theorem Logging.call (h : Logging s) {idx now : ℕ}
    (hidx : s.1.logStatusProgress = idx) (hlt : idx < s.1.logStatus.length)
    (hnow : s.1.lastRun + logStatusDelayMs ≤ now) {ret : Bool}
    (hret : s.1.logStatus.getD idx none = none → ret = true) :
    (s.2 ++ [StatusAction.call idx (s.1.logStatus.getD idx none) ret now]).IsChain
        Follows ∧
      ∀ a ∈ s.2 ++ [StatusAction.call idx (s.1.logStatus.getD idx none) ret now],
        a.Fits s.1.logStatus := by
  have hpending := h.pending
  constructor
  · refine List.isChain_append.mpr ⟨h.chain, List.isChain_singleton _, ?_⟩
    rintro a ha b hb
    obtain rfl := Option.some.inj hb
    rw [Option.mem_def.mp ha] at hpending
    cases a with
    | start count =>
        have hzero := hpending.1
        rw [Follows]
        omega
    | call idx' hook' ret' now' =>
        obtain ⟨hprogress, -, hrun⟩ := hpending
        exact ⟨Int.natCast_inj.mp (hidx.symm.trans hprogress), by rwa [← hrun]⟩
    | finish count =>
        rw [Pending] at hpending
        omega
  · intro a ha
    rcases List.mem_append.mp ha with ha | ha
    · exact h.fits a ha
    · obtain rfl := List.mem_singleton.mp ha
      refine ⟨?_, hret⟩
      rw [List.getElem?_eq_getElem hlt, List.getD_eq_getElem _ _ hlt]

theorem Logging.run (h : Logging s) {now : ℕ} (later : ℕ) (ret : Bool)
    (hclock : s.1.lastRun ≤ now ∧ now < 2 ^ 64) :
    Logging ((sysStateLogRun s.1 now later ret).1,
      s.2 ++ (sysStateLogRun s.1 now later ret).2) := by
  rw [sysStateLogRun]
  split
  next hidle => exact h.periodic ((idle_iff _).mpr hidle) later
  next hbusy =>
    split
    · exact h.keep rfl rfl rfl
    next hdelay =>
      rw [subU64_of_le hclock.1 hclock.2] at hdelay
      obtain ⟨idx, hidx⟩ : ∃ idx : ℕ, s.1.logStatusProgress = idx :=
        ⟨s.1.logStatusProgress.toNat, by omega⟩
      rw [hidx] at hbusy ⊢
      rw [Int.toNat_natCast]
      dsimp only
      generalize hresult : ((s.1.logStatus.getD idx none).isNone || ret) = result
      have hret : s.1.logStatus.getD idx none = none → result = true := by
        intro hnone
        rw [← hresult, hnone]
        rfl
      obtain ⟨hchain, hfits⟩ := h.call hidx (by omega)
        (show s.1.lastRun + logStatusDelayMs ≤ now by omega) hret
      generalize hprogress : (if result then (idx : ℤ) + 1 else idx) = progress
      split
      next hend =>
        have hdone : result = true ∧ idx + 1 = s.1.logStatus.length := by
          cases result with
          | true =>
              rw [if_pos rfl] at hprogress
              exact ⟨rfl, by omega⟩
          | false =>
              rw [if_neg Bool.false_ne_true] at hprogress
              omega
        obtain ⟨hresult, hcount⟩ := hdone
        rw [List.append_cons]
        refine ⟨?_, ?_, ?_⟩
        · refine List.isChain_append.mpr ⟨hchain, List.isChain_singleton _, ?_⟩
          rintro a ha b hb
          obtain rfl := Option.some.inj hb
          rw [List.getLast?_concat] at ha
          obtain rfl := Option.some.inj ha
          exact ⟨hresult, hcount.symm⟩
        · intro a ha
          rcases List.mem_append.mp ha with ha | ha
          · exact hfits a ha
          · obtain rfl := List.mem_singleton.mp ha
            trivial
        · rw [List.getLast?_concat]
          rfl
      next hmore =>
        refine ⟨hchain, hfits, ?_⟩
        rw [List.getLast?_concat]
        refine ⟨?_, not_le.mp hmore, rfl⟩
        cases result with
        | true => exact hprogress.symm
        | false => exact hprogress.symm

theorem Logging.callbackAdd (h : Logging s) (hook : Option Hook) :
    Logging ((sysStateCallbackAdd s.1 hook).1,
      s.2 ++ (sysStateCallbackAdd s.1 hook).2) := by
  rw [sysStateCallbackAdd]
  split
  · exact h.keep rfl rfl rfl
  · rw [List.append_nil]
    refine ⟨h.chain, fun a ha => ?_, ?_⟩
    · have hfits := h.fits a ha
      cases a with
      | call idx hook' ret now =>
          refine ⟨?_, hfits.2⟩
          have hlt := (List.getElem?_eq_some_iff.mp hfits.1).1
          rw [List.getElem?_append_left hlt]
          exact hfits.1
      | start => trivial
      | finish => trivial
    · have hpending := h.pending
      cases hlast : s.2.getLast? with
      | none =>
          rw [hlast] at hpending
          exact hpending
      | some a =>
          rw [hlast] at hpending
          cases a with
          | start count =>
              refine ⟨hpending.1, fun hnone => ?_⟩
              exact (List.append_ne_nil_of_right_ne_nil _ (List.cons_ne_nil _ _)
                hnone).elim
          | call idx hook' ret now =>
              refine ⟨hpending.1, ?_, hpending.2.2⟩
              have hlt := hpending.2.1
              change s.1.logStatusProgress < (s.1.logStatus ++ [hook]).length
              rw [List.length_append, List.length_singleton]
              omega
          | finish count => exact hpending

theorem logging_step (e : SysStateEvent Hook) (h : Logging s)
    (henabled : (statusMachine Hook).enabled s e) :
    Logging ((statusMachine Hook).step s e) := by
  cases e with
  | run now later ret => exact h.run later ret henabled
  | logStatus =>
      change Logging ((sysStateLogStatus s.1).1, s.2 ++ (sysStateLogStatus s.1).2)
      rw [sysStateLogStatus]
      split
      · exact h.keep rfl rfl rfl
      next hidle => exact h.start hidle rfl
  | callbackAdd hook => exact h.callbackAdd hook
  | setPeriodicLogMs ms => exact h.keep rfl rfl rfl

/-- Between the begin and the end of a log each hook is called until it is done:
those that are registered at the end, in their order, none of them left out or
done twice.  The calls are 100 milliseconds apart. -/
theorem statusLog_complete (cfg : Option ℤ) {es : List (SysStateEvent Hook)}
    (hclock : (statusMachine Hook).Admits (syslogInit Hook cfg, []) es) :
    let s := (statusMachine Hook).run (syslogInit Hook cfg, []) es
    s.2.IsChain Follows ∧ (∀ a ∈ s.2, a.Fits s.1.logStatus) ∧
      ∀ before mid after count count',
        s.2 = before ++ .start count :: (mid ++ .finish count' :: after) →
          (∀ n, .start n ∉ mid) → passed mid = List.range count' := by
  have hinit : Logging (syslogInit Hook cfg, []) :=
    ⟨List.isChain_nil, fun a ha => (List.not_mem_nil ha).elim, rfl⟩
  have h := hclock.invariant
    (fun s e hs he => logging_step e hs he) hinit
  refine ⟨h.chain, h.fits, fun before mid after count count' htrace hmid => ?_⟩
  have hchain := h.chain
  rw [htrace, show before ++ StatusAction.start count ::
    (mid ++ .finish count' :: after) =
      before ++ (.start count :: (mid ++ [.finish count']) ++ after) by simp] at hchain
  have hlog := (List.isChain_append.mp
    (List.isChain_append.mp hchain).2.1).1
  obtain ⟨-, hpassed⟩ := passed_of_chain (fun n hn => by cases hn) hmid hlog
  rw [hpassed, List.range_eq_range']
  rfl

/-- Two hooks, of which the first one takes two calls. -/
def twoHooksRun : List (SysStateEvent ℕ) :=
  [.callbackAdd (some 7), .callbackAdd (some 8), .logStatus, .run 100 100 false,
    .logStatus, .run 150 150 true, .run 200 200 true, .run 300 300 true]

example : passed ((statusMachine ℕ).run (syslogInit ℕ none, []) twoHooksRun).2 =
    [0, 1] := by decide

theorem statusLog_complete_twoHooks :
    let s := (statusMachine ℕ).run (syslogInit ℕ none, []) twoHooksRun
    s.2.IsChain Follows ∧ (∀ a ∈ s.2, a.Fits s.1.logStatus) ∧
      ∀ before mid after count count',
        s.2 = before ++ .start count :: (mid ++ .finish count' :: after) →
          (∀ n, .start n ∉ mid) → passed mid = List.range count' :=
  statusLog_complete none (by decide)

end Herak.System
