import Herak.Log.Module

/-!
# The lock of the log

The functions that log about themselves do so after they have given the lock
back, but for the periodic run: in the debug mode it calls `hlog_any` while it
holds the lock.  The call waits for ever, or, if the level keeps it from logging,
returns before it takes the lock.
-/

namespace Herak.Log

open CString MutexM

/-- The call returns, the lock is free then, and `hlog_any` has not been entered
with the lock. -/
def LogSafe (inetNtoa : IpAddr → CStr) (x : Bool × LogState) (e : LogEvent) :
    Prop :=
  ∃ t, e.entry inetNtoa x = some ((), false, t) ∧ t.nested = false

/-- The periodic run has no server to look up, or is not in the debug mode. -/
def SilentConnect (x : Bool × LogState) : LogEvent → Prop
  | .run turn =>
      x.2.ctx.serverUrl.isSome = true → turn.wifi = true →
        x.2.ctx.severIpState ≠ .resolved → x.2.ctx.debug = 0
  | _ => True

/-! ## Lines -/

/-- `hlog_any` has not been entered with the lock. -/
def Quiet (s : LogState) : Prop := s.nested = false

/-- `hlog_any` has been entered with the lock. -/
def Nested (s : LogState) : Prop := s.nested = true

theorem putLine_nested (s : LogState) (call : LogCall) :
    (s.putLine call).nested = s.nested := by
  have hslog (u : LogState) :
      (u.slogSend call.turn call.line).nested = u.nested := by
    unfold LogState.slogSend
    split_ifs
    · rfl
    · rfl
    · rfl
  have hhttp (u : LogState) :
      (u.syscmdLogSend call.turn call.line).nested = u.nested := by
    unfold LogState.syscmdLogSend
    split_ifs
    · rfl
    · rfl
  unfold LogState.putLine
  dsimp only
  split_ifs
  · rw [hhttp, hslog]
    rfl
  · rw [hslog]
    rfl
  · rw [hhttp]
    rfl
  · rfl

/-- The part of `hlog_any` after its entry. -/
theorem keeps_logged (call : LogCall) :
    Keeps Nested (do
      if (← read fun s => s.ctx.logLevel) < call.severity' then return
      else locked <| update fun s => s.putLine call) := by
  refine (keeps_read _).bind fun level => ?_
  split
  · exact keeps_pure _
  · have hput : ∀ s, Nested s → Nested (s.putLine call) :=
      fun s hs => (putLine_nested s call).trans hs
    exact (keeps_update hput).locked

theorem hlogAny_leads {s : LogState} (h : Quiet s) (call : LogCall) :
    (hlogAny call).Leads false s false fun _ t => Quiet t := by
  have hentry : noteEntry.Leads false s false fun _ t => Quiet t :=
    ⟨(), _, rfl, (Bool.or_false _).trans h⟩
  apply hentry.bind
  intro _ t ht
  apply leads_read_bind
  split
  · exact leads_pure ht
  · exact (leads_update ((putLine_nested t call).trans ht)).locked

theorem hlogAll_leads {s : LogState} (h : Quiet s) (calls : List LogCall) :
    (hlogAll calls).Leads false s false fun _ t => Quiet t := by
  induction calls generalizing s with
  | nil => exact leads_pure h
  | cons call calls ih => exact (hlogAny_leads h call).bind fun _ _ => ih

/-- With the lock, `hlog_any` does not return, or it has been noted. -/
theorem hlogAny_held (call : LogCall) (s : LogState) :
    Leaves Nested (hlogAny call) (true, s) := by
  have hentry : Leaves Nested noteEntry (true, s) := by
    intro r hr
    rw [← Option.some.inj hr]
    exact Bool.or_true _
  exact hentry.bind fun _ => keeps_logged call

theorem keeps_hlogAny (call : LogCall) : Keeps Nested (hlogAny call) := by
  have hentry : Keeps Nested noteEntry := by
    intro x hx r hr
    rw [← Option.some.inj hr]
    exact Bool.or_eq_true_iff.mpr (.inl hx)
  exact hentry.bind fun _ => keeps_logged call

theorem keeps_hlogAll (calls : List LogCall) :
    Keeps Nested (hlogAll calls) := by
  induction calls with
  | nil => exact keeps_pure _
  | cons call calls ih => exact (keeps_hlogAny call).bind fun _ => ih

theorem keeps_setCtx (f : LogContext → LogContext) :
    Keeps Nested (update fun s => s.setCtx f) :=
  keeps_update fun _ hs => hs

theorem keeps_debugInfo (text : CStr) (turn : HlogTurn) :
    Keeps Nested (debugInfo text turn) := by
  refine (keeps_read _).bind fun debug => ?_
  split
  · exact keeps_hlogAny _
  · exact keeps_pure _

/-- A line of the debug mode that is logged with the lock. -/
theorem debugInfo_held {s : LogState} (hdebug : s.ctx.isDebug = true)
    (text : CStr) (turn : HlogTurn) :
    Leaves Nested (debugInfo text turn) (true, s) := by
  apply leaves_read_bind
  rw [if_pos hdebug]
  exact hlogAny_held _ s

/-! ## The periodic run without the debug mode -/

/-- Nothing has been logged with the lock, and the debug mode is off. -/
def Calm (s : LogState) : Prop := Quiet s ∧ s.ctx.isDebug = false

theorem Calm.setCtx {s : LogState} (h : Calm s) {f : LogContext → LogContext}
    (hf : (f s.ctx).debug = s.ctx.debug) : Calm (s.setCtx f) := by
  refine ⟨h.1, ?_⟩
  rw [← h.2, LogContext.isDebug, LogContext.isDebug]
  exact congrArg (fun debug => decide (debug ≠ 0)) hf

theorem debugInfo_leads {s : LogState} {held : Bool} (h : Calm s) (text : CStr)
    (turn : HlogTurn) :
    (debugInfo text turn).Leads held s held fun _ t => Calm t := by
  apply leads_read_bind
  rw [if_neg (Bool.eq_false_iff.mp h.2)]
  exact leads_pure h

theorem resolverFound_leads {s : LogState} (h : Calm s)
    (found : Option IpAddr) :
    (resolverFound found).Leads false s false fun _ t => Calm t := by
  cases found with
  | none => exact leads_pure h
  | some ipaddr => exact (leads_update (h.setCtx rfl)).locked

theorem logResolve_leads {s : LogState} (h : Calm s) (url : CStr)
    (turn : ConnectTurn) :
    (logResolve url turn).Leads true s true fun _ t => Calm t := by
  apply (leads_leave (Q := fun _ t => Calm t) h).bind
  intro _ t ht
  apply (resolverFound_leads ht turn.found).bind
  intro _ t ht
  apply (leads_enter (Q := fun _ t => Calm t) ht).bind
  intro _ t ht
  cases turn.dns with
  | ok ipaddr =>
      apply (leads_update (Q := fun _ t => Calm t) (ht.setCtx rfl)).bind
      intro _ t ht
      exact (debugInfo_leads ht _ _).bind fun _ _ ht => leads_pure ht
  | inProgress =>
      apply (leads_update (Q := fun _ t => Calm t) (ht.setCtx rfl)).bind
      exact fun _ _ ht => leads_pure ht
  | failed => exact leads_pure ht

theorem logTimeout_leads {s : LogState} (h : Calm s) (url : CStr)
    (turn : ConnectTurn) :
    (logTimeout url turn).Leads true s true fun _ t => Calm t := by
  apply leads_read_bind
  split
  · apply (leads_update (Q := fun _ t => Calm t) (h.setCtx rfl)).bind
    exact fun _ _ ht => debugInfo_leads ht _ _
  · exact leads_pure h

theorem logConnect_leads {s : LogState} (h : Calm s) (url : CStr)
    (turn : ConnectTurn) :
    (logConnect url turn).Leads true s true fun _ t => Quiet t := by
  apply leads_read_bind
  split
  · exact leads_pure h.1
  · apply (debugInfo_leads h _ _).bind
    intro _ t ht
    apply (leads_update (Q := fun _ t => Calm t) (ht.setCtx rfl)).bind
    intro _ t ht
    apply leads_read_bind
    split
    · exact leads_pure ht.1
    · apply leads_read_bind
      cases t.ctx.severIpState with
      | notResolved => exact (logResolve_leads ht url turn).mono fun _ _ h => h.1
      | resolving =>
          exact (logTimeout_leads ht url turn).bind fun _ _ h => leads_pure h.1
      | resolved => exact leads_pure ht.1

/-- The run finds the server known, or the debug mode is off. -/
theorem logConnect_quiet {s : LogState} (h : Quiet s) (url : CStr)
    (turn : ConnectTurn)
    (hsilent : s.ctx.severIpState ≠ .resolved → s.ctx.debug = 0) :
    (logConnect url turn).Leads true s true fun _ t => Quiet t := by
  by_cases hres : s.ctx.severIpState = .resolved
  · apply leads_read_bind
    rw [if_pos hres]
    exact leads_pure h
  · have hdebug : s.ctx.isDebug = false := by
      rw [LogContext.isDebug, hsilent hres]
      rfl
    exact logConnect_leads ⟨h, hdebug⟩ url turn

theorem status_leads {s : LogState} (h : Quiet s) (connected : Bool)
    (calls : List LogCall) :
    (if connected = true then hlogAll calls else pure ()).Leads false s false
      fun _ t => Quiet t := by
  split
  · exact hlogAll_leads h calls
  · exact leads_pure h

theorem sysLogConnect_leads {s : LogState} (h : Quiet s) {turn : ConnectTurn}
    (hsilent : SilentConnect (false, s) (.run turn)) :
    (sysLogConnect turn).Leads false s false fun _ t => Quiet t := by
  apply leads_read_bind
  cases hurl : s.ctx.serverUrl with
  | none => exact leads_pure h
  | some url =>
      dsimp only
      split
      · rename_i hwifi
        have hcond := hsilent (by rw [hurl]; rfl) hwifi
        apply (logConnect_quiet h url turn hcond).locked.bind
        intro flags t ht
        split
        · apply (hlogAny_leads ht _).bind
          exact fun _ _ ht => status_leads ht flags.2 turn.status
        · exact status_leads ht flags.2 turn.status
      · exact leads_pure h

/-! ## The periodic run in the debug mode -/

theorem keeps_resolverFound (found : Option IpAddr) :
    Keeps Nested (resolverFound found) := by
  cases found with
  | none => exact keeps_pure _
  | some ipaddr => exact (keeps_setCtx _).locked

theorem keeps_logResolve (url : CStr) (turn : ConnectTurn) :
    Keeps Nested (logResolve url turn) := by
  refine keeps_leave.bind fun _ => (keeps_resolverFound _).bind fun _ => ?_
  refine keeps_enter.bind fun _ => ?_
  cases turn.dns with
  | ok ipaddr =>
      exact (keeps_setCtx _).bind fun _ => (keeps_debugInfo _ _).bind fun _ =>
        keeps_pure _
  | inProgress => exact (keeps_setCtx _).bind fun _ => keeps_pure _
  | failed => exact keeps_pure _

theorem keeps_logTimeout (url : CStr) (turn : ConnectTurn) :
    Keeps Nested (logTimeout url turn) := by
  refine (keeps_read _).bind fun last => ?_
  split
  · exact (keeps_setCtx _).bind fun _ => keeps_debugInfo _ _
  · exact keeps_pure _

theorem logConnect_held {s : LogState} (hres : s.ctx.severIpState ≠ .resolved)
    (hdebug : s.ctx.isDebug = true) (url : CStr) (turn : ConnectTurn) :
    Leaves Nested (logConnect url turn) (true, s) := by
  apply leaves_read_bind
  rw [if_neg hres]
  refine (debugInfo_held hdebug _ _).bind fun _ => ?_
  refine (keeps_setCtx _).bind fun _ => (keeps_read _).bind fun pcb => ?_
  split
  · exact keeps_pure _
  · refine (keeps_read _).bind fun st => ?_
    cases st with
    | notResolved => exact keeps_logResolve url turn
    | resolving => exact (keeps_logTimeout url turn).bind fun _ => keeps_pure _
    | resolved => exact keeps_pure _

theorem sysLogConnect_nested {s : LogState} {turn : ConnectTurn}
    (hloud : ¬SilentConnect (false, s) (.run turn)) :
    Leaves Nested (sysLogConnect turn) (false, s) := by
  simp only [SilentConnect, Classical.not_imp] at hloud
  obtain ⟨hurl, hwifi, hres, hdebug⟩ := hloud
  obtain ⟨url, hurl⟩ := Option.isSome_iff_exists.mp hurl
  apply leaves_read_bind
  dsimp only
  rw [hurl]
  dsimp only
  rw [if_pos hwifi]
  have hheld := logConnect_held hres (decide_eq_true hdebug) url turn
  have hstatus : ∀ connected : Bool, Keeps Nested
      (if connected = true then hlogAll turn.status else pure ()) := by
    intro connected
    split
    · exact keeps_hlogAll _
    · exact keeps_pure _
  refine hheld.locked.bind fun flags => ?_
  split
  · exact (keeps_hlogAny _).bind fun _ => hstatus flags.2
  · exact hstatus flags.2

/-! ## Entry points -/

variable {inetNtoa : IpAddr → CStr}

theorem setCtx_leads {s : LogState} {held : Bool} (h : Quiet s)
    (f : LogContext → LogContext) :
    (update fun s => s.setCtx f).Leads held s held fun _ t => Quiet t :=
  leads_update h

/-- The lock is free between the two programs. -/
theorem Leads.bind_quiet {α β : Type} {p : MutexM LogState α}
    {f : α → MutexM LogState β} {s : LogState}
    (hp : p.Leads false s false fun _ t => Quiet t)
    (hf : ∀ a t, Quiet t → (f a).Leads false t false fun _ t => Quiet t) :
    (p >>= f).Leads false s false fun _ t => Quiet t :=
  Leads.bind hp hf

theorem entry_leads (inetNtoa : IpAddr → CStr) {s : LogState} (h : Quiet s)
    {e : LogEvent} (hsilent : SilentConnect (false, s) e) :
    (e.entry inetNtoa).Leads false s false fun _ t => Quiet t := by
  cases e with
  | run turn => exact sysLogConnect_leads h hsilent
  | reconnect turn =>
      apply (setCtx_leads h _).locked.bind
      intro _ t ht
      apply leads_read_bind
      split
      · exact hlogAny_leads ht _
      · exact leads_pure ht
  | logStatus turn =>
      apply Leads.bind_quiet
      · apply leads_read_bind
        cases s.ctx.serverUrl with
        | none => exact (hlogAny_leads h _).bind fun _ _ ht => leads_pure ht
        | some url =>
            apply Leads.bind_quiet
            · exact Leads.locked ⟨s.ctx, s, rfl, h⟩
            · intro ctx t ht
              exact (hlogAny_leads ht _).bind fun _ _ ht => leads_pure ht
      · exact fun _ _ ht => leads_pure ht
  | hlog call => exact hlogAny_leads h call
  | serverFound ipaddr => exact (setCtx_leads h _).locked
  | remoute =>
      apply Leads.bind_quiet
      · exact Leads.locked ⟨_, s, rfl, h⟩
      · exact fun _ _ ht => leads_pure ht
  | webEnable set => exact (setCtx_leads h _).locked
  | levelSet level => exact (setCtx_leads h _).locked
  | debugSet lvl => exact setCtx_leads h _

/-! ## Runs -/

/-- The lock is free between the calls. -/
structure LogInv (x : Bool × LogState) : Prop where
  free : x.1 = false
  quiet : Quiet x.2

theorem logSafe_iff {x : Bool × LogState} (h : LogInv x) (e : LogEvent) :
    LogSafe inetNtoa x e ↔ SilentConnect x e := by
  obtain ⟨held, s⟩ := x
  obtain rfl : held = false := h.free
  constructor
  · rintro ⟨t, happly, hquiet⟩
    by_contra hloud
    cases e with
    | run turn =>
        have hnested := sysLogConnect_nested hloud _ happly
        exact Bool.false_ne_true (hquiet.symm.trans hnested)
    | _ => exact hloud trivial
  · intro hsilent
    obtain ⟨_, t, happly, hquiet⟩ := entry_leads inetNtoa h.quiet hsilent
    exact ⟨t, happly, hquiet⟩

theorem LogInv.step {x : Bool × LogState} {e : LogEvent}
    (hsafe : LogSafe inetNtoa x e) :
    LogInv ((logMachine inetNtoa).step x e) := by
  obtain ⟨t, happly, hquiet⟩ := hsafe
  change LogInv (e.step inetNtoa x)
  rw [LogEvent.step, happly]
  exact ⟨rfl, hquiet⟩

/-- In every run no call enters `hlog_any` with the lock and every call gives
the lock back, if and only if no periodic run in the debug mode finds a server
that is not resolved. -/
theorem log_lock_iff (inetNtoa : IpAddr → CStr) (str : Option CStr)
    (es : List LogEvent) :
    (logMachine inetNtoa).Along (LogSafe inetNtoa) (false, .init str) es ↔
      (logMachine inetNtoa).Along SilentConnect (false, .init str) es := by
  have hinit : LogInv (false, .init str) := ⟨rfl, rfl⟩
  constructor
  · intro h
    exact h.mono_of_invariant (I := LogInv) (fun _ _ _ hsafe => .step hsafe)
      (fun _ e hx => (logSafe_iff hx e).mp) hinit
  · intro h
    exact h.mono_of_invariant (I := LogInv)
      (fun _ e hx hsilent => .step ((logSafe_iff hx e).mpr hsilent))
      (fun _ e hx => (logSafe_iff hx e).mpr) hinit

/-- The debug mode is switched on before the server is looked up: the periodic
run waits for the lock that it holds. -/
theorem not_log_lock :
    ¬∀ inetNtoa str es, (logMachine inetNtoa).Admits (false, .init str) es →
      (logMachine inetNtoa).Along (LogSafe inetNtoa) (false, .init str) es := by
  intro h
  let turn : ConnectTurn :=
    ⟨true, 100, some 0, .inProgress, none, fun _ => ⟨[], [], true, 0, 100, 0⟩, []⟩
  have hrun := h (fun _ => []) (some (lit "logs:514"))
    [.debugSet 1, .run turn] ⟨trivial, trivial, trivial⟩
  obtain ⟨t, happly, -⟩ := hrun.2.1
  have hwaits : sysLogConnect turn
      ((LogEvent.debugSet 1).step (fun _ => [])
        (false, .init (some (lit "logs:514")))) = none := by
    decide +kernel
  exact Option.some_ne_none _ (happly.symm.trans hwaits)

end Herak.Log
