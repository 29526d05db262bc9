import Herak.Scripts.Schedule
import Mathlib.Algebra.Order.BigOperators.Group.List

/-!
# Runs of the scheduled scripts

Over a whole run the module is the scheduler of timed requests, as long as its
rounds find a request that is due, and every pending request leads to a start
within a number of rounds that is known in advance: the rounds that the running
script needs, and those of the scripts that come before the requested one.
-/

namespace Herak.Scripts

open CInt CString Fs RequestScheduler

variable {env : ScriptsEnv} {s : ScriptsSystem}

/-- The module and the events that reach it. -/
def scriptsMachine (env : ScriptsEnv) :
    EventMachine ScriptsSystem ScriptsEvent where
  step := ScriptsSystem.step env
  enabled := Timed

/-! ## Safety -/

theorem orderly_run (h : Orderly s) (es : List ScriptsEvent) :
    Orderly ((scriptsMachine env).run s es) := by
  induction es generalizing s with
  | nil => exact h
  | cons e es ih => exact ih (orderly_step h e)

/-- The history is that of the scheduler. -/
theorem run_schedule {es : List ScriptsEvent} (h : Orderly s)
    (hes : (scriptsMachine env).Admits s es) :
    (scheduler ℕ ℕ).run s.ctx.schedule (history env s es) =
      ((scriptsMachine env).run s es).ctx.schedule := by
  induction es generalizing s with
  | nil => rfl
  | cons e es ih =>
      have hstep := (step_schedule h (actions_noZero env hes.1)).1
      rw [history, EventMachine.run_append, hstep]
      exact ih (orderly_step h e) hes.2

theorem admits_schedule {es : List ScriptsEvent} (h : Orderly s)
    (hes : (scriptsMachine env).Admits s es)
    (hdue : (scriptsMachine env).Along FindsDue s es) :
    (scheduler ℕ ℕ).Admits s.ctx.schedule (history env s es) := by
  induction es generalizing s with
  | nil => trivial
  | cons e es ih =>
      obtain ⟨hstep, hadmits⟩ := step_schedule h (actions_noZero env hes.1)
      rw [history, EventMachine.Admits, EventMachine.along_append, hstep]
      exact ⟨hadmits hdue.1, ih (orderly_step h e) hes.2 hdue.2⟩

theorem schedule_init (scripts : List Script) :
    (ScriptsSystem.init scripts).ctx.schedule = State.idle ℕ ℕ := by
  refine State.ext ?_ rfl
  funext i
  change (scripts.map Script.loaded)[i]?.bind Script.request? = none
  rw [List.getElem?_map]
  cases scripts[i]? <;> rfl

/-! ## Progress -/

/-- The rounds that the running script still needs. -/
def work (env : ScriptsEnv) (s : ScriptsSystem) : ℕ :=
  match s.ctx.running with
  | none => 0
  | some (_, script) => roundsLeft env s.fs script

/-- More rounds than any of the scripts needs. -/
def roundsBound (env : ScriptsEnv) (scripts : List Script) : ℕ :=
  (scripts.map fun script => (calls (env.files script.file)).length + 2).sum

/-- The scripts that may still come before a requested one: those ahead of it,
and all of them once more when the startup scripts are still to be requested. -/
noncomputable def before (s : ScriptsSystem) (i due : ℕ) : ℕ :=
  s.ctx.schedule.ahead (Finset.range s.ctx.scripts.length) i due +
    if s.ctx.startupCount = 0 then 0 else s.ctx.scripts.length + 1

/-- A bound on the rounds until a requested script starts. -/
noncomputable def waiting (env : ScriptsEnv) (s : ScriptsSystem) (i due : ℕ) :
    ℕ :=
  before s i due * roundsBound env s.ctx.scripts + work env s

theorem roundsBound_kept {scripts scripts' : List Script}
    (h : scripts'.map (fun s => (s.fd, s.file)) =
      scripts.map fun s => (s.fd, s.file)) :
    roundsBound env scripts' = roundsBound env scripts := by
  have hfiles := congrArg (List.map fun p =>
    (calls (env.files (Prod.snd p))).length + 2) h
  rw [List.map_map, List.map_map] at hfiles
  exact congrArg List.sum hfiles

theorem lt_roundsBound {scripts : List Script} {script : Script}
    (h : script ∈ scripts) :
    (calls (env.files script.file)).length + 1 <
      roundsBound env scripts := by
  have hmem := List.mem_map_of_mem
    (f := fun script => (calls (env.files script.file)).length + 2) h
  exact Nat.lt_of_lt_of_le (Nat.lt_succ_self _)
    (List.single_le_sum (fun _ _ => Nat.zero_le _) _ hmem)

/-- Commands request other scripts for later times only. -/
theorem waiting_command {e : ScriptsEvent} {i due : ℕ} (h : Orderly s)
    (he : e.isTick = false) (hzero : NoZero (actions env s e))
    (htimes : ∀ t ∈ e.times, due < t) :
    waiting env (s.step env e) i due ≤ waiting env s i due := by
  have hmarks := command_marks env s he
  have hkept := (command_kept env s he).1
  have hlater : ∀ a ∈ actions env s e, ∃ other due', due < due' ∧
      a = Action.request other due' := by
    intro a ha
    obtain ⟨job, t, rfl⟩ := hmarks.requests a ha
    refine ⟨job, t, ?_, rfl⟩
    cases e with
    | tick t => exact (Bool.false_ne_true he.symm).elim
    | run name prefixMatch now =>
        rw [mem_runRequests ha]
        exact htimes now List.mem_cons_self
    | autoRun name enable prefixMatch tm => exact nomatch ha
  have hahead := ahead_requests (s := s.ctx.schedule) i
    (Finset.range s.ctx.scripts.length) due hlater
  rw [(step_schedule h hzero).1] at hahead
  have hwork : work env (s.step env e) = work env s := by
    rcases h.running with ⟨hrunning, hrun⟩ |
      ⟨j, script, hrunning, hrun, hscript⟩
    · have hnone : (s.step env e).ctx.running = none := by
        simp [ScriptsContext.running, hkept.run, hrun]
      rw [work, work, hrunning, hnone]
    · obtain ⟨script', hscript', hfd, hfile⟩ := hkept.scripts j script hscript
      have hsome := running_eq (hkept.run.trans hrun) hscript'
      rw [work, work, hrunning, hsome]
      simp only [roundsLeft, hfd, hfile, hkept.fs]
  rw [waiting, waiting, roundsBound_kept hmarks.kept, hwork]
  refine Nat.add_le_add_right (Nat.mul_le_mul_right _ ?_) _
  rw [before, before, hkept.startup, hkept.length]
  exact Nat.add_le_add_right hahead _

/-- A round of the running script brings its end closer. -/
theorem waiting_running {t : TickInput} {i due j : ℕ} {script : Script}
    (h : Orderly s) (hrunning : s.ctx.running = some (j, script))
    (hrun : s.ctx.run = some j) (hscript : s.ctx.scripts[j]? = some script) :
    waiting env (s.step env (.tick t)) i due + 1 ≤ waiting env s i due := by
  have hlt := (List.getElem?_eq_some_iff.mp hscript).1
  have hround := sysScriptsRun_running env t hrun hscript
  obtain ⟨script', run', line', fs', hexec, hpending, hfile, -, hend⟩ :=
    scriptExec_spec env j script t h.line
  have hstep : s.step env (.tick t) = _ :=
    (congrArg Prod.snd hround).trans hexec
  have hahead : (s.step env (.tick t)).ctx.schedule.pending =
      s.ctx.schedule.pending := by
    rw [hstep]
    exact funext fun k => set_pending hscript hpending k
  have hbefore : before (s.step env (.tick t)) i due = before s i due := by
    rw [before, before, ahead_congr hahead, hstep]
    simp only [List.length_set]
  have hbound : roundsBound env (s.step env (.tick t)).ctx.scripts =
      roundsBound env s.ctx.scripts := by
    rw [hstep, roundsBound, roundsBound, List.map_set]
    refine congrArg List.sum (List.ext_getElem? fun k => ?_)
    by_cases hk : j = k
    · subst hk
      rw [List.getElem?_set_self (by rwa [List.length_map]),
        List.getElem?_map, hscript, Option.map_some, hfile]
    · rw [List.getElem?_set_ne hk]
  have hleft : work env s = roundsLeft env s.fs script := by
    rw [work, hrunning]
  have hwork : work env (s.step env (.tick t)) + 1 ≤ work env s := by
    rw [hleft, hstep]
    rcases hend with ⟨rfl, -⟩ | ⟨rfl, hdone⟩
    · have hnone : ScriptsContext.running
          { s.ctx with
            scripts := s.ctx.scripts.set j script'
            run := none
            line := line' } = none := rfl
      rw [work]
      simp only [hnone]
      exact Nat.succ_le_succ (Nat.zero_le _)
    · have hsome := running_eq
        (s := ⟨{ s.ctx with
            scripts := s.ctx.scripts.set j script'
            line := line' }, fs'⟩) hrun (List.getElem?_set_self hlt)
      rw [work]
      simp only [hsome]
      exact hdone
  rw [waiting, waiting, hbefore, hbound, Nat.add_assoc]
  exact Nat.add_le_add_left hwork _

/-- Startup requests use up the reserve for them. -/
theorem before_startup (t : TickInput) (i due : ℕ) :
    ((scheduler ℕ ℕ).run s.ctx.schedule (startupRequests s.ctx t)).ahead
        (Finset.range s.ctx.scripts.length) i due +
        (if (scriptsPending s.ctx t).startupCount = 0 then 0
          else s.ctx.scripts.length + 1) ≤
      before s i due := by
  rw [before]
  by_cases hcount : s.ctx.startupCount = 0
  · simp [startupRequests, scriptsPending, hcount]
  · by_cases hwifi : t.wifi = .notConnected
    · simp [startupRequests, scriptsPending, scriptStartup, hcount, hwifi]
    · have hzero : (scriptsPending s.ctx t).startupCount = 0 := by
        simp [scriptsPending, scriptStartup, hcount, hwifi]
      have hcard := ahead_le_card
        ((scheduler ℕ ℕ).run s.ctx.schedule (startupRequests s.ctx t)) i
        (Finset.range s.ctx.scripts.length) due
      rw [Finset.card_range] at hcard
      rw [if_pos hzero, if_neg hcount]
      omega

/-- A round that starts another script starts one that was ahead. -/
theorem before_idle {t : TickInput} {i due : ℕ} (h : Orderly s)
    (hrunning : s.ctx.running = none) (hrun : s.ctx.run = none)
    (hzero : NoZero (actions env s (.tick t)))
    (hpending : s.ctx.schedule.pending i = some due)
    (htime : due < t.cronNow)
    (hrequest : ∀ a ∈ actions env s (.tick t), ¬a.Requests i)
    (hstart : ∀ a ∈ actions env s (.tick t), ¬a.Starts i) :
    ∃ j, selectScript (scriptsPending s.ctx t).scripts = some j ∧
      before (s.step env (.tick t)) i due + 1 ≤ before s i due := by
  have hscripts : s.ctx.scripts ≠ [] := by
    intro hnil
    simp [ScriptsContext.schedule, hnil] at hpending
  obtain ⟨-, hactions⟩ := idle_round env t hscripts hrunning
  obtain ⟨-, hkept, -, hcount, -⟩ := idle_kept env t hscripts hrunning hrun
  obtain ⟨hstartup, hrun₁, -⟩ := startup_marks s.ctx t
  obtain ⟨hcron, -⟩ := cron_marks env.cronNext
    (scriptsStart (scriptsPending s.ctx t)) t
  have hschedule := (step_schedule h hzero).1
  rw [hactions] at hzero hrequest hstart hschedule
  have h₁ := hstartup.schedule hzero.append.1.append.1 hrun₁
  rw [EventMachine.run_append, EventMachine.run_append, h₁] at hschedule
  -- The requested script is pending at the selection, and is not selected.
  have hpending₁ : (scriptsPending s.ctx t).schedule.pending i = some due := by
    rw [← h₁, run_pending, hpending]
    · exact fun a ha => hrequest a (List.mem_append_left _
        (List.mem_append_left _ ha))
    · intro a ha
      obtain ⟨job, due', rfl⟩ := hstartup.requests a ha
      exact id
  cases hj : selectScript (scriptsPending s.ctx t).scripts with
  | none =>
      have hnone := selectScript_none hj i
      exact (Option.some_ne_none due (hpending₁.symm.trans hnone)).elim
  | some j =>
      obtain ⟨due', hdue', hfirst⟩ := selectScript_some hj
      have hne : j ≠ i := fun heq => hstart (.start j t.now)
        (by simp [hj]) heq
      have hlt : j < s.ctx.scripts.length :=
        hstartup.length ▸ selectScript_lt hj
      have hstep : (s.step env (.tick t)).ctx.schedule =
          (scheduler ℕ ℕ).run
            ((scriptsPending s.ctx t).schedule.act (.start j t.now))
            (cronRequests (scriptsStart (scriptsPending s.ctx t)) t) := by
        rw [← hschedule, hj]
        rfl
      have hahead₂ := ahead_start t.now (Finset.mem_range.mpr hlt) hne hdue'
        hfirst hpending₁
      have hahead₃ := ahead_requests
        (s := (scriptsPending s.ctx t).schedule.act (.start j t.now)) i
        (Finset.range s.ctx.scripts.length) due
        fun a ha => by
          obtain ⟨job, due'', rfl⟩ := hcron.requests a ha
          exact ⟨job, due'', mem_cronRequests ha ▸ htime, rfl⟩
      rw [← hstep] at hahead₃
      have hreserve := before_startup (s := s) t i due
      rw [h₁] at hreserve
      have hlen : (s.step env (.tick t)).ctx.scripts.length =
          s.ctx.scripts.length := by
        simpa using congrArg List.length hkept
      refine ⟨j, rfl, ?_⟩
      rw [before, hlen, hcount]
      omega

/-- The script that starts has not opened its file yet. -/
theorem work_idle (env : ScriptsEnv) {t : TickInput} {j : ℕ} (h : Orderly s)
    (hrunning : s.ctx.running = none) (hrun : s.ctx.run = none)
    (hj : selectScript (scriptsPending s.ctx t).scripts = some j) :
    work env (s.step env (.tick t)) < roundsBound env s.ctx.scripts := by
  have hlt : j < s.ctx.scripts.length :=
    (startup_marks s.ctx t).1.length ▸ selectScript_lt hj
  have hscripts : s.ctx.scripts ≠ [] :=
    List.ne_nil_of_length_pos (Nat.zero_lt_of_lt hlt)
  obtain ⟨hfs, hkept, -, -, hselect⟩ := idle_kept env t hscripts hrunning hrun
  have hlen : (s.step env (.tick t)).ctx.scripts.length =
      s.ctx.scripts.length := by
    simpa using congrArg List.length hkept
  have hscript' := List.getElem?_eq_getElem (hlen ▸ hlt)
  obtain ⟨script, hscript, hfd, hfile⟩ := getElem?_of_kept hkept hscript'
  have hclosed : script.fd < 0 := by
    by_contra hopen
    have := h.closed j script hscript (Int.not_lt.mp hopen)
    exact Option.some_ne_none j (this.symm.trans hrun)
  have hrunning' := running_eq (hselect.trans hj) hscript'
  rw [work]
  simp only [hrunning', roundsLeft, hfd, hfile, if_pos hclosed]
  exact lt_roundsBound (List.mem_of_getElem? hscript)

theorem waiting_idle {t : TickInput} {i due : ℕ} (h : Orderly s)
    (hrunning : s.ctx.running = none) (hrun : s.ctx.run = none)
    (hzero : NoZero (actions env s (.tick t)))
    (hpending : s.ctx.schedule.pending i = some due)
    (htime : due < t.cronNow)
    (hrequest : ∀ a ∈ actions env s (.tick t), ¬a.Requests i)
    (hstart : ∀ a ∈ actions env s (.tick t), ¬a.Starts i) :
    waiting env (s.step env (.tick t)) i due + 1 ≤ waiting env s i due := by
  obtain ⟨j, hj, hbefore⟩ :=
    before_idle h hrunning hrun hzero hpending htime hrequest hstart
  have hwork := work_idle env h hrunning hrun hj
  have hscripts : s.ctx.scripts ≠ [] := by
    intro hnil
    simp [ScriptsContext.schedule, hnil] at hpending
  have hkept := (idle_kept env t hscripts hrunning hrun).2.1
  have hdone : work env s = 0 := by
    rw [work, hrunning]
  rw [waiting, waiting, roundsBound_kept hkept, hdone]
  calc
    before (s.step env (.tick t)) i due * roundsBound env s.ctx.scripts +
        work env (s.step env (.tick t)) + 1
      ≤ before (s.step env (.tick t)) i due * roundsBound env s.ctx.scripts +
          roundsBound env s.ctx.scripts := Nat.add_le_add_left hwork _
    _ = (before (s.step env (.tick t)) i due + 1) *
          roundsBound env s.ctx.scripts := (Nat.succ_mul _ _).symm
    _ ≤ before s i due * roundsBound env s.ctx.scripts + 0 :=
        Nat.mul_le_mul_right _ hbefore

theorem requested_step {e : ScriptsEvent} {i due : ℕ} (h : Orderly s)
    (hzero : NoZero (actions env s e))
    (hpending : s.ctx.schedule.pending i = some due)
    (htimes : ∀ t ∈ e.times, due < t)
    (hrequest : ∀ a ∈ actions env s e, ¬a.Requests i)
    (hstart : ∀ a ∈ actions env s e, ¬a.Starts i) :
    (s.step env e).ctx.schedule.pending i = some due ∧
      waiting env (s.step env e) i due + (if e.isTick then 1 else 0) ≤
        waiting env s i due := by
  constructor
  · rw [← (step_schedule h hzero).1, run_pending hrequest hstart, hpending]
  · cases he : e.isTick with
    | false => exact waiting_command h he hzero htimes
    | true =>
        cases e with
        | run name prefixMatch now => exact (Bool.false_ne_true he).elim
        | autoRun name enable prefixMatch tm =>
            exact (Bool.false_ne_true he).elim
        | tick t =>
            rcases h.running with ⟨hrunning, hrun⟩ |
              ⟨j, script, hrunning, hrun, hscript⟩
            · have htime : due < t.cronNow := htimes _ (by
                simp [ScriptsEvent.times])
              exact waiting_idle h hrunning hrun hzero hpending htime hrequest
                hstart
            · exact waiting_running h hrunning hrun hscript

/-- A script with a pending request starts before the rounds that it may have
to wait for are over. -/
theorem requested_starts {es : List ScriptsEvent} {i due : ℕ} (h : Orderly s)
    (hes : (scriptsMachine env).Admits s es)
    (hpending : s.ctx.schedule.pending i = some due)
    (htimes : ∀ t ∈ es.flatMap ScriptsEvent.times, due < t)
    (hrequest : ∀ a ∈ history env s es, ¬a.Requests i)
    (hticks : waiting env s i due < ticks es) :
    0 < starts i (history env s es) := by
  induction es generalizing s with
  | nil => exact (Nat.not_lt_zero _ hticks).elim
  | cons e es ih =>
      rw [history] at hrequest ⊢
      rw [starts_append]
      by_cases hstart : ∃ a ∈ actions env s e, a.Starts i
      · obtain ⟨a, ha, hstarts⟩ := hstart
        exact Nat.add_pos_left
          (List.countP_pos_iff.mpr ⟨a, ha, decide_eq_true hstarts⟩) _
      · push Not at hstart
        rw [List.flatMap_cons] at htimes
        obtain ⟨hstill, hless⟩ := requested_step h (actions_noZero env hes.1)
          hpending (fun t ht => htimes t (List.mem_append_left _ ht))
          (fun a ha => hrequest a (List.mem_append_left _ ha)) hstart
        rw [ticks_cons] at hticks
        exact Nat.add_pos_right _ (ih (orderly_step h e) hes.2 hstill
          (fun t ht => htimes t (List.mem_append_right _ ht))
          (fun a ha => hrequest a (List.mem_append_right _ ha)) (by omega))

/-! ## The main result -/

/-- In a run whose requests are not for the time 0, and whose rounds find a
request that is due whenever they find one, every script that starts has been
requested for a time that has come, is the first of the requested ones, and
runs alone; and every pending request leads to exactly one start within a
bounded number of rounds. -/
theorem scripts_scheduled (env : ScriptsEnv) (scripts : List Script)
    (es : List ScriptsEvent)
    (htimed : (scriptsMachine env).Along Timed (ScriptsSystem.init scripts) es)
    (hdue : (scriptsMachine env).Along FindsDue (ScriptsSystem.init scripts)
      es) :
    let past := history env (ScriptsSystem.init scripts) es
    let s := (scriptsMachine env).run (ScriptsSystem.init scripts) es
    ((scheduler ℕ ℕ).Admits (State.idle ℕ ℕ) past ∧
      (scheduler ℕ ℕ).run (State.idle ℕ ℕ) past = s.ctx.schedule) ∧
    (∀ acts i now rest, past = acts ++ .start i now :: rest →
      ∃ earlier due later, acts = earlier ++ .request i due :: later ∧
        due ≤ now ∧ ∀ a ∈ later, ¬a.Requests i ∧ ¬a.Starts i) ∧
    (∀ i script, s.ctx.scripts[i]? = some script → 0 ≤ script.fd →
      s.ctx.run = some i) ∧
    ∀ i due, s.ctx.schedule.pending i = some due → ∃ rounds, ∀ fs,
      (scriptsMachine env).Along Timed s fs →
      (scriptsMachine env).Along FindsDue s fs →
      (∀ t ∈ fs.flatMap ScriptsEvent.times, due < t) →
      (∀ a ∈ history env s fs, ¬a.Requests i) →
      rounds ≤ ticks fs → starts i (history env s fs) = 1 := by
  intro past s
  have hinit := orderly_init scripts
  have horderly : Orderly s := orderly_run hinit es
  have hadmits := admits_schedule hinit htimed hdue
  have hrun := run_schedule hinit htimed
  rw [schedule_init] at hadmits hrun
  refine ⟨⟨hadmits, hrun⟩, fun acts i now rest hpast => ?_,
    horderly.closed, fun i due hpending => ?_⟩
  · change (scheduler ℕ ℕ).Admits (State.idle ℕ ℕ) past at hadmits
    rw [hpast] at hadmits
    exact start_requested hadmits
  · refine ⟨waiting env s i due + 1,
      fun fs hfs hfsdue htimes hrequest hrounds => ?_⟩
    have hpos := requested_starts horderly hfs hpending htimes hrequest hrounds
    have hle := starts_le (admits_schedule horderly hfs hfsdue) hrequest
    rw [hpending, Option.isSome_some, if_pos rfl] at hle
    omega

/-- A script is requested at 1 ms, and starts in the round at 2 ms. -/
def requestedRun : List ScriptsEvent :=
  [.run oneScript.name false 1,
    .tick ⟨2, 2, .connected, 0, none, fun _ => none⟩]

theorem scripts_scheduled_requestedRun :
    history (oneFile []) (ScriptsSystem.init [oneScript]) requestedRun =
        [.request 0 1, .start 0 2] ∧
      (scheduler ℕ ℕ).Admits (State.idle ℕ ℕ)
        (history (oneFile []) (ScriptsSystem.init [oneScript])
          requestedRun) := by
  constructor
  · decide
  · refine (scripts_scheduled (oneFile []) [oneScript] requestedRun ?_ ?_).1.1
    · exact ⟨Nat.one_ne_zero, ⟨Nat.succ_ne_zero 1, fun h => (h rfl).elim⟩,
        trivial⟩
    · refine ⟨trivial, fun _ => Or.inr ?_, trivial⟩
      exact ⟨{ oneScript with runNow := 1 }, List.mem_singleton.mpr rfl,
        by decide, by decide⟩

/-! ## A startup script -/

/-- A script with `@startup 10000`. -/
def startupScript : Script :=
  { oneScript with startupMs := 10001 }

/-- A round at 5 ms, with the WiFi connected. -/
def earlyRound : ScriptsEvent :=
  .tick ⟨5, 5, .connected, 0, none, fun _ => none⟩

/-- The round that requests a startup script starts it at once. -/
theorem startup_starts_early :
    history (oneFile []) (ScriptsSystem.init [startupScript]) [earlyRound] =
        [.request 0 10006, .start 0 5] ∧
      ¬(scheduler ℕ ℕ).Admits (State.idle ℕ ℕ)
        [.request 0 10006, .start 0 5] := by
  constructor
  · decide
  · rintro ⟨-, ⟨-, due, hdue, hle, -⟩, -⟩
    obtain rfl : 10006 = due := Option.some.inj hdue
    omega

end Herak.Scripts
