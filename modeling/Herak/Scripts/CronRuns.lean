import Herak.Scripts.CronNext
import Herak.Scripts.Schedule

/-!
# Cron schedules in runs of the module

The next date of a script is one at which its expression fires.  When a check
finds that it has come, it requests the script and sets a later one, so that with
a clock that does not go back no date is served twice.
-/

namespace Herak.Scripts

open CInt Time Fs RequestScheduler

/-! ## What events do to a schedule -/

/-- The schedule of a script. -/
def ScriptsContext.cron (ctx : ScriptsContext) (j : ℕ) : Option ScriptCron :=
  ctx.scripts[j]?.map Script.cron

/-- A date that an event reads. -/
inductive ScriptsEvent.Reads : ScriptsEvent → ℤ → Prop
  | now (t : TickInput) (d : ℤ) : d ∈ t.timeNow → Reads (.tick t) d
  | again (t : TickInput) (k : ℕ) (d : ℤ) : d ∈ t.tm k → Reads (.tick t) d
  | autoRun (name : CStr) (enable prefixMatch : Bool) (tm : Option ℤ) (d : ℤ) :
      d ∈ tm → Reads (.autoRun name enable prefixMatch tm) d

/-- What an event does to the schedule of a script. -/
inductive CronMove (env : ScriptsEnv) (e : ScriptsEvent) (c c' : ScriptCron) :
    Prop
  | keep : c'.next = c.next → CronMove env e c c'
  | reset : c'.next = 0 → CronMove env e c c'
  | set (d : ℤ) : e.Reads d → c'.next = env.cronNext c.schedule d →
      CronMove env e c c'

/-- The expression of a schedule stays, and so does that it is a valid one. -/
def SameExpr (c c' : ScriptCron) : Prop :=
  c'.schedule = c.schedule ∧ c'.valid = c.valid

theorem scriptCronSetNext_cron (cronNext : CronExpr → ℤ → ℤ) (tm : Option ℤ)
    (s : Script) :
    SameExpr s.cron (scriptCronSetNext cronNext tm s).cron ∧
      ((scriptCronSetNext cronNext tm s).cron.next = s.cron.next ∨
        ∃ d ∈ tm, (scriptCronSetNext cronNext tm s).cron.next =
          cronNext s.cron.schedule d) := by
  cases tm with
  | none => exact ⟨⟨rfl, rfl⟩, Or.inl rfl⟩
  | some d =>
      rw [scriptCronSetNext]
      by_cases hvalid : s.cron.valid = false
      · rw [if_pos hvalid]
        exact ⟨⟨rfl, rfl⟩, Or.inl rfl⟩
      · rw [if_neg hvalid]
        exact ⟨⟨rfl, rfl⟩, Or.inr ⟨d, rfl, rfl⟩⟩

theorem cron_start (ctx : ScriptsContext) (j : ℕ) :
    (scriptsStart ctx).cron j = ctx.cron j := by
  rw [scriptsStart]
  split
  · rfl
  next k hk =>
    simp only [ScriptsContext.cron, List.getElem?_modify]
    cases ctx.scripts[j]? with
    | none => rfl
    | some s =>
        by_cases heq : k = j
        · simp [heq]
        · simp [heq]

theorem cron_pending (ctx : ScriptsContext) (t : TickInput) (j : ℕ) :
    (scriptsPending ctx t).cron j = ctx.cron j := by
  rw [scriptsPending]
  split
  · rw [scriptStartup]
    split
    · rfl
    · simp only [ScriptsContext.cron, List.getElem?_map]
      cases ctx.scripts[j]? with
      | none => rfl
      | some s =>
          simp only [Option.map_some]
          split
          · rfl
          · rfl
  · rfl

/-- A running script keeps every schedule. -/
theorem cron_exec (env : ScriptsEnv) {s : ScriptsSystem} {j : ℕ} {script : Script}
    (hscript : s.ctx.scripts[j]? = some script) (t : TickInput) (k : ℕ) :
    (scriptExec env s j script t).2.ctx.cron k = s.ctx.cron k := by
  have hset : ∀ script' : Script, script'.cron = script.cron →
      ((s.ctx.scripts.set j script')[k]?).map Script.cron = s.ctx.cron k := by
    intro script' hcron
    rw [List.getElem?_set, ScriptsContext.cron]
    split
    next heq =>
      subst heq
      split
      · rw [hscript, Option.map_some, Option.map_some, hcron]
      next hlt =>
        rw [List.getElem?_eq_none (not_lt.mp hlt)] at hscript
        cases hscript
    next => rfl
  simp only [scriptExec]
  generalize (if script.fd < 0 then fsOpen s.fs t.opened (env.files script.file)
    else (script.fd, s.fs)) = start
  by_cases hfailed : start.1 < 0
  · rw [if_pos hfailed]
    exact hset _ rfl
  · rw [if_neg hfailed]
    split
    · exact hset _ rfl
    · exact hset _ rfl

/-! ## Checks -/

/-- A check of the schedules that serves a date of a script. -/
def cronDue (ctx : ScriptsContext) (t : TickInput) (j : ℕ) : Option ℤ :=
  match t.timeNow, ctx.cron j with
  | some now, some c =>
      if subU64 t.cronNow ctx.lastCron < cronCheckMs then none
      else if c.valid = true ∧ c.enable = true ∧ 0 < c.next ∧ c.next ≤ now then
        some c.next
      else none
  | _, _ => none

theorem not_served {p : ℤ → Prop} : ∀ u ∈ (none : Option ℤ), p u :=
  fun u hu => absurd hu (Option.not_mem_none u)

/-- What a check does to the schedule of a script. -/
theorem cron_check (env : ScriptsEnv) {ctx : ScriptsContext} (t : TickInput) {j : ℕ}
    {c : ScriptCron} (hc : ctx.cron j = some c) :
    ∃ c', (scriptCronCheck env.cronNext ctx t.cronNow t.timeNow t.tm).cron j =
        some c' ∧ SameExpr c c' ∧ CronMove env (.tick t) c c' ∧
      ∀ u ∈ cronDue ctx t j, u = c.next ∧ 0 < u ∧ (∃ now ∈ t.timeNow, u ≤ now) ∧
        ∀ d ∈ t.tm j, c'.next = env.cronNext c.schedule d := by
  rw [cronDue, hc]
  cases htime : t.timeNow with
  | none => exact ⟨c, hc, ⟨rfl, rfl⟩, .keep rfl, not_served⟩
  | some now =>
      rw [scriptCronCheck]
      dsimp only
      by_cases hearly : subU64 t.cronNow ctx.lastCron < cronCheckMs
      · rw [if_pos hearly, if_pos hearly]
        exact ⟨c, hc, ⟨rfl, rfl⟩, .keep rfl, not_served⟩
      · rw [if_neg hearly, if_neg hearly]
        obtain ⟨script, hscript, rfl⟩ := Option.map_eq_some_iff.mp hc
        have hafter : ScriptsContext.cron { ctx with
            scripts := ctx.scripts.mapIdx fun i s =>
              scriptCronCheckOne env.cronNext t.cronNow now (t.tm i) s
            lastCron := t.cronNow } j =
              some (scriptCronCheckOne env.cronNext t.cronNow now (t.tm j)
                script).cron := by
          rw [ScriptsContext.cron, List.getElem?_mapIdx, hscript]
          rfl
        refine ⟨_, hafter, ?_⟩
        -- A schedule that is set, from the date that is read again.
        have hset : ∀ s : Script, s.cron = script.cron →
            SameExpr script.cron
                (scriptCronSetNext env.cronNext (t.tm j) s).cron ∧
              CronMove env (.tick t) script.cron
                (scriptCronSetNext env.cronNext (t.tm j) s).cron := by
          intro s hs
          obtain ⟨hsame, hnext | ⟨d, hd, hnext⟩⟩ :=
            scriptCronSetNext_cron env.cronNext (t.tm j) s
          · rw [hs] at hsame hnext
            exact ⟨hsame, .keep hnext⟩
          · rw [hs] at hsame hnext
            exact ⟨hsame, .set d (.again t j d hd) hnext⟩
        rw [scriptCronCheckOne]
        by_cases hvalid : script.cron.valid = false
        · rw [if_pos hvalid, if_neg (by simp [hvalid])]
          exact ⟨⟨rfl, rfl⟩, .keep rfl, not_served⟩
        · rw [if_neg hvalid]
          by_cases henable : script.cron.enable = false
          · rw [if_pos henable, if_neg (by simp [henable])]
            exact ⟨⟨rfl, rfl⟩, .keep rfl, not_served⟩
          · rw [if_neg henable]
            by_cases hnone : script.cron.next ≤ 0
            · rw [if_pos hnone, if_neg (by omega)]
              obtain ⟨hsame, hmove⟩ := hset script rfl
              exact ⟨hsame, hmove, not_served⟩
            · rw [if_neg hnone]
              by_cases hdue : script.cron.next ≤ now
              · rw [if_pos hdue, if_pos (by
                  simp only [Bool.not_eq_false] at hvalid henable
                  exact ⟨hvalid, henable, by omega, hdue⟩)]
                obtain ⟨hsame, hmove⟩ := hset { script with runNow := t.cronNow }
                  rfl
                refine ⟨hsame, hmove, fun u hu => ?_⟩
                obtain rfl := Option.some.inj hu
                refine ⟨rfl, by omega, ⟨now, rfl, hdue⟩, fun d hd => ?_⟩
                rw [Option.mem_def.mp hd, scriptCronSetNext]
                simp only [if_neg hvalid]
              · rw [if_neg hdue, if_neg (by omega)]
                exact ⟨⟨rfl, rfl⟩, .keep rfl, not_served⟩

/-- The date of a script that an event serves. -/
def cronServed (s : ScriptsSystem) (j : ℕ) : ScriptsEvent → Option ℤ
  | .tick t =>
      if s.ctx.running = none then
        cronDue (scriptsStart (scriptsPending s.ctx t)) t j
      else none
  | _ => none

/-- An event moves the schedule of a script on, and serves at most the date that
was next. -/
def Schedules (env : ScriptsEnv) (s : ScriptsSystem) (e : ScriptsEvent) (j : ℕ)
    (c : ScriptCron) : Prop :=
  ∃ c', (s.step env e).ctx.cron j = some c' ∧ SameExpr c c' ∧
    CronMove env e c c' ∧ ∀ u ∈ cronServed s j e, u = c.next ∧ 0 < u ∧
      ∃ t, e = .tick t ∧ (∃ now ∈ t.timeNow, u ≤ now) ∧
        ∀ d ∈ t.tm j, c'.next = env.cronNext c.schedule d

section

variable (env : ScriptsEnv) {s : ScriptsSystem} {j : ℕ} {c : ScriptCron}

/-- A round of the main loop checks the schedules when no script runs. -/
theorem schedules_tick (t : TickInput) (hc : s.ctx.cron j = some c) :
    Schedules env s (.tick t) j c := by
  simp only [Schedules, ScriptsSystem.step, sysScriptsRun, cronServed]
  by_cases hempty : s.ctx.scripts.length < 1
  · have hnil : s.ctx.scripts = [] := List.length_eq_zero_iff.mp (by omega)
    rw [ScriptsContext.cron, hnil] at hc
    cases hc
  · rw [if_neg hempty]
    cases hrunning : s.ctx.running with
    | some run =>
        obtain ⟨k, script⟩ := run
        have hscript : s.ctx.scripts[k]? = some script := by
          obtain ⟨k', hk', hmap⟩ := Option.bind_eq_some_iff.mp hrunning
          obtain ⟨script', hscript', heq⟩ := Option.map_eq_some_iff.mp hmap
          obtain ⟨rfl, rfl⟩ := Prod.mk.inj heq
          exact hscript'
        refine ⟨c, ?_, ⟨rfl, rfl⟩, .keep rfl, not_served⟩
        rw [← hc]
        exact cron_exec env hscript t j
    | none =>
        rw [if_pos rfl]
        rw [← cron_pending s.ctx t j,
          ← cron_start (scriptsPending s.ctx t) j] at hc
        obtain ⟨c', hc', hsame, hmove, hserved⟩ := cron_check env t hc
        refine ⟨c', hc', hsame, hmove, fun u hu => ?_⟩
        obtain ⟨hnext, hpos, hnow, hagain⟩ := hserved u hu
        exact ⟨hnext, hpos, t, rfl, hnow, hagain⟩

/-- A request by name leaves the schedules alone. -/
theorem schedules_run (name : CStr) (prefixMatch : Bool) (now : ℕ)
    (hc : s.ctx.cron j = some c) :
    Schedules env s (.run name prefixMatch now) j c := by
  obtain ⟨script, hscript, rfl⟩ := Option.map_eq_some_iff.mp hc
  obtain ⟨script', hscript', hact⟩ := forNamed_getElem?
    (fun s => some { s with runNow := now }) name prefixMatch s.ctx.scripts j
    script hscript
  have hcron : script'.cron = script.cron := by
    rcases hact with rfl | hact
    · rfl
    · obtain rfl := Option.some.inj hact
      rfl
  refine ⟨script'.cron, ?_, ⟨by rw [hcron], by rw [hcron]⟩,
    .keep (by rw [hcron]), not_served⟩
  simp only [ScriptsSystem.step, scriptNameRun, ScriptsContext.cron, hscript',
    Option.map_some]

/-- A switch of automatic runs sets the schedule, or takes its date away. -/
theorem schedules_autoRun (name : CStr) (enable prefixMatch : Bool)
    (tm : Option ℤ) (hc : s.ctx.cron j = some c) :
    Schedules env s (.autoRun name enable prefixMatch tm) j c := by
  obtain ⟨script, hscript, rfl⟩ := Option.map_eq_some_iff.mp hc
  simp only [Schedules, ScriptsSystem.step, scriptNameAutoRun, cronServed]
  obtain ⟨script', hscript', hact⟩ := forNamed_getElem?
    (fun s => if s.cron.valid = false then none
      else if enable then some (scriptCronSetNext env.cronNext tm
        { s with cron := { s.cron with enable := true } })
      else some { s with cron := { s.cron with enable := false, next := 0 } })
    name prefixMatch s.ctx.scripts j script hscript
  refine ⟨script'.cron, ?_, ?_⟩
  · simp only [ScriptsContext.cron, hscript', Option.map_some]
  · rcases hact with rfl | hact
    · exact ⟨⟨rfl, rfl⟩, .keep rfl, not_served⟩
    · by_cases hvalid : script.cron.valid = false
      · rw [if_pos hvalid] at hact
        cases hact
      · rw [if_neg hvalid] at hact
        cases enable with
        | false =>
            obtain rfl := Option.some.inj hact
            exact ⟨⟨rfl, rfl⟩, .reset rfl, not_served⟩
        | true =>
            obtain rfl := Option.some.inj hact
            obtain ⟨hsame, hnext | ⟨d, hd, hnext⟩⟩ := scriptCronSetNext_cron
              env.cronNext tm
                { script with cron := { script.cron with enable := true } }
            · exact ⟨hsame, .keep hnext, not_served⟩
            · exact ⟨hsame, .set d (.autoRun _ _ _ _ d hd) hnext, not_served⟩

/-- What an event does to the schedule of a script, and what it serves. -/
theorem cron_step (e : ScriptsEvent) (hc : s.ctx.cron j = some c) :
    Schedules env s e j c := by
  cases e with
  | tick t => exact schedules_tick env t hc
  | run name prefixMatch now => exact schedules_run env name prefixMatch now hc
  | autoRun name enable prefixMatch tm =>
      exact schedules_autoRun env name enable prefixMatch tm hc

end

/-! ## Runs -/

/-- The module calls `cron_next` of the model. -/
def RunsCron (env : ScriptsEnv) : Prop :=
  ∀ e t, CronExpr.Fires e → 0 ≤ t →
    ∃ fuel, cronNext fuel e t = some (env.cronNext e t)

theorem RunsCron.next {env : ScriptsEnv} (h : RunsCron env) {e : CronExpr}
    (hfires : e.Fires) {t : ℤ} (ht : 0 ≤ t) :
    env.cronNext e t ≤ 0 ∨
      t < env.cronNext e t ∧ e.FiresAt (env.cronNext e t) := by
  obtain ⟨fuel, hnext⟩ := h e t hfires ht
  rcases cronNext_fires hfires ht hnext with hinvalid | hfound
  · left
    rw [hinvalid]
    decide
  · exact Or.inr hfound

/-- An event reads dates between two, and in a check the clock does not go
back. -/
structure ReadsBetween (τ τ' : ℤ) (e : ScriptsEvent) : Prop where
  le : τ ≤ τ'
  mem : ∀ d, e.Reads d → τ ≤ d ∧ d ≤ τ'
  again : ∀ t, e = .tick t → ∀ now ∈ t.timeNow, ∀ k, ∃ d ∈ t.tm k, now ≤ d

/-- The clock does not go back in a run. -/
inductive Forward : ℤ → List ScriptsEvent → Prop
  | nil (τ : ℤ) : Forward τ []
  | cons (τ τ' : ℤ) (e : ScriptsEvent) (es : List ScriptsEvent) :
      ReadsBetween τ τ' e → Forward τ' es → Forward τ (e :: es)

/-- The dates of a script that are served in a run, with the events that serve
them. -/
def servedIn (env : ScriptsEnv) (j : ℕ) :
    ScriptsSystem → List ScriptsEvent → List (ScriptsEvent × ℤ)
  | _, [] => []
  | s, e :: es =>
      ((cronServed s j e).map fun u => (e, u)).toList ++
        servedIn env j (s.step env e) es

/-- The next date of a schedule is one at which it fires, behind the last one that
was served. -/
def Ready (last : ℤ) (c : ScriptCron) : Prop :=
  c.next ≤ 0 ∨ c.schedule.FiresAt c.next ∧ last < c.next

/-- What an event serves, and that the schedule stays ready. -/
theorem ready_step {env : ScriptsEnv} (henv : RunsCron env) {s : ScriptsSystem}
    {e : ScriptsEvent} {j : ℕ} {c : ScriptCron} (hc : s.ctx.cron j = some c)
    (hfires : c.schedule.Fires) {τ τ' last : ℤ} (hτ : 0 ≤ τ) (hlast : last ≤ τ)
    (hclock : ReadsBetween τ τ' e) (hready : Ready last c) :
    ∃ c', (s.step env e).ctx.cron j = some c' ∧ c'.schedule = c.schedule ∧
      match cronServed s j e with
      | none => Ready last c'
      | some u => c.schedule.FiresAt u ∧ last < u ∧ u ≤ τ' ∧
          (∃ now, e.Reads now ∧ u ≤ now) ∧ Ready u c' := by
  obtain ⟨c', hc', hsame, hmove, hserved⟩ := cron_step env e hc
  refine ⟨c', hc', hsame.1, ?_⟩
  -- A date that is set lies behind the one that is read.
  have hset : ∀ d l, 0 ≤ d → l ≤ d → c'.next = env.cronNext c.schedule d →
      Ready l c' := by
    intro d l hd hl hnext
    rcases henv.next hfires hd with hinvalid | ⟨hlater, hfound⟩
    · exact Or.inl (by omega)
    · exact Or.inr ⟨by rw [hsame.1, hnext]; exact hfound, by omega⟩
  cases hevent : cronServed s j e with
  | none =>
      cases hmove with
      | keep hnext =>
          rw [Ready, hnext, hsame.1]
          exact hready
      | reset hnext => exact Or.inl hnext.le
      | set d hd hnext =>
          have := (hclock.mem d hd).1
          exact hset d last (by omega) (by omega) hnext
  | some u =>
      obtain ⟨rfl, hpos, t, rfl, ⟨now, hnow, hle⟩, hagain⟩ := hserved u hevent
      have hreads := ScriptsEvent.Reads.now t now hnow
      have hbetween := hclock.mem now hreads
      obtain ⟨d, hd, hnowd⟩ := hclock.again t rfl now hnow j
      rcases hready with hnone | ⟨hfound, hlater⟩
      · omega
      · exact ⟨hfound, hlater, by omega, ⟨now, hreads, hle⟩,
          hset d c.next (by omega) (by omega) (hagain d hd)⟩

theorem servedIn_ready {env : ScriptsEnv} (henv : RunsCron env) {j : ℕ}
    {e : CronExpr} (hfires : e.Fires) {es : List ScriptsEvent} {τ : ℤ}
    (hclock : Forward τ es) {s : ScriptsSystem} {c : ScriptCron}
    (hc : s.ctx.cron j = some c) (he : c.schedule = e) {last : ℤ} (hτ : 0 ≤ τ)
    (hlast : last ≤ τ) (hready : Ready last c) :
    (∀ p ∈ servedIn env j s es, e.FiresAt p.2 ∧ last < p.2 ∧
      ∃ now, p.1.Reads now ∧ p.2 ≤ now) ∧
      (servedIn env j s es).Pairwise fun p q => p.2 < q.2 := by
  induction hclock generalizing s c last with
  | nil τ => exact ⟨nofun, List.Pairwise.nil⟩
  | cons τ τ' event es hbetween _ ih =>
      subst he
      obtain ⟨c', hc', hsame, hstep⟩ := ready_step henv hc hfires hτ hlast
        hbetween hready
      have hle := hbetween.le
      rw [servedIn]
      cases hevent : cronServed s j event with
      | none =>
          rw [hevent] at hstep
          exact ih hc' hsame (by omega) (by omega) hstep
      | some u =>
          rw [hevent] at hstep
          obtain ⟨hfound, hlater, hend, hnow, hready'⟩ := hstep
          obtain ⟨hrest, hpairs⟩ := ih hc' hsame (by omega) hend hready'
          refine ⟨fun p hp => ?_, ?_⟩
          · rcases List.mem_cons.mp hp with rfl | hp
            · exact ⟨hfound, hlater, hnow⟩
            · obtain ⟨hp, hup, hpnow⟩ := hrest p hp
              exact ⟨hp, by omega, hpnow⟩
          · exact List.pairwise_cons.mpr ⟨fun p hp => (hrest p hp).2.1, hpairs⟩

/-- In a run with a clock that does not go back, a check requests a script only
for a date at which its expression fires and which has come, and for none
twice. -/
theorem servedIn_fires {env : ScriptsEnv} (henv : RunsCron env) {j : ℕ}
    {s : ScriptsSystem} {c : ScriptCron} (hc : s.ctx.cron j = some c)
    (hfires : c.schedule.Fires)
    (hnext : c.next ≤ 0 ∨ c.schedule.FiresAt c.next) {τ : ℤ} (hτ : 0 ≤ τ)
    {es : List ScriptsEvent} (hclock : Forward τ es) :
    (∀ p ∈ servedIn env j s es, c.schedule.FiresAt p.2 ∧
      ∃ now, p.1.Reads now ∧ p.2 ≤ now) ∧
      (servedIn env j s es).Pairwise fun p q => p.2 < q.2 := by
  have hready : Ready (min τ (c.next - 1)) c :=
    hnext.imp_right fun hfound => ⟨hfound, by omega⟩
  obtain ⟨hserved, hpairs⟩ := servedIn_ready henv hfires hclock hc rfl hτ
    (min_le_left _ _) hready
  exact ⟨fun p hp => ⟨(hserved p hp).1, (hserved p hp).2.2⟩, hpairs⟩

open Classical in
/-- An environment that calls `cron_next`, with enough fuel. -/
noncomputable def cronEnv : ScriptsEnv where
  files := fun _ => []
  closesAll := fun _ => false
  cronNext := fun e t =>
    if h : e.Fires ∧ 0 ≤ t then
      (cronNext (cronNext_ends h.1 h.2).choose e t).getD cronInvalidInstant
    else cronInvalidInstant

theorem cronEnv_runsCron : RunsCron cronEnv := by
  intro e t hfires ht
  obtain ⟨u, hu⟩ := (cronNext_ends hfires ht).choose_spec _ le_rfl
  refine ⟨(cronNext_ends hfires ht).choose, ?_⟩
  simp only [cronEnv, dif_pos (And.intro hfires ht), hu, Option.getD_some]

/-- A script on weekdays at noon that is due at its first date. -/
def noonScript : Script where
  name := []
  file := []
  runNow := 0
  startupMs := 0
  execCount := 0
  fd := -1
  lastRun := 0
  cron := ⟨true, true, weekdayNoon, 45000⟩

/-- A round that checks the schedules at a date. -/
def checkRound (date : ℤ) : TickInput :=
  ⟨0, cronCheckMs, .connected, -1, some date, fun _ => some date⟩

example : cronServed (ScriptsSystem.init [noonScript]) 0
    (.tick (checkRound 45010)) = some 45000 := by decide +kernel

theorem servedIn_fires_noon :
    (∀ p ∈ servedIn cronEnv 0 (ScriptsSystem.init [noonScript])
        [.tick (checkRound 45010)],
      weekdayNoon.FiresAt p.2 ∧ ∃ now, p.1.Reads now ∧ p.2 ≤ now) ∧
      (servedIn cronEnv 0 (ScriptsSystem.init [noonScript])
        [.tick (checkRound 45010)]).Pairwise fun p q => p.2 < q.2 := by
  refine servedIn_fires cronEnv_runsCron (c := noonScript.cron) rfl
    weekdayNoon_fires (Or.inr ?_) (τ := 0) le_rfl ?_
  · refine ⟨⟨?_, ?_, ?_, ?_, ?_⟩, ?_⟩ <;> decide +kernel
  · refine Forward.cons 0 45010 _ _ ⟨by decide, ?_, ?_⟩ (.nil _)
    · rintro d (⟨_, _, ⟨⟩⟩ | ⟨_, _, _, ⟨⟩⟩)
      · decide
      · decide
    · rintro t ⟨⟩ now ⟨⟩ k
      exact ⟨45010, rfl, le_rfl⟩

end Herak.Scripts
