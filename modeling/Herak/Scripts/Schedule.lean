import Herak.Scripts.Exec
import Herak.Support.RequestScheduler

/-!
# The schedule of the scripts

The field `run_now` of the scripts is a scheduler of timed requests.  This
module records the requests, starts and ends of each event, and shows that the
module follows them: it differs from the scheduler only in that it starts a
script whose time has not come yet.
-/

namespace Herak.Scripts

open CInt CString Fs RequestScheduler

abbrev ScriptAction : Type := RequestScheduler.Action ℕ ℕ

/-- The request of a script. -/
def Script.request? (s : Script) : Option ℕ :=
  if s.runNow = 0 then none else some s.runNow

/-- The scheduler that the scripts are. -/
def ScriptsContext.schedule (ctx : ScriptsContext) :
    RequestScheduler.State ℕ ℕ where
  pending := fun i => ctx.scripts[i]?.bind Script.request?
  running := ctx.run

/-! ## What happens -/

/-- The requests of the scripts from index `i` on. -/
def requestsFrom (due : Script → Option ℕ) : List Script → ℕ → List ScriptAction
  | [], _ => []
  | s :: rest, i =>
      ((due s).map (Action.request i)).toList ++ requestsFrom due rest (i + 1)

/-- The scripts whose `run_now` is set by `script_startup`. -/
def startupRequests (ctx : ScriptsContext) (t : TickInput) :
    List ScriptAction :=
  if ctx.startupCount = 0 ∨ t.wifi = .notConnected then []
  else
    requestsFrom (fun s => if s.startupMs = 0 then none
      else some (toUInt64 (t.now + s.startupMs))) ctx.scripts 0

/-- The scripts whose `run_now` is set by `script_cron_check`. -/
def cronRequests (ctx : ScriptsContext) (t : TickInput) : List ScriptAction :=
  match t.timeNow with
  | none => []
  | some timeNow =>
      if subU64 t.cronNow ctx.lastCron < cronCheckMs then []
      else
        requestsFrom (fun s =>
          if s.cron.valid = true ∧ s.cron.enable = true ∧ 0 < s.cron.next ∧
            s.cron.next ≤ timeNow then some t.cronNow
          else none) ctx.scripts 0

/-- The scripts whose `run_now` is set by `script_name_run`. -/
def runRequests (name : CStr) (prefixMatch : Bool) (now : ℕ) :
    List Script → ℕ → List ScriptAction
  | [], _ => []
  | s :: rest, i =>
      if nameMatches name prefixMatch s then
        .request i now ::
          (if prefixMatch = false then []
            else runRequests name prefixMatch now rest (i + 1))
      else runRequests name prefixMatch now rest (i + 1)

/-- The requests, starts and ends of a round of the module. -/
def tickActions (env : ScriptsEnv) (s : ScriptsSystem) (t : TickInput) :
    List ScriptAction :=
  match s.ctx.running with
  | some (j, _) =>
      if (sysScriptsRun env s t).2.ctx.run = none then [.finish j] else []
  | none =>
      let ctx := scriptsPending s.ctx t
      startupRequests s.ctx t ++
        ((selectScript ctx.scripts).map fun j => Action.start j t.now).toList ++
        cronRequests (scriptsStart ctx) t

def actions (env : ScriptsEnv) (s : ScriptsSystem) :
    ScriptsEvent → List ScriptAction
  | .tick t => tickActions env s t
  | .run name prefixMatch now => runRequests name prefixMatch now s.ctx.scripts 0
  | .autoRun _ _ _ _ => []

/-- What happens in a schedule of events. -/
def history (env : ScriptsEnv) : ScriptsSystem → List ScriptsEvent →
    List ScriptAction
  | _, [] => []
  | s, e :: es => actions env s e ++ history env (s.step env e) es

/-! ## Requests -/

/-- What the loops over the scripts do to `run_now`, and to nothing else that
the execution of a script depends on. -/
inductive Marks : ℕ → List Script → List Script → List ScriptAction → Prop
  | nil (i : ℕ) : Marks i [] [] []
  | keep {i : ℕ} {s s' : Script} {rest rest' : List Script}
      {acts : List ScriptAction} (hrun : s'.runNow = s.runNow)
      (hfd : s'.fd = s.fd) (hfile : s'.file = s.file)
      (h : Marks (i + 1) rest rest' acts) :
      Marks i (s :: rest) (s' :: rest') acts
  | request {i : ℕ} {s s' : Script} {rest rest' : List Script}
      {acts : List ScriptAction} (hfd : s'.fd = s.fd)
      (hfile : s'.file = s.file) (h : Marks (i + 1) rest rest' acts) :
      Marks i (s :: rest) (s' :: rest') (.request i s'.runNow :: acts)

theorem Marks.refl (i : ℕ) (scripts : List Script) :
    Marks i scripts scripts [] := by
  induction scripts generalizing i with
  | nil => exact .nil i
  | cons s rest ih => exact .keep rfl rfl rfl (ih (i + 1))

theorem Marks.length {i : ℕ} {scripts scripts' : List Script}
    {acts : List ScriptAction} (h : Marks i scripts scripts' acts) :
    scripts'.length = scripts.length := by
  induction h with
  | nil => rfl
  | keep _ _ _ _ ih => simp [ih]
  | request _ _ _ ih => simp [ih]

theorem Marks.kept {i : ℕ} {scripts scripts' : List Script}
    {acts : List ScriptAction} (h : Marks i scripts scripts' acts) :
    scripts'.map (fun s => (s.fd, s.file)) =
      scripts.map fun s => (s.fd, s.file) := by
  induction h with
  | nil => rfl
  | keep _ hfd hfile _ ih => simp [hfd, hfile, ih]
  | request hfd hfile _ ih => simp [hfd, hfile, ih]

/-- The scripts that no action of the loop requests keep their request. -/
theorem Marks.notRequested {i j : ℕ} {scripts scripts' : List Script}
    {acts : List ScriptAction} (h : Marks i scripts scripts' acts)
    (hj : j < i) : ∀ a ∈ acts, ¬a.Requests j := by
  induction h with
  | nil => simp
  | keep _ _ _ _ ih => exact ih (Nat.lt_succ_of_lt hj)
  | @request i _ _ _ _ _ _ _ _ ih =>
      simp only [List.mem_cons, forall_eq_or_imp]
      exact ⟨fun h => by simp only [Action.Requests] at h; omega,
        ih (Nat.lt_succ_of_lt hj)⟩

theorem Marks.requests {i : ℕ} {scripts scripts' : List Script}
    {acts : List ScriptAction} (h : Marks i scripts scripts' acts) :
    ∀ a ∈ acts, ∃ job due, a = .request job due := by
  induction h with
  | nil => simp
  | keep _ _ _ _ ih => exact ih
  | request _ _ _ ih =>
      simp only [List.mem_cons, forall_eq_or_imp]
      exact ⟨⟨_, _, rfl⟩, ih⟩

/-- No request is for the time 0, which stands for no request. -/
def NoZero (acts : List ScriptAction) : Prop :=
  ∀ job, .request job 0 ∉ acts

theorem requests_run {acts : List ScriptAction} {s : RequestScheduler.State ℕ ℕ}
    (h : ∀ a ∈ acts, ∃ job due, a = .request job due) :
    (scheduler ℕ ℕ).Admits s acts ∧
      ((scheduler ℕ ℕ).run s acts).running = s.running := by
  induction acts generalizing s with
  | nil => exact ⟨trivial, rfl⟩
  | cons a acts ih =>
      obtain ⟨job, due, rfl⟩ := h _ List.mem_cons_self
      obtain ⟨hadmits, hrunning⟩ :=
        ih (s := s.act (.request job due)) fun a ha =>
          h a (List.mem_cons_of_mem _ ha)
      exact ⟨⟨trivial, hadmits⟩, hrunning⟩

/-- The requests of the loop are those that the scripts have after it. -/
theorem Marks.pending {i : ℕ} {scripts scripts' : List Script}
    {acts : List ScriptAction} (h : Marks i scripts scripts' acts)
    (hzero : NoZero acts) {s : RequestScheduler.State ℕ ℕ}
    (hs : ∀ k, s.pending (i + k) = scripts[k]?.bind Script.request?) (k : ℕ) :
    ((scheduler ℕ ℕ).run s acts).pending (i + k) =
      scripts'[k]?.bind Script.request? := by
  induction h generalizing s k with
  | nil => exact hs k
  | @keep i first first' rest rest' acts hrun _ _ hrest ih =>
      cases k with
      | zero =>
          rw [Nat.add_zero, run_pending (hrest.notRequested (Nat.lt_succ_self i)),
            ← Nat.add_zero i, hs 0]
          · simp [Script.request?, hrun]
          · intro a ha
            obtain ⟨job, due, rfl⟩ := hrest.requests a ha
            exact id
      | succ k =>
          have hnext := ih hzero (s := s) (fun k => by
            have := hs (k + 1)
            rwa [Nat.add_comm k 1, ← Nat.add_assoc, Nat.add_comm 1 k,
              List.getElem?_cons_succ] at this) k
          rwa [Nat.add_comm k 1, ← Nat.add_assoc, Nat.add_comm 1 k,
            List.getElem?_cons_succ]
  | @request i first first' rest rest' acts _ _ hrest ih =>
      have hdue : first'.runNow ≠ 0 := fun h => hzero i (by simp [h])
      have hzero' : NoZero acts := fun job hjob =>
        hzero job (List.mem_cons_of_mem _ hjob)
      rw [EventMachine.run_cons]
      cases k with
      | zero =>
          rw [Nat.add_zero,
            run_pending (hrest.notRequested (Nat.lt_succ_self i))]
          · simp [scheduler, State.act, Script.request?, hdue]
          · intro a ha
            obtain ⟨job, due, rfl⟩ := hrest.requests a ha
            exact id
      | succ k =>
          have hnext := ih hzero'
            (s := (scheduler ℕ ℕ).step s (.request i first'.runNow))
            (fun k => by
              have := hs (k + 1)
              rw [Nat.add_comm k 1, ← Nat.add_assoc, Nat.add_comm 1 k,
                List.getElem?_cons_succ] at this
              rw [← this]
              exact Function.update_of_ne (by omega) _ _) k
          rwa [Nat.add_comm k 1, ← Nat.add_assoc, Nat.add_comm 1 k,
            List.getElem?_cons_succ]

/-! ### The loops -/

theorem requestsFrom_marks (due : Script → Option ℕ) (f : ℕ → Script → Script)
    (hfd : ∀ i s, (f i s).fd = s.fd) (hfile : ∀ i s, (f i s).file = s.file)
    (hdue : ∀ i s, (f i s).runNow = (due s).getD s.runNow) (i : ℕ)
    (scripts : List Script) :
    Marks i scripts (scripts.mapIdx fun k => f (i + k))
      (requestsFrom due scripts i) := by
  induction scripts generalizing i with
  | nil => exact .nil i
  | cons s rest ih =>
      have hrest := ih (i + 1)
      have hshift : (fun k => f (i + 1 + k)) = fun k => f (i + (k + 1)) := by
        funext k
        rw [Nat.add_assoc, Nat.add_comm 1 k]
      rw [hshift] at hrest
      rw [List.mapIdx_cons, requestsFrom]
      cases h : due s with
      | none =>
          exact .keep (by rw [hdue, h]; rfl) (hfd _ _) (hfile _ _) hrest
      | some t =>
          have ht : t = (f (i + 0) s).runNow := by
            rw [hdue, h]
            rfl
          simp only [Option.map_some, Option.toList_some, List.singleton_append]
          rw [ht]
          exact .request (hfd _ _) (hfile _ _) hrest

theorem runRequests_marks (name : CStr) (prefixMatch : Bool) (now i : ℕ)
    (scripts : List Script) :
    Marks i scripts
      (forNamed (fun s => some { s with runNow := now }) name prefixMatch
        scripts).2
      (runRequests name prefixMatch now scripts i) := by
  induction scripts generalizing i with
  | nil => exact .nil i
  | cons s rest ih =>
      have hrequest {rest' : List Script} {acts : List ScriptAction}
          (h : Marks (i + 1) rest rest' acts) :
          Marks i (s :: rest) ({ s with runNow := now } :: rest')
            (.request i now :: acts) := .request rfl rfl h
      by_cases hname : nameMatches name prefixMatch s = true
      · cases prefixMatch with
        | false =>
            simp only [forNamed, runRequests, hname, if_true]
            exact hrequest (.refl (i + 1) rest)
        | true =>
            simp only [forNamed, runRequests, hname, if_true, Bool.true_eq_false,
              if_false]
            exact hrequest (ih (i + 1))
      · simp only [forNamed, runRequests, if_neg hname]
        exact .keep rfl rfl rfl (ih (i + 1))

theorem autoRun_marks {act : Script → Option Script}
    (hact : ∀ s s', act s = some s' →
      s'.runNow = s.runNow ∧ s'.fd = s.fd ∧ s'.file = s.file)
    (name : CStr) (prefixMatch : Bool) (i : ℕ) (scripts : List Script) :
    Marks i scripts (forNamed act name prefixMatch scripts).2 [] := by
  induction scripts generalizing i with
  | nil => exact .nil i
  | cons s rest ih =>
      simp only [forNamed]
      split
      · exact .keep rfl rfl rfl (ih (i + 1))
      next s' hs' =>
        have hsame : act s = some s' := by
          split at hs'
          · exact hs'
          · cases hs'
        obtain ⟨hrun, hfd, hfile⟩ := hact s s' hsame
        split
        · exact .keep hrun hfd hfile (.refl (i + 1) rest)
        · exact .keep hrun hfd hfile (ih (i + 1))

/-! ## The selection -/

/-- The script that is selected so far after a script. -/
def better (i : ℕ) (s : Script) (best : Option (ℕ × ℕ)) : Option (ℕ × ℕ) :=
  match s.request?, best with
  | none, best => best
  | some t, none => some (i, t)
  | some t, some b => if t < b.2 then some (i, t) else some b

theorem selectFrom_cons (s : Script) (rest : List Script) (i : ℕ)
    (best : Option (ℕ × ℕ)) :
    selectFrom (s :: rest) i best =
      selectFrom rest (i + 1) (better i s best) := by
  by_cases hzero : s.runNow = 0
  · simp [selectFrom, better, Script.request?, hzero]
  · cases best with
    | none => simp [selectFrom, better, Script.request?, hzero]
    | some b =>
        obtain ⟨j, t⟩ := b
        simp only [selectFrom, better, Script.request?, if_neg hzero]
        split <;> rfl

theorem better_eq_none {i : ℕ} {s : Script} {best : Option (ℕ × ℕ)} :
    better i s best = none ↔ best = none ∧ s.request? = none := by
  simp only [better]
  split
  next h => simp [h]
  next h => simp [h]
  next h => split <;> simp

theorem better_spec {i : ℕ} {s : Script} {best : Option (ℕ × ℕ)} {b : ℕ × ℕ}
    (hbest : ∀ b ∈ best, b.1 < i) (h : better i s best = some b) :
    (best = some b ∨ b.1 = i ∧ s.request? = some b.2) ∧
      (∀ b' ∈ best, Before b.2 b.1 b'.2 b'.1) ∧
      ∀ t ∈ s.request?, Before b.2 b.1 t i := by
  simp only [better] at h
  split at h
  next hnone =>
    simp [h, hnone, Before]
  next t hsome =>
    obtain rfl := Option.some.inj h
    simp [hsome, Before]
  next t b' hsome =>
    have hlt := hbest b' rfl
    split at h
    next hless =>
      obtain rfl := Option.some.inj h
      simp [hsome, Before, hless]
    next hless =>
      obtain rfl := Option.some.inj h
      simp only [Before, hsome, Option.mem_def, Option.some.injEq,
        forall_eq', true_or, true_and]
      omega

theorem selectFrom_none {scripts : List Script} {i : ℕ}
    {best : Option (ℕ × ℕ)} (h : selectFrom scripts i best = none) :
    best = none ∧ ∀ s ∈ scripts, s.request? = none := by
  induction scripts generalizing i best with
  | nil => exact ⟨h, by simp⟩
  | cons s rest ih =>
      rw [selectFrom_cons] at h
      obtain ⟨hbetter, hrest⟩ := ih h
      obtain ⟨hbest, hs⟩ := better_eq_none.mp hbetter
      exact ⟨hbest, by simpa using ⟨hs, hrest⟩⟩

/-- The selection finds the first of the requests. -/
theorem selectFrom_some {scripts : List Script} {i : ℕ}
    {best : Option (ℕ × ℕ)} {b : ℕ × ℕ} (hbest : ∀ b ∈ best, b.1 < i)
    (h : selectFrom scripts i best = some b) :
    (best = some b ∨ ∃ k s, scripts[k]? = some s ∧ b.1 = i + k ∧
        s.request? = some b.2) ∧
      (∀ b' ∈ best, Before b.2 b.1 b'.2 b'.1) ∧
      ∀ k s t, scripts[k]? = some s → s.request? = some t →
        Before b.2 b.1 t (i + k) := by
  induction scripts generalizing i best with
  | nil =>
      have hsame : best = some b := h
      simp [hsame, Before]
  | cons s rest ih =>
      rw [selectFrom_cons] at h
      have hbound : ∀ b ∈ better i s best, b.1 < i + 1 := fun b hb => by
        rcases (better_spec hbest hb).1 with hold | ⟨heq, -⟩
        · exact Nat.lt_succ_of_lt (hbest b hold)
        · omega
      obtain ⟨hfrom, hbetter, hrest⟩ := ih hbound h
      refine ⟨?_, fun b' hb' => ?_, fun k script t hk ht => ?_⟩
      · rcases hfrom with hold | ⟨k, script, hk, hindex, hrequest⟩
        · rcases (better_spec hbest hold).1 with hold | ⟨heq, hrequest⟩
          · exact Or.inl hold
          · exact Or.inr ⟨0, s, rfl, heq, hrequest⟩
        · exact Or.inr ⟨k + 1, script, hk, by omega, hrequest⟩
      · obtain ⟨c, hc⟩ := Option.ne_none_iff_exists'.mp
          fun hnone : better i s best = none =>
            Option.not_mem_none b' ((better_eq_none.mp hnone).1 ▸ hb')
        exact (hbetter c hc).trans ((better_spec hbest hc).2.1 b' hb')
      · cases k with
        | zero =>
            obtain rfl := Option.some.inj hk
            obtain ⟨c, hc⟩ := Option.ne_none_iff_exists'.mp
              fun hnone : better i s best = none =>
                Option.some_ne_none t
                  (ht.symm.trans (better_eq_none.mp hnone).2)
            exact (hbetter c hc).trans ((better_spec hbest hc).2.2 t ht)
        | succ k =>
            rw [← Nat.add_assoc, Nat.add_right_comm]
            exact hrest k script t hk ht

theorem selectScript_none {ctx : ScriptsContext}
    (h : selectScript ctx.scripts = none) (i : ℕ) :
    ctx.schedule.pending i = none := by
  have hnone := selectFrom_none (Option.map_eq_none_iff.mp h)
  change ctx.scripts[i]?.bind Script.request? = none
  cases hi : ctx.scripts[i]? with
  | none => rfl
  | some s => exact hnone.2 s (List.mem_of_getElem? hi)

theorem selectScript_some {ctx : ScriptsContext} {j : ℕ}
    (h : selectScript ctx.scripts = some j) :
    ∃ due, ctx.schedule.pending j = some due ∧ ctx.schedule.First j due := by
  obtain ⟨b, hb, rfl⟩ := Option.map_eq_some_iff.mp h
  obtain ⟨hfrom, -, hfirst⟩ := selectFrom_some (by simp) hb
  rcases hfrom with hold | ⟨k, s, hk, hindex, hrequest⟩
  · cases hold
  · rw [Nat.zero_add] at hindex
    refine ⟨b.2, ?_, fun other due hother => ?_⟩
    · change ctx.scripts[b.1]?.bind Script.request? = some b.2
      rw [hindex, hk]
      exact hrequest
    · obtain ⟨script, hscript, hdue⟩ := Option.bind_eq_some_iff.mp hother
      have := hfirst other script due hscript hdue
      rwa [Nat.zero_add] at this

theorem selectScript_lt {scripts : List Script} {j : ℕ}
    (h : selectScript scripts = some j) : j < scripts.length := by
  obtain ⟨b, hb, rfl⟩ := Option.map_eq_some_iff.mp h
  obtain ⟨hfrom, -, -⟩ := selectFrom_some (by simp) hb
  rcases hfrom with hold | ⟨k, s, hk, hindex, -⟩
  · cases hold
  · rw [hindex, Nat.zero_add]
    exact (List.getElem?_eq_some_iff.mp hk).1

/-! ## One event -/

/-- The script that is running is one of the table, and no other has its file
open. -/
structure Orderly (s : ScriptsSystem) : Prop where
  line : s.ctx.line.length = maxLine
  inRange : ∀ j ∈ s.ctx.run, j < s.ctx.scripts.length
  closed : ∀ (j : ℕ) script, s.ctx.scripts[j]? = some script →
    0 ≤ script.fd → s.ctx.run = some j

/-- The times that an event requests scripts for are not 0. -/
def Timed (s : ScriptsSystem) : ScriptsEvent → Prop
  | .tick t =>
      t.cronNow ≠ 0 ∧
        (s.ctx.startupCount ≠ 0 → ∀ script ∈ s.ctx.scripts,
          script.startupMs ≠ 0 → toUInt64 (t.now + script.startupMs) ≠ 0)
  | .run _ _ now => now ≠ 0
  | .autoRun _ _ _ _ => True

/-- A round in which no script is running finds no request, or one that is
due. -/
def FindsDue (s : ScriptsSystem) : ScriptsEvent → Prop
  | .tick t =>
      s.ctx.run = none →
        (∀ script ∈ (scriptsPending s.ctx t).scripts, script.runNow = 0) ∨
          ∃ script ∈ (scriptsPending s.ctx t).scripts,
            script.runNow ≠ 0 ∧ script.runNow ≤ t.now
  | _ => True

theorem Marks.schedule {ctx ctx' : ScriptsContext} {acts : List ScriptAction}
    (h : Marks 0 ctx.scripts ctx'.scripts acts) (hzero : NoZero acts)
    (hrun : ctx'.run = ctx.run) :
    (scheduler ℕ ℕ).run ctx.schedule acts = ctx'.schedule := by
  refine State.ext ?_ ?_
  · funext k
    have hpending := h.pending hzero (s := ctx.schedule) (fun k => by
      rw [Nat.zero_add]
      rfl) k
    rwa [Nat.zero_add] at hpending
  · rw [(requests_run h.requests).2]
    exact hrun.symm

theorem mem_requestsFrom {due : Script → Option ℕ} {scripts : List Script}
    {i job t : ℕ} (h : .request job t ∈ requestsFrom due scripts i) :
    ∃ s ∈ scripts, due s = some t := by
  induction scripts generalizing i with
  | nil => simp [requestsFrom] at h
  | cons s rest ih =>
      rw [requestsFrom, List.mem_append] at h
      rcases h with h | h
      · obtain ⟨t', ht', heq⟩ := Option.map_eq_some_iff.mp (Option.mem_toList.mp h)
        obtain ⟨-, rfl⟩ := Action.request.inj heq
        exact ⟨s, List.mem_cons_self, ht'⟩
      · obtain ⟨s', hs', hdue⟩ := ih h
        exact ⟨s', List.mem_cons_of_mem _ hs', hdue⟩

theorem mem_runRequests {name : CStr} {prefixMatch : Bool} {now i job t : ℕ}
    {scripts : List Script}
    (h : .request job t ∈ runRequests name prefixMatch now scripts i) :
    t = now := by
  induction scripts generalizing i with
  | nil => simp [runRequests] at h
  | cons s rest ih =>
      simp only [runRequests] at h
      split at h
      · rcases List.mem_cons.mp h with h | h
        · exact (Action.request.inj h).2
        · split at h
          · simp at h
          · exact ih h
      · exact ih h

theorem mem_cronRequests {ctx : ScriptsContext} {t : TickInput} {job due : ℕ}
    (h : .request job due ∈ cronRequests ctx t) : due = t.cronNow := by
  simp only [cronRequests] at h
  split at h
  · simp at h
  · split at h
    · simp at h
    · obtain ⟨script, -, hdue⟩ := mem_requestsFrom h
      split at hdue
      · exact (Option.some.inj hdue).symm
      · cases hdue

/-! ### The parts of a round -/

theorem startup_marks (ctx : ScriptsContext) (t : TickInput) :
    Marks 0 ctx.scripts (scriptsPending ctx t).scripts
        (startupRequests ctx t) ∧
      (scriptsPending ctx t).run = ctx.run ∧
      (scriptsPending ctx t).line = ctx.line := by
  simp only [scriptsPending, startupRequests, scriptStartup]
  by_cases hcount : ctx.startupCount = 0
  · simp [hcount, Marks.refl]
  · by_cases hwifi : t.wifi = .notConnected
    · simp [hcount, hwifi, Marks.refl]
    · have hmarks := requestsFrom_marks
        (fun s => if s.startupMs = 0 then none
          else some (toUInt64 (t.now + s.startupMs)))
        (fun _ s => if s.startupMs = 0 then s
          else { s with runNow := toUInt64 (t.now + s.startupMs) })
        (fun i s => by split <;> rfl) (fun i s => by split <;> rfl)
        (fun i s => by split <;> rfl) 0 ctx.scripts
      have hmap : ctx.scripts.mapIdx (fun _ s => if s.startupMs = 0 then s
          else { s with runNow := toUInt64 (t.now + s.startupMs) }) =
          ctx.scripts.map fun s => if s.startupMs = 0 then s
            else { s with runNow := toUInt64 (t.now + s.startupMs) } :=
        List.ext_getElem? fun k => by simp [List.getElem?_mapIdx]
      rw [hmap] at hmarks
      simpa [hcount, hwifi] using hmarks

theorem scriptCronSetNext_kept (cronNext : CronExpr → ℤ → ℤ) (tm : Option ℤ)
    (s : Script) :
    (scriptCronSetNext cronNext tm s).runNow = s.runNow ∧
      (scriptCronSetNext cronNext tm s).fd = s.fd ∧
      (scriptCronSetNext cronNext tm s).file = s.file := by
  simp only [scriptCronSetNext]
  split
  · exact ⟨rfl, rfl, rfl⟩
  · split <;> exact ⟨rfl, rfl, rfl⟩

theorem scriptCronCheckOne_kept (cronNext : CronExpr → ℤ → ℤ) (now : ℕ)
    (timeNow : ℤ) (tm : Option ℤ) (s : Script) :
    (scriptCronCheckOne cronNext now timeNow tm s).runNow =
        (if s.cron.valid = true ∧ s.cron.enable = true ∧ 0 < s.cron.next ∧
          s.cron.next ≤ timeNow then some now else none).getD s.runNow ∧
      (scriptCronCheckOne cronNext now timeNow tm s).fd = s.fd ∧
      (scriptCronCheckOne cronNext now timeNow tm s).file = s.file := by
  simp only [scriptCronCheckOne]
  by_cases hvalid : s.cron.valid = false
  · simp [hvalid]
  · by_cases henable : s.cron.enable = false
    · simp [henable]
    · by_cases hnext : s.cron.next ≤ 0
      · have hnot : ¬0 < s.cron.next := Int.not_lt.mpr hnext
        simpa [hvalid, henable, hnext, hnot] using
          scriptCronSetNext_kept cronNext tm s
      · have hpos : 0 < s.cron.next := Int.not_le.mp hnext
        by_cases hdue : s.cron.next ≤ timeNow
        · simpa [hvalid, henable, hnext, hpos, hdue] using
            scriptCronSetNext_kept cronNext tm { s with runNow := now }
        · simp [hvalid, henable, hnext, hdue]

theorem cron_marks (cronNext : CronExpr → ℤ → ℤ) (ctx : ScriptsContext)
    (t : TickInput) :
    let ctx' := scriptCronCheck cronNext ctx t.cronNow t.timeNow t.tm
    Marks 0 ctx.scripts ctx'.scripts (cronRequests ctx t) ∧
      ctx'.run = ctx.run ∧ ctx'.line = ctx.line ∧
      ctx'.startupCount = ctx.startupCount := by
  simp only [scriptCronCheck, cronRequests]
  cases htime : t.timeNow with
  | none => exact ⟨.refl 0 _, rfl, rfl, rfl⟩
  | some timeNow =>
      by_cases hearly : subU64 t.cronNow ctx.lastCron < cronCheckMs
      · simp only [if_pos hearly]
        exact ⟨.refl 0 _, trivial, trivial, trivial⟩
      · simp only [if_neg hearly]
        have hmarks := requestsFrom_marks
          (fun s =>
            if s.cron.valid = true ∧ s.cron.enable = true ∧ 0 < s.cron.next ∧
              s.cron.next ≤ timeNow then some t.cronNow
            else none)
          (fun k s =>
            scriptCronCheckOne cronNext t.cronNow timeNow (t.tm k) s)
          (fun k s => (scriptCronCheckOne_kept _ _ _ _ s).2.1)
          (fun k s => (scriptCronCheckOne_kept _ _ _ _ s).2.2)
          (fun k s => (scriptCronCheckOne_kept _ _ _ _ s).1) 0 ctx.scripts
        refine ⟨?_, trivial, trivial, trivial⟩
        simpa only [Nat.zero_add] using hmarks

/-- Starting a script takes its request. -/
theorem start_schedule {ctx : ScriptsContext} {j : ℕ} (now : ℕ)
    (h : selectScript ctx.scripts = some j) :
    (scriptsStart ctx).schedule = ctx.schedule.act (.start j now) := by
  simp only [scriptsStart, h]
  refine State.ext ?_ rfl
  funext k
  change (ctx.scripts.modify j fun s => { s with runNow := 0 })[k]?.bind
    Script.request? = Function.update ctx.schedule.pending j none k
  rw [List.getElem?_modify]
  by_cases hk : k = j
  · rw [hk, Function.update_self]
    cases ctx.scripts[j]? <;> simp [Script.request?]
  · rw [Function.update_of_ne hk]
    simp [Ne.symm hk, ScriptsContext.schedule]

/-! ### A round of the running script -/

/-- The rounds that are left of a script, the one that closes its file
included. -/
def roundsLeft (env : ScriptsEnv) (fs : FsContext) (script : Script) : ℕ :=
  (calls (if script.fd < 0 then env.files script.file
    else ((fs.fd? script.fd).map fs.unread).getD [])).length + 1

theorem fsOpen_fd? {fs : FsContext} {opened : ℤ} {content : List UInt8}
    (h : 0 ≤ (fsOpen fs opened content).1) :
    (fsOpen fs opened content).2.fd? (fsOpen fs opened content).1 =
        some opened ∧
      (fsOpen fs opened content).2.unread opened = content := by
  simp only [fsOpen] at h ⊢
  split
  next hnone =>
    simp [hnone] at h
  next i hsome =>
    simp only [hsome] at h
    by_cases hopened : opened < 0
    · simp [hopened] at h
    · have hlt := (List.findIdx?_eq_some_iff_getElem.mp hsome).1
      have hnonneg : ¬(i : ℤ) < 0 := by omega
      have hvalid : ¬opened = -1 := by omega
      simp [hopened, FsContext.fd?, hnonneg, hvalid,
        List.getElem?_set_self hlt]

/-- `fs_close_all` makes no handle lead elsewhere. -/
theorem fd?_closeAll (fs : FsContext) (fd : ℤ) :
    (fsCloseAll fs).fd? fd = none ∨ (fsCloseAll fs).fd? fd = fs.fd? fd := by
  simp only [FsContext.fd?, fsCloseAll, List.getElem?_map]
  by_cases hneg : fd < 0
  · simp [hneg]
  · cases fs.openFd[fd.toNat]? with
    | none => simp
    | some pico =>
        by_cases hpico : 0 ≤ pico
        · simp [hneg, hpico]
        · simp [hneg, hpico]

/-- A round of the running script: it ends, or one of its rounds is done. -/
theorem scriptExec_spec (env : ScriptsEnv) {s : ScriptsSystem} (j : ℕ)
    (script : Script) (t : TickInput) (hline : s.ctx.line.length = maxLine) :
    ∃ script' run' line' fs',
      (scriptExec env s j script t).2 =
          { ctx :=
              { s.ctx with
                scripts := s.ctx.scripts.set j script'
                run := run'
                line := line' }
            fs := fs' } ∧
        script'.runNow = script.runNow ∧ script'.file = script.file ∧
        line'.length = maxLine ∧
        (run' = none ∧ script'.fd < 0 ∨
          run' = s.ctx.run ∧
            roundsLeft env fs' script' + 1 ≤ roundsLeft env s.fs script) := by
  -- Both before and after the file is opened, the round reads from its start.
  obtain ⟨fd, fs, hstart, hleft⟩ : ∃ fd fs,
      (if script.fd < 0 then fsOpen s.fs t.opened (env.files script.file)
        else (script.fd, s.fs)) = (fd, fs) ∧
      (0 ≤ fd → roundsLeft env s.fs script =
        (calls (((fs.fd? fd).map fs.unread).getD [])).length + 1) := by
    by_cases hfd : script.fd < 0
    · refine ⟨(fsOpen s.fs t.opened (env.files script.file)).1,
        (fsOpen s.fs t.opened (env.files script.file)).2, if_pos hfd,
        fun hopen => ?_⟩
      obtain ⟨hvalid, hcontent⟩ := fsOpen_fd? hopen
      rw [hvalid, Option.map_some, Option.getD_some, hcontent, roundsLeft,
        if_pos hfd]
    · exact ⟨_, _, if_neg hfd, fun _ => by simp [roundsLeft, hfd]⟩
  by_cases hfailed : fd < 0
  · refine ⟨{ script with fd := fd }, none, s.ctx.line, fs, ?_, rfl, rfl, hline,
      Or.inl ⟨rfl, hfailed⟩⟩
    simp only [scriptExec, hstart, if_pos hfailed]
  · have hopen : 0 ≤ fd := Int.not_lt.mp hfailed
    cases hfd : fs.fd? fd with
    | none =>
        refine ⟨{ script with
            fd := -1
            lastRun := t.now
            execCount := script.execCount + 1 },
          none, (s.ctx.line.set 0 0).set (maxLine - 1) 0, fsClose fs fd, ?_,
          rfl, rfl, by simpa using hline, Or.inl ⟨rfl, (by decide : (-1 : ℤ) < 0)⟩⟩
        simp [scriptExec, hstart, hfailed, hfd, execLoop, fsGets, fsReadCheck]
    | some pico =>
        obtain ⟨rest, line', hline', hrest, hpass, hend⟩ :=
          scriptExec_opened env (j := j) hline hstart hopen hfd
        cases hcalls : calls (fs.unread pico) with
        | nil =>
            exact ⟨_, _, _, _, congrArg Prod.snd (hend hcalls), rfl, rfl, hline',
              Or.inl ⟨rfl, (by decide : (-1 : ℤ) < 0)⟩⟩
        | cons p ps =>
            refine ⟨_, _, _, _, congrArg Prod.snd (hpass p ps hcalls), rfl, rfl,
              hline', Or.inr ⟨rfl, ?_⟩⟩
            rw [hleft hopen, hfd, Option.map_some, Option.getD_some, hcalls]
            have hread : ∀ unread : List UInt8,
                unread = [] ∨ unread = rest →
                  (calls unread).length + 1 + 1 ≤ (p :: ps).length + 1 := by
              rintro _ (rfl | rfl)
              · have hnone : getsSegment maxLine [] = none := by decide
                simp [calls_of_none hnone]
              · simp [hrest, hcalls]
            have hsame : ({ fs with
                unread := Function.update fs.unread pico rest } :
                  FsContext).fd? fd = some pico := hfd
            have hnext := Function.update_self pico rest fs.unread
            simp only [roundsLeft, if_neg hfailed]
            split
            · -- Behind `fs_close_all` there is nothing left to read.
              refine hread _ ?_
              rcases fd?_closeAll _ fd with hnone | hkept
              · exact Or.inl (by rw [hnone]; rfl)
              · exact Or.inr (by rw [hkept, hsame]; exact hnext)
            · exact hread _ (Or.inr (by rw [hsame]; exact hnext))

/-! ### All events -/

theorem actions_noZero (env : ScriptsEnv) {s : ScriptsSystem}
    {e : ScriptsEvent} (h : Timed s e) : NoZero (actions env s e) := by
  intro job hjob
  cases e with
  | run name prefixMatch now => exact h (mem_runRequests hjob).symm
  | autoRun name enable prefixMatch tm => simp [actions] at hjob
  | tick t =>
      obtain ⟨hcron, hstartup⟩ := h
      simp only [actions, tickActions] at hjob
      split at hjob
      · split at hjob <;> simp at hjob
      · rw [List.mem_append, List.mem_append] at hjob
        rcases hjob with (hjob | hjob) | hjob
        · simp only [startupRequests] at hjob
          split at hjob
          · simp at hjob
          next hdo =>
            push Not at hdo
            obtain ⟨script, hscript, hdue⟩ := mem_requestsFrom hjob
            split at hdue
            · cases hdue
            next hms =>
              exact hstartup hdo.1 script hscript hms (Option.some.inj hdue)
        · simp at hjob
        · exact hcron (mem_cronRequests hjob).symm

/-- A command of the module only marks scripts. -/
theorem command_marks (env : ScriptsEnv) (s : ScriptsSystem) {e : ScriptsEvent}
    (he : e.isTick = false) :
    Marks 0 s.ctx.scripts (s.step env e).ctx.scripts (actions env s e) := by
  cases e with
  | tick t => exact (Bool.false_ne_true he.symm).elim
  | run name prefixMatch now => exact runRequests_marks _ _ _ 0 _
  | autoRun name enable prefixMatch tm =>
      refine autoRun_marks (fun script script' hact => ?_) _ _ 0 _
      split at hact
      · cases hact
      · split at hact
        · obtain rfl := Option.some.inj hact
          exact scriptCronSetNext_kept _ _ _
        · obtain rfl := Option.some.inj hact
          exact ⟨rfl, rfl, rfl⟩

theorem Orderly.running {s : ScriptsSystem} (h : Orderly s) :
    s.ctx.running = none ∧ s.ctx.run = none ∨
      ∃ j script, s.ctx.running = some (j, script) ∧ s.ctx.run = some j ∧
        s.ctx.scripts[j]? = some script := by
  cases hrun : s.ctx.run with
  | none => exact Or.inl ⟨by simp [ScriptsContext.running, hrun], rfl⟩
  | some j =>
      have hscript := List.getElem?_eq_getElem (h.inRange j hrun)
      exact Or.inr ⟨j, _, running_eq hrun hscript, rfl, hscript⟩

theorem empty_round (env : ScriptsEnv) {s : ScriptsSystem} (t : TickInput)
    (h : s.ctx.scripts = []) :
    sysScriptsRun env s t = (none, s) ∧ actions env s (.tick t) = [] := by
  have hrunning : s.ctx.running = none := by
    simp only [ScriptsContext.running, h]
    cases s.ctx.run <;> rfl
  have hpending : (scriptsPending s.ctx t).scripts = [] :=
    List.eq_nil_of_length_eq_zero
      ((startup_marks s.ctx t).1.length.trans (by rw [h]; rfl))
  constructor
  · rw [sysScriptsRun, if_pos (by rw [h]; decide)]
  · have hselect : selectScript (scriptsPending s.ctx t).scripts = none := by
      rw [hpending]
      rfl
    have hstart : (scriptsStart (scriptsPending s.ctx t)).scripts = [] := by
      simp only [scriptsStart, hselect]
      exact hpending
    simp only [actions, tickActions, hrunning, hselect, startupRequests,
      cronRequests, h, hstart, requestsFrom]
    cases t.timeNow <;> simp

/-- A round that does not go on with a script. -/
theorem idle_round (env : ScriptsEnv) {s : ScriptsSystem} (t : TickInput)
    (hscripts : s.ctx.scripts ≠ []) (hrunning : s.ctx.running = none) :
    sysScriptsRun env s t =
        (none,
          { s with
            ctx := scriptCronCheck env.cronNext
              (scriptsStart (scriptsPending s.ctx t)) t.cronNow t.timeNow
              t.tm }) ∧
      actions env s (.tick t) =
        startupRequests s.ctx t ++
          ((selectScript (scriptsPending s.ctx t).scripts).map
            fun j => Action.start j t.now).toList ++
          cronRequests (scriptsStart (scriptsPending s.ctx t)) t := by
  have hlen := List.length_pos_iff.mpr hscripts
  constructor
  · rw [sysScriptsRun, if_neg (by omega)]
    simp only [hrunning]
  · simp only [actions, tickActions, hrunning]

theorem NoZero.append {acts bcts : List ScriptAction}
    (h : NoZero (acts ++ bcts)) : NoZero acts ∧ NoZero bcts :=
  ⟨fun job hjob => h job (List.mem_append_left _ hjob),
    fun job hjob => h job (List.mem_append_right _ hjob)⟩

/-- The requests, starts and ends of a round without a running script. -/
theorem idle_schedule {env : ScriptsEnv} {s : ScriptsSystem} {t : TickInput}
    (hscripts : s.ctx.scripts ≠ []) (hrunning : s.ctx.running = none)
    (hrun : s.ctx.run = none) (hzero : NoZero (actions env s (.tick t))) :
    (scheduler ℕ ℕ).run s.ctx.schedule (actions env s (.tick t)) =
        (s.step env (.tick t)).ctx.schedule ∧
      (FindsDue s (.tick t) →
        (scheduler ℕ ℕ).Admits s.ctx.schedule (actions env s (.tick t))) := by
  obtain ⟨hround, hactions⟩ := idle_round env t hscripts hrunning
  obtain ⟨hstartup, hrun₁, -⟩ := startup_marks s.ctx t
  obtain ⟨hcron, hrun₃, -⟩ := cron_marks env.cronNext
    (scriptsStart (scriptsPending s.ctx t)) t
  rw [hactions] at hzero ⊢
  obtain ⟨hzero₁₂, hzero₃⟩ := hzero.append
  have h₁ := hstartup.schedule hzero₁₂.append.1 hrun₁
  have h₃ := hcron.schedule hzero₃ hrun₃
  have hstep : (s.step env (.tick t)).ctx =
      scriptCronCheck env.cronNext (scriptsStart (scriptsPending s.ctx t))
        t.cronNow t.timeNow t.tm :=
    congrArg (fun r => r.2.ctx) hround
  rw [hstep]
  simp only [EventMachine.run_append, EventMachine.Admits,
    EventMachine.along_append, h₁]
  have hrequests₁ := (requests_run (s := s.ctx.schedule) hstartup.requests).1
  cases hselect : selectScript (scriptsPending s.ctx t).scripts with
  | none =>
      have hsame : scriptsStart (scriptsPending s.ctx t) =
          scriptsPending s.ctx t := by
        simp only [scriptsStart, hselect]
      rw [hsame] at h₃ hcron ⊢
      refine ⟨h₃, fun _ => ⟨⟨hrequests₁, trivial⟩, ?_⟩⟩
      exact (requests_run hcron.requests).1
  | some j =>
      obtain ⟨due, hdue, hfirst⟩ := selectScript_some hselect
      have hstart := start_schedule t.now hselect
      rw [hstart] at h₃
      refine ⟨h₃, fun hfinds => ⟨⟨hrequests₁, ⟨?_, due, hdue, ?_, hfirst⟩,
        trivial⟩, ?_⟩⟩
      · exact hrun₁.trans hrun
      · -- The first request is due when any of them is.
        rcases hfinds hrun with hnone | ⟨script, hmem, hpending, hle⟩
        · obtain ⟨script, hscript, hrequest⟩ := Option.bind_eq_some_iff.mp hdue
          have := hnone script (List.mem_of_getElem? hscript)
          simp [Script.request?, this] at hrequest
        · obtain ⟨k, hk⟩ := List.mem_iff_getElem?.mp hmem
          have hother : (scriptsPending s.ctx t).schedule.pending k =
              some script.runNow := by
            change (scriptsPending s.ctx t).scripts[k]?.bind Script.request? = _
            simp [hk, Script.request?, hpending]
          rcases hfirst k script.runNow hother with hlt | ⟨heq, -⟩
          · exact (Nat.le_of_lt hlt).trans hle
          · exact heq ▸ hle
      · exact (requests_run hcron.requests).1

theorem set_pending {scripts : List Script} {j : ℕ} {script script' : Script}
    (hscript : scripts[j]? = some script)
    (hrun : script'.runNow = script.runNow) (k : ℕ) :
    (scripts.set j script')[k]?.bind Script.request? =
      scripts[k]?.bind Script.request? := by
  by_cases hk : j = k
  · have hlt := (List.getElem?_eq_some_iff.mp hscript).1
    rw [← hk, List.getElem?_set_self hlt, hscript]
    simp [Script.request?, hrun]
  · rw [List.getElem?_set_ne hk]

/-- Each event does what the scheduler does, and may do it when what it starts
is due. -/
theorem step_schedule {env : ScriptsEnv} {s : ScriptsSystem} {e : ScriptsEvent}
    (h : Orderly s) (hzero : NoZero (actions env s e)) :
    (scheduler ℕ ℕ).run s.ctx.schedule (actions env s e) =
        (s.step env e).ctx.schedule ∧
      (FindsDue s e →
        (scheduler ℕ ℕ).Admits s.ctx.schedule (actions env s e)) := by
  cases he : e.isTick with
  | false =>
      have hmarks := command_marks env s he
      have hrun := (command_kept env s he).1.run
      exact ⟨hmarks.schedule hzero hrun,
        fun _ => (requests_run hmarks.requests).1⟩
  | true =>
      cases e with
      | run name prefixMatch now => exact (Bool.false_ne_true he).elim
      | autoRun name enable prefixMatch tm => exact (Bool.false_ne_true he).elim
      | tick t =>
          by_cases hscripts : s.ctx.scripts = []
          · obtain ⟨hround, hactions⟩ := empty_round env t hscripts
            have hstep : s.step env (.tick t) = s := congrArg Prod.snd hround
            rw [hactions, hstep]
            exact ⟨rfl, fun _ => trivial⟩
          · rcases h.running with ⟨hrunning, hrun⟩ |
              ⟨j, script, hrunning, hrun, hscript⟩
            · exact idle_schedule hscripts hrunning hrun hzero
            · have hround := sysScriptsRun_running env t hrun
                hscript
              obtain ⟨script', run', line', fs', hexec, hpending, -, -, hend⟩ :=
                scriptExec_spec env j script t h.line
              have hsame : (s.step env (.tick t)).ctx.schedule.pending =
                  s.ctx.schedule.pending := by
                funext k
                change (sysScriptsRun env s t).2.ctx.schedule.pending k = _
                rw [hround, hexec]
                exact set_pending hscript hpending k
              have hstep : (sysScriptsRun env s t).2.ctx.run = run' := by
                rw [hround, hexec]
              simp only [actions, tickActions, hrunning, hstep]
              rcases hend with ⟨rfl, -⟩ | ⟨rfl, -⟩
              · rw [if_pos rfl]
                exact ⟨State.ext hsame.symm hstep.symm,
                  fun _ => ⟨hrun, trivial⟩⟩
              · rw [if_neg (by simp [hrun])]
                exact ⟨State.ext hsame.symm hstep.symm, fun _ => trivial⟩

theorem scriptsStart_kept (ctx : ScriptsContext) :
    (scriptsStart ctx).scripts.map (fun s => (s.fd, s.file)) =
        ctx.scripts.map (fun s => (s.fd, s.file)) ∧
      (scriptsStart ctx).line = ctx.line ∧
      (scriptsStart ctx).startupCount = ctx.startupCount := by
  simp only [scriptsStart]
  split
  · exact ⟨rfl, rfl, rfl⟩
  next j hj =>
    refine ⟨List.ext_getElem? fun k => ?_, rfl, rfl⟩
    simp only [List.getElem?_map, List.getElem?_modify]
    cases ctx.scripts[k]? with
    | none => simp
    | some s => by_cases hk : j = k <;> simp [hk]

/-- What a round without a running script keeps, and the script it starts. -/
theorem idle_kept (env : ScriptsEnv) {s : ScriptsSystem} (t : TickInput)
    (hscripts : s.ctx.scripts ≠ []) (hrunning : s.ctx.running = none)
    (hrun : s.ctx.run = none) :
    (s.step env (.tick t)).fs = s.fs ∧
      (s.step env (.tick t)).ctx.scripts.map (fun s => (s.fd, s.file)) =
        s.ctx.scripts.map (fun s => (s.fd, s.file)) ∧
      (s.step env (.tick t)).ctx.line = s.ctx.line ∧
      (s.step env (.tick t)).ctx.startupCount =
        (scriptsPending s.ctx t).startupCount ∧
      (s.step env (.tick t)).ctx.run =
        selectScript (scriptsPending s.ctx t).scripts := by
  obtain ⟨hround, -⟩ := idle_round env t hscripts hrunning
  obtain ⟨hstartup, hrun₁, hline₁⟩ := startup_marks s.ctx t
  obtain ⟨hkept₂, hline₂, hcount₂⟩ :=
    scriptsStart_kept (scriptsPending s.ctx t)
  obtain ⟨hcron, hrun₃, hline₃, hcount₃⟩ := cron_marks env.cronNext
    (scriptsStart (scriptsPending s.ctx t)) t
  have hstep : s.step env (.tick t) = _ := congrArg Prod.snd hround
  rw [hstep]
  refine ⟨rfl, hcron.kept.trans (hkept₂.trans hstartup.kept),
    hline₃.trans (hline₂.trans hline₁), hcount₃.trans hcount₂, ?_⟩
  refine hrun₃.trans ?_
  simp only [scriptsStart]
  split
  next hnone => rw [hnone, hrun₁, hrun]
  next j hj => exact hj.symm

theorem orderly_init (scripts : List Script) :
    Orderly (ScriptsSystem.init scripts) where
  line := List.length_replicate
  inRange := fun j hj => (Option.not_mem_none j hj).elim
  closed := fun j script hscript hfd => by
    obtain ⟨script', -, rfl⟩ := List.mem_map.mp (List.mem_of_getElem? hscript)
    exact (Int.not_le.mpr (by decide : (-1 : ℤ) < 0) hfd).elim

/-- The scripts keep their number, and their files when they are mapped. -/
theorem getElem?_of_kept {scripts scripts' : List Script}
    (h : scripts'.map (fun s => (s.fd, s.file)) =
      scripts.map fun s => (s.fd, s.file)) {k : ℕ} {s' : Script}
    (hk : scripts'[k]? = some s') :
    ∃ s, scripts[k]? = some s ∧ s'.fd = s.fd ∧ s'.file = s.file := by
  have hkept := congrArg (fun l => l[k]?) h
  simp only [List.getElem?_map, hk, Option.map_some] at hkept
  obtain ⟨s, hs, heq⟩ := Option.map_eq_some_iff.mp hkept.symm
  obtain ⟨hfd, hfile⟩ := Prod.mk.inj heq
  exact ⟨s, hs, hfd.symm, hfile.symm⟩

/-- Every event keeps the table of scripts orderly. -/
theorem orderly_step {env : ScriptsEnv} {s : ScriptsSystem} (h : Orderly s)
    (e : ScriptsEvent) : Orderly (s.step env e) := by
  cases he : e.isTick with
  | false =>
      have hmarks := command_marks env s he
      have hkept := (command_kept env s he).1
      refine ⟨(congrArg List.length hkept.line).trans h.line, fun j hj => ?_,
        fun j script' hscript' hfd => ?_⟩
      · rw [hkept.run] at hj
        rw [hkept.length]
        exact h.inRange j hj
      · obtain ⟨script, hscript, hsame, -⟩ := getElem?_of_kept hmarks.kept hscript'
        exact hkept.run.trans (h.closed j script hscript (hsame ▸ hfd))
  | true =>
      cases e with
      | run name prefixMatch now => exact (Bool.false_ne_true he).elim
      | autoRun name enable prefixMatch tm => exact (Bool.false_ne_true he).elim
      | tick t =>
          by_cases hscripts : s.ctx.scripts = []
          · have hstep : s.step env (.tick t) = s :=
              congrArg Prod.snd (empty_round env t hscripts).1
            rw [hstep]
            exact h
          · rcases h.running with ⟨hrunning, hrun⟩ |
              ⟨j, script, hrunning, hrun, hscript⟩
            · obtain ⟨-, hkept, hline, -, hselect⟩ :=
                idle_kept env t hscripts hrunning hrun
              refine ⟨(congrArg List.length hline).trans h.line,
                fun j hj => ?_, fun j script' hscript' hfd => ?_⟩
              · rw [hselect] at hj
                have hlen := congrArg List.length hkept
                rw [List.length_map, List.length_map] at hlen
                rw [hlen, ← (startup_marks s.ctx t).1.length]
                exact selectScript_lt hj
              · obtain ⟨script, hscript, hsame, -⟩ :=
                  getElem?_of_kept hkept hscript'
                have hopen := h.closed j script hscript (hsame ▸ hfd)
                rw [hrun] at hopen
                cases hopen
            · have hround := sysScriptsRun_running env t hrun
                hscript
              obtain ⟨script', run', line', fs', hexec, -, -, hline, hend⟩ :=
                scriptExec_spec env j script t h.line
              have hstep : s.step env (.tick t) = _ :=
                (congrArg Prod.snd hround).trans hexec
              have hrun' : run' = none ∨ run' = some j := by
                rcases hend with ⟨hnone, -⟩ | ⟨hsame, -⟩
                · exact Or.inl hnone
                · exact Or.inr (hsame.trans hrun)
              rw [hstep]
              refine ⟨hline, fun i hi => ?_, fun i script'' hi hfd => ?_⟩
              · rw [List.length_set]
                refine h.inRange i ?_
                rcases hrun' with hnone | hsome
                · exact (Option.some_ne_none i (hi.symm.trans hnone)).elim
                · exact hrun.trans (hsome.symm.trans hi)
              · by_cases hi' : j = i
                · have hlt := (List.getElem?_eq_some_iff.mp hscript).1
                  rw [← hi', List.getElem?_set_self hlt] at hi
                  obtain rfl := Option.some.inj hi
                  rcases hend with ⟨-, hneg⟩ | ⟨hsame, -⟩
                  · exact (Int.not_le.mpr hneg hfd).elim
                  · exact hi' ▸ hsame.trans hrun
                · rw [List.getElem?_set_ne hi'] at hi
                  have hopen := h.closed i script'' hi hfd
                  exact (hi' (Option.some.inj (hrun.symm.trans hopen))).elim

end Herak.Scripts
