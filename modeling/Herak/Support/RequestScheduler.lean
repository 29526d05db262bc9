import Herak.Support.EventMachine
import Mathlib.Data.Finset.Card
import Mathlib.Logic.Function.Basic

/-!
# Schedulers of timed requests

Jobs are requested for a time, and a later request of a job replaces the one
that is pending.  At most one job runs at a time.  A job that starts takes its
request with it: the request is due, and it is the first of the pending ones,
where ties go to the smaller job.
-/

namespace RequestScheduler

inductive Action (Job Time : Type*)
  | request (job : Job) (due : Time)
  | start (job : Job) (now : Time)
  | finish (job : Job)
  deriving DecidableEq

@[ext]
structure State (Job Time : Type*) where
  pending : Job → Option Time
  running : Option Job

/-- Nothing runs, and nothing has been requested. -/
def State.idle (Job Time : Type*) : State Job Time where
  pending := fun _ => none
  running := none

variable {Job Time : Type*} [LinearOrder Job]

def State.act (s : State Job Time) : Action Job Time → State Job Time
  | .request job due =>
      { s with pending := Function.update s.pending job (some due) }
  | .start job _ =>
      { pending := Function.update s.pending job none, running := some job }
  | .finish _ => { s with running := none }

/-- The action requests the job. -/
def Action.Requests (job : Job) : Action Job Time → Prop
  | .request other _ => other = job
  | _ => False

/-- The action starts the job. -/
def Action.Starts (job : Job) : Action Job Time → Prop
  | .start other _ => other = job
  | _ => False

instance (job : Job) :
    DecidablePred fun a : Action Job Time => a.Requests job
  | .request other _ => inferInstanceAs (Decidable (other = job))
  | .start _ _ => inferInstanceAs (Decidable False)
  | .finish _ => inferInstanceAs (Decidable False)

instance (job : Job) : DecidablePred fun a : Action Job Time => a.Starts job
  | .start other _ => inferInstanceAs (Decidable (other = job))
  | .request _ _ => inferInstanceAs (Decidable False)
  | .finish _ => inferInstanceAs (Decidable False)

/-- The number of times that a job is started. -/
def starts (job : Job) (acts : List (Action Job Time)) : ℕ :=
  acts.countP fun a => a.Starts job

theorem starts_append (job : Job) (acts bcts : List (Action Job Time)) :
    starts job (acts ++ bcts) = starts job acts + starts job bcts :=
  List.countP_append

variable {s : State Job Time} {job : Job} {acts : List (Action Job Time)}

/-- An action that neither requests nor starts a job leaves its request. -/
theorem act_pending {a : Action Job Time} (hrequest : ¬a.Requests job)
    (hstart : ¬a.Starts job) : (s.act a).pending job = s.pending job := by
  cases a with
  | request other due =>
      exact Function.update_of_ne (fun h => hrequest h.symm) _ _
  | start other now =>
      exact Function.update_of_ne (fun h => hstart h.symm) _ _
  | finish other => rfl

variable [LinearOrder Time]

/-- The request of `job` for `due` comes before the one of `other` for
`due'`. -/
def Before (due : Time) (job : Job) (due' : Time) (other : Job) : Prop :=
  due < due' ∨ due = due' ∧ job ≤ other

theorem Before.trans {d d' d'' : Time}
    {j j' j'' : Job} (h : Before d j d' j') (h' : Before d' j' d'' j'') :
    Before d j d'' j'' := by
  rcases h with h | ⟨rfl, h⟩
  · rcases h' with h' | ⟨rfl, -⟩
    · exact Or.inl (h.trans h')
    · exact Or.inl h
  · rcases h' with h' | ⟨rfl, h'⟩
    · exact Or.inl h'
    · exact Or.inr ⟨rfl, h.trans h'⟩

/-- No pending request comes before the one of `job` for `due`. -/
def State.First (s : State Job Time) (job : Job) (due : Time) : Prop :=
  ∀ other due', s.pending other = some due' → Before due job due' other

def Allowed (s : State Job Time) : Action Job Time → Prop
  | .request _ _ => True
  | .start job now =>
      s.running = none ∧
        ∃ due, s.pending job = some due ∧ due ≤ now ∧ s.First job due
  | .finish job => s.running = some job

/-- The scheduler as a machine whose events are its own actions. -/
def scheduler (Job Time : Type*) [LinearOrder Job] [LinearOrder Time] :
    EventMachine (State Job Time) (Action Job Time) where
  step := State.act
  enabled := Allowed

/-! ## Requests and starts -/

theorem run_pending (hrequest : ∀ a ∈ acts, ¬a.Requests job)
    (hstart : ∀ a ∈ acts, ¬a.Starts job) :
    ((scheduler Job Time).run s acts).pending job = s.pending job := by
  induction acts generalizing s with
  | nil => rfl
  | cons a acts ih =>
      simp only [List.mem_cons, forall_eq_or_imp] at hrequest hstart
      exact (ih hrequest.2 hstart.2).trans (act_pending hrequest.1 hstart.1)

/-- A job that is not requested starts at most once, and only if a request of
it was pending. -/
theorem starts_le (h : (scheduler Job Time).Admits s acts)
    (hrequest : ∀ a ∈ acts, ¬a.Requests job) :
    starts job acts ≤ if (s.pending job).isSome then 1 else 0 := by
  induction acts generalizing s with
  | nil => exact Nat.zero_le _
  | cons a acts ih =>
      simp only [List.mem_cons, forall_eq_or_imp] at hrequest
      have hrest := ih h.2 hrequest.2
      by_cases hstart : a.Starts job
      · cases a with
        | request other due => exact hstart.elim
        | finish other => exact hstart.elim
        | start other now =>
            obtain rfl : other = job := hstart
            obtain ⟨-, due, hdue, -, -⟩ := h.1
            have hnone : ((scheduler Job Time).step s
                (.start other now)).pending other = none :=
              Function.update_self _ _ _
            rw [hnone] at hrest
            simp only [starts, List.countP_cons, hdue] at hrest ⊢
            simpa [Action.Starts] using hrest
      · have hsame : ((scheduler Job Time).step s a).pending job =
            s.pending job := act_pending hrequest.1 hstart
        rw [hsame] at hrest
        simpa [starts, List.countP_cons, hstart] using hrest

/-- The last thing that happened to a job with a pending request is that
request. -/
theorem pending_requested {due : Time}
    (h : ((scheduler Job Time).run (State.idle Job Time) acts).pending job =
      some due) :
    ∃ before after, acts = before ++ .request job due :: after ∧
      ∀ a ∈ after, ¬a.Requests job ∧ ¬a.Starts job := by
  induction acts using List.reverseRecOn with
  | nil => cases h
  | append_singleton acts a ih =>
      rw [EventMachine.run_append] at h
      change (State.act _ a).pending job = some due at h
      by_cases hrequest : a.Requests job
      · cases a with
        | start other now => exact hrequest.elim
        | finish other => exact hrequest.elim
        | request other due' =>
            obtain rfl : other = job := hrequest
            have hdue : due' = due := by
              simpa [State.act] using h
            exact ⟨acts, [], by rw [hdue], fun a ha => nomatch ha⟩
      · by_cases hstart : a.Starts job
        · cases a with
          | request other due' => exact hstart.elim
          | finish other => exact hstart.elim
          | start other now =>
              obtain rfl : other = job := hstart
              simp [State.act] at h
        · rw [act_pending hrequest hstart] at h
          obtain ⟨before, after, rfl, hafter⟩ := ih h
          refine ⟨before, after ++ [a], by simp, fun b hb => ?_⟩
          rcases List.mem_append.mp hb with hb | hb
          · exact hafter b hb
          · rw [List.mem_singleton.mp hb]
            exact ⟨hrequest, hstart⟩

/-- Every start has a request of its own, which is due. -/
theorem start_requested {now : Time} {rest : List (Action Job Time)}
    (h : (scheduler Job Time).Admits (State.idle Job Time)
      (acts ++ .start job now :: rest)) :
    ∃ before due after, acts = before ++ .request job due :: after ∧
      due ≤ now ∧ ∀ a ∈ after, ¬a.Requests job ∧ ¬a.Starts job := by
  obtain ⟨-, due, hdue, hle, -⟩ := (EventMachine.along_append _ |>.mp h).2.1
  obtain ⟨before, after, hacts, hafter⟩ := pending_requested hdue
  exact ⟨before, due, after, hacts, hle, hafter⟩

/-! ## The jobs ahead of a job -/

/-- The job `other` starts before `job`, which has been requested for `due`. -/
def State.IsAhead (s : State Job Time) (job : Job) (due : Time) (other : Job) :
    Prop :=
  other ≠ job ∧ ∃ due', s.pending other = some due' ∧ Before due' other due job

noncomputable instance (s : State Job Time) (job : Job) (due : Time) :
    DecidablePred (s.IsAhead job due) :=
  Classical.decPred _

/-- The number of jobs that start before `job`. -/
noncomputable def State.ahead (s : State Job Time) (jobs : Finset Job)
    (job : Job) (due : Time) : ℕ :=
  (jobs.filter (s.IsAhead job due)).card

variable {jobs : Finset Job} {due : Time}

theorem ahead_congr {s' : State Job Time} (h : s'.pending = s.pending) :
    s'.ahead jobs job due = s.ahead jobs job due := by
  cases s
  cases s'
  cases h
  rfl

variable (s jobs job due) in
theorem ahead_le_card : s.ahead jobs job due ≤ jobs.card :=
  Finset.card_filter_le _ _

/-- A request for a later time does not come ahead. -/
theorem ahead_request {other : Job} {due' : Time} (h : due < due') :
    (s.act (.request other due')).ahead jobs job due ≤
      s.ahead jobs job due := by
  refine Finset.card_le_card fun k hk => ?_
  rw [Finset.mem_filter] at hk ⊢
  obtain ⟨hmem, hne, due'', hdue, hbefore⟩ := hk
  refine ⟨hmem, hne, due'', ?_, hbefore⟩
  by_cases hother : k = other
  · -- The new request would have to be due by `due`.
    rw [hother] at hdue
    obtain rfl : due' = due'' := by simpa [State.act] using hdue
    rcases hbefore with hlt | ⟨heq, -⟩
    · exact (lt_asymm h hlt).elim
    · exact (h.ne heq.symm).elim
  · simpa [State.act, Function.update_of_ne hother] using hdue

variable (jobs job due) in
theorem ahead_requests (h : ∀ a ∈ acts, ∃ other due', due < due' ∧
      a = .request other due') :
    ((scheduler Job Time).run s acts).ahead jobs job due ≤
      s.ahead jobs job due := by
  induction acts generalizing s with
  | nil => exact Nat.le_refl _
  | cons a acts ih =>
      obtain ⟨other, due', hlt, rfl⟩ := h _ List.mem_cons_self
      exact (ih fun a ha => h a (List.mem_cons_of_mem _ ha)).trans
        (ahead_request hlt)

/-- The first of the jobs is ahead of all others until it starts. -/
theorem ahead_start {other : Job} {due' : Time} (now : Time) (hother : other ∈ jobs)
    (hne : other ≠ job) (hpending : s.pending other = some due')
    (hfirst : s.First other due') (hjob : s.pending job = some due) :
    (s.act (.start other now)).ahead jobs job due + 1 ≤
      s.ahead jobs job due := by
  refine Finset.card_lt_card (Finset.ssubset_iff_of_subset ?_ |>.mpr
    ⟨other, ?_, ?_⟩)
  · intro k hk
    rw [Finset.mem_filter] at hk ⊢
    obtain ⟨hmem, hk, due'', hdue, hbefore⟩ := hk
    refine ⟨hmem, hk, due'', ?_, hbefore⟩
    by_cases hsame : k = other
    · simp [State.act, hsame] at hdue
    · simpa [State.act, Function.update_of_ne hsame] using hdue
  · exact Finset.mem_filter.mpr ⟨hother, hne, due', hpending, hfirst job due hjob⟩
  · intro hmem
    obtain ⟨-, -, due'', hdue, -⟩ := Finset.mem_filter.mp hmem
    simp [State.act] at hdue

end RequestScheduler
