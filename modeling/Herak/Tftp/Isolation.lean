import Herak.Support.EventMachine
import Herak.Tftp.Client

/-!
# Late replies

A job that is cancelled leaves its question to the resolver and its transfer
behind, and both still name the slot.  The jobs of a slot are numbered here, so
that a reply can be told from one for the job that has the slot now.
-/

namespace Herak.Tftp

open CString Ota Mqtt

/-- The `number`-th job of a slot. -/
structure JobRef where
  slot : JobIdx
  number : ℕ
  deriving DecidableEq

/-- What happens to the client.  Replies and callbacks belong to the job they
were started for. -/
inductive TftpEvent
  | newJob (order : TftpOrder) (now : ℕ)
  | run (t : JobIdx → TftpTurn)
  | peerFound (job : JobRef) (ipaddr : IpAddr)
  | open (job : JobRef) (fname mode : CStr) (isWrite : Bool)
      (accepts : JobIdx → Bool) (now : ℕ)
  | close (job : JobRef)
  | read (job : JobRef) (now : ℕ) (res : ℤ)
  | write (job : JobRef) (now : ℕ) (len : UInt16)
  | error (job : JobRef) (err : ℤ) (msg : CStr)

/-- The client with its environment: how many jobs each slot has had, which of
them have asked the resolver and which have requested a transfer. -/
structure TftpSystem where
  jobs : TftpJobs
  numbers : JobIdx → ℕ
  asked : List JobRef
  requested : List JobRef

namespace TftpSystem

def init : TftpSystem := ⟨fun _ => noJob, fun _ => 0, [], []⟩

/-- The job that has the slot now. -/
def current (x : TftpSystem) (i : JobIdx) : JobRef := ⟨i, x.numbers i⟩

/-- The jobs after the event, and the calls that are made for them. -/
def effect (x : TftpSystem) : TftpEvent → TftpJobs × List (JobIdx × TftpCall)
  | .newJob order now => ((tftpClinetNewJob x.jobs order now).2, [])
  | .run t => sysTftpClientRun x.jobs t
  | .peerFound job ipaddr =>
      (Function.update x.jobs job.slot
        (tftpPeerFound (x.jobs job.slot) ipaddr), [])
  | .open _ fname mode isWrite accepts now =>
      tftpClientOpen x.jobs fname mode isWrite accepts now
  | .close job => tftpClientClose x.jobs job.slot
  | .read job now res => tftpClientRead x.jobs job.slot now res
  | .write job now len => tftpClientWrite x.jobs job.slot now len
  | .error job err msg => tftpClientError x.jobs job.slot err msg

/-- The jobs for which `p` holds of a call. -/
def refsOf (x : TftpSystem) (p : TftpCall → Bool)
    (calls : List (JobIdx × TftpCall)) : List JobRef :=
  (calls.filter fun c => p c.2).map fun c => x.current c.1

def isResolve : TftpCall → Bool
  | .resolve _ => true
  | _ => false

def isTransfer : TftpCall → Bool
  | .transfer _ _ _ _ => true
  | _ => false

def step (x : TftpSystem) (e : TftpEvent) : TftpSystem where
  jobs := (x.effect e).1
  numbers :=
    match e with
    | .newJob _ _ =>
        match freeSlot x.jobs with
        | some i => Function.update x.numbers i (x.numbers i + 1)
        | none => x.numbers
    | _ => x.numbers
  asked := x.refsOf isResolve (x.effect e).2 ++ x.asked
  requested := x.refsOf isTransfer (x.effect e).2 ++ x.requested

/-- The resolver answers who has asked, and lwIP calls back for what was
requested. -/
def Enabled (x : TftpSystem) : TftpEvent → Prop
  | .newJob _ _ | .run _ => True
  | .peerFound job _ => job ∈ x.asked
  | .open job _ _ _ _ _ | .close job | .read job _ _ | .write job _ _ |
    .error job _ _ => job ∈ x.requested

end TftpSystem

def tftpMachine : EventMachine TftpSystem TftpEvent where
  step := TftpSystem.step
  enabled := TftpSystem.Enabled

instance (x : TftpSystem) : ∀ e, Decidable (tftpMachine.enabled x e)
  | .newJob _ _ | .run _ => .isTrue trivial
  | .peerFound job _ => inferInstanceAs (Decidable (job ∈ x.asked))
  | .open job _ _ _ _ _ | .close job | .read job _ _ | .write job _ _ |
    .error job _ _ => inferInstanceAs (Decidable (job ∈ x.requested))

/-! ## The property and the condition -/

/-- The job that a reply or a callback belongs to. -/
def TftpEvent.job : TftpEvent → Option JobRef
  | .newJob _ _ | .run _ => none
  | .peerFound job _ | .open job _ _ _ _ _ | .close job | .read job _ _ |
    .write job _ _ | .error job _ _ => some job

/-- The slot has a job that came after the given one. -/
def TftpSystem.LaterJob (x : TftpSystem) (job : JobRef) : Prop :=
  job.number < x.numbers job.slot ∧ (x.jobs job.slot).started ≠ 0

/-- The call is made for the job of the slot; one that asks whether a file may
be opened counts if it may. -/
def TftpCall.acts : TftpCall → Bool
  | .hook _ (.open _ _ _ accepted) => accepted
  | _ => true

/-- A reply or a callback that belongs to a job of the past leaves the later
job of its slot as it is, and nothing is called for that job. -/
def Isolated (x : TftpSystem) (e : TftpEvent) : Prop :=
  ∀ job, e.job = some job → x.LaterJob job →
    (x.effect e).1 job.slot = x.jobs job.slot ∧
      ∀ call, (job.slot, call) ∈ (x.effect e).2 → call.acts = false

/-- No reply or callback finds a later job in its slot, but for the resolver's
one if it repeats the address that this job has, and for the opening of a file
that this job is not asked for or rejects. -/
def NoLateReply (x : TftpSystem) : TftpEvent → Prop
  | .newJob _ _ | .run _ => True
  | .peerFound job ipaddr =>
      x.LaterJob job →
        (x.jobs job.slot).peerAddr = ipaddr ∧
          (x.jobs job.slot).ipState = .resolved
  | .open job _ _ _ accepts _ =>
      x.LaterJob job → tftpClientOpenSlot x.jobs accepts ≠ some job.slot
  | .close job | .read job _ _ | .write job _ _ | .error job _ _ =>
      ¬x.LaterJob job

/-! ## One event -/

/-- A started job has the hooks of its user. -/
def HasHooks (x : TftpSystem) : Prop :=
  ∀ i, (x.jobs i).started ≠ 0 → (x.jobs i).hooks ≠ none

theorem TftpJob.mem_call {job : TftpJob} {hook : TftpHook} {call : TftpCall} :
    call ∈ job.call hook ↔
      ∃ hooks, job.hooks = some hooks ∧ call = .hook hooks hook := by
  cases h : job.hooks with
  | none => simp [TftpJob.call, h]
  | some hooks => simp [TftpJob.call, h]

/-- A callback for a started job calls one of its hooks. -/
theorem onJob_acts {jobs : TftpJobs} {i : JobIdx}
    (hstarted : (jobs i).started ≠ 0) (hhooks : (jobs i).hooks ≠ none)
    {f : TftpJob → TftpJob × List TftpCall} {hook : TftpHook}
    (hf : (f (jobs i)).2 = (jobs i).call hook)
    (hook_acts : ∀ hooks, (TftpCall.hook hooks hook).acts = true) :
    ¬∀ call, (i, call) ∈ (onJob jobs i f).2 → call.acts = false := by
  intro h
  obtain ⟨hooks, hsome⟩ := Option.ne_none_iff_exists'.mp hhooks
  have hmem : (i, TftpCall.hook hooks hook) ∈ (onJob jobs i f).2 := by
    rw [onJob, if_neg hstarted, hf]
    exact List.mem_map_of_mem (TftpJob.mem_call.mpr ⟨hooks, hsome, rfl⟩)
  exact Bool.noConfusion ((h _ hmem).symm.trans (hook_acts hooks))

/-- The search finds a job no later than any that accepts. -/
theorem tftpClientOpenSlot_le {jobs : TftpJobs} {accepts : JobIdx → Bool}
    {i : JobIdx} (hstarted : (jobs i).started ≠ 0) (haccepts : accepts i) :
    ∃ j ≤ i, tftpClientOpenSlot jobs accepts = some j := by
  have hsome : (tftpClientOpenSlot jobs accepts).isSome := by
    rw [tftpClientOpenSlot, List.find?_isSome]
    exact ⟨i, List.mem_finRange i, by simp [hstarted, haccepts]⟩
  obtain ⟨j, hj⟩ := Option.isSome_iff_exists.mp hsome
  refine ⟨j, ?_, hj⟩
  obtain ⟨-, k, hk, rfl, hbefore⟩ := List.find?_eq_some_iff_getElem.mp hj
  by_contra hlt
  have hik : i.val < k := by
    have hval := Fin.lt_def.mp (not_le.mp hlt)
    rwa [List.getElem_finRange] at hval
  have hnot := hbefore i.val hik
  simp [hstarted, haccepts] at hnot

theorem tftpClientOpenSlot_spec {jobs : TftpJobs} {accepts : JobIdx → Bool}
    {i : JobIdx} (h : tftpClientOpenSlot jobs accepts = some i) :
    (jobs i).started ≠ 0 ∧ accepts i = true := by
  simpa using List.find?_some h

section

variable (jobs : TftpJobs) (fname mode : CStr) (isWrite : Bool)
  (accepts : JobIdx → Bool) (now : ℕ) (i : JobIdx)

theorem tftpClientOpen_jobs (h : tftpClientOpenSlot jobs accepts ≠ some i) :
    (tftpClientOpen jobs fname mode isWrite accepts now).1 i = jobs i := by
  unfold tftpClientOpen
  cases hslot : tftpClientOpenSlot jobs accepts with
  | none => rfl
  | some j =>
      have hne : i ≠ j := fun hij => h (hij ▸ hslot)
      exact Function.update_of_ne hne _ _

/-- The hooks that are asked. -/
theorem mem_tftpClientOpen {call : TftpCall} :
    (i, call) ∈ (tftpClientOpen jobs fname mode isWrite accepts now).2 ↔
      ((jobs i).started ≠ 0 ∧
        ∀ j, tftpClientOpenSlot jobs accepts = some j → i ≤ j) ∧
      call ∈ (jobs i).call (.open fname mode isWrite (accepts i)) := by
  have hcalls : (tftpClientOpen jobs fname mode isWrite accepts now).2 =
      ((List.finRange maxClientJobs).filter fun i =>
        (jobs i).started ≠ 0 ∧
          ∀ j, tftpClientOpenSlot jobs accepts = some j → i ≤ j).flatMap
        fun i => ((jobs i).call (.open fname mode isWrite (accepts i))).map
          fun call => (i, call) := by
    unfold tftpClientOpen
    dsimp only
    split <;> rfl
  rw [hcalls, List.mem_flatMap]
  constructor
  · rintro ⟨j, hj, hmem⟩
    obtain ⟨c, hc, heq⟩ := List.mem_map.mp hmem
    obtain ⟨rfl, rfl⟩ := Prod.mk.inj heq
    exact ⟨of_decide_eq_true (List.mem_filter.mp hj).2, hc⟩
  · rintro ⟨hasked, hc⟩
    exact ⟨i, List.mem_filter.mpr ⟨List.mem_finRange i, decide_eq_true hasked⟩,
      List.mem_map_of_mem hc⟩

theorem tftpClientOpen_acts (hhooks : (jobs i).hooks ≠ none) :
    (∀ call, (i, call) ∈ (tftpClientOpen jobs fname mode isWrite accepts
        now).2 → call.acts = false) ↔
      tftpClientOpenSlot jobs accepts ≠ some i := by
  constructor
  · intro h hslot
    obtain ⟨hooks, hsome⟩ := Option.ne_none_iff_exists'.mp hhooks
    obtain ⟨hstarted, haccepts⟩ := tftpClientOpenSlot_spec hslot
    have hle (j : JobIdx) (hj : tftpClientOpenSlot jobs accepts = some j) :
        i ≤ j := (Option.some.inj (hslot.symm.trans hj)).le
    have hcall := h _ ((mem_tftpClientOpen jobs fname mode isWrite accepts now
      i).mpr ⟨⟨hstarted, hle⟩, TftpJob.mem_call.mpr ⟨hooks, hsome, rfl⟩⟩)
    exact Bool.noConfusion (hcall.symm.trans haccepts)
  · intro hslot call hmem
    obtain ⟨⟨hstarted, hle⟩, hcall⟩ :=
      (mem_tftpClientOpen jobs fname mode isWrite accepts now i).mp hmem
    obtain ⟨hooks, -, rfl⟩ := TftpJob.mem_call.mp hcall
    refine Bool.eq_false_iff.mpr fun haccepts => ?_
    obtain ⟨j, hji, hj⟩ := tftpClientOpenSlot_le hstarted haccepts
    obtain rfl := le_antisymm (hle j hj) hji
    exact hslot hj

end

/-! ## The hooks of the jobs -/

/-- The job has ended, or it is the same one with the same hooks. -/
def SameOrEnded (job job' : TftpJob) : Prop :=
  job'.started ≠ 0 → job.started ≠ 0 ∧ job'.hooks = job.hooks

theorem sameOrEnded_refl (job : TftpJob) : SameOrEnded job job :=
  fun h => ⟨h, rfl⟩

theorem sameOrEnded_noJob (job : TftpJob) : SameOrEnded job noJob :=
  fun h => (h rfl).elim

theorem sameOrEnded_request (job : TftpJob) (t : TftpTurn) :
    SameOrEnded job (sysTftpClientJobRequest job t).1 := by
  unfold sysTftpClientJobRequest
  split
  · split
    · exact sameOrEnded_noJob job
    · exact sameOrEnded_refl job
  · split
    · dsimp only
      split
      · exact sameOrEnded_noJob job
      · exact fun h => ⟨h, rfl⟩
    · split
      · exact sameOrEnded_noJob job
      · exact sameOrEnded_refl job

theorem sameOrEnded_run (job : TftpJob) (t : TftpTurn) :
    SameOrEnded job (sysTftpClientJobRun job t).1 := by
  unfold sysTftpClientJobRun
  split
  · exact sameOrEnded_refl job
  · split
    · cases t.dns with
      | ok addr => exact sameOrEnded_request { job with
          peerAddr := addr, ipState := .resolved } t
      | inProgress =>
          exact sameOrEnded_request { job with ipState := .resolving } t
      | failed => exact sameOrEnded_noJob job
    · exact sameOrEnded_request job t

theorem sameOrEnded_update {jobs : TftpJobs} {i : JobIdx} {job : TftpJob}
    (h : SameOrEnded (jobs i) job) (k : JobIdx) :
    SameOrEnded (jobs k) (Function.update jobs i job k) := by
  by_cases hk : k = i
  · subst hk
    rwa [Function.update_self]
  · rw [Function.update_of_ne hk]
    exact sameOrEnded_refl _

theorem sameOrEnded_onJob {jobs : TftpJobs} {i : JobIdx}
    {f : TftpJob → TftpJob × List TftpCall}
    (hf : SameOrEnded (jobs i) (f (jobs i)).1) (k : JobIdx) :
    SameOrEnded (jobs k) ((onJob jobs i f).1 k) := by
  unfold onJob
  split
  · exact sameOrEnded_refl _
  · exact sameOrEnded_update hf k

theorem hasHooks_init : HasHooks .init := fun _ h => (h rfl).elim

/-- Only `newJob` brings a job, and that has hooks. -/
theorem hasHooks_step {x : TftpSystem} (hx : HasHooks x) (e : TftpEvent) :
    HasHooks (x.step e) := by
  have hkeep (h : ∀ k, SameOrEnded (x.jobs k) ((x.effect e).1 k)) :
      HasHooks (x.step e) := by
    intro i hstarted
    obtain ⟨hbefore, hhooks⟩ := h i hstarted
    exact hhooks ▸ hx i hbefore
  cases e with
  | newJob order now =>
      intro i
      show ((tftpClinetNewJob x.jobs order now).2 i).started ≠ 0 →
        ((tftpClinetNewJob x.jobs order now).2 i).hooks ≠ none
      unfold tftpClinetNewJob
      cases freeSlot x.jobs with
      | none => exact hx i
      | some j =>
          dsimp only
          by_cases hij : i = j
          · subst hij
            rw [Function.update_self]
            exact fun _ => Option.some_ne_none _
          · rw [Function.update_of_ne hij]
            exact hx i
  | run t => exact hkeep fun k => sameOrEnded_run (x.jobs k) (t k)
  | peerFound job ipaddr =>
      exact hkeep (sameOrEnded_update fun h => ⟨h, rfl⟩)
  | «open» job fname mode isWrite accepts now =>
      refine hkeep fun k => ?_
      simp only [TftpSystem.effect, tftpClientOpen]
      split
      · exact sameOrEnded_refl _
      next i _ =>
        have hsame : SameOrEnded (x.jobs i)
            { x.jobs i with lastActivity := now } := fun h => ⟨h, rfl⟩
        exact sameOrEnded_update hsame k
  | close job => exact hkeep (sameOrEnded_onJob (sameOrEnded_noJob _))
  | read job now res => exact hkeep (sameOrEnded_onJob fun h => ⟨h, rfl⟩)
  | write job now len => exact hkeep (sameOrEnded_onJob fun h => ⟨h, rfl⟩)
  | error job err msg => exact hkeep (sameOrEnded_onJob (sameOrEnded_noJob _))

/-! ## The run -/

theorem isolated_step_iff {x : TftpSystem} (hx : HasHooks x) (e : TftpEvent) :
    Isolated x e ↔ NoLateReply x e := by
  -- a callback with a handle calls a hook of the later job
  have hcallback {job : JobRef} {f : TftpJob → TftpJob × List TftpCall}
      (hook : TftpHook) (hjob : e.job = some job)
      (heffect : x.effect e = onJob x.jobs job.slot f)
      (hf : (f (x.jobs job.slot)).2 = (x.jobs job.slot).call hook)
      (hacts : ∀ hooks, (TftpCall.hook hooks hook).acts = true) : Isolated x e ↔ ¬x.LaterJob job := by
    constructor
    · intro h hlater
      have hcalls := (h job hjob hlater).2
      rw [heffect] at hcalls
      exact onJob_acts hlater.2 (hx _ hlater.2) hf hacts hcalls
    · intro hlater j hj hlaterj
      obtain rfl := Option.some.inj (hjob.symm.trans hj)
      exact (hlater hlaterj).elim
  cases e with
  | newJob order now => exact iff_of_true nofun trivial
  | run t => exact iff_of_true nofun trivial
  | peerFound job ipaddr =>
      have heq : (x.effect (.peerFound job ipaddr)).1 job.slot =
          { x.jobs job.slot with peerAddr := ipaddr, ipState := .resolved } :=
        Function.update_self _ _ _
      constructor
      · intro h hlater
        have hsame := (h job rfl hlater).1
        rw [heq] at hsame
        exact ⟨(congrArg TftpJob.peerAddr hsame).symm,
          (congrArg TftpJob.ipState hsame).symm⟩
      · intro h j hj hlater
        obtain rfl := Option.some.inj hj
        obtain ⟨haddr, hstate⟩ := h hlater
        refine ⟨?_, nofun⟩
        rw [heq, ← haddr, ← hstate]
  | «open» job fname mode isWrite accepts now =>
      constructor
      · intro h hlater
        exact (tftpClientOpen_acts x.jobs fname mode isWrite accepts now
          job.slot (hx _ hlater.2)).mp (h job rfl hlater).2
      · intro h j hj hlater
        obtain rfl := Option.some.inj hj
        exact ⟨tftpClientOpen_jobs x.jobs fname mode isWrite accepts now
            job.slot (h hlater),
          (tftpClientOpen_acts x.jobs fname mode isWrite accepts now
            job.slot (hx _ hlater.2)).mpr (h hlater)⟩
  | close job =>
      have heffect : x.effect (.close job) =
          tftpClientClose x.jobs job.slot := rfl
      exact hcallback (.close _) rfl heffect rfl fun _ => rfl
  | read job now res =>
      have heffect : x.effect (.read job now res) =
          tftpClientRead x.jobs job.slot now res := rfl
      exact hcallback (.read _) rfl heffect rfl fun _ => rfl
  | write job now len =>
      have heffect : x.effect (.write job now len) =
          tftpClientWrite x.jobs job.slot now len := rfl
      exact hcallback (.write _) rfl heffect rfl fun _ => rfl
  | error job err msg =>
      have heffect : x.effect (.error job err msg) =
          tftpClientError x.jobs job.slot err msg := rfl
      exact hcallback (.error _ _ _) rfl heffect rfl fun _ => rfl

/-- In every run, replies and callbacks of jobs of the past leave the later
jobs alone, if and only if none of them finds a later job in its slot, but for
those that repeat its address or ask it for nothing. -/
theorem job_isolation_iff (es : List TftpEvent) :
    tftpMachine.Along Isolated .init es ↔
      tftpMachine.Along NoLateReply .init es := by
  constructor
  · intro h
    exact h.mono_of_invariant (I := HasHooks) (fun x e hx _ => hasHooks_step hx e)
      (fun x e hx => (isolated_step_iff hx e).mp) hasHooks_init
  · intro h
    exact h.mono_of_invariant (I := HasHooks) (fun x e hx _ => hasHooks_step hx e)
      (fun x e hx => (isolated_step_iff hx e).mpr) hasHooks_init

/-! ## A late answer of the resolver -/

def firmwareOrder : TftpOrder :=
  ⟨1, ⟨some (lit "fw.bin"), some (lit "slow.host"), 69⟩, 100, true⟩

def backupOrder : TftpOrder :=
  ⟨2, ⟨some (lit "backup"), some (lit "home.host"), 69⟩, 200, false⟩

/-- The resolver is still looking for the server. -/
def resolvingTurn (now : ℕ) : TftpEvent :=
  .run fun _ => ⟨now, .inProgress, true⟩

/-- The first job gives up after ten seconds, and the second one gets its
slot; then the resolver answers the first one. -/
def lateAnswer : List TftpEvent :=
  [.newJob firmwareOrder 1000, resolvingTurn 1001, resolvingTurn 11002,
    .newJob backupOrder 11003, resolvingTurn 11004, .peerFound ⟨0, 1⟩ 167772161]

/-- The second job sends its file to the server of the first one. -/
theorem late_answer_changes_server :
    tftpMachine.Admits .init lateAnswer ∧
      (sysTftpClientRun (tftpMachine.run .init lateAnswer).jobs
        fun _ => ⟨11005, .inProgress, true⟩).2 =
        [(0, .transfer false 167772161 69 (some (lit "backup")))] ∧
      ¬tftpMachine.Along Isolated .init lateAnswer := by
  refine ⟨by decide +kernel, by decide +kernel, fun h => ?_⟩
  have hsplit : tftpMachine.Along Isolated .init
      (lateAnswer.take 5 ++ lateAnswer.drop 5) := h
  have hlast := (tftpMachine.along_append.mp hsplit).2
  have hsame := (hlast.1 ⟨0, 1⟩ rfl
    ⟨by decide +kernel, by decide +kernel⟩).1
  exact absurd (congrArg TftpJob.peerAddr hsame) (by decide +kernel)

end Herak.Tftp
