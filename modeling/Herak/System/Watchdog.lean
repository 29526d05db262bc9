import Mathlib.Data.Int.Order.Basic
import Herak.Support.EventMachine

/-!
# Watchdog and forced reboot

The device is never reset by its software: a forced reboot sets a time from which
the watchdog is not updated, and the hardware does the rest.  So when it resets
depends on who updates the watchdog, and how often.
-/

namespace Herak.System

/-- `WATCHDOG_TIMEOUT_MS` -/
def watchdogTimeoutMs : ℕ := 8300

/-- What a module may call of the system, and the time that its own work takes;
the last one stands for `mod.run = NULL` of a module. -/
inductive SysCall
  | elapse (ms : ℕ)
  | wdUpdate
  | forceReboot (delayMs : ℤ)
  | reconnect
  | jobStateSet (job : UInt32)
  | jobStateClear (job : UInt32)
  | runStop (i : ℕ)
  deriving DecidableEq

/-- The clock in milliseconds, when the watchdog was updated last, and
`reboot_time`. -/
structure Watch where
  now : ℕ
  fed : ℕ
  rebootTime : ℕ

namespace Watch

/-- The end of `system_common_init`. -/
def boot (now : ℕ) : Watch where
  now := now
  fed := now
  rebootTime := 0

/-- `system_force_reboot` -/
def systemForceReboot (w : Watch) (delayMs : ℤ) : Watch :=
  { w with rebootTime :=
      if watchdogTimeoutMs < delayMs then
        w.now + (delayMs - watchdogTimeoutMs).toNat
      else w.now }

/-- `wd_update` -/
def wdUpdate (w : Watch) : Watch :=
  if w.rebootTime < 1 ∨ w.now < w.rebootTime then { w with fed := w.now } else w

def exec (w : Watch) : SysCall → Watch
  | .elapse ms => { w with now := w.now + ms }
  | .wdUpdate => w.wdUpdate
  | .forceReboot delayMs => w.systemForceReboot delayMs
  | _ => w

/-- The watchdog was not updated for so long that it resets the device. -/
def Expired (w : Watch) : Prop := watchdogTimeoutMs < w.now - w.fed

instance (w : Watch) : Decidable w.Expired :=
  inferInstanceAs (Decidable (_ < _))

end Watch

/-- The calls in any order, but for a forced reboot behind the time of another
one. -/
def watchMachine : EventMachine Watch SysCall where
  step := Watch.exec
  enabled := fun w call =>
    match call with
    | .forceReboot _ => w.rebootTime = 0 ∨ w.now < w.rebootTime
    | _ => True

instance (w : Watch) (call : SysCall) : Decidable (watchMachine.enabled w call) :=
  match call with
  | .forceReboot _ =>
      inferInstanceAs (Decidable (w.rebootTime = 0 ∨ w.now < w.rebootTime))
  | .elapse _ => .isTrue trivial
  | .wdUpdate => .isTrue trivial
  | .reconnect => .isTrue trivial
  | .jobStateSet _ => .isTrue trivial
  | .jobStateClear _ => .isTrue trivial
  | .runStop _ => .isTrue trivial

/-! ## Work between two updates -/

/-- How long the work goes on since the last update. -/
def busyAfter (busy : ℕ) : SysCall → ℕ
  | .elapse ms => busy + ms
  | .wdUpdate => 0
  | _ => busy

/-- The work between two updates takes at most `g` milliseconds. -/
def Brief (g : ℕ) : ℕ → List SysCall → Prop
  | _, [] => True
  | busy, call :: calls =>
      busyAfter busy call ≤ g ∧ Brief g (busyAfter busy call) calls

instance decidableBrief (g : ℕ) : ∀ busy calls, Decidable (Brief g busy calls)
  | _, [] => .isTrue trivial
  | busy, call :: calls =>
      have := decidableBrief g (busyAfter busy call) calls
      inferInstanceAs (Decidable (_ ∧ _))

/-- No forced reboot. -/
def Calm (calls : List SysCall) : Prop := ∀ delayMs, .forceReboot delayMs ∉ calls

section

variable {g busy : ℕ} {call : SysCall} {calls calls' : List SysCall}

theorem Brief.append (h : Brief g busy calls) (h' : Brief g 0 calls') :
    Brief g busy (calls ++ .wdUpdate :: calls') := by
  induction calls generalizing busy with
  | nil => exact ⟨Nat.zero_le g, h'⟩
  | cons call calls ih => exact ⟨h.1, ih h.2⟩

theorem Brief.of_append (h : Brief g busy (calls ++ calls')) :
    Brief g busy calls := by
  induction calls generalizing busy with
  | nil => trivial
  | cons call calls ih => exact ⟨h.1, ih h.2⟩

theorem brief_append :
    Brief g busy (calls ++ calls') ↔
      Brief g busy calls ∧ Brief g (calls.foldl busyAfter busy) calls' := by
  induction calls generalizing busy with
  | nil => exact (and_iff_right trivial).symm
  | cons call calls ih => exact (and_congr_right fun _ => ih).trans and_assoc.symm

theorem Brief.busy_le (h : Brief g busy calls) (hbusy : busy ≤ g) :
    calls.foldl busyAfter busy ≤ g := by
  induction calls generalizing busy with
  | nil => exact hbusy
  | cons call calls ih => exact ih h.2 h.1

theorem Calm.of_cons (h : Calm (call :: calls)) :
    (∀ delayMs, call ≠ .forceReboot delayMs) ∧ Calm calls :=
  ⟨fun delayMs heq => h delayMs (heq ▸ List.mem_cons_self),
    fun delayMs hmem => h delayMs (List.mem_cons_of_mem _ hmem)⟩

end

namespace Watch

variable {w : Watch} {g busy r : ℕ} {call : SysCall} {calls : List SysCall}

theorem wdUpdate_now (w : Watch) : w.wdUpdate.now = w.now := by
  rw [wdUpdate]
  split
  · rfl
  · rfl

theorem wdUpdate_rebootTime (w : Watch) : w.wdUpdate.rebootTime = w.rebootTime := by
  rw [wdUpdate]
  split
  · rfl
  · rfl

/-- Before the time of a forced reboot the watchdog is updated. -/
theorem wdUpdate_live (h : w.rebootTime = 0 ∨ w.now < w.rebootTime) :
    w.wdUpdate = { w with fed := w.now } :=
  if_pos (h.imp_left fun hzero => hzero ▸ Nat.one_pos)

/-- From the time of a forced reboot on it is not. -/
theorem wdUpdate_due (hpos : 0 < w.rebootTime) (hdue : w.rebootTime ≤ w.now) :
    w.wdUpdate = w :=
  if_neg (not_or_intro (Nat.not_lt.mpr hpos) (Nat.not_lt.mpr hdue))

/-- The time from which a forced reboot stops the updates, and what the message
says of it. -/
theorem systemForceReboot_rebootTime (w : Watch) (delayMs : ℤ) :
    w.now ≤ (w.systemForceReboot delayMs).rebootTime ∧
      ((w.systemForceReboot delayMs).rebootTime : ℤ) + watchdogTimeoutMs =
        w.now + max delayMs watchdogTimeoutMs := by
  rw [systemForceReboot]
  split
  next hlt =>
      rw [max_eq_left hlt.le]
      refine ⟨Nat.le_add_right _ _, ?_⟩
      change ((w.now + (delayMs - watchdogTimeoutMs).toNat : ℕ) : ℤ) + _ = _
      omega
  next hle =>
      rw [max_eq_right (not_lt.mp hle)]
      exact ⟨le_rfl, rfl⟩

/-! ## Runs -/

/-- Up to the time of a forced reboot the watchdog is updated at each
occasion. -/
def Served (busy : ℕ) (w : Watch) : Prop :=
  w.rebootTime = 0 ∨ w.now < w.rebootTime → w.now = w.fed + busy

theorem Served.step (h : Served busy w) (henabled : watchMachine.enabled w call) :
    Served (busyAfter busy call) (w.exec call) := by
  intro hlive
  cases call with
  | elapse ms =>
      have hbefore := h (hlive.imp_right fun hlt => Nat.lt_of_add_right_lt hlt)
      change w.now + ms = w.fed + (busy + ms)
      rw [hbefore, Nat.add_assoc]
  | wdUpdate =>
      change w.wdUpdate.rebootTime = 0 ∨ w.wdUpdate.now < w.wdUpdate.rebootTime
        at hlive
      rw [wdUpdate_now, wdUpdate_rebootTime] at hlive
      change w.wdUpdate.now = w.wdUpdate.fed + 0
      rw [wdUpdate_live hlive]
      rfl
  | forceReboot delayMs => exact h henabled
  | _ => exact h hlive

theorem Served.run (h : Served busy w) (hadmits : watchMachine.Admits w calls) :
    Served (calls.foldl busyAfter busy) (watchMachine.run w calls) := by
  induction calls generalizing w busy with
  | nil => exact h
  | cons call calls ih => exact ih (h.step hadmits.1) hadmits.2

/-- The clock does not go back, and an update is not ahead of it. -/
theorem exec_le (h : w.fed ≤ w.now) (call : SysCall) :
    (w.exec call).fed ≤ (w.exec call).now ∧ w.now ≤ (w.exec call).now := by
  cases call with
  | elapse ms => exact ⟨h.trans (Nat.le_add_right _ _), Nat.le_add_right _ _⟩
  | wdUpdate =>
      change w.wdUpdate.fed ≤ w.wdUpdate.now ∧ w.now ≤ w.wdUpdate.now
      rw [wdUpdate]
      split
      · exact ⟨le_rfl, le_rfl⟩
      · exact ⟨h, le_rfl⟩
  | _ => exact ⟨h, le_rfl⟩

theorem run_le (h : w.fed ≤ w.now) (calls : List SysCall) :
    (watchMachine.run w calls).fed ≤ (watchMachine.run w calls).now ∧
      w.now ≤ (watchMachine.run w calls).now := by
  induction calls generalizing w with
  | nil => exact ⟨h, le_rfl⟩
  | cons call calls ih =>
      obtain ⟨hfed, hnow⟩ := exec_le h call
      exact ⟨(ih hfed).1, hnow.trans (ih hfed).2⟩

/-- Without a forced reboot there is no time of one. -/
theorem rebootTime_run_calm (hcalm : Calm calls) :
    (watchMachine.run w calls).rebootTime = w.rebootTime := by
  induction calls generalizing w with
  | nil => rfl
  | cons call calls ih =>
      obtain ⟨hcall, hrest⟩ := hcalm.of_cons
      refine (ih hrest).trans ?_
      cases call with
      | wdUpdate => exact wdUpdate_rebootTime w
      | forceReboot delayMs => exact absurd rfl (hcall delayMs)
      | _ => rfl

/-- A reboot is set to a time, and the watchdog is not updated from then on. -/
structure Awaits (r : ℕ) (w : Watch) : Prop where
  time : w.rebootTime = r
  pos : 0 < r
  fed_le : w.fed ≤ r

theorem Awaits.step (h : Awaits r w) (hcall : ∀ delayMs, call ≠ .forceReboot delayMs) :
    Awaits r (w.exec call) := by
  cases call with
  | wdUpdate =>
      refine ⟨(wdUpdate_rebootTime w).trans h.time, h.pos, ?_⟩
      change w.wdUpdate.fed ≤ r
      by_cases hlive : w.now < w.rebootTime
      · rw [wdUpdate_live (Or.inr hlive)]
        exact (h.time ▸ hlive).le
      · rw [wdUpdate_due (h.time ▸ h.pos) (not_lt.mp hlive)]
        exact h.fed_le
  | forceReboot delayMs => exact absurd rfl (hcall delayMs)
  | _ => exact ⟨h.time, h.pos, h.fed_le⟩

theorem Awaits.run (h : Awaits r w) (hcalm : Calm calls) :
    Awaits r (watchMachine.run w calls) := by
  induction calls generalizing w with
  | nil => exact h
  | cons call calls ih =>
      obtain ⟨hcall, hrest⟩ := hcalm.of_cons
      exact ih (h.step hcall) hrest

/-- The last update is not long before the time of the reboot. -/
def Close (g r : ℕ) (w : Watch) : Prop := r ≤ w.now → r ≤ w.fed + g

theorem Close.step (h : Close g r w) (hawaits : Awaits r w)
    (hserved : Served busy w) (hcall : ∀ delayMs, call ≠ .forceReboot delayMs)
    (hbusy : busyAfter busy call ≤ g) : Close g r (w.exec call) := by
  intro hdue
  cases call with
  | elapse ms =>
      by_cases hlive : w.now < r
      · have hbefore := hserved (Or.inr (hawaits.time.symm ▸ hlive))
        refine hdue.trans ?_
        change w.now + ms ≤ w.fed + g
        rw [hbefore, Nat.add_assoc]
        exact Nat.add_le_add_left hbusy _
      · exact h (not_lt.mp hlive)
  | wdUpdate =>
      change r ≤ w.wdUpdate.now at hdue
      rw [wdUpdate_now] at hdue
      change r ≤ w.wdUpdate.fed + g
      rw [wdUpdate_due (hawaits.time.symm ▸ hawaits.pos) (hawaits.time.symm ▸ hdue)]
      exact h hdue
  | forceReboot delayMs => exact absurd rfl (hcall delayMs)
  | _ => exact h hdue

theorem Close.run (h : Close g r w) (hawaits : Awaits r w) (hserved : Served busy w)
    (hcalm : Calm calls) (hbrief : Brief g busy calls)
    (hadmits : watchMachine.Admits w calls) :
    Close g r (watchMachine.run w calls) := by
  induction calls generalizing w busy with
  | nil => exact h
  | cons call calls ih =>
      obtain ⟨hcall, hrest⟩ := hcalm.of_cons
      exact ih (h.step hawaits hserved hcall hbrief.1) (hawaits.step hcall)
        (hserved.step hadmits.1) hrest hbrief.2 hadmits.2

/-! ## When the device resets -/

theorem awaits_systemForceReboot (hfed : w.fed ≤ w.now) (hpos : 0 < w.now)
    (delayMs : ℤ) :
    Awaits (w.systemForceReboot delayMs).rebootTime
      (w.systemForceReboot delayMs) := by
  have hle := (systemForceReboot_rebootTime w delayMs).1
  exact ⟨rfl, hpos.trans_le hle, hfed.trans hle⟩

theorem close_systemForceReboot (hserved : Served busy w) (hbusy : busy ≤ g)
    (hlive : w.rebootTime = 0 ∨ w.now < w.rebootTime) (delayMs : ℤ) :
    Close g (w.systemForceReboot delayMs).rebootTime
      (w.systemForceReboot delayMs) := by
  intro hdue
  refine hdue.trans ?_
  change w.now ≤ w.fed + g
  rw [hserved hlive]
  exact Nat.add_le_add_left hbusy _

/-- While no reboot is under way, and the work between two updates is brief, the
watchdog does not expire. -/
theorem Served.not_expired (h : Served busy w) (hbusy : busy ≤ watchdogTimeoutMs)
    (hlive : w.rebootTime = 0 ∨ w.now < w.rebootTime) : ¬w.Expired := by
  rw [Expired, h hlive, Nat.add_sub_cancel_left]
  exact Nat.not_lt.mpr hbusy

/-- When a reboot is under way, it does not expire before its time is near. -/
theorem Close.not_expired (h : Close g r w) (hdue : r ≤ w.now)
    (hearly : w.now + g ≤ r + watchdogTimeoutMs) : ¬w.Expired := by
  have hclose := h hdue
  rw [Expired]
  omega

/-- Behind the time of a reboot and that of the watchdog it is expired. -/
theorem Awaits.expired (h : Awaits r w) (hlate : r + watchdogTimeoutMs < w.now) :
    w.Expired := by
  have hfed := h.fed_le
  rw [Expired]
  omega

variable {delayMs : ℤ}

theorem expired_of_forceReboot (hfed : w.fed ≤ w.now) (hpos : 0 < w.now)
    (hcalm : Calm calls)
    (hlate : (w.now : ℤ) + max delayMs watchdogTimeoutMs <
      (watchMachine.run (w.systemForceReboot delayMs) calls).now) :
    (watchMachine.run (w.systemForceReboot delayMs) calls).Expired := by
  apply ((awaits_systemForceReboot hfed hpos delayMs).run hcalm).expired
  rw [← (systemForceReboot_rebootTime w delayMs).2] at hlate
  exact_mod_cast hlate

theorem not_expired_of_forceReboot (hg : g ≤ watchdogTimeoutMs)
    (hfed : w.fed ≤ w.now) (hpos : 0 < w.now) (hserved : Served busy w)
    (hbusy : busy ≤ g) (hlive : w.rebootTime = 0 ∨ w.now < w.rebootTime)
    (hbrief : Brief g busy calls)
    (hadmits : watchMachine.Admits (w.systemForceReboot delayMs) calls)
    (hcalm : Calm calls)
    (hearly : ((watchMachine.run (w.systemForceReboot delayMs) calls).now : ℤ) + g ≤
      w.now + max delayMs watchdogTimeoutMs) :
    ¬(watchMachine.run (w.systemForceReboot delayMs) calls).Expired := by
  have hforced : Served busy (w.systemForceReboot delayMs) := fun _ => hserved hlive
  have hawaits := awaits_systemForceReboot hfed hpos delayMs
  have hclose := close_systemForceReboot hserved hbusy hlive delayMs
  have htime := (hawaits.run hcalm).time
  by_cases hdue : (w.systemForceReboot delayMs).rebootTime ≤
      (watchMachine.run (w.systemForceReboot delayMs) calls).now
  · refine (hclose.run hawaits hforced hcalm hbrief hadmits).not_expired hdue ?_
    rw [← (systemForceReboot_rebootTime w delayMs).2] at hearly
    exact_mod_cast hearly
  · refine (hforced.run hadmits).not_expired ((hbrief.busy_le hbusy).trans hg)
      (Or.inr ?_)
    rw [htime]
    exact not_le.mp hdue

/-! ## From the begin -/

theorem served_boot (start : ℕ) : Served 0 (boot start) := fun _ => rfl

variable {start : ℕ} {before after : List SysCall}

/-- While the work between two updates is brief, the watchdog does not expire but
for a forced reboot, and then not before its delay, but for the work between two
updates. -/
theorem not_expired_boot (hg : g ≤ watchdogTimeoutMs) (hstart : 0 < start)
    (hbrief : Brief g 0 calls) (hadmits : watchMachine.Admits (boot start) calls) :
    (Calm calls → ¬(watchMachine.run (boot start) calls).Expired) ∧
      ∀ (before : List SysCall) (delayMs : ℤ) (after : List SysCall),
        calls = before ++ .forceReboot delayMs :: after → Calm after →
        ((watchMachine.run (boot start) calls).now : ℤ) + g ≤
          (watchMachine.run (boot start) before).now +
            max delayMs watchdogTimeoutMs →
        ¬(watchMachine.run (boot start) calls).Expired := by
  refine ⟨fun hcalm => ?_, ?_⟩
  · refine ((served_boot start).run hadmits).not_expired
      ((hbrief.busy_le (Nat.zero_le g)).trans hg) (Or.inl ?_)
    exact rebootTime_run_calm hcalm
  · rintro before delayMs after rfl hcalm hearly
    obtain ⟨hfed, hnow⟩ := run_le (w := boot start) le_rfl before
    obtain ⟨hbefore, hafter⟩ := brief_append.mp hbrief
    obtain ⟨hadmitted, hforce⟩ := watchMachine.along_append.mp hadmits
    rw [EventMachine.run_append, EventMachine.run_cons] at hearly ⊢
    exact not_expired_of_forceReboot hg hfed (hstart.trans_le hnow)
      ((served_boot start).run hadmitted) (hbefore.busy_le (Nat.zero_le g)) hforce.1
      hafter.2 hforce.2 hcalm hearly

/-- A forced reboot comes at the latest with its delay, or with that of the
watchdog, whatever the modules do. -/
theorem expired_boot (hstart : 0 < start) (hcalm : Calm after)
    (hlate : ((watchMachine.run (boot start) before).now : ℤ) +
        max delayMs watchdogTimeoutMs <
      (watchMachine.run (boot start)
        (before ++ .forceReboot delayMs :: after)).now) :
    (watchMachine.run (boot start)
      (before ++ .forceReboot delayMs :: after)).Expired := by
  obtain ⟨hfed, hnow⟩ := run_le (w := boot start) le_rfl before
  rw [EventMachine.run_append, EventMachine.run_cons] at hlate ⊢
  exact expired_of_forceReboot hfed (hstart.trans_le hnow) hcalm hlate

end Watch

end Herak.System
