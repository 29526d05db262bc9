import Mathlib.Data.List.Chain
import Herak.Support.EventMachine

/-!
# Polls of the boiler

One call of the main loop exchanges the status and then reads one of four groups
of values: the configuration every minute, the errors and the statistics every
ten seconds, and the measured data when none of these is due.  Although the
groups that come first have precedence, none is held up for long.
-/

namespace Herak.OpenTherm

/-! ## The code -/

/-- `CMD_SEND_INTERVAL_MS` -/
def cmdSendIntervalMs : ℕ := 1000

/-- `CMD_ERR_INTERVAL_MS` -/
def cmdErrIntervalMs : ℕ := 10000

/-- `CMD_STATS_INTERVAL_MS` -/
def cmdStatsIntervalMs : ℕ := 10000

/-- `CMD_CFG_INTERVAL_MS` -/
def cmdCfgIntervalMs : ℕ := 60000

/-- `DEV_FIND_INTERVAL_MS` -/
def devFindIntervalMs : ℕ := 300000

/-- `DEV_FIND_ATTEMPTS` -/
def devFindAttempts : ℕ := 3

/-- The fields of `opentherm_context_t` that `opentherm_dev_run` decides by, with
its static variables. -/
structure DevState where
  attached : Bool
  lastDevLookup : ℕ
  findAttempts : ℕ
  cmdStatic : Bool
  lastSend : ℕ
  lastCfgRead : ℕ
  lastErrRead : ℕ
  lastStatRead : ℕ

/-- The groups of values. -/
inductive DevRead
  | cfg
  | errors
  | stats
  | data
  deriving DecidableEq

/-- What a call of `opentherm_dev_run` does. -/
inductive DevAction
  | find (start stop : ℕ) (found : Bool)
  | readStatic
  | poll (start stop : ℕ) (group : DevRead)
  deriving DecidableEq

/-- What a call meets: the clock at its begin, behind the search, behind the
reads and at its end, and whether the boiler is found and is lost again. -/
structure DevInput where
  now : ℕ
  looked : ℕ
  found : Bool
  read : ℕ
  sent : ℕ
  lost : Bool

/-- The search of `opentherm_dev_run`; nothing if the call ends with it. -/
def devFind (dev : DevState) (i : DevInput) :
    DevState × List DevAction × Bool :=
  if dev.attached then (dev, [], true)
  else if devFindAttempts ≤ dev.findAttempts then (dev, [], false)
  else if dev.lastDevLookup ≠ 0 ∧ i.now - dev.lastDevLookup < devFindIntervalMs then
    (dev, [], false)
  else if i.found then
    ({ dev with attached := true, lastDevLookup := i.looked, findAttempts := 0 },
      [.find i.now i.looked true], true)
  else
    ({ dev with lastDevLookup := i.looked, findAttempts := dev.findAttempts + 1 },
      [.find i.now i.looked false], false)

/-- The group that is read. -/
def devGroup (dev : DevState) (now : ℕ) : DevRead :=
  if cmdCfgIntervalMs < now - dev.lastCfgRead then .cfg
  else if cmdErrIntervalMs < now - dev.lastErrRead then .errors
  else if cmdStatsIntervalMs < now - dev.lastStatRead then .stats
  else .data

/-- The time of a read. -/
def DevState.setRead (dev : DevState) (time : ℕ) : DevRead → DevState
  | .cfg => { dev with lastCfgRead := time }
  | .errors => { dev with lastErrRead := time }
  | .stats => { dev with lastStatRead := time }
  | .data => dev

/-- The part of `opentherm_dev_run` behind the search. -/
def devExchange (dev : DevState) (i : DevInput) : DevState × List DevAction :=
  if dev.cmdStatic = false then
    ({ dev with cmdStatic := true, lastSend := i.sent, attached := !i.lost },
      [.readStatic])
  else if dev.lastSend ≠ 0 ∧ i.now - dev.lastSend < cmdSendIntervalMs then (dev, [])
  else
    let group := devGroup dev i.now
    ({ dev.setRead i.read group with lastSend := i.sent, attached := !i.lost },
      [.poll i.now i.sent group])

/-- `opentherm_dev_run` -/
def openthermDevRun (dev : DevState) (i : DevInput) : DevState × List DevAction :=
  let (dev', found, goesOn) := devFind dev i
  if goesOn then ((devExchange dev' i).1, found ++ (devExchange dev' i).2)
  else (dev', found)

/-! ## Runs with a boiler -/

/-- The device with the end of its last call and all that it did. -/
structure PollState where
  dev : DevState
  clock : ℕ
  actions : List DevAction

/-- The main loop with a boiler that is not lost: a call takes at most `dur`
milliseconds, and the next one comes at most `gap` milliseconds after it. -/
structure Paced (gap dur : ℕ) (s : PollState) (i : DevInput) : Prop where
  now_ge : s.clock ≤ i.now
  now_le : i.now ≤ s.clock + gap
  read_ge : i.now ≤ i.read
  sent_ge : i.read ≤ i.sent
  sent_le : i.sent ≤ i.now + dur
  kept : i.lost = false

instance (gap dur : ℕ) (s : PollState) (i : DevInput) :
    Decidable (Paced gap dur s i) :=
  decidable_of_iff (s.clock ≤ i.now ∧ i.now ≤ s.clock + gap ∧ i.now ≤ i.read ∧
      i.read ≤ i.sent ∧ i.sent ≤ i.now + dur ∧ i.lost = false)
    ⟨fun h => ⟨h.1, h.2.1, h.2.2.1, h.2.2.2.1, h.2.2.2.2.1, h.2.2.2.2.2⟩,
      fun h => ⟨h.1, h.2, h.3, h.4, h.5, h.6⟩⟩

def pollMachine (gap dur : ℕ) : EventMachine PollState DevInput where
  step := fun s i =>
    { dev := (openthermDevRun s.dev i).1
      clock := if (openthermDevRun s.dev i).2 = [] then i.now else i.sent
      actions := s.actions ++ (openthermDevRun s.dev i).2 }
  enabled := Paced gap dur

instance (gap dur : ℕ) (s : PollState) (i : DevInput) :
    Decidable ((pollMachine gap dur).enabled s i) :=
  inferInstanceAs (Decidable (Paced gap dur s i))

/-- How many polls there were since one that read the data. -/
def pollsSinceData (actions : List DevAction) : ℕ :=
  (actions.reverse.takeWhile fun
    | .poll _ _ group => decide (group ≠ .data)
    | _ => true).length

/-- Two polls are a second apart. -/
def Apart : DevAction → DevAction → Prop
  | .poll _ stop _, .poll start _ _ => stop + cmdSendIntervalMs ≤ start
  | _, _ => True

/-! ## A poll -/

section

variable {gap dur : ℕ} {s : PollState} {i : DevInput}

theorem openthermDevRun_attached {dev : DevState} (hattached : dev.attached = true)
    (hstatic : dev.cmdStatic = true) (i : DevInput) :
    openthermDevRun dev i =
      if dev.lastSend ≠ 0 ∧ i.now - dev.lastSend < cmdSendIntervalMs then (dev, [])
      else
        ({ dev.setRead i.read (devGroup dev i.now) with
            lastSend := i.sent, attached := !i.lost },
          [.poll i.now i.sent (devGroup dev i.now)]) := by
  rw [openthermDevRun, devFind, if_pos hattached]
  change ((devExchange dev i).1, [] ++ (devExchange dev i).2) = _
  rw [List.nil_append, devExchange, if_neg (hstatic ▸ Bool.true_eq_false.mp)]

end

/-- What holds behind a poll that begins at `p`, when polls begin at most `D`
milliseconds after each other: how old the groups are that were read at `c`, `e`
and `s`, counted from `a` if they were not read since, and the `n` polls since the
data was read.  A group that is due waits only for the groups before it, and they
were read in one of the last polls. -/
structure Ages (D a p n c e s : ℕ) : Prop where
  cfg : p ≤ c + cmdCfgIntervalMs ∨ p ≤ a + cmdCfgIntervalMs
  errors : (p ≤ e + cmdErrIntervalMs ∨ p ≤ a + cmdErrIntervalMs) ∨
    p ≤ c ∧ (p ≤ e + cmdErrIntervalMs + D ∨ p ≤ a + cmdErrIntervalMs + D)
  stats : (p ≤ s + cmdStatsIntervalMs ∨ p ≤ a + cmdStatsIntervalMs) ∨
    (p ≤ c ∨ p ≤ e) ∧
      (p ≤ s + cmdStatsIntervalMs + D ∨ p ≤ a + cmdStatsIntervalMs + D) ∨
    (p ≤ c + D ∧ p ≤ e + D) ∧
      (p ≤ s + cmdStatsIntervalMs + 2 * D ∨ p ≤ a + cmdStatsIntervalMs + 2 * D)
  data : (n = 0 ∨ n ≤ 3 ∧ p ≤ c) ∨
    (p ≤ e ∨ p ≤ s) ∧ (n = 1 ∨ n ≤ 4 ∧ p ≤ c + D) ∨
    (p ≤ e ∧ p ≤ s + D ∨ p ≤ s ∧ p ≤ e + D) ∧ (n = 2 ∨ n ≤ 5 ∧ p ≤ c + 2 * D)

theorem intervals : cmdCfgIntervalMs = 60000 ∧ cmdErrIntervalMs = 10000 ∧
    cmdStatsIntervalMs = 10000 := ⟨rfl, rfl, rfl⟩

namespace Ages

variable {D a p p' n c e s time : ℕ}

theorem le_five (h : Ages D a p n c e s) : n ≤ 5 := by
  have hdata := h.data
  omega

section

variable (h : Ages D a p n c e s) (hD : 2 * D ≤ cmdErrIntervalMs)
  (hnext : p' ≤ p + D) (htime : p' ≤ time)
include h hD hnext htime

/-- The configuration is due: it was not read for long, and the data was read at
most two polls ago. -/
theorem cfg_read (hcfg : cmdCfgIntervalMs < p' - c) :
    Ages D a p' (n + 1) time e s := by
  obtain ⟨-, herrors, hstats, hdata⟩ := h
  have hms := intervals
  refine ⟨Or.inl (by omega), Or.inr ⟨htime, by omega⟩, ?_, ?_⟩
  · by_cases hrecent : p ≤ e
    · exact Or.inr (Or.inr (by omega))
    · exact Or.inr (Or.inl ⟨Or.inl htime, by omega⟩)
  · exact Or.inl (Or.inr ⟨by omega, htime⟩)

/-- The errors are due: the poll before did not read them, nor the one before it. -/
theorem errors_read (hcfg : ¬cmdCfgIntervalMs < p' - c)
    (herr : cmdErrIntervalMs < p' - e) : Ages D a p' (n + 1) c time s := by
  obtain ⟨-, -, hstats, hdata⟩ := h
  have hms := intervals
  refine ⟨Or.inl (by omega), Or.inl (Or.inl (by omega)), ?_, ?_⟩
  · by_cases hrecent : p ≤ c
    · exact Or.inr (Or.inr (by omega))
    · exact Or.inr (Or.inl ⟨Or.inr htime, by omega⟩)
  · rcases hdata with hnone | ⟨hone, hcount⟩ | ⟨htwo, -⟩
    · exact Or.inr (Or.inl ⟨Or.inl htime, by omega⟩)
    · exact Or.inr (Or.inr ⟨Or.inl ⟨htime, by omega⟩, by omega⟩)
    · omega

theorem stats_read (hcfg : ¬cmdCfgIntervalMs < p' - c)
    (herr : ¬cmdErrIntervalMs < p' - e) (hstat : cmdStatsIntervalMs < p' - s) :
    Ages D a p' (n + 1) c e time := by
  obtain ⟨-, -, -, hdata⟩ := h
  have hms := intervals
  refine ⟨Or.inl (by omega), Or.inl (Or.inl (by omega)),
    Or.inl (Or.inl (by omega)), ?_⟩
  rcases hdata with hnone | ⟨hone, hcount⟩ | ⟨htwo, -⟩
  · exact Or.inr (Or.inl ⟨Or.inr htime, by omega⟩)
  · exact Or.inr (Or.inr ⟨Or.inr ⟨htime, by omega⟩, by omega⟩)
  · omega

omit h hD hnext htime in
/-- Nothing is due. -/
theorem data_read (hcfg : ¬cmdCfgIntervalMs < p' - c)
    (herr : ¬cmdErrIntervalMs < p' - e) (hstat : ¬cmdStatsIntervalMs < p' - s) :
    Ages D a p' 0 c e s :=
  ⟨Or.inl (by omega), Or.inl (Or.inl (by omega)), Or.inl (Or.inl (by omega)),
    Or.inl (Or.inl rfl)⟩

end

/-- The ages behind a poll of the device. -/
def Of (D a p n : ℕ) (dev : DevState) : Prop :=
  Ages D a p n dev.lastCfgRead dev.lastErrRead dev.lastStatRead

theorem poll {dev : DevState} (h : Of D a p n dev) (hD : 2 * D ≤ cmdErrIntervalMs)
    (hnext : p' ≤ p + D) (htime : p' ≤ time) :
    Of D a p' (if devGroup dev p' = .data then 0 else n + 1)
      (dev.setRead time (devGroup dev p')) := by
  rw [devGroup]
  by_cases hcfg : cmdCfgIntervalMs < p' - dev.lastCfgRead
  · rw [if_pos hcfg]
    exact h.cfg_read hD hnext htime hcfg
  rw [if_neg hcfg]
  by_cases herr : cmdErrIntervalMs < p' - dev.lastErrRead
  · rw [if_pos herr]
    exact h.errors_read hD hnext htime hcfg herr
  rw [if_neg herr]
  by_cases hstat : cmdStatsIntervalMs < p' - dev.lastStatRead
  · rw [if_pos hstat]
    exact h.stats_read hD hnext htime hcfg herr hstat
  rw [if_neg hstat]
  exact data_read hcfg herr hstat

/-- Up to the next poll no group is older than its interval and one, two or three
polls. -/
theorem le_of_le {t : ℕ} (h : Ages D a p n c e s) (ht : t ≤ p + D) :
    t ≤ max c a + cmdCfgIntervalMs + D ∧
      t ≤ max e a + cmdErrIntervalMs + 2 * D ∧
      t ≤ max s a + cmdStatsIntervalMs + 3 * D := by
  obtain ⟨hcfg, herrors, hstats, -⟩ := h
  exact ⟨by omega, by omega, by omega⟩

end Ages

/-! ## Runs -/

theorem pollsSinceData_append (actions : List DevAction) (start stop : ℕ)
    (group : DevRead) :
    pollsSinceData (actions ++ [.poll start stop group]) =
      if group = .data then 0 else pollsSinceData actions + 1 := by
  rw [pollsSinceData, List.reverse_append, List.reverse_singleton,
    List.singleton_append, List.takeWhile_cons]
  by_cases hdata : group = .data
  · rw [if_pos hdata, if_neg (by rw [decide_eq_true_eq]; exact not_not.mpr hdata)]
    rfl
  · rw [if_neg hdata, if_pos (decide_eq_true hdata)]
    rfl

/-- A run with a boiler, whose last poll began at `p`. -/
structure Polling (gap dur a p : ℕ) (s : PollState) : Prop where
  attached : s.dev.attached = true
  static : s.dev.cmdStatic = true
  start_le : a ≤ p
  clock_ge : p ≤ s.clock
  send_le : s.dev.lastSend ≤ p + dur
  clock_le : s.clock < s.dev.lastSend + cmdSendIntervalMs ∨ s.clock ≤ p + dur
  recent : s.clock < max s.dev.lastSend a + cmdSendIntervalMs
  ages : Ages.Of (cmdSendIntervalMs + dur + gap) a p (pollsSinceData s.actions) s.dev
  apart : s.actions.IsChain Apart
  last : ∀ act ∈ s.actions.getLast?, ∃ start group,
    act = .poll start s.dev.lastSend group ∧ 0 < s.dev.lastSend

section

variable {gap dur a p : ℕ} {s : PollState} {i : DevInput}

/-- A call that comes too early does nothing. -/
theorem Polling.wait (h : Polling gap dur a p s) (hi : Paced gap dur s i)
    (hwait : s.dev.lastSend ≠ 0 ∧ i.now - s.dev.lastSend < cmdSendIntervalMs) :
    Polling gap dur a p ⟨s.dev, i.now, s.actions⟩ := by
  have hearly : i.now < s.dev.lastSend + cmdSendIntervalMs := by
    have hlt := hwait.2
    omega
  exact ⟨h.attached, h.static, h.start_le, h.clock_ge.trans hi.now_ge, h.send_le,
    Or.inl hearly, hearly.trans_le (Nat.add_le_add_right (le_max_left _ _) _),
    h.ages, h.apart, h.last⟩

/-- A poll. -/
theorem Polling.poll (h : Polling gap dur a p s) (ha : 0 < a)
    (hpace : 2 * (cmdSendIntervalMs + dur + gap) ≤ cmdErrIntervalMs)
    (hi : Paced gap dur s i)
    (hready : ¬(s.dev.lastSend ≠ 0 ∧ i.now - s.dev.lastSend < cmdSendIntervalMs)) :
    Polling gap dur a i.now
      ⟨{ s.dev.setRead i.read (devGroup s.dev i.now) with
          lastSend := i.sent, attached := !i.lost }, i.sent,
        s.actions ++ [.poll i.now i.sent (devGroup s.dev i.now)]⟩ := by
  have hstart := h.start_le.trans (h.clock_ge.trans hi.now_ge)
  have hend := hi.read_ge.trans hi.sent_ge
  have hpos : 0 < cmdSendIntervalMs := Nat.zero_lt_succ _
  have hnext : i.now ≤ p + (cmdSendIntervalMs + dur + gap) := by
    have hle := hi.now_le
    have hsend := h.send_le
    rcases h.clock_le with hclock | hclock
    · omega
    · omega
  refine ⟨?_, ?_, hstart, hend, hi.sent_le, Or.inr hi.sent_le, ?_, ?_, ?_, ?_⟩
  · rw [hi.kept]
    rfl
  · change (s.dev.setRead i.read (devGroup s.dev i.now)).cmdStatic = true
    cases devGroup s.dev i.now with
    | _ => exact h.static
  · exact (Nat.lt_add_of_pos_right hpos).trans_le
      (Nat.add_le_add_right (le_max_left _ _) _)
  · rw [pollsSinceData_append]
    exact Ages.poll h.ages hpace hnext hi.read_ge
  · refine List.isChain_append.mpr ⟨h.apart, List.isChain_singleton _, ?_⟩
    rintro act hact next ⟨⟩
    obtain ⟨start, group, rfl, hsent⟩ := h.last act hact
    have hlate := not_and.mp hready hsent.ne'
    change s.dev.lastSend + cmdSendIntervalMs ≤ i.now
    omega
  · rintro act hact
    rw [List.getLast?_concat] at hact
    cases hact
    exact ⟨i.now, devGroup s.dev i.now, rfl, ha.trans_le (hstart.trans hend)⟩

theorem Polling.step (h : Polling gap dur a p s) (ha : 0 < a)
    (hpace : 2 * (cmdSendIntervalMs + dur + gap) ≤ cmdErrIntervalMs)
    (hi : Paced gap dur s i) :
    ∃ p', Polling gap dur a p' ((pollMachine gap dur).step s i) := by
  have hrun := openthermDevRun_attached h.attached h.static i
  by_cases hwait : s.dev.lastSend ≠ 0 ∧ i.now - s.dev.lastSend < cmdSendIntervalMs
  · rw [if_pos hwait] at hrun
    have hstep : (pollMachine gap dur).step s i = ⟨s.dev, i.now, s.actions⟩ := by
      change PollState.mk (openthermDevRun s.dev i).1 _ _ = _
      rw [hrun, if_pos rfl, List.append_nil]
    exact ⟨p, hstep ▸ h.wait hi hwait⟩
  · rw [if_neg hwait] at hrun
    have hstep : (pollMachine gap dur).step s i =
        ⟨{ s.dev.setRead i.read (devGroup s.dev i.now) with
            lastSend := i.sent, attached := !i.lost }, i.sent,
          s.actions ++ [.poll i.now i.sent (devGroup s.dev i.now)]⟩ := by
      change PollState.mk (openthermDevRun s.dev i).1 _ _ = _
      rw [hrun, if_neg (List.cons_ne_nil _ _)]
    exact ⟨i.now, hstep ▸ h.poll ha hpace hi hwait⟩

end

/-- While the boiler is there, and calls come in time, polls are a second apart,
no group gets older than its interval and a few polls, and one of six polls in a
row reads the data. -/
theorem opentherm_polls {gap dur : ℕ}
    (hpace : 2 * (cmdSendIntervalMs + dur + gap) ≤ cmdErrIntervalMs)
    {dev : DevState} (hattached : dev.attached = true) (hstatic : dev.cmdStatic = true)
    {a : ℕ} (ha : 0 < a) (hsend : dev.lastSend ≤ a) {inputs : List DevInput}
    (h : (pollMachine gap dur).Admits ⟨dev, a, []⟩ inputs) :
    let s := (pollMachine gap dur).run ⟨dev, a, []⟩ inputs
    let D := cmdSendIntervalMs + dur + gap
    s.actions.IsChain Apart ∧ pollsSinceData s.actions ≤ 5 ∧
      s.clock < max s.dev.lastSend a + cmdSendIntervalMs ∧
      s.clock ≤ max s.dev.lastCfgRead a + cmdCfgIntervalMs + D ∧
      s.clock ≤ max s.dev.lastErrRead a + cmdErrIntervalMs + 2 * D ∧
      s.clock ≤ max s.dev.lastStatRead a + cmdStatsIntervalMs + 3 * D := by
  have hinit : ∃ p, Polling gap dur a p ⟨dev, a, []⟩ := by
    refine ⟨a, hattached, hstatic, le_rfl, le_rfl, hsend.trans (Nat.le_add_right _ _),
      Or.inr (Nat.le_add_right _ _), ?_, ?_, List.isChain_nil, nofun⟩
    · exact Nat.lt_of_lt_of_le (Nat.lt_add_of_pos_right (Nat.zero_lt_succ _))
        (Nat.add_le_add_right (le_max_right _ _) _)
    · exact ⟨Or.inr (Nat.le_add_right _ _), Or.inl (Or.inr (Nat.le_add_right _ _)),
        Or.inl (Or.inr (Nat.le_add_right _ _)), Or.inl (Or.inl rfl)⟩
  obtain ⟨p, hp⟩ := h.invariant (I := fun s => ∃ p, Polling gap dur a p s)
    (fun s i ⟨p, hp⟩ hi => hp.step ha hpace hi) hinit
  have hclock : ((pollMachine gap dur).run ⟨dev, a, []⟩ inputs).clock ≤
      p + (cmdSendIntervalMs + dur + gap) := by
    have hle := hp.send_le
    rcases hp.clock_le with hclock | hclock
    · omega
    · omega
  exact ⟨hp.apart, Ages.le_five hp.ages, hp.recent, Ages.le_of_le hp.ages hclock⟩

/-- A boiler that was found 70 seconds after the boot. -/
def foundDev : DevState where
  attached := true
  lastDevLookup := 69000
  findAttempts := 0
  cmdStatic := true
  lastSend := 69500
  lastCfgRead := 0
  lastErrRead := 0
  lastStatRead := 0

/-- Four polls, and a call that comes too early. -/
def fourPolls : List DevInput :=
  [⟨70500, 0, false, 70900, 71000, false⟩, ⟨71500, 0, false, 71500, 71500, false⟩,
    ⟨72000, 0, false, 72400, 72500, false⟩, ⟨73500, 0, false, 73900, 74000, false⟩,
    ⟨75000, 0, false, 75400, 75500, false⟩]

example : ((pollMachine 1000 500).run ⟨foundDev, 70000, []⟩ fourPolls).actions =
    [.poll 70500 71000 .cfg, .poll 72000 72500 .errors, .poll 73500 74000 .stats,
      .poll 75000 75500 .data] := by decide

theorem opentherm_polls_fourPolls :
    let s := (pollMachine 1000 500).run ⟨foundDev, 70000, []⟩ fourPolls
    s.actions.IsChain Apart ∧ pollsSinceData s.actions ≤ 5 ∧
      s.clock < max s.dev.lastSend 70000 + cmdSendIntervalMs ∧
      s.clock ≤ max s.dev.lastCfgRead 70000 + cmdCfgIntervalMs + 2500 ∧
      s.clock ≤ max s.dev.lastErrRead 70000 + cmdErrIntervalMs + 2 * 2500 ∧
      s.clock ≤ max s.dev.lastStatRead 70000 + cmdStatsIntervalMs + 3 * 2500 :=
  opentherm_polls (by decide) rfl rfl (by decide) (by decide) (by decide)

end Herak.OpenTherm
