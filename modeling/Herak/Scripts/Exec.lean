import Herak.Scripts.Lines

/-!
# The execution of a script

From the start of a script on, each round of the module passes one piece of its
file on, until a round finds the end of the file and closes it.  Commands of
the module between the rounds do not touch the script that is being read, nor
do the calls that the other users of the files make with handles of their own.
Only `fs_close_all` closes the file behind the script, be it a command of the
script or of somebody else.
-/

namespace Herak.Scripts

open CString Fs

variable {env : ScriptsEnv} {s : ScriptsSystem} {j : ℕ}

/-! ## The property -/

/-- What happens while scripts run: the rounds and the commands of the module,
and the calls of the other users of the files. -/
inductive FilesEvent
  | scripts (e : ScriptsEvent)
  | others (e : FsEvent)

def FilesEvent.isTick : FilesEvent → Bool
  | .scripts e => e.isTick
  | .others _ => false

/-- The file of the running script can be opened, `pico_open` returns no
descriptor that is in use, and the others use no handle of the running script;
whether they may close all files is `closing`. -/
def Shares (closing : Prop) (s : ScriptsSystem) : FilesEvent → Prop
  | .scripts (.tick t) =>
      ∀ p ∈ s.ctx.running, p.2.fd < 0 →
        -1 ∈ s.fs.openFd ∧ 0 ≤ t.opened ∧ t.opened ∉ s.fs.openFd
  | .scripts _ => True
  | .others (.open opened _) => opened < 0 ∨ opened ∉ s.fs.openFd
  | .others .closeAll => closing
  | .others (.close handle) | .others (.read handle _ _)
  | .others (.gets handle _ _) | .others (.write handle _ _) =>
      ∀ p ∈ s.ctx.running, (handle.fd : ℤ) ≠ p.2.fd

namespace ScriptsSystem

def filesStep (env : ScriptsEnv) (s : ScriptsSystem) :
    FilesEvent → ScriptsSystem
  | .scripts e => s.step env e
  | .others e => { s with fs := s.fs.after e }

def filesPassed (env : ScriptsEnv) (s : ScriptsSystem) :
    FilesEvent → Option Passed
  | .scripts e => s.passed env e
  | .others _ => none

end ScriptsSystem

def filesMachine (env : ScriptsEnv) : EventMachine ScriptsSystem FilesEvent where
  step := ScriptsSystem.filesStep env
  enabled := Shares True

/-- What a schedule passes to `cmd_exec`. -/
def trace (env : ScriptsEnv) : ScriptsSystem → List FilesEvent → List Passed
  | _, [] => []
  | s, e :: es =>
      (s.filesPassed env e).toList ++ trace env (s.filesStep env e) es

/-- The number of rounds of a schedule. -/
def rounds (es : List FilesEvent) : ℕ :=
  es.countP FilesEvent.isTick

/-- The script `j` has been started, and the table of opened files has room. -/
structure Started (s : ScriptsSystem) (j : ℕ) (script : Script) : Prop where
  running : s.ctx.run = some j
  fd : script.fd = -1
  loaded : s.ctx.scripts[j]? = some script
  line : s.ctx.line.length = maxLine
  table : ∀ fd ∈ s.fs.openFd, -1 ≤ fd
  room : -1 ∈ s.fs.openFd

/-- The script `j` is done, and has no file open. -/
structure Finished (s : ScriptsSystem) (j : ℕ) : Prop where
  running : s.ctx.run = none
  fd : ∀ script ∈ s.ctx.scripts[j]?, script.fd = -1

/-- The table without the entry of a handle. -/
def freed (table : List ℤ) (fd : ℤ) : List ℤ :=
  if fd < 0 then table else table.set fd.toNat (-1)

/-- Between the two states the file of the script `j` is closed, and no
other. -/
def ClosesOwn (j : ℕ) (s s' : ScriptsSystem) : Prop :=
  ∀ script ∈ s.ctx.scripts[j]?, s'.fs.openFd = freed s.fs.openFd script.fd

/-- Whatever happens in between, the `n`-th round from here finds the commands
passed on, once and in order, closes the file and ends the script; until then
the script is running and nothing else has been passed on. -/
def FaithfulIn (env : ScriptsEnv) (closing : Prop) (j : ℕ)
    (commands : List Passed) (n : ℕ) (s : ScriptsSystem) : Prop :=
  ∀ es, (filesMachine env).Along (Shares closing) s es →
    (rounds es < n → ((filesMachine env).run s es).ctx.run = some j ∧
      trace env s es <+: commands) ∧
    (rounds es = n → trace env s es = commands ∧
      Finished ((filesMachine env).run s es) j) ∧
    (rounds es + 1 = n → ∀ t,
      Shares closing ((filesMachine env).run s es) (.scripts (.tick t)) →
        ClosesOwn j ((filesMachine env).run s es)
          (sysScriptsRun env ((filesMachine env).run s es) t).2)

/-- The rounds of the module pass the commands of the file on. -/
def Faithful (env : ScriptsEnv) (closing : Prop) (s : ScriptsSystem) (j : ℕ)
    (file : CStr) : Prop :=
  ∃ n, FaithfulIn env closing j (commandsOf (env.files file)) n s

/-! ## The table of opened files -/

/-- The descriptor is in the entry `i`, and in no other. -/
structure Holds (fs : FsContext) (i : ℕ) (pico : ℤ) : Prop where
  nonneg : 0 ≤ pico
  entry : fs.openFd[i]? = some pico
  only : ∀ k : ℕ, fs.openFd[k]? = some pico → k = i

theorem Holds.fd? {fs : FsContext} {i : ℕ} {pico : ℤ} (h : Holds fs i pico) :
    fs.fd? i = some pico := by
  have hnonneg := h.nonneg
  exact FsContext.fd?_eq_some.mpr ⟨h.entry, by omega⟩

/-- The first free entry of the table is the one that is opened. -/
theorem fsOpen_spec {fs : FsContext} {opened : ℤ} (content : List UInt8)
    (htable : ∀ fd ∈ fs.openFd, -1 ≤ fd) (hroom : -1 ∈ fs.openFd)
    (hopened : 0 ≤ opened) :
    ∃ i : ℕ, fs.openFd[i]? = some (-1) ∧
      fsOpen fs opened content =
        ((i : ℤ),
          { openFd := fs.openFd.set i opened
            unread := Function.update fs.unread opened content }) := by
  have hsome : (fs.openFd.findIdx? (· < 0)).isSome := by
    rw [List.findIdx?_isSome, List.any_eq_true]
    exact ⟨-1, hroom, by simp⟩
  obtain ⟨i, hi⟩ := Option.isSome_iff_exists.mp hsome
  obtain ⟨hlt, hneg, -⟩ := List.findIdx?_eq_some_iff_getElem.mp hi
  have hentry : fs.openFd[i] = -1 := by
    have hge := htable _ (List.getElem_mem hlt)
    simp only [decide_eq_true_eq] at hneg
    omega
  refine ⟨i, ?_, ?_⟩
  · rw [List.getElem?_eq_getElem hlt, hentry]
  · simp only [fsOpen, hi]
    rw [if_neg (by omega)]

/-- A free entry takes a descriptor that is not in use. -/
theorem holds_set {table : List ℤ} {i : ℕ} {opened : ℤ}
    (hentry : table[i]? = some (-1)) (hopened : 0 ≤ opened)
    (hfresh : opened ∉ table) (unread : ℤ → List UInt8) :
    Holds ⟨table.set i opened, unread⟩ i opened where
  nonneg := hopened
  entry := List.getElem?_set_self (List.getElem?_eq_some_iff.mp hentry).1
  only := by
    intro k hk
    by_contra hne
    rw [List.getElem?_set_ne (Ne.symm hne)] at hk
    exact hfresh (List.mem_of_getElem? hk)

theorem entries_set {table : List ℤ} (h : ∀ fd ∈ table, -1 ≤ fd) (i : ℕ)
    {opened : ℤ} (hopened : -1 ≤ opened) :
    ∀ fd ∈ table.set i opened, -1 ≤ fd := by
  intro fd hfd
  rcases List.mem_or_eq_of_mem_set hfd with hmem | rfl
  · exact h fd hmem
  · exact hopened

/-! ## A round -/

theorem running_eq {script : Script} (hrun : s.ctx.run = some j)
    (hscript : s.ctx.scripts[j]? = some script) :
    s.ctx.running = some (j, script) := by
  simp [ScriptsContext.running, hrun, hscript]

theorem sysScriptsRun_running (env : ScriptsEnv) {script : Script}
    (t : TickInput) (hrun : s.ctx.run = some j)
    (hscript : s.ctx.scripts[j]? = some script) :
    sysScriptsRun env s t = scriptExec env s j script t := by
  have hlt : j < s.ctx.scripts.length :=
    (List.getElem?_eq_some_iff.mp hscript).1
  rw [sysScriptsRun, if_neg (by omega)]
  simp only [running_eq hrun hscript]

/-- The round of a script whose file is open, or has just been opened: it
passes the next piece on, or closes the file. -/
theorem scriptExec_opened (env : ScriptsEnv) {script : Script} {t : TickInput}
    {fd pico : ℤ} {fs : FsContext} (hline : s.ctx.line.length = maxLine)
    (hstart : (if script.fd < 0 then fsOpen s.fs t.opened (env.files script.file)
      else (script.fd, s.fs)) = (fd, fs))
    (hopen : 0 ≤ fd) (hfd : fs.fd? fd = some pico) :
    ∃ rest line', line'.length = maxLine ∧
      calls rest = (calls (fs.unread pico)).tail ∧
      (∀ p ps, calls (fs.unread pico) = p :: ps →
        scriptExec env s j script t =
          (some p,
            { ctx :=
                { s.ctx with
                  scripts := s.ctx.scripts.set j { script with fd := fd }
                  line := line' }
              fs :=
                if env.closesAll p.ldata then
                  fsCloseAll { fs with
                    unread := Function.update fs.unread pico rest }
                else
                  { fs with unread := Function.update fs.unread pico rest } })) ∧
      (calls (fs.unread pico) = [] →
        scriptExec env s j script t =
          (none,
            { ctx :=
                { s.ctx with
                  scripts := s.ctx.scripts.set j
                    { script with
                      fd := -1
                      lastRun := t.now
                      execCount := script.execCount + 1 }
                  run := none
                  line := line' }
              fs := fsClose { fs with
                unread := Function.update fs.unread pico rest } fd })) := by
  obtain ⟨rest, line', hloop, hline', hrest⟩ := execLoop_eq hfd hline
    (Nat.lt_succ_self (fs.unread pico).length)
  refine ⟨rest, line', hline', hrest, fun p ps hcalls => ?_, fun hcalls => ?_⟩
  · rw [hcalls, List.head?_cons] at hloop
    simp only [scriptExec, hstart, if_neg (Int.not_lt.mpr hopen), hfd,
      Option.map_some, Option.getD_some, hloop]
  · rw [hcalls, List.head?_nil] at hloop
    simp only [scriptExec, hstart, if_neg (Int.not_lt.mpr hopen), hfd,
      Option.map_some, Option.getD_some, hloop]

/-! ## What is left to read -/

/-- The script `j` is running and `unread` is left of its file, which is open
only if `kept`. -/
structure Reading (env : ScriptsEnv) (kept : Prop) (s : ScriptsSystem) (j : ℕ)
    (unread : List UInt8) : Prop where
  running : s.ctx.run = some j
  line : s.ctx.line.length = maxLine
  entries : ∀ fd ∈ s.fs.openFd, -1 ≤ fd
  opened : ∃ script, s.ctx.scripts[j]? = some script ∧
    (script.fd = -1 ∧ env.files script.file = unread ∨
      kept ∧ ∃ (i : ℕ) (pico : ℤ), script.fd = i ∧ Holds s.fs i pico ∧
        s.fs.unread pico = unread)

variable (env) in
theorem Started.reading {script : Script} (h : Started s j script)
    (kept : Prop) : Reading env kept s j (env.files script.file) where
  running := h.running
  line := h.line
  entries := h.table
  opened := ⟨script, h.loaded, Or.inl ⟨h.fd, rfl⟩⟩

/-- Both before and after the file is opened, a round reads from its entry. -/
theorem Reading.start {kept closing : Prop} {unread : List UInt8}
    {t : TickInput} (h : Reading env kept s j unread)
    (ht : Shares closing s (.scripts (.tick t))) :
    ∃ (script : Script) (i : ℕ) (pico : ℤ) (fs : FsContext),
      s.ctx.scripts[j]? = some script ∧
      (if script.fd < 0 then fsOpen s.fs t.opened (env.files script.file)
        else (script.fd, s.fs)) = ((i : ℤ), fs) ∧
      Holds fs i pico ∧ fs.unread pico = unread ∧
      (∀ fd ∈ fs.openFd, -1 ≤ fd) ∧
      fs.openFd.set i (-1) = freed s.fs.openFd script.fd := by
  obtain ⟨script, hscript, ⟨hfd, hcontent⟩ | ⟨-, i, pico, hfd, hholds, hunread⟩⟩ :=
    h.opened
  · obtain ⟨hroom, hopened, hfresh⟩ := ht (j, script)
      (running_eq h.running hscript) (by simp [hfd])
    obtain ⟨i, hentry, hopen⟩ := fsOpen_spec (env.files script.file) h.entries
      hroom hopened
    obtain ⟨hlt, hget⟩ := List.getElem?_eq_some_iff.mp hentry
    refine ⟨script, i, t.opened,
      { openFd := s.fs.openFd.set i t.opened
        unread :=
          Function.update s.fs.unread t.opened (env.files script.file) },
      hscript, ?_, holds_set hentry hopened hfresh _, ?_,
      entries_set h.entries i (by omega), ?_⟩
    · rw [if_pos (by omega), hopen]
    · simp [hcontent]
    · rw [freed, if_pos (by omega), List.set_set, ← hget,
        List.set_getElem_self]
  · refine ⟨script, i, pico, s.fs, hscript, ?_, hholds, hunread, h.entries, ?_⟩
    · rw [if_neg (by omega), hfd]
    · rw [freed, if_neg (by omega), hfd, Int.toNat_natCast]

/-- The script `j` holds a handle of the table. -/
def HasHandle (s : ScriptsSystem) (j : ℕ) : Prop :=
  ∃ (script : Script) (i : ℕ), s.ctx.scripts[j]? = some script ∧
    script.fd = i ∧ i < s.fs.openFd.length

/-- The file of the running script has been closed behind it, with all the
others. -/
structure Cut (s : ScriptsSystem) (j : ℕ) : Prop where
  running : s.ctx.run = some j
  line : s.ctx.line.length = maxLine
  handle : HasHandle s j
  free : ∀ fd ∈ s.fs.openFd, fd = -1

theorem free_closeAll {fs : FsContext} (h : ∀ fd ∈ fs.openFd, -1 ≤ fd) :
    ∀ fd ∈ (fsCloseAll fs).openFd, fd = -1 := by
  intro fd hfd
  obtain ⟨entry, hentry, rfl⟩ := List.mem_map.mp hfd
  have := h entry hentry
  split
  · rfl
  · omega

/-- A round of the running script passes the next piece on, or finishes. -/
theorem tick_reading {kept closing : Prop} {unread : List UInt8}
    {t : TickInput} (h : Reading env kept s j unread)
    (ht : Shares closing s (.scripts (.tick t))) :
    (sysScriptsRun env s t).1 = (calls unread).head? ∧
      (calls unread = [] → Finished (sysScriptsRun env s t).2 j ∧
        ClosesOwn j s (sysScriptsRun env s t).2) ∧
      ∀ p ps, calls unread = p :: ps →
        HasHandle (sysScriptsRun env s t).2 j ∧
        (env.closesAll p.ldata = false → ∃ rest,
          Reading env True (sysScriptsRun env s t).2 j rest ∧ calls rest = ps) ∧
        (env.closesAll p.ldata = true → Cut (sysScriptsRun env s t).2 j) := by
  obtain ⟨script, i, pico, fs, hscript, hstart, hholds, hunread, hentries, hown⟩ :=
    h.start ht
  obtain ⟨rest, line', hline', hrest, hpass, hend⟩ :=
    scriptExec_opened env (j := j) h.line hstart (Int.natCast_nonneg i) hholds.fd?
  have hlt : j < s.ctx.scripts.length :=
    (List.getElem?_eq_some_iff.mp hscript).1
  have hentry : i < fs.openFd.length :=
    (List.getElem?_eq_some_iff.mp hholds.entry).1
  rw [hunread] at hpass hend hrest
  rw [sysScriptsRun_running env t h.running hscript]
  refine ⟨?_, fun hcalls => ?_, fun p ps hcalls => ?_⟩
  · cases hcalls : calls unread with
    | nil => rw [hend hcalls, List.head?_nil]
    | cons p ps => rw [hpass p ps hcalls, List.head?_cons]
  · rw [hend hcalls]
    refine ⟨⟨rfl, fun script' hscript' => ?_⟩, fun script' hscript' => ?_⟩
    · rw [List.getElem?_set_self hlt] at hscript'
      obtain rfl := Option.mem_some.mp hscript'
      rfl
    · rw [hscript] at hscript'
      obtain rfl := Option.mem_some.mp hscript'
      rw [← hown]
      have hfd : ({ fs with unread := Function.update fs.unread pico rest } :
          FsContext).fd? i = some pico := hholds.fd?
      simp only [fsClose, hfd, Int.toNat_natCast]
  · rw [hpass p ps hcalls]
    rw [hcalls, List.tail_cons] at hrest
    have hset := List.getElem?_set_self (a := { script with fd := i }) hlt
    cases hclose : env.closesAll p.ldata with
    | false =>
        refine ⟨⟨_, i, hset, rfl, hentry⟩, fun _ => ⟨rest, ?_, hrest⟩,
          fun hne => (Bool.false_ne_true hne).elim⟩
        exact
          { running := h.running
            line := hline'
            entries := hentries
            opened := ⟨_, hset, Or.inr ⟨trivial, i, pico, rfl,
              ⟨hholds.nonneg, hholds.entry, hholds.only⟩, by simp⟩⟩ }
    | true =>
        have hhandle : HasHandle
            { ctx :=
                { s.ctx with
                  scripts := s.ctx.scripts.set j { script with fd := i }
                  line := line' }
              fs := fsCloseAll { fs with
                unread := Function.update fs.unread pico rest } } j :=
          ⟨_, i, hset, rfl, by simpa [fsCloseAll] using hentry⟩
        exact ⟨hhandle, fun hne => (Bool.false_ne_true hne.symm).elim, fun _ =>
          { running := h.running
            line := hline'
            handle := hhandle
            free := free_closeAll hentries }⟩

/-! ## What happens in between -/

theorem length_forNamed (f : Script → Option Script) (name : CStr)
    (prefixMatch : Bool) (scripts : List Script) :
    (forNamed f name prefixMatch scripts).2.length = scripts.length := by
  induction scripts with
  | nil => rfl
  | cons first rest ih =>
      simp only [forNamed]
      split
      · simp [ih]
      · split <;> simp [ih]

/-- The loops over names replace scripts in place. -/
theorem forNamed_getElem? (f : Script → Option Script) (name : CStr)
    (prefixMatch : Bool) (scripts : List Script) (i : ℕ) :
    ∀ script, scripts[i]? = some script →
      ∃ script', (forNamed f name prefixMatch scripts).2[i]? = some script' ∧
        (script' = script ∨ f script = some script') := by
  induction scripts generalizing i with
  | nil => simp
  | cons first rest ih =>
      intro script hscript
      simp only [forNamed]
      split
      · cases i with
        | zero => exact ⟨script, hscript, Or.inl rfl⟩
        | succ i => exact ih i script hscript
      next first' hfirst =>
        have hact : f first = some first' := by
          split at hfirst
          · exact hfirst
          · cases hfirst
        split
        · cases i with
          | zero =>
              obtain rfl := Option.some.inj hscript
              exact ⟨first', rfl, Or.inr hact⟩
          | succ i => exact ⟨script, hscript, Or.inl rfl⟩
        · cases i with
          | zero =>
              obtain rfl := Option.some.inj hscript
              exact ⟨first', rfl, Or.inr hact⟩
          | succ i => exact ih i script hscript

/-- A command keeps the running script, the files and what is open. -/
structure Kept (s s' : ScriptsSystem) : Prop where
  run : s'.ctx.run = s.ctx.run
  line : s'.ctx.line = s.ctx.line
  fs : s'.fs = s.fs
  startup : s'.ctx.startupCount = s.ctx.startupCount
  length : s'.ctx.scripts.length = s.ctx.scripts.length
  scripts : ∀ (j : ℕ) script, s.ctx.scripts[j]? = some script →
    ∃ script', s'.ctx.scripts[j]? = some script' ∧
      script'.fd = script.fd ∧ script'.file = script.file

variable (env s) in
theorem command_kept {e : ScriptsEvent} (he : e.isTick = false) :
    Kept s (s.step env e) ∧ s.passed env e = none := by
  cases e with
  | tick t => exact (Bool.false_ne_true he.symm).elim
  | run name prefixMatch now =>
      refine ⟨⟨rfl, rfl, rfl, rfl, length_forNamed _ _ _ _,
        fun j script hscript => ?_⟩, rfl⟩
      obtain ⟨script', hscript', rfl | hact⟩ := forNamed_getElem?
        (fun s => some { s with runNow := now }) name prefixMatch
        s.ctx.scripts j script hscript
      · exact ⟨script', hscript', rfl, rfl⟩
      · obtain rfl := Option.some.inj hact
        exact ⟨_, hscript', rfl, rfl⟩
  | autoRun name enable prefixMatch tm =>
      refine ⟨⟨rfl, rfl, rfl, rfl, length_forNamed _ _ _ _,
        fun j script hscript => ?_⟩, rfl⟩
      obtain ⟨script', hscript', rfl | hact⟩ := forNamed_getElem?
        (fun s => if s.cron.valid = false then none
          else if enable then
            some (scriptCronSetNext env.cronNext tm
              { s with cron := { s.cron with enable := true } })
          else
            some { s with
              cron := { s.cron with enable := false, next := 0 } })
        name prefixMatch s.ctx.scripts j script hscript
      · exact ⟨script', hscript', rfl, rfl⟩
      · refine ⟨script', hscript', ?_⟩
        split at hact
        · cases hact
        · split at hact
          · obtain rfl := Option.some.inj hact
            simp only [scriptCronSetNext]
            split
            · exact ⟨rfl, rfl⟩
            · split <;> exact ⟨rfl, rfl⟩
          · obtain rfl := Option.some.inj hact
            exact ⟨rfl, rfl⟩

theorem Reading.mono {kept kept' : Prop} {unread : List UInt8}
    (h : Reading env kept s j unread) (hkept : kept → kept') :
    Reading env kept' s j unread where
  running := h.running
  line := h.line
  entries := h.entries
  opened := by
    obtain ⟨script, hscript, hclosed | ⟨hk, hopen⟩⟩ := h.opened
    · exact ⟨script, hscript, Or.inl hclosed⟩
    · exact ⟨script, hscript, Or.inr ⟨hkept hk, hopen⟩⟩

theorem command_reading {kept : Prop} {unread : List UInt8} {e : ScriptsEvent}
    (h : Reading env kept s j unread) (he : e.isTick = false) :
    Reading env kept (s.step env e) j unread := by
  obtain ⟨hkept, -⟩ := command_kept env s he
  obtain ⟨script, hscript, hfile⟩ := h.opened
  obtain ⟨script', hscript', hfd, hname⟩ := hkept.scripts j script hscript
  refine ⟨hkept.run.trans h.running,
    (congrArg List.length hkept.line).trans h.line, ?_, script', hscript', ?_⟩
  · rw [hkept.fs]
    exact h.entries
  · rw [hkept.fs, hfd, hname]
    exact hfile

theorem command_finished {e : ScriptsEvent} (h : Finished s j)
    (he : e.isTick = false) : Finished (s.step env e) j := by
  obtain ⟨hkept, -⟩ := command_kept env s he
  refine ⟨hkept.run.trans h.running, fun script' hscript' => ?_⟩
  have hlt : j < s.ctx.scripts.length := by
    rw [← hkept.length]
    exact (List.getElem?_eq_some_iff.mp hscript').1
  have hscript := List.getElem?_eq_getElem hlt
  obtain ⟨script'', hsame, hfd, -⟩ := hkept.scripts j _ hscript
  obtain rfl := Option.some.inj (hsame.symm.trans hscript')
  exact hfd.trans (h.fd _ hscript)

/-- Reading moves on in one file at most. -/
theorem after_read (fs : FsContext) {e : FsEvent} {handle : FsHandle}
    (he : (∃ buff n, e = .read handle buff n) ∨
      ∃ buff n, e = .gets handle buff n) :
    fs.after e = fs ∨ ∃ pico bytes, fs.fd? handle.fd = some pico ∧
      fs.after e =
        { fs with unread := Function.update fs.unread pico bytes } := by
  cases hfd : fs.fd? handle.fd with
  | none =>
      left
      rcases he with ⟨buff, n, rfl⟩ | ⟨buff, n, rfl⟩
      · simp only [FsContext.after, fsRead, hfd]
      · simp only [FsContext.after, fsGets, fsReadCheck, hfd]
        split <;> rfl
  | some pico =>
      refine Or.inr ⟨pico, ?_⟩
      rcases he with ⟨buff, n, rfl⟩ | ⟨buff, n, rfl⟩
      · exact ⟨_, rfl, by simp only [FsContext.after, fsRead, hfd]; rfl⟩
      · refine ⟨(readUntil newLine n (fs.unread pico) (buff.set 0 0) 0).2.2, rfl,
          ?_⟩
        simp only [FsContext.after, fsGets, fsReadCheck, hfd]
        split <;> rfl

theorem openFd_after_read (fs : FsContext) {e : FsEvent} {handle : FsHandle}
    (he : (∃ buff n, e = .read handle buff n) ∨
      ∃ buff n, e = .gets handle buff n) :
    (fs.after e).openFd = fs.openFd := by
  rcases after_read fs he with heq | ⟨pico, bytes, -, heq⟩
  · rw [heq]
  · rw [heq]

/-- The calls of the others keep the table one of descriptors and free
entries. -/
theorem entries_after {fs : FsContext} (h : ∀ fd ∈ fs.openFd, -1 ≤ fd)
    (e : FsEvent) : ∀ fd ∈ (fs.after e).openFd, -1 ≤ fd := by
  cases e with
  | «open» opened content =>
      simp only [FsContext.after, fsOpen]
      split
      · exact h
      · split
        · exact h
        · exact entries_set h _ (by omega)
  | close handle =>
      simp only [FsContext.after, fsClose]
      split
      · exact h
      · exact entries_set h _ (Int.le_refl _)
  | read handle buff n =>
      rw [openFd_after_read fs (Or.inl ⟨buff, n, rfl⟩)]
      exact h
  | gets handle buff n =>
      rw [openFd_after_read fs (Or.inr ⟨buff, n, rfl⟩)]
      exact h
  | write => exact h
  | closeAll =>
      intro fd hfd
      exact (free_closeAll h fd hfd).ge

/-- A descriptor that others read from is not the one of the script. -/
theorem Holds.read {fs : FsContext} {i : ℕ} {pico : ℤ} (h : Holds fs i pico)
    {e : FsEvent} {handle : FsHandle} (hhandle : handle.fd ≠ i)
    (he : (∃ buff n, e = .read handle buff n) ∨
      ∃ buff n, e = .gets handle buff n) :
    Holds (fs.after e) i pico ∧ (fs.after e).unread pico = fs.unread pico := by
  rcases after_read fs he with heq | ⟨other, bytes, hfd, heq⟩
  · rw [heq]
    exact ⟨h, rfl⟩
  · have hne : pico ≠ other := by
      rintro rfl
      exact hhandle (h.only _ (FsContext.fd?_eq_some.mp hfd).1)
    rw [heq]
    exact ⟨⟨h.nonneg, h.entry, h.only⟩, Function.update_of_ne hne _ _⟩

/-- What the others do with their own handles leaves the file of the script
alone. -/
theorem Holds.after {closing : Prop} {script : Script} {i : ℕ} {pico : ℤ}
    (h : Holds s.fs i pico) (hrun : s.ctx.running = some (j, script))
    (hfd : script.fd = i) {e : FsEvent} (he : Shares closing s (.others e))
    (hopen : e ≠ .closeAll) :
    Holds (s.fs.after e) i pico ∧
      (s.fs.after e).unread pico = s.fs.unread pico := by
  have hnonneg := h.nonneg
  cases e with
  | «open» opened content =>
      cases hfree : s.fs.openFd.findIdx? (· < 0) with
      | none => simpa [FsContext.after, fsOpen, hfree] using h
      | some k =>
          by_cases hfail : opened < 0
          · simpa [FsContext.after, fsOpen, hfree, hfail] using h
          · have hfresh := he.resolve_left hfail
            obtain ⟨hlt, hneg, -⟩ := List.findIdx?_eq_some_iff_getElem.mp hfree
            have hpico : pico ≠ opened := by
              rintro rfl
              exact hfresh (List.mem_of_getElem? h.entry)
            have hki : k ≠ i := by
              rintro rfl
              have hsame := (List.getElem?_eq_some_iff.mp h.entry).2
              simp only [hsame, decide_eq_true_eq] at hneg
              omega
            have hafter : s.fs.after (.open opened content) =
                { openFd := s.fs.openFd.set k opened
                  unread := Function.update s.fs.unread opened content } := by
              simp [FsContext.after, fsOpen, hfree, hfail]
            rw [hafter]
            refine ⟨⟨hnonneg, ?_, fun m hm => ?_⟩,
              Function.update_of_ne hpico _ _⟩
            · exact (List.getElem?_set_ne hki).trans h.entry
            · by_cases hmk : k = m
              · subst hmk
                rw [List.getElem?_set_self hlt] at hm
                exact (hpico (Option.some.inj hm).symm).elim
              · rw [List.getElem?_set_ne hmk] at hm
                exact h.only m hm
  | close handle =>
      have hne : handle.fd ≠ i := by
        have : (handle.fd : ℤ) ≠ script.fd := he (j, script) hrun
        omega
      cases hentry : s.fs.fd? handle.fd with
      | none => simpa [FsContext.after, fsClose, hentry] using h
      | some other =>
          simp only [FsContext.after, fsClose, hentry, Int.toNat_natCast]
          refine ⟨⟨hnonneg, (List.getElem?_set_ne hne).trans h.entry,
            fun m hm => ?_⟩, trivial⟩
          by_cases hm' : handle.fd = m
          · have hlt := (List.getElem?_eq_some_iff.mp hm).1
            subst hm'
            rw [List.length_set] at hlt
            rw [List.getElem?_set_self hlt] at hm
            have := Option.some.inj hm
            omega
          · rw [List.getElem?_set_ne hm'] at hm
            exact h.only m hm
  | read handle buff n =>
      have : (handle.fd : ℤ) ≠ script.fd := he (j, script) hrun
      exact h.read (by omega) (Or.inl ⟨buff, n, rfl⟩)
  | gets handle buff n =>
      have : (handle.fd : ℤ) ≠ script.fd := he (j, script) hrun
      exact h.read (by omega) (Or.inr ⟨buff, n, rfl⟩)
  | write => exact ⟨h, rfl⟩
  | closeAll => exact (hopen rfl).elim

theorem others_reading {kept closing : Prop} {unread : List UInt8} {e : FsEvent}
    (h : Reading env kept s j unread) (he : Shares closing s (.others e))
    (hsafe : closing → ¬kept) :
    Reading env kept { s with fs := s.fs.after e } j unread := by
  obtain ⟨script, hscript, hclosed | ⟨hk, i, pico, hfd, hholds, hunread⟩⟩ :=
    h.opened
  · exact ⟨h.running, h.line, entries_after h.entries e, script, hscript,
      Or.inl hclosed⟩
  · have hopen : e ≠ .closeAll := by
      rintro rfl
      exact hsafe he hk
    obtain ⟨hholds', hunread'⟩ :=
      hholds.after (running_eq h.running hscript) hfd he hopen
    exact ⟨h.running, h.line, entries_after h.entries e, script, hscript,
      Or.inr ⟨hk, i, pico, hfd, hholds', hunread'.trans hunread⟩⟩

/-- Between the rounds nothing is passed on, and the file is kept. -/
theorem between_reading {kept closing : Prop} {unread : List UInt8}
    {e : FilesEvent} (h : Reading env kept s j unread) (htick : e.isTick = false)
    (he : Shares closing s e) (hsafe : closing → ¬kept) :
    s.filesPassed env e = none ∧
      Reading env kept (s.filesStep env e) j unread := by
  cases e with
  | scripts e => exact ⟨(command_kept env s htick).2, command_reading h htick⟩
  | others e => exact ⟨rfl, others_reading h he hsafe⟩

variable (env) in
theorem between_finished {e : FilesEvent} (h : Finished s j)
    (htick : e.isTick = false) :
    s.filesPassed env e = none ∧ Finished (s.filesStep env e) j := by
  cases e with
  | scripts e => exact ⟨(command_kept env s htick).2, command_finished h htick⟩
  | others e => exact ⟨rfl, h.running, h.fd⟩

/-! ## Runs -/

/-- The number of rounds of a schedule of the module alone. -/
def ticks (es : List ScriptsEvent) : ℕ :=
  es.countP ScriptsEvent.isTick

theorem ticks_cons (e : ScriptsEvent) (es : List ScriptsEvent) :
    ticks (e :: es) = ticks es + if e.isTick then 1 else 0 :=
  List.countP_cons

theorem rounds_cons (e : FilesEvent) (es : List FilesEvent) :
    rounds (e :: es) = rounds es + if e.isTick then 1 else 0 :=
  List.countP_cons

theorem rounds_tick (t : TickInput) (es : List FilesEvent) :
    rounds (.scripts (.tick t) :: es) = rounds es + 1 := rounds_cons _ _

theorem rounds_between {e : FilesEvent} (he : e.isTick = false)
    (es : List FilesEvent) : rounds (e :: es) = rounds es := by
  simp [rounds_cons, he]

theorem trace_tick (env : ScriptsEnv) (s : ScriptsSystem) (t : TickInput)
    (es : List FilesEvent) :
    trace env s (.scripts (.tick t) :: es) =
      (sysScriptsRun env s t).1.toList ++ trace env (sysScriptsRun env s t).2 es :=
  rfl

theorem trace_between {e : FilesEvent} (he : s.filesPassed env e = none)
    (es : List FilesEvent) :
    trace env s (e :: es) = trace env (s.filesStep env e) es := by
  simp [trace, he]

/-- A round, or something that happens between the rounds. -/
theorem isTick_cases (e : FilesEvent) :
    (∃ t, e = .scripts (.tick t)) ∨ e.isTick = false := by
  cases e with
  | others => exact Or.inr rfl
  | scripts e =>
      cases e with
      | tick t => exact Or.inl ⟨t, rfl⟩
      | run | autoRun => exact Or.inr rfl

variable (env) in
/-- Without further rounds nothing is passed on, and the script stays done. -/
theorem run_finished {es : List FilesEvent} (h : Finished s j)
    (hes : rounds es = 0) :
    trace env s es = [] ∧ Finished ((filesMachine env).run s es) j := by
  induction es generalizing s with
  | nil => exact ⟨rfl, h⟩
  | cons e es ih =>
      rcases isTick_cases e with ⟨t, rfl⟩ | he
      · rw [rounds_tick] at hes
        omega
      · obtain ⟨hpassed, hnext⟩ := between_finished env h he
        rw [rounds_between he] at hes
        rw [trace_between hpassed]
        exact ih hnext hes

/-- Each round passes on the next piece, and the one after the last closes
the file. -/
theorem run_reading {kept closing : Prop} {unread : List UInt8}
    {es : List FilesEvent} (h : Reading env kept s j unread)
    (hsafe : closing → ¬kept) (hkept : calls unread ≠ [] → kept)
    (hopen : ∀ p ∈ calls unread, env.closesAll p.ldata = false)
    (hes : (filesMachine env).Along (Shares closing) s es) :
    (rounds es ≤ (calls unread).length → ∃ rest,
      Reading env kept ((filesMachine env).run s es) j rest ∧
        calls rest = (calls unread).drop (rounds es) ∧
        trace env s es = (calls unread).take (rounds es)) ∧
      (rounds es = (calls unread).length + 1 →
        trace env s es = calls unread ∧
          Finished ((filesMachine env).run s es) j) := by
  induction es generalizing s unread with
  | nil =>
      refine ⟨fun _ => ⟨unread, h, rfl, rfl⟩, fun hrounds => ?_⟩
      exact (Nat.succ_ne_zero _ hrounds.symm).elim
  | cons e es ih =>
      obtain ⟨he, hes⟩ := hes
      rcases isTick_cases e with ⟨t, rfl⟩ | htick
      · obtain ⟨hpassed, hdone, hnext⟩ := tick_reading h he
        rw [rounds_tick, trace_tick, hpassed]
        cases hcalls : calls unread with
        | nil =>
            refine ⟨fun hrounds => (Nat.not_succ_le_zero _ hrounds).elim,
              fun hrounds => ?_⟩
            obtain ⟨htrace, hend⟩ := run_finished env (hdone hcalls).1
              (Nat.succ.inj hrounds)
            exact ⟨htrace, hend⟩
        | cons p ps =>
            have hp : ∀ q ∈ p :: ps, env.closesAll q.ldata = false :=
              hcalls ▸ hopen
            obtain ⟨-, hreading, -⟩ := hnext p ps hcalls
            obtain ⟨rest, hreading, hrest⟩ := hreading (hp p List.mem_cons_self)
            have hk : kept := hkept (by simp [hcalls])
            obtain ⟨hrunning, hend⟩ := ih (hreading.mono fun _ => hk)
              (fun _ => hk)
              (hrest ▸ fun q hq => hp q (List.mem_cons_of_mem p hq)) hes
            rw [hrest] at hrunning hend
            constructor
            · intro hrounds
              obtain ⟨rest', hr, hdrop, htake⟩ :=
                hrunning (Nat.le_of_succ_le_succ hrounds)
              refine ⟨rest', hr, hdrop, ?_⟩
              rw [htake]
              rfl
            · intro hrounds
              obtain ⟨htrace, hfinished⟩ := hend (Nat.succ.inj hrounds)
              refine ⟨?_, hfinished⟩
              rw [htrace]
              rfl
      · obtain ⟨hpassed, hreading⟩ := between_reading h htick he hsafe
        rw [rounds_between htick, trace_between hpassed]
        exact ih hreading hkept hopen hes

/-- The pieces of a file are passed on faithfully when no command closes the
file of the script. -/
theorem faithfulIn_calls {kept closing : Prop} {unread : List UInt8}
    (h : Reading env kept s j unread) (hsafe : closing → ¬kept)
    (hkept : calls unread ≠ [] → kept)
    (hopen : ∀ p ∈ calls unread, env.closesAll p.ldata = false) :
    FaithfulIn env closing j (calls unread) ((calls unread).length + 1) s := by
  intro es hes
  obtain ⟨hrunning, hend⟩ := run_reading h hsafe hkept hopen hes
  refine ⟨fun hlt => ?_, hend, fun hlast t ht => ?_⟩
  · obtain ⟨rest, hreading, -, htrace⟩ := hrunning (Nat.le_of_lt_succ hlt)
    rw [htrace]
    exact ⟨hreading.running, List.take_prefix _ _⟩
  · have hlength := Nat.succ.inj hlast
    obtain ⟨rest, hreading, hrest, -⟩ := hrunning hlength.le
    rw [hlength, List.drop_length] at hrest
    exact ((tick_reading hreading ht).2.1 hrest).2

/-! ## The converse -/

/-- What is left to be faithful to after a round that passes a command on. -/
theorem FaithfulIn.tick {closing : Prop} {commands : List Passed} {n : ℕ}
    (h : FaithfulIn env closing j commands n s) (hrun : s.ctx.run = some j)
    {t : TickInput} (ht : Shares closing s (.scripts (.tick t))) {p : Passed}
    (hp : (sysScriptsRun env s t).1 = some p)
    (hnext : (sysScriptsRun env s t).2.ctx.run = some j) :
    ∃ commands' m, commands = p :: commands' ∧
      FaithfulIn env closing j commands' m (sysScriptsRun env s t).2 := by
  obtain ⟨-, hstart, -⟩ := h [] trivial
  obtain ⟨hrunning, hend, -⟩ := h [.scripts (.tick t)] ⟨ht, trivial⟩
  have hone : rounds [.scripts (.tick t)] = 1 := rfl
  have hn : 1 < n := by
    rcases Nat.lt_trichotomy 1 n with hlt | heq | hgt
    · exact hlt
    · have hdone : (sysScriptsRun env s t).2.ctx.run = none :=
        (hend (hone.trans heq)).2.running
      exact (Option.some_ne_none j (hnext.symm.trans hdone)).elim
    · have hdone : s.ctx.run = none :=
        (hstart (Nat.lt_one_iff.mp hgt).symm).2.running
      exact (Option.some_ne_none j (hrun.symm.trans hdone)).elim
  obtain ⟨commands', rfl⟩ := (hrunning (hone ▸ hn)).2
  have htrace : ∀ es, trace env s (.scripts (.tick t) :: es) =
      p :: trace env (sysScriptsRun env s t).2 es := fun es => by
    rw [trace_tick, hp]
    rfl
  rw [htrace]
  refine ⟨commands', n - 1, rfl, fun es hes => ?_⟩
  obtain ⟨hlt, heq, hclose⟩ := h (.scripts (.tick t) :: es) ⟨ht, hes⟩
  rw [rounds_tick, htrace] at hlt heq
  rw [rounds_tick] at hclose
  refine ⟨fun hlt' => ?_, fun heq' => ?_, fun hlast => hclose (by omega)⟩
  · obtain ⟨hr, hprefix⟩ := hlt (by omega)
    rw [htrace] at hprefix
    exact ⟨hr, (List.cons_prefix_cons.mp hprefix).2⟩
  · obtain ⟨hall, hdone⟩ := heq (by omega)
    rw [htrace] at hall
    exact ⟨(List.cons.inj hall).2, hdone⟩

theorem FaithfulIn.between {closing : Prop} {commands : List Passed} {n : ℕ}
    (h : FaithfulIn env closing j commands n s) {e : FsEvent}
    (he : Shares closing s (.others e)) :
    FaithfulIn env closing j commands n { s with fs := s.fs.after e } :=
  fun es hes => h (.others e :: es) ⟨he, hes⟩

theorem HasHandle.shares {closing : Prop} (h : HasHandle s j)
    (hrun : s.ctx.run = some j) (t : TickInput) :
    Shares closing s (.scripts (.tick t)) := by
  obtain ⟨script, i, hscript, hfd, -⟩ := h
  intro p hp hneg
  rw [running_eq hrun hscript] at hp
  obtain rfl := Option.mem_some.mp hp
  simp only [hfd] at hneg
  omega

/-- A file of somebody else, longer than `n`. -/
def foreignFile (n : ℕ) : List UInt8 :=
  120 :: 10 :: List.replicate n 120

theorem calls_foreignFile (n : ℕ) :
    ∃ ps, calls (foreignFile n) = ⟨foreignFile n, [120]⟩ :: ps := by
  have hline : ∀ b ∈ ([120] : List UInt8), b ∉ newLine :=
    List.forall_mem_singleton.mpr (by decide)
  have hcalls := calls_of_ended (List.replicate n 120) hline
    (by decide : (10 : UInt8) ∈ newLine) (by decide)
  have hpass : ∀ left, passBlock left [120] = [⟨left, [120]⟩] := fun left => by
    rw [passBlock, if_neg (by decide)]
    exact if_neg (by decide)
  rw [hpass] at hcalls
  exact ⟨_, hcalls⟩

/-- The first entries are in use for copies of the foreign file, and the others
are free. -/
structure Taken (fs : FsContext) (k size n : ℕ) : Prop where
  length : fs.openFd.length = size
  taken : ∀ m < k, fs.openFd[m]? = some (m : ℤ)
  content : ∀ m < k, fs.unread m = foreignFile n
  free : ∀ m, k ≤ m → m < size → fs.openFd[m]? = some (-1)

theorem Taken.open {fs : FsContext} {k size n : ℕ} (h : Taken fs k size n)
    (hk : k < size) :
    (k : ℤ) ∉ fs.openFd ∧
      Taken (fs.after (.open k (foreignFile n))) (k + 1) size n := by
  have hlt : k < fs.openFd.length := h.length.symm ▸ hk
  have hfirst : fs.openFd.findIdx? (· < 0) = some k := by
    refine List.findIdx?_eq_some_iff_getElem.mpr ⟨hlt, ?_, fun m hm => ?_⟩
    · have := (List.getElem?_eq_some_iff.mp (h.free k (Nat.le_refl k) hk)).2
      simp [this]
    · have := (List.getElem?_eq_some_iff.mp (h.taken m hm)).2
      simp [this]
  have hafter : fs.after (.open k (foreignFile n)) =
      { openFd := fs.openFd.set k k
        unread := Function.update fs.unread k (foreignFile n) } := by
    have hnonneg : ¬(k : ℤ) < 0 := by omega
    simp only [FsContext.after, fsOpen, hfirst, if_neg hnonneg]
  constructor
  · intro hmem
    obtain ⟨m, hm⟩ := List.mem_iff_getElem?.mp hmem
    have hmlt : m < size := h.length ▸ (List.getElem?_eq_some_iff.mp hm).1
    by_cases hmk : m < k
    · have := Option.some.inj (hm.symm.trans (h.taken m hmk))
      omega
    · have := Option.some.inj (hm.symm.trans (h.free m (by omega) hmlt))
      omega
  · rw [hafter]
    refine ⟨?_, fun m hm => ?_, fun m hm => ?_, fun m hm hmlt => ?_⟩
    · exact (List.length_set ..).trans h.length
    · by_cases hmk : k = m
      · subst hmk
        exact List.getElem?_set_self hlt
      · rw [List.getElem?_set_ne hmk]
        exact h.taken m (by omega)
    · by_cases hmk : m = k
      · subst hmk
        exact Function.update_self _ _ _
      · exact (Function.update_of_ne (by omega) _ _).trans
          (h.content m (by omega))
    · rw [List.getElem?_set_ne (by omega)]
      exact h.free m (by omega) hmlt

/-- Once the file is closed behind the script, others can take its entry, and
the next round passes on what their file holds. -/
theorem Cut.not_faithfulIn {closing : Prop} {commands : List Passed} {n bound : ℕ}
    (h : Cut s j) (hbound : ∀ p ∈ commands, p.left.length ≤ bound) :
    ¬FaithfulIn env closing j commands n s := by
  intro hfaithful
  obtain ⟨script, i, hscript, hfd, hlt⟩ := h.handle
  -- One file after the other is opened, up to the entry of the script.
  have hopened : ∀ k ≤ s.fs.openFd.length, ∃ fs,
      Taken fs k s.fs.openFd.length bound ∧
        FaithfulIn env closing j commands n { s with fs := fs } := by
    intro k
    induction k with
    | zero =>
        refine fun _ => ⟨s.fs, ⟨rfl, ?_, ?_, fun m _ hm => ?_⟩, hfaithful⟩
        · exact fun m hm => (Nat.not_lt_zero m hm).elim
        · exact fun m hm => (Nat.not_lt_zero m hm).elim
        · rw [List.getElem?_eq_getElem hm, h.free _ (List.getElem_mem hm)]
    | succ k ih =>
        intro hk
        obtain ⟨fs, htaken, hf⟩ := ih (Nat.le_of_succ_le hk)
        obtain ⟨hfresh, hnext⟩ := htaken.open hk
        exact ⟨_, hnext,
          hf.between (e := .open k (foreignFile bound)) (Or.inr hfresh)⟩
  obtain ⟨fs, htaken, hf⟩ := hopened (i + 1) hlt
  have hhandle : HasHandle { s with fs := fs } j :=
    ⟨script, i, hscript, hfd, htaken.length.symm ▸ hlt⟩
  have hentry : fs.fd? i = some (i : ℤ) :=
    FsContext.fd?_eq_some.mpr ⟨htaken.taken i (Nat.lt_succ_self i), by omega⟩
  let t : TickInput := ⟨0, 0, .connected, 0, none, fun _ => none⟩
  obtain ⟨rest, line', -, -, hpass, -⟩ := scriptExec_opened env (j := j)
    (s := { s with fs := fs }) (t := t) h.line
    (if_neg (by omega : ¬script.fd < 0))
    (by omega : 0 ≤ script.fd) (by rw [hfd]; exact hentry)
  obtain ⟨ps, hcalls⟩ := calls_foreignFile bound
  have hunread : fs.unread i = foreignFile bound :=
    htaken.content i (Nat.lt_succ_self i)
  have hround := sysScriptsRun_running (s := { s with fs := fs }) env t h.running
    hscript
  rw [hpass ⟨foreignFile bound, [120]⟩ ps ((congrArg calls hunread).trans hcalls)]
    at hround
  obtain ⟨commands', m, rfl, -⟩ := hf.tick h.running
    (hhandle.shares h.running t) (by rw [hround]) (by rw [hround]; exact h.running)
  have hlong := hbound _ List.mem_cons_self
  simp only [foreignFile, List.length_cons, List.length_replicate] at hlong
  omega

theorem Reading.cut {unread : List UInt8}
    (h : Reading env True s j unread) (hhandle : HasHandle s j) :
    Cut { s with fs := s.fs.after .closeAll } j where
  running := h.running
  line := h.line
  handle := by
    obtain ⟨script, i, hscript, hfd, hlt⟩ := hhandle
    exact ⟨script, i, hscript, hfd, by
      simpa [FsContext.after, fsCloseAll] using hlt⟩
  free := free_closeAll h.entries

/-- What is passed on faithfully are the pieces of the file, and none of them
closes the file; if others may close it, there are none. -/
theorem FaithfulIn.calls {closing : Prop} {unread : List UInt8}
    {commands : List Passed} {n bound : ℕ}
    (hf : FaithfulIn env closing j commands n s)
    (h : Reading env True s j unread)
    (hbound : ∀ p ∈ commands, p.left.length ≤ bound)
    (htick : ∃ t, Shares closing s (.scripts (.tick t))) :
    commands = Scripts.calls unread ∧
      (∀ p ∈ commands, env.closesAll p.ldata = false) ∧
      (closing → commands = []) := by
  induction hcalls : Scripts.calls unread generalizing s unread commands n with
  | nil =>
      obtain ⟨t, ht⟩ := htick
      obtain ⟨hpassed, hdone, -⟩ := tick_reading h ht
      have hend := (hdone hcalls).1.running
      obtain ⟨-, hstart, -⟩ := hf [] trivial
      obtain ⟨hrunning, hall, -⟩ := hf [.scripts (.tick t)] ⟨ht, trivial⟩
      have hone : rounds [.scripts (.tick t)] = 1 := rfl
      have hn : 1 = n := by
        rcases Nat.lt_trichotomy 1 n with hlt | heq | hgt
        · have hrun := (hrunning (hone ▸ hlt)).1
          exact (Option.some_ne_none j (hrun.symm.trans hend)).elim
        · exact heq
        · have hrun := (hstart (Nat.lt_one_iff.mp hgt).symm).2.running
          exact (Option.some_ne_none j (h.running.symm.trans hrun)).elim
      have hempty := (hall (hone.trans hn)).1
      rw [trace_tick, hpassed, hcalls] at hempty
      obtain rfl : [] = commands := hempty
      exact ⟨rfl, by simp, fun _ => rfl⟩
  | cons p ps ih =>
      obtain ⟨t, ht⟩ := htick
      obtain ⟨hpassed, -, hnext⟩ := tick_reading h ht
      rw [hcalls, List.head?_cons] at hpassed
      obtain ⟨hhandle, hkept, hcut⟩ := hnext p ps hcalls
      have hrun : (sysScriptsRun env s t).2.ctx.run = some j := by
        cases hclose : env.closesAll p.ldata with
        | false =>
            obtain ⟨rest, hreading, -⟩ := hkept hclose
            exact hreading.running
        | true => exact (hcut hclose).running
      obtain ⟨commands', m, rfl, hf'⟩ := hf.tick h.running ht hpassed hrun
      have hbound' : ∀ q ∈ commands', q.left.length ≤ bound :=
        fun q hq => hbound q (List.mem_cons_of_mem p hq)
      cases hclose : env.closesAll p.ldata with
      | true => exact ((hcut hclose).not_faithfulIn hbound' hf').elim
      | false =>
          obtain ⟨rest, hreading, hrest⟩ := hkept hclose
          have hnot : ¬closing := fun hc =>
            (hreading.cut hhandle).not_faithfulIn hbound'
              (hf'.between (e := .closeAll) hc)
          obtain ⟨hcommands, hopen, -⟩ := ih hf' hreading hbound'
            ⟨t, hhandle.shares hrun t⟩ hrest
          refine ⟨by rw [hcommands], fun q hq => ?_, fun hc => (hnot hc).elim⟩
          rcases List.mem_cons.mp hq with rfl | hq
          · exact hclose
          · exact hopen q hq

/-! ## The main result -/

/-- A descriptor above those of the table. -/
theorem exists_fresh (table : List ℤ) :
    ∃ opened, 0 ≤ opened ∧ ∀ fd ∈ table, fd < opened := by
  induction table with
  | nil => exact ⟨0, Int.le_refl 0, by simp⟩
  | cons fd table ih =>
      obtain ⟨opened, hopened, hlt⟩ := ih
      refine ⟨max opened (fd + 1), by omega, fun other hother => ?_⟩
      rcases List.mem_cons.mp hother with rfl | hmem
      · omega
      · have := hlt other hmem
        omega

theorem Started.tick {script : Script} (h : Started s j script) (closing : Prop) :
    ∃ t, Shares closing s (.scripts (.tick t)) := by
  obtain ⟨opened, hopened, hfresh⟩ := exists_fresh s.fs.openFd
  exact ⟨⟨0, 0, .connected, opened, none, fun _ => none⟩,
    fun _ _ _ => ⟨h.room, hopened, fun hmem => lt_irrefl _ (hfresh _ hmem)⟩⟩

/-- A script is passed on faithfully exactly when the lines of its file fit and
none of its commands closes all files; if somebody else may close them, when
besides it has no commands. -/
theorem script_faithful {script : Script} (h : Started s j script) :
    (Faithful env False s j script.file ↔
      FileFits (env.files script.file) ∧
        ∀ p ∈ commandsOf (env.files script.file),
          env.closesAll p.ldata = false) ∧
    (Faithful env True s j script.file ↔
      FileFits (env.files script.file) ∧
        commandsOf (env.files script.file) = []) := by
  have hcalls : ∀ closing, Faithful env closing s j script.file →
      FileFits (env.files script.file) ∧
        (∀ p ∈ commandsOf (env.files script.file),
          env.closesAll p.ldata = false) ∧
        (closing → commandsOf (env.files script.file) = []) := by
    rintro closing ⟨n, hn⟩
    obtain ⟨heq, hopen, hnone⟩ := hn.calls (h.reading env True)
      (fun p => commandsOf_left_le) (h.tick closing)
    exact ⟨(calls_eq_commandsOf_iff _).mp heq.symm, hopen, hnone⟩
  constructor
  · refine ⟨fun hf => ⟨(hcalls False hf).1, (hcalls False hf).2.1⟩, ?_⟩
    rintro ⟨hfits, hopen⟩
    rw [← (calls_eq_commandsOf_iff _).mpr hfits] at hopen
    rw [Faithful, ← (calls_eq_commandsOf_iff _).mpr hfits]
    exact ⟨_, faithfulIn_calls (h.reading env True) False.elim (fun _ => trivial)
      hopen⟩
  · refine ⟨fun hf => ⟨(hcalls True hf).1, (hcalls True hf).2.2 trivial⟩, ?_⟩
    rintro ⟨hfits, hnone⟩
    have hempty := (calls_eq_commandsOf_iff _).mpr hfits
    rw [Faithful, ← hempty]
    rw [hnone] at hempty
    exact ⟨_, faithfulIn_calls (h.reading env False) (fun _ => not_false)
      (fun hne => (hne hempty).elim) (by simp [hempty])⟩

/-! ## One script -/

def oneScript : Script where
  name := [97]
  file := [97]
  runNow := 0
  startupMs := 0
  execCount := 0
  fd := -1
  lastRun := 0
  cron := ⟨false, false, ⟨[], [], [], [], [], []⟩, 0⟩

def oneFile (content : List UInt8) : ScriptsEnv where
  files := fun _ => content
  closesAll := fun text => text == CString.lit "fs?close_all"
  cronNext := fun _ _ => 0

/-- A round that can open any file. -/
def openingTick : ScriptsEvent :=
  .tick ⟨0, 0, .connected, 0, none, fun _ => none⟩

/-- The script has been asked for, and the next round has started it. -/
def oneStarted (content : List UInt8) : ScriptsSystem :=
  [.run oneScript.name false 1, openingTick].foldl
    (ScriptsSystem.step (oneFile content)) (ScriptsSystem.init [oneScript])

theorem oneStarted_started (content : List UInt8) :
    Started (oneStarted content) 0 oneScript :=
  { running := rfl
    fd := rfl
    loaded := rfl
    line := List.length_replicate
    table := by
      change ∀ fd ∈ FsContext.init.openFd, -1 ≤ fd
      decide
    room := by
      change -1 ∈ FsContext.init.openFd
      decide }

/-- `ssr?reset`, in a file that a line feed does or does not end. -/
def ssrReset : List UInt8 :=
  [115, 115, 114, 63, 114, 101, 115, 101, 116]

theorem unended_line_lost :
    Started (oneStarted ssrReset) 0 oneScript ∧
      (oneFile ssrReset).files oneScript.file = ssrReset ∧
      ¬Faithful (oneFile ssrReset) False (oneStarted ssrReset) 0
        oneScript.file := by
  refine ⟨oneStarted_started _, rfl, ?_⟩
  rintro ⟨n, hn⟩
  have hstarted := oneStarted_started ssrReset
  have hcalls := (hn.calls (hstarted.reading (oneFile ssrReset) True)
    (fun p => commandsOf_left_le) (hstarted.tick False)).1
  have hnone : calls ssrReset = [] :=
    calls_of_open (by decide +kernel) (by decide +kernel)
  have hcommands : commandsOf ssrReset = [⟨ssrReset, ssrReset⟩] := by
    decide +kernel
  exact List.cons_ne_nil _ _ (hcommands.symm.trans (hcalls.trans hnone))

theorem ended_line_faithful :
    Faithful (oneFile (ssrReset ++ [10])) False (oneStarted (ssrReset ++ [10])) 0
      oneScript.file := by
  refine (script_faithful (oneStarted_started _)).1.mpr
    ⟨fun line hline => ?_, by decide +kernel⟩
  have hlines : linesOf (ssrReset ++ [10]) =
      [⟨ssrReset ++ [10], ssrReset, true⟩, ⟨[], [], false⟩] := by decide
  change line ∈ linesOf (ssrReset ++ [10]) at hline
  rw [hlines] at hline
  rcases List.mem_pair.mp hline with rfl | rfl
  · rw [Line.Fits, if_neg (by decide)]
    decide
  · rw [Line.Fits, if_pos (by decide)]
    intro k hk
    simp [maxLine] at hk

end Herak.Scripts
