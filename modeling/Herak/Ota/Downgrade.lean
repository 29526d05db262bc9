import Mathlib.Data.Prod.Lex
import Herak.Ota.MetaIsolation

/-!
# Which images a check offers

With the policy for newer versions a check offers an image by the order of the
versions, three numbers compared from the left, and by the build times when
the policy names them as well.  The code takes an image that is newer in one of
the two; the images it offers are those that are newer in both exactly if the
two orders agree on the file.
-/

namespace Herak.Ota

open CString

/-! ## The orders of versions and build times -/

/-- The version that a text writes, in the order of versions. -/
def versionOf (version : CStr) : Option (ℤ ×ₗ ℤ ×ₗ ℤ) :=
  (versionTriple version).map fun v => toLex (v.1, toLex v.2)

/-- The text offers a version above the own one. -/
def NewerVersion (own offered : CStr) : Prop :=
  ∃ r ∈ versionOf own, ∃ n ∈ versionOf offered, r < n

/-- The texts offer a build time after the own one. -/
def NewerTime (ownDate ownTime date time : CStr) : Prop :=
  ∃ r ∈ calendarTime ownDate ownTime, ∃ n ∈ calendarTime date time, r < n

/-- What the parsers read from their copies of the texts is what the texts
say, whatever the stack holds behind the copies. -/
structure CopiedWhole (version date time : CStr) : Prop where
  version : ∀ junk, otaStr2ver version junk = versionTriple version
  time : ∀ junk, otaStr2time date time junk = calendarTime date time

/-- Texts that fit into the copies with their terminator. -/
def ShortTexts (version date time : CStr) : Prop :=
  version.length < strBuffLen ∧ date.length < strBuffLen ∧
    time.length < strBuffLen

theorem ShortTexts.copiedWhole {version date time : CStr}
    (h : ShortTexts version date time) : CopiedWhole version date time where
  version := fun junk => by rw [otaStr2ver, strncpy_of_lt h.1]
  time := fun junk => by
    rw [otaStr2time, strncpy_of_lt h.2.1, strncpy_of_lt h.2.2]

instance (own offered : CStr) : Decidable (NewerVersion own offered) :=
  inferInstanceAs (Decidable (∃ r ∈ _, ∃ n ∈ _, _ < _))

instance (ownDate ownTime date time : CStr) :
    Decidable (NewerTime ownDate ownTime date time) :=
  inferInstanceAs (Decidable (∃ r ∈ _, ∃ n ∈ _, _ < _))

instance (version date time : CStr) :
    Decidable (ShortTexts version date time) :=
  inferInstanceAs (Decidable (_ ∧ _ ∧ _))

/-- The texts write a version and a build time. -/
structure Readable (version date time : CStr) : Prop where
  version : (versionTriple version).isSome
  time : (calendarTime date time).isSome

instance (version date time : CStr) :
    Decidable (Readable version date time) :=
  decidable_of_iff
    ((versionTriple version).isSome ∧ (calendarTime date time).isSome)
    ⟨fun h => ⟨h.1, h.2⟩, fun h => ⟨h.version, h.time⟩⟩

theorem newByVersion_iff (r : RunningCache) (n : ℤ × ℤ × ℤ) :
    newByVersion true r n = true ↔
      toLex (r.vmaj, toLex (r.vmid, r.vmin)) < toLex (n.1, toLex n.2) := by
  simp only [newByVersion, Bool.true_eq_false, if_false,
    Prod.Lex.toLex_lt_toLex]
  split
  · simp_all
  · split
    · simp_all
    · split
      · simp_all
      · simp only [Bool.false_eq_true, false_iff]
        omega

theorem newByTime_iff (running newTime : ℤ) :
    newByTime true running newTime = true ↔ running < newTime := by
  simp [newByTime]

/-! ## The comparison -/

/-- The numbers are those of the running firmware. -/
structure Running (fw : Firmware) (r : RunningCache) : Prop where
  version : versionTriple fw.projectVersion = some (r.vmaj, r.vmid, r.vmin)
  time : calendarTime fw.buildDate fw.buildTime = some r.running

variable {fw : Firmware}

/-- The numbers of the running firmware are read if its texts are readable. -/
theorem readRunning_spec
    (hown : CopiedWhole fw.projectVersion fw.buildDate fw.buildTime)
    {cache : RunningCache} (hcache : cache.running ≠ 0 → Running fw cache)
    (junk : StackJunk) :
    (Readable fw.projectVersion fw.buildDate fw.buildTime ∧
        (readRunning fw cache junk).1 = true ∧
        Running fw (readRunning fw cache junk).2) ∨
      (¬Readable fw.projectVersion fw.buildDate fw.buildTime ∧
        (readRunning fw cache junk).1 = false ∧
        (readRunning fw cache junk).2.running = 0) := by
  unfold readRunning
  by_cases hread : cache.running ≠ 0
  · rw [if_pos hread]
    have hrunning := hcache hread
    exact Or.inl ⟨⟨by simp [hrunning.version], by simp [hrunning.time]⟩, rfl,
      hrunning⟩
  · rw [if_neg hread, hown.version, hown.time]
    cases hver : versionTriple fw.projectVersion with
    | none =>
        refine Or.inr ⟨fun h => ?_, rfl, not_not.mp hread⟩
        simpa [hver] using h.version
    | some v =>
        obtain ⟨vmaj, vmid, vmin⟩ := v
        cases htime : calendarTime fw.buildDate fw.buildTime with
        | none =>
            refine Or.inr ⟨fun h => ?_, rfl, not_not.mp hread⟩
            simpa [htime] using h.time
        | some running =>
            exact Or.inl ⟨⟨by simp [hver], by simp [htime]⟩, rfl,
              ⟨hver, htime⟩⟩

/-- With the policy for newer versions, an image is offered if it is newer in
one of the two orders that the policy names. -/
theorem otaMetaCheckUpdate_offers_iff {c : OtaCheck} {cache : RunningCache}
    {value : MetaId → CStr} (own offered : StackJunk)
    (hown : CopiedWhole fw.projectVersion fw.buildDate fw.buildTime)
    (hvalue : CopiedWhole (value .ver) (value .bdate) (value .btime))
    (hcache : cache.running ≠ 0 → Running fw cache)
    (hidle : c.newVersion = false) (hnewer : c.checkNewer = true)
    (hver : c.checkVer = true) :
    (otaMetaCheckUpdate fw c cache value own offered).1.newVersion = true ↔
      Readable fw.projectVersion fw.buildDate fw.buildTime ∧
      Readable (value .ver) (value .bdate) (value .btime) ∧
      (NewerVersion fw.projectVersion (value .ver) ∨
        c.checkTime = true ∧
          NewerTime fw.buildDate fw.buildTime (value .bdate)
            (value .btime)) := by
  unfold otaMetaCheckUpdate
  rcases readRunning_spec hown hcache own with
    ⟨hread, hok, hrunning⟩ | ⟨hread, hok, -⟩
  · generalize readRunning fw cache own = result at hok hrunning
    obtain ⟨ok, r⟩ := result
    obtain rfl : ok = true := hok
    simp only [hvalue.version, hvalue.time]
    cases hn : versionTriple (value .ver) with
    | none =>
        simp only [hidle, Bool.false_eq_true, false_iff]
        rintro ⟨-, h, -⟩
        simpa [hn] using h.version
    | some n =>
        cases ht : calendarTime (value .bdate) (value .btime) with
        | none =>
            simp only [hidle, Bool.false_eq_true, false_iff]
            rintro ⟨-, h, -⟩
            simpa [ht] using h.time
        | some newTime =>
            have hreadable : Readable (value .ver) (value .bdate)
                (value .btime) := ⟨by simp [hn], by simp [ht]⟩
            simp [hnewer, hver, newByVersion_iff, newByTime_iff, hread,
              hreadable, NewerVersion, NewerTime, versionOf, hn, ht,
              hrunning.version, hrunning.time]
  · generalize readRunning fw cache own = result at hok
    obtain ⟨ok, r⟩ := result
    obtain rfl : ok = false := hok
    simp [hidle, hread]

/-! ## A round of the check -/

/-- The fields of a file that the parser and the validation accept. -/
def offeredFields (fw : Firmware) (c : OtaCheck) : Option (MetaId → CStr) :=
  if c.buffP < 1 then none
  else (metaFields (cstrAt c.buff 0)).filter fun fields => Acceptable fw fields

theorem otaMetaCheckUpdate_cache (c : OtaCheck) (cache : RunningCache)
    (value : MetaId → CStr) (own offered : StackJunk) :
    (otaMetaCheckUpdate fw c cache value own offered).2 =
      (readRunning fw cache own).2 := by
  unfold otaMetaCheckUpdate
  generalize readRunning fw cache own = result
  obtain ⟨ok, r⟩ := result
  cases ok with
  | false => rfl
  | true =>
      dsimp only
      split <;> rfl

/-- The parser leaves the policy and the flags of the check. -/
theorem otaMetaParse_check (c : OtaCheck) (m : MetaValues) :
    ∃ buff, (otaMetaParse c m).2.1 = { c with buff := buff } := by
  unfold otaMetaParse
  split
  · exact ⟨c.buff, rfl⟩
  · dsimp only
    split
    · exact ⟨_, rfl⟩
    · exact ⟨c.buff, rfl⟩

theorem otaMetaCheckUpdate_buff_irrelevant (c : OtaCheck)
    (buff : List UInt8) (cache : RunningCache) (value : MetaId → CStr)
    (own offered : StackJunk) :
    (otaMetaCheckUpdate fw { c with buff := buff } cache value own
        offered).1.newVersion =
      (otaMetaCheckUpdate fw c cache value own offered).1.newVersion := by
  unfold otaMetaCheckUpdate
  generalize readRunning fw cache own = result
  obtain ⟨ok, r⟩ := result
  cases ok with
  | false => rfl
  | true =>
      dsimp only
      split <;> rfl

/-- A round that ends the download compares the fields of an accepted file, and
resets the check for any other. -/
theorem otaCheckRun_newVersion (c : OtaCheck) (m : MetaValues)
    (cache : RunningCache) (now : ℕ) (own offered : StackJunk)
    (hready : c.ready = true) (hnul : 0 ∈ c.buff) :
    (otaCheckRun fw c m cache now own offered).1.newVersion =
      match offeredFields fw c with
      | none => false
      | some fields =>
          (otaMetaCheckUpdate fw c cache fields own offered).1.newVersion := by
  have hresult := metaResult_eq fw c m hnul
  obtain ⟨buff, hparsed⟩ := otaMetaParse_check c m
  unfold metaResult at hresult
  unfold otaCheckRun offeredFields
  rw [if_pos hready]
  dsimp only at hresult ⊢
  by_cases hcount : c.buffP < 1
  · rw [if_pos hcount] at hresult ⊢
    split at hresult
    next hfail =>
      rw [if_pos hfail]
      rfl
    · contradiction
  · rw [if_neg hcount] at hresult ⊢
    split at hresult
    next hfail =>
      rw [if_pos hfail]
      obtain hnone := Option.map_eq_none_iff.mp hresult.symm
      rw [hnone]
      rfl
    next hok =>
      rw [if_neg hok]
      obtain ⟨fields, hfields, heq⟩ := Option.map_eq_some_iff.mp hresult.symm
      rw [hfields]
      obtain ⟨hvalidate, hvalues⟩ := Prod.mk.inj heq
      by_cases hacc : Acceptable fw fields
      · rw [if_pos hacc] at hvalidate
        rw [if_neg (by rw [← hvalidate]; decide), ← hvalues, hparsed,
          Option.filter_some_pos (by simpa using hacc)]
        exact otaMetaCheckUpdate_buff_irrelevant c buff cache fields own
          offered
      · rw [if_neg hacc] at hvalidate
        rw [if_pos (by rw [← hvalidate]; decide),
          Option.filter_some_neg (by simpa using hacc)]
        rfl

/-! ## Reachable checks -/

/-- A check that offers an image is over. -/
def OfferIdle (c : OtaCheck) : Prop :=
  c.newVersion = true → c.started = 0 ∧ c.inProgress = false

variable {sha256 : List UInt8 → List UInt8} {s : OtaSystem}

theorem OfferIdle.open_eq {c : OtaCheck} (h : OfferIdle c)
    (hnew : c.newVersion = true) (fname : Option CStr) (isWrite : Bool) :
    otaTftpCheckOpen c fname isWrite = (false, c) := by
  unfold otaTftpCheckOpen
  split
  · exact if_neg fun hopen => hopen.2.1 (h hnew).1
  · rfl

theorem OfferIdle.write_eq {c : OtaCheck} (h : OfferIdle c)
    (hnew : c.newVersion = true) (p : Pbuf) :
    otaTftpCheckWrite c p = (-1, c) := by
  unfold otaTftpCheckWrite
  simp [(h hnew).2, h.open_eq hnew]

theorem otaTftpCheckOpen_newVersion (c : OtaCheck) (fname : Option CStr)
    (isWrite : Bool) :
    (otaTftpCheckOpen c fname isWrite).2.newVersion = c.newVersion := by
  rcases otaTftpCheckOpen_cases c fname isWrite with heq | heq <;> rw [heq]

theorem otaTftpCheckWrite_newVersion (c : OtaCheck) (p : Pbuf) :
    (otaTftpCheckWrite c p).2.newVersion = c.newVersion := by
  have hopen := otaTftpCheckOpen_newVersion c c.file.fname true
  unfold otaTftpCheckWrite
  by_cases hprogress : c.inProgress = true
  · simp only [hprogress, if_true]
    split
    · rfl
    · split <;> rfl
  · simp only [if_neg hprogress]
    split
    · exact hopen
    · split <;> exact hopen

/-- A check command does nothing, or forgets the offer. -/
theorem otaUdateCheckRun_newVersion (s : OtaSystem) (params : Option CStr)
    (apply : Bool) (outcome : CheckOutcome) (now : ℕ) :
    otaUdateCheckRun s params apply outcome now = (-1, s) ∨
      s.update.started = 0 ∧
        (otaUdateCheckRun s params apply outcome now).2.check.newVersion =
          false := by
  have hnew : (checkFile (otaCheckReset s.check).1 (params.getD [])
      outcome).2.newVersion = false := by
    unfold checkFile
    dsimp only
    split
    · rfl
    · split
      · rfl
      · split
        · rfl
        · split
          · split <;> rfl
          · rfl
  unfold otaUdateCheckRun
  dsimp only
  split
  · exact Or.inl rfl
  next hstarted =>
    refine Or.inr ⟨by_contra fun h => hstarted (Or.inl h), ?_⟩
    split
    · rfl
    · split
      · rfl
      · cases hjob : outcome.jobFree with
        | false => rfl
        | true => exact hnew

/-- A round that ends with an offer ends the check. -/
theorem otaCheckRun_offerIdle {c : OtaCheck} (h : OfferIdle c)
    (m : MetaValues) (cache : RunningCache) (now : ℕ)
    (own offered : StackJunk) :
    OfferIdle (otaCheckRun fw c m cache now own offered).1 := by
  unfold otaCheckRun
  split
  · dsimp only
    split
    · exact fun hnew => (Bool.false_ne_true hnew).elim
    · split
      · exact fun hnew => (Bool.false_ne_true hnew).elim
      · exact fun _ => ⟨rfl, rfl⟩
  · split
    · exact h
    · exact fun hnew => (Bool.false_ne_true hnew).elim

/-- Offers stay idle, and while an update is under way an offer that is still
there is the one before. -/
structure OfferKept (s s' : OtaSystem) : Prop where
  idle : OfferIdle s'.check
  kept : s.update.started ≠ 0 → s'.check.newVersion = true →
    s.check.newVersion = true ∧ s'.check.buff = s.check.buff ∧
      s'.mdata = s.mdata

theorem offerKept_step (fw : Firmware) (sha256 : List UInt8 → List UInt8)
    (h : OfferIdle s.check) (e : OtaEvent) :
    OfferKept s (s.step fw sha256 e) := by
  have hrefl : OfferKept s s := ⟨h, fun _ hnew => ⟨hnew, rfl, rfl⟩⟩
  have hsame : ∀ s' : OtaSystem, s'.check = s.check → s'.mdata = s.mdata →
      OfferKept s s' :=
    fun _ hcheck hmdata => ⟨hcheck ▸ h,
      fun _ hnew => ⟨hcheck ▸ hnew, by rw [hcheck], hmdata⟩⟩
  have hforgot : ∀ s' : OtaSystem, s'.check.newVersion = false →
      OfferKept s s' :=
    fun _ hold => ⟨fun hnew => by simp [hold] at hnew,
      fun _ hnew => by simp [hold] at hnew⟩
  cases e with
  | update params allocated jobFree now =>
      simp only [OtaSystem.step, otaUdateStartCmd]
      split
      · exact hrefl
      · split
        · exact hsame _ rfl rfl
        · split
          · exact hsame _ rfl rfl
          · split <;> exact hsame _ rfl rfl
  | check params apply outcome now =>
      rcases otaUdateCheckRun_newVersion s params apply outcome now with
        heq | ⟨-, hold⟩
      · simp only [OtaSystem.step, heq]
        exact hrefl
      · exact hforgot (s.step fw sha256 (.check params apply outcome now)) hold
  | apply outcome now =>
      simp only [OtaSystem.step, otaUdateApplyCmd]
      split <;> exact hsame _ rfl rfl
  | cancel => exact hsame _ rfl rfl
  | strategy params =>
      simp only [OtaSystem.step, otaUdateStrategyCmd]
      split
      · exact hrefl
      · exact ⟨h, fun _ hnew => ⟨hnew, rfl, rfl⟩⟩
  | updateOpen fname isWrite => exact hsame _ rfl rfl
  | updateWrite p outcome => exact hsame _ rfl rfl
  | updateClose outcome => exact hsame _ rfl rfl
  | updateError => exact hsame _ rfl rfl
  | checkOpen fname isWrite =>
      cases hnew : s.check.newVersion with
      | false =>
          exact hforgot (s.step fw sha256 (.checkOpen fname isWrite))
            ((otaTftpCheckOpen_newVersion ..).trans hnew)
      | true =>
          exact hsame _ (congrArg Prod.snd (h.open_eq hnew fname isWrite)) rfl
  | checkWrite p =>
      cases hnew : s.check.newVersion with
      | false =>
          exact hforgot (s.step fw sha256 (.checkWrite p))
            ((otaTftpCheckWrite_newVersion ..).trans hnew)
      | true => exact hsame _ (congrArg Prod.snd (h.write_eq hnew p)) rfl
  | checkClose =>
      simp only [OtaSystem.step, otaTftpCheckClose]
      split
      · exact hforgot _ rfl
      · exact ⟨h, fun _ hnew => ⟨hnew, rfl, rfl⟩⟩
  | checkError => exact hforgot _ rfl
  | tick input =>
      simp only [OtaSystem.step, sysOtaRun]
      split
      · exact hsame _ rfl rfl
      next hidle =>
        have hzero : s.update.started = 0 :=
          by_contra fun hne => hidle (Or.inl hne)
        split
        · exact ⟨otaCheckRun_offerIdle h _ _ _ _ _,
            fun hne => (hne hzero).elim⟩
        · split
          · exact ⟨h, fun _ hnew => ⟨hnew, rfl, rfl⟩⟩
          · exact hrefl

theorem offerIdle_along (fw : Firmware) (sha256 : List UInt8 → List UInt8)
    (d : Device) (es : List OtaEvent) :
    OfferIdle ((OtaSystem.machine fw sha256).run (sysOtaInit fw d) es).check := by
  have hinit : OfferIdle (sysOtaInit fw d).check :=
    fun hnew => (Bool.false_ne_true hnew).elim
  generalize sysOtaInit fw d = s at hinit
  induction es generalizing s with
  | nil => exact hinit
  | cons e es ih => exact ih _ (offerKept_step fw sha256 hinit e).idle

/-! ## The numbers of the running firmware -/

/-- Only the comparison writes the numbers of the running firmware. -/
theorem step_cache (fw : Firmware) (sha256 : List UInt8 → List UInt8)
    (s : OtaSystem) (e : OtaEvent) :
    (s.step fw sha256 e).cache = s.cache ∨
      ∃ junk, (s.step fw sha256 e).cache = (readRunning fw s.cache junk).2 := by
  cases e with
  | update params allocated jobFree now =>
      refine Or.inl ?_
      simp only [OtaSystem.step, otaUdateStartCmd]
      split
      · rfl
      · split
        · rfl
        · split
          · rfl
          · split <;> rfl
  | check params apply outcome now =>
      refine Or.inl ?_
      simp only [OtaSystem.step, otaUdateCheckRun]
      split
      · rfl
      · split
        · rfl
        · split
          · rfl
          · generalize otaCheckStart _ outcome.jobFree now = result
            split <;> rfl
  | apply outcome now =>
      refine Or.inl ?_
      simp only [OtaSystem.step, otaUdateApplyCmd]
      split <;> rfl
  | strategy params =>
      refine Or.inl ?_
      simp only [OtaSystem.step, otaUdateStrategyCmd]
      split <;> rfl
  | tick input =>
      simp only [OtaSystem.step, sysOtaRun]
      split
      · exact Or.inl rfl
      · split
        · simp only [otaCheckRun]
          split
          · split
            · exact Or.inl rfl
            · split
              · exact Or.inl rfl
              · exact Or.inr ⟨input.own, otaMetaCheckUpdate_cache ..⟩
          · split <;> exact Or.inl rfl
        · split <;> exact Or.inl rfl
  | cancel => exact Or.inl rfl
  | updateOpen fname isWrite => exact Or.inl rfl
  | updateWrite p outcome => exact Or.inl rfl
  | updateClose outcome => exact Or.inl rfl
  | updateError => exact Or.inl rfl
  | checkOpen fname isWrite => exact Or.inl rfl
  | checkWrite p => exact Or.inl rfl
  | checkClose => exact Or.inl rfl
  | checkError => exact Or.inl rfl

/-- Once they are read, they are those of the running firmware. -/
theorem running_along (sha256 : List UInt8 → List UInt8)
    (hown : CopiedWhole fw.projectVersion fw.buildDate fw.buildTime)
    (d : Device) (es : List OtaEvent) :
    let s := (OtaSystem.machine fw sha256).run (sysOtaInit fw d) es
    s.cache.running ≠ 0 → Running fw s.cache := by
  have hinit : (sysOtaInit fw d).cache.running ≠ 0 →
      Running fw (sysOtaInit fw d).cache :=
    fun hread => (hread rfl).elim
  generalize sysOtaInit fw d = s at hinit
  induction es generalizing s with
  | nil => exact hinit
  | cons e es ih =>
      refine ih _ ?_
      rcases step_cache fw sha256 s e with
        heq | ⟨junk, heq⟩
      · simp only [OtaSystem.machine, heq]
        exact hinit
      · simp only [OtaSystem.machine, heq]
        intro hread
        rcases readRunning_spec hown hinit junk with
          ⟨-, -, hrunning⟩ | ⟨-, -, hzero⟩
        · exact hrunning
        · exact (hread hzero).elim

/-! ## Offers -/

/-- The next round of the module ends the download of a metadata file. -/
def EndsCheck (s : OtaSystem) : Prop :=
  s.update.started = 0 ∧ s.update.apply = 0 ∧ s.check.started ≠ 0 ∧
    s.check.ready = true

instance (s : OtaSystem) : Decidable (EndsCheck s) :=
  inferInstanceAs (Decidable (_ ∧ _ ∧ _ ∧ _))

/-- The file offers a newer version, and a newer build time if the policy wants
it. -/
def OffersNewer (fw : Firmware) (c : OtaCheck) : Prop :=
  ∃ fields ∈ offeredFields fw c,
    NewerVersion fw.projectVersion (fields .ver) ∧
      (c.checkTime = true →
        NewerTime fw.buildDate fw.buildTime (fields .bdate) (fields .btime))

instance (fw : Firmware) (c : OtaCheck) : Decidable (OffersNewer fw c) :=
  inferInstanceAs (Decidable (∃ fields ∈ _, _ ∧ (_ → _)))

/-- The version and the build time that the file offers are both newer or
neither is. -/
def OrdersAgree (fw : Firmware) (c : OtaCheck) : Prop :=
  ∀ fields ∈ offeredFields fw c,
    Readable fw.projectVersion fw.buildDate fw.buildTime →
    Readable (fields .ver) (fields .bdate) (fields .btime) →
    (NewerVersion fw.projectVersion (fields .ver) ↔
      NewerTime fw.buildDate fw.buildTime (fields .bdate) (fields .btime))

instance (fw : Firmware) (c : OtaCheck) : Decidable (OrdersAgree fw c) :=
  inferInstanceAs (Decidable (∀ fields ∈ _, _ → _ → (_ ↔ _)))

/-- With the policy for newer versions, a check that offers an image has read a
newer one exactly if it compares the versions only, or the two orders agree on
the file. -/
theorem offers_newer_iff (fw : Firmware) (sha256 : List UInt8 → List UInt8)
    (d : Device) (es : List OtaEvent) (t : TickInput)
    (hown : CopiedWhole fw.projectVersion fw.buildDate fw.buildTime) :
    let s := (OtaSystem.machine fw sha256).run (sysOtaInit fw d) es
    (∀ fields ∈ offeredFields fw s.check,
      CopiedWhole (fields .ver) (fields .bdate) (fields .btime)) →
    EndsCheck s → s.check.checkNewer = true → s.check.checkVer = true →
    (((s.step fw sha256 (.tick t)).check.newVersion = true →
        OffersNewer fw s.check) ↔
      (s.check.checkTime = true → OrdersAgree fw s.check)) := by
  intro s hvalues ⟨hstarted, happly, hcheck, hready⟩ hnewer hver
  have hcache := running_along sha256 hown d es
  have hidle : s.check.newVersion = false := by
    by_contra hnew
    exact hcheck (offerIdle_along fw sha256 d es (by simpa using hnew)).1
  have hnul : 0 ∈ s.check.buff :=
    List.mem_of_getElem? (deliveryInv_along fw sha256 d es).last
  have hround : (s.step fw sha256 (.tick t)).check =
      (otaCheckRun fw s.check s.mdata s.cache t.now t.own t.offered).1 := by
    simp only [OtaSystem.step, sysOtaRun]
    rw [if_neg (by simp [hstarted, happly]), if_pos hcheck]
  rw [hround, otaCheckRun_newVersion _ _ _ _ _ _ hready hnul]
  unfold OffersNewer OrdersAgree
  cases hfields : offeredFields fw s.check with
  | none => simp
  | some fields =>
      have hoffers := otaMetaCheckUpdate_offers_iff t.own
        t.offered hown (hvalues fields hfields) hcache hidle hnewer hver
      change (otaMetaCheckUpdate fw s.check s.cache fields t.own
        t.offered).1.newVersion = true ↔ _ at hoffers
      simp only [Option.mem_def, Option.some.injEq, exists_eq_left',
        forall_eq']
      rw [hoffers]
      constructor
      · intro h htime hown hoffered
        constructor
        · intro hversion
          exact (h ⟨hown, hoffered, .inl hversion⟩).2 htime
        · intro hlater
          exact (h ⟨hown, hoffered, .inr ⟨htime, hlater⟩⟩).1
      · rintro h ⟨hown, hoffered, hversion | ⟨htime, hlater⟩⟩
        · exact ⟨hversion, fun htime => (h htime hown hoffered).mp hversion⟩
        · exact ⟨(h htime hown hoffered).mpr hlater, fun _ => hlater⟩

/-- The policy for images newer in version and build time, and a file. -/
def newerPolicyRun (version : String) : List OtaEvent :=
  .strategy (some (lit ":new:version:time")) ::
    (download 1 (relayMeta version "none") ++ [.checkClose])

def tickAt (now : ℕ) : TickInput where
  now := now
  firmwareOk := true
  own := { ver := [], date := [], time := [] }
  offered := { ver := [], date := [], time := [] }
  apply :=
    { peerAllocated := true, pathAllocated := true, fnameAllocated := true,
      jobFree := true }

theorem relayFirmware_shortTexts :
    ShortTexts relayFirmware.projectVersion relayFirmware.buildDate
      relayFirmware.buildTime := by
  decide +kernel

theorem newerRelay_ends :
    let s := (OtaSystem.machine relayFirmware knownSha256).run
      (sysOtaInit relayFirmware bootDevice) (newerPolicyRun "2.3.5")
    (∀ fields ∈ offeredFields relayFirmware s.check,
        ShortTexts (fields .ver) (fields .bdate) (fields .btime)) ∧
      EndsCheck s ∧ s.check.checkNewer = true ∧ s.check.checkVer = true ∧
      OrdersAgree relayFirmware s.check ∧
      (s.step relayFirmware knownSha256 (.tick (tickAt 3))).check.newVersion =
        true := by
  decide +kernel

theorem offers_newer_iff_newerRelay :
    OffersNewer relayFirmware
      ((OtaSystem.machine relayFirmware knownSha256).run
        (sysOtaInit relayFirmware bootDevice)
        (newerPolicyRun "2.3.5")).check := by
  obtain ⟨hshort, hends, hnewer, hver, hagree, hoffers⟩ := newerRelay_ends
  exact (offers_newer_iff relayFirmware knownSha256 bootDevice
    (newerPolicyRun "2.3.5") (tickAt 3) relayFirmware_shortTexts.copiedWhole
    (fun fields hfields => (hshort fields hfields).copiedWhole)
    hends hnewer hver).mpr (fun _ => hagree) hoffers

/-- A build of today of an older version is offered. -/
theorem older_version_offered :
    let s := (OtaSystem.machine relayFirmware knownSha256).run bootSystem
      (newerPolicyRun "2.3.3")
    (OtaSystem.machine relayFirmware knownSha256).Admits bootSystem
        (newerPolicyRun "2.3.3") ∧
      s.check.checkNewer = true ∧ s.check.checkVer = true ∧
      (s.step relayFirmware knownSha256 (.tick (tickAt 3))).check.newVersion =
        true ∧
      ¬OffersNewer relayFirmware s.check := by
  decide +kernel

end Herak.Ota
