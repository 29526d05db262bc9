import Herak.Ota.Downgrade
import Herak.Ota.ImageWrite

/-!
# The SHA that an image is compared with

An update is started by the update command, without a SHA, or by an apply, with
the SHA of the metadata file.  The record of who started the update under way
says which SHA its image is to be compared with.  In the runs that apply SHA
texts of the right length only, apply nothing over an update of the update
command, and start none of these while the SHA of a failed apply is left, the
module compares with that one.
-/

namespace Herak.Ota

open CString Memory

/-! ## Who started the update -/

inductive Origin
  | direct
  | check (sha : CStr)
  deriving DecidableEq

/-- The SHA that the image is to be compared with; empty for none. -/
def Origin.sha : Origin → CStr
  | .direct => []
  | .check sha => sha

/-- The text of the SHA field of the last check. -/
def shaText (s : OtaSystem) : CStr :=
  (metaValue s.check.buff s.mdata .sha).getD []

/-- The event runs `ota_update_apply`. -/
def Applies (s : OtaSystem) : OtaEvent → Prop
  | .apply _ _ => s.check.newVersion = true
  | .tick _ =>
      s.update.started = 0 ∧ s.update.apply = 0 ∧ s.check.started = 0 ∧
        s.check.newVersion = true ∧ s.check.apply ≠ 0
  | _ => False

/-- The event is an update command that is accepted. -/
def StartsDirect (s : OtaSystem) : OtaEvent → Prop
  | .update params allocated jobFree now =>
      (otaUdateStartCmd s params allocated jobFree now).1 = 0
  | _ => False

/-- The event is an apply that starts an update. -/
def StartsApply (s : OtaSystem) (e : OtaEvent) : Prop :=
  Applies s e ∧
    match e with
    | .apply outcome now =>
        (otaUpdateApply s.check s.mdata s.update outcome now).1 = 0
    | .tick t =>
        (otaUpdateApply s.check s.mdata s.update t.apply t.now).1 = 0
    | _ => False

instance (s : OtaSystem) : ∀ e, Decidable (Applies s e)
  | .apply .. => inferInstanceAs (Decidable (_ = _))
  | .tick _ => inferInstanceAs (Decidable (_ ∧ _ ∧ _ ∧ _ ∧ _))
  | .update .. | .check .. | .cancel | .strategy .. | .updateOpen ..
  | .updateWrite .. | .updateClose .. | .updateError | .checkOpen ..
  | .checkWrite .. | .checkClose | .checkError =>
      .isFalse id

instance (s : OtaSystem) : ∀ e, Decidable (StartsDirect s e)
  | .update .. => inferInstanceAs (Decidable (_ = _))
  | .apply .. | .tick _ | .check .. | .cancel | .strategy .. | .updateOpen ..
  | .updateWrite .. | .updateClose .. | .updateError | .checkOpen ..
  | .checkWrite .. | .checkClose | .checkError =>
      .isFalse id

instance (s : OtaSystem) : ∀ e, Decidable (StartsApply s e)
  | .apply .. | .tick _ => inferInstanceAs (Decidable (_ ∧ _ = _))
  | .update .. | .check .. | .cancel | .strategy .. | .updateOpen ..
  | .updateWrite .. | .updateClose .. | .updateError | .checkOpen ..
  | .checkWrite .. | .checkClose | .checkError =>
      .isFalse fun h => h.2

/-- Who started the update under way, after an event. -/
def recordOrigin (s : OtaSystem) (e : OtaEvent) (o : Origin) : Origin :=
  if StartsDirect s e then .direct
  else if StartsApply s e then .check (shaText s)
  else o

/-- The module with a record of who started the update under way. -/
def originMachine (fw : Firmware) (sha256 : List UInt8 → List UInt8) :
    EventMachine (OtaSystem × Origin) OtaEvent :=
  (OtaSystem.machine fw sha256).recording recordOrigin

/-! ## The property -/

/-- A step marks an image of an apply valid only if the digest of the image in
the slot is the SHA of the check. -/
def MarksVerified (fw : Firmware) (sha256 : List UInt8 → List UInt8)
    (x : OtaSystem × Origin) (e : OtaEvent) : Prop :=
  x.1.device.slot.valid = false →
  (x.1.step fw sha256 e).device.slot.valid = true →
  ∀ sha, x.2 = .check sha →
    hexText (sha256 x.1.update.sha) = sha ∧
      ImageInv x.1.update (x.1.step fw sha256 e).device

/-- An image of the update command has no SHA to be compared with. -/
def DirectUncompared (x : OtaSystem × Origin) : Prop :=
  x.1.update.started ≠ 0 → x.2 = .direct → x.1.update.shaVerify = []

/-- The apply finds a SHA of the right length and no update of the update
command under way, and the update command finds no SHA left over. -/
def Careful (x : OtaSystem × Origin) (e : OtaEvent) : Prop :=
  (Applies x.1 e →
    (shaText x.1).length = shaBuffStr - 1 ∧
      (x.1.update.started ≠ 0 → x.2 ≠ .direct)) ∧
  (StartsDirect x.1 e → x.1.update.shaVerify = [])

instance (x : OtaSystem × Origin) (e : OtaEvent) : Decidable (Careful x e) :=
  inferInstanceAs (Decidable (_ ∧ _))

/-! ## The invariant -/

/-- While an update is under way its SHA is the one to compare with, and an
apply would find the same one again. -/
structure VerifyInv (x : OtaSystem × Origin) : Prop where
  expects : x.1.update.started ≠ 0 → x.1.update.shaVerify = x.2.sha
  length : x.1.update.started ≠ 0 → x.2 ≠ .direct →
    x.2.sha.length = shaBuffStr - 1
  same : x.1.update.started ≠ 0 → x.2 ≠ .direct →
    x.1.check.newVersion = true → shaText x.1 = x.2.sha

variable {fw : Firmware} {sha256 : List UInt8 → List UInt8}
variable {s : OtaSystem} {o : Origin}

/-- The update ends, or keeps its start and its SHA. -/
def StartKept (u u' : OtaUpdate) : Prop :=
  u'.started = 0 ∨ u'.started = u.started ∧ u'.shaVerify = u.shaVerify

theorem StartKept.refl (u : OtaUpdate) : StartKept u u :=
  Or.inr ⟨rfl, rfl⟩

theorem startKept_rule (u : OtaUpdate) :
    DownloadRule fun u' _ => StartKept u u' where
  reset := fun _ => Or.inl rfl
  opened := fun h _ => h
  copied := fun _ h _ => h
  committed := fun outcome h => by cases outcome <;> exact h
  ready := fun h _ => h
  validated := fun _ h _ _ => h
  rebooted := fun h => h

/-- An update command is refused, resets the update or starts it. -/
theorem otaUdateStartCmd_cases (s : OtaSystem) (params : Option CStr)
    (allocated jobFree : Bool) (now : ℕ) :
    otaUdateStartCmd s params allocated jobFree now = (-1, s) ∨
      (∃ file, otaUdateStartCmd s params allocated jobFree now =
        (-1, s.withUpdate
          (otaUpdateReset { s.update with file := file } s.device))) ∨
      ∃ file, otaUdateStartCmd s params allocated jobFree now =
        (0, { s with
          update := { s.update with file := file, started := now } }) := by
  unfold otaUdateStartCmd
  split
  · exact Or.inl rfl
  · split
    · exact Or.inr (Or.inl ⟨s.update.file, rfl⟩)
    · dsimp only
      split
      · exact Or.inr (Or.inl ⟨_, rfl⟩)
      · cases jobFree with
        | true => exact Or.inr (Or.inr ⟨_, rfl⟩)
        | false => exact Or.inr (Or.inl ⟨_, rfl⟩)

variable (fw sha256) in
theorem update_kept {e : OtaEvent} (he : s.Enabled e)
    (hdirect : ¬StartsDirect s e) (happly : ¬Applies s e) :
    StartKept s.update (s.step fw sha256 e).update := by
  have hrule := startKept_rule s.update
  have hrefl := StartKept.refl s.update
  cases e with
  | update params allocated jobFree now =>
      rcases otaUdateStartCmd_cases s params allocated jobFree now with
        heq | ⟨file, heq⟩ | ⟨file, heq⟩
      · simp only [OtaSystem.step, heq]
        exact hrefl
      · simp only [OtaSystem.step, heq]
        exact Or.inl rfl
      · exact (hdirect (by simp [StartsDirect, heq])).elim
  | check params apply outcome now =>
      simp only [OtaSystem.step,
        (otaUdateCheckRun_update s params apply outcome now).1]
      exact hrefl
  | apply outcome now =>
      have hnew : s.check.newVersion = false := by simpa [Applies] using happly
      simp only [OtaSystem.step, otaUdateApplyCmd, hnew, Bool.false_eq_true,
        if_false]
      exact hrefl
  | cancel => exact Or.inl rfl
  | strategy params =>
      simp only [OtaSystem.step, otaUdateStrategyCmd]
      split <;> exact hrefl
  | updateOpen fname isWrite =>
      exact hrule.tftpOpen (d := s.device) hrefl fname isWrite
  | updateWrite p outcome =>
      exact hrule.tftpWrite (d := s.device) hrefl p outcome
  | updateClose outcome => exact hrule.tftpClose (d := s.device) hrefl outcome
  | updateError => exact Or.inl rfl
  | checkOpen fname isWrite => exact hrefl
  | checkWrite p => exact hrefl
  | checkClose => exact hrefl
  | checkError => exact hrefl
  | tick input =>
      simp only [OtaSystem.step, sysOtaRun]
      split
      · exact hrule.run (d := s.device) sha256 hrefl (he.2 input.now rfl)
          input.firmwareOk
      next hidle =>
        split
        · exact hrefl
        next hcheck =>
          split
          next hoffer =>
            push Not at hidle
            exact (happly ⟨hidle.1, hidle.2, not_not.mp hcheck, hoffer⟩).elim
          · exact hrefl

theorem recordOrigin_of_kept {e : OtaEvent} (hdirect : ¬StartsDirect s e)
    (happly : ¬Applies s e) : recordOrigin s e o = o := by
  unfold recordOrigin
  rw [if_neg hdirect, if_neg fun h => happly h.1]

/-- What an apply returned. -/
def applyResult (s : OtaSystem) : OtaEvent → ℤ
  | .apply outcome now =>
      (otaUpdateApply s.check s.mdata s.update outcome now).1
  | .tick t => (otaUpdateApply s.check s.mdata s.update t.apply t.now).1
  | _ => -1

theorem recordOrigin_of_applies {e : OtaEvent} (hdirect : ¬StartsDirect s e)
    (happly : Applies s e) :
    recordOrigin s e o =
      if applyResult s e = 0 then .check (shaText s) else o := by
  unfold recordOrigin
  rw [if_neg hdirect]
  refine if_congr ?_ rfl rfl
  cases e <;> simp_all [StartsApply, Applies, applyResult]

theorem verifyInv_kept (h : VerifyInv (s, o)) (hidle : OfferIdle s.check)
    {e : OtaEvent} (he : s.Enabled e) (hdirect : ¬StartsDirect s e)
    (happly : ¬Applies s e) :
    VerifyInv (s.step fw sha256 e, recordOrigin s e o) := by
  have hkept := update_kept fw sha256 he hdirect happly
  have hoffer := offerKept_step fw sha256 hidle e
  have hstill : (s.step fw sha256 e).update.started ≠ 0 →
      s.update.started ≠ 0 ∧
        (s.step fw sha256 e).update.shaVerify = s.update.shaVerify := by
    intro hstarted
    rcases hkept with hzero | ⟨hsame, hsha⟩
    · exact (hstarted hzero).elim
    · exact ⟨hsame ▸ hstarted, hsha⟩
  rw [recordOrigin_of_kept hdirect happly]
  refine ⟨fun hstarted => ?_, fun hstarted => ?_, fun hstarted ho hnew => ?_⟩
  · obtain ⟨hbefore, hsha⟩ := hstill hstarted
    exact hsha.trans (h.expects hbefore)
  · exact h.length (hstill hstarted).1
  · obtain ⟨hbefore, -⟩ := hstill hstarted
    obtain ⟨hnew', hbuff, hmdata⟩ := hoffer.kept hbefore hnew
    refine Eq.trans ?_ (h.same hbefore ho hnew')
    simp only [shaText, hbuff, hmdata]

/-- An apply leaves the SHA of the check in the update, whether it starts the
update or not. -/
theorem verifyInv_apply {s' : OtaSystem} {outcome : ApplyOutcome} {now : ℕ}
    (h : VerifyInv (s, o)) (hnew : s.check.newVersion = true)
    (hlength : (shaText s).length = shaBuffStr - 1)
    (hdirect : s.update.started ≠ 0 → o ≠ .direct)
    (htext : shaText s' = shaText s)
    (hupdate : s'.update =
      (otaUpdateApply s.check s.mdata s.update outcome now).2) :
    VerifyInv (s',
      if (otaUpdateApply s.check s.mdata s.update outcome now).1 = 0 then
        .check (shaText s) else o) := by
  have hcopied : (if strlen (shaText s) = shaBuffStr - 1 then shaText s
      else s.update.shaVerify) = shaText s :=
    if_pos hlength
  rcases otaUpdateApply_cases s.check s.mdata s.update outcome now with
    ⟨file, sha, heq, hsha⟩ | ⟨file, heq⟩
  · rw [heq] at hupdate ⊢
    rw [if_neg (by decide : ¬(-1 : ℤ) = 0)]
    -- A failed apply has copied the SHA of the check that the update is from.
    have hstays : s.update.started ≠ 0 → sha = o.sha := by
      intro hstarted
      rcases hsha with hsha | hsha
      · exact hsha.trans (h.expects hstarted)
      · exact (hsha.trans hcopied).trans
          (h.same hstarted (hdirect hstarted) hnew)
    refine ⟨?_, ?_, ?_⟩
    · simp only [hupdate]
      exact hstays
    · simp only [hupdate]
      exact h.length
    · simp only [hupdate]
      intro hstarted ho _
      rw [htext]
      exact h.same hstarted ho hnew
  · rw [heq] at hupdate ⊢
    rw [if_pos rfl]
    refine ⟨fun _ => ?_, fun _ _ => hlength, fun _ _ _ => htext⟩
    simp only [hupdate]
    exact hcopied

theorem verifyInv_step {x : OtaSystem × Origin} (h : VerifyInv x)
    (hidle : OfferIdle x.1.check) {e : OtaEvent} (he : x.1.Enabled e)
    (hcareful : Careful x e) :
    VerifyInv ((originMachine fw sha256).step x e) := by
  obtain ⟨s, o⟩ := x
  by_cases happly : Applies s e
  · obtain ⟨hlength, hdirect⟩ := hcareful.1 happly
    cases e with
    | apply outcome now =>
        have hnew : s.check.newVersion = true := happly
        have hrecord : recordOrigin s (.apply outcome now) o = _ :=
          recordOrigin_of_applies id happly
        have hstep : s.step fw sha256 (.apply outcome now) = _ :=
          congrArg Prod.snd (if_pos hnew)
        simp only [originMachine, EventMachine.recording, OtaSystem.machine,
          hrecord, hstep]
        exact verifyInv_apply h hnew hlength hdirect rfl rfl
    | tick t =>
        have hrecord : recordOrigin s (.tick t) o = _ :=
          recordOrigin_of_applies id happly
        obtain ⟨hstarted, hpending, hcheck, hnew, hretries⟩ := happly
        have hstep : s.step fw sha256 (.tick t) =
            { s with
              check := { s.check with apply := s.check.apply - 1 }
              update :=
                (otaUpdateApply s.check s.mdata s.update t.apply t.now).2 } := by
          simp only [OtaSystem.step, sysOtaRun]
          rw [if_neg (by simp [hstarted, hpending]),
            if_neg (not_not.mpr hcheck), if_pos ⟨hnew, hretries⟩]
          rfl
        simp only [originMachine, EventMachine.recording, OtaSystem.machine,
          hrecord, hstep]
        exact verifyInv_apply h hnew hlength hdirect rfl rfl
    | _ => exact happly.elim
  · by_cases hdirect : StartsDirect s e
    · have hempty := hcareful.2 hdirect
      cases e with
      | update params allocated jobFree now =>
          have hrecord : recordOrigin s (.update params allocated jobFree now)
              o = .direct :=
            if_pos hdirect
          simp only [originMachine, EventMachine.recording, OtaSystem.machine,
            hrecord]
          refine ⟨fun _ => ?_, fun _ ho => (ho rfl).elim,
            fun _ ho => (ho rfl).elim⟩
          rcases otaUdateStartCmd_cases s params allocated jobFree now with
            heq | ⟨file, heq⟩ | ⟨file, heq⟩
          · simp [StartsDirect, heq] at hdirect
          · simp [StartsDirect, heq] at hdirect
          · simp only [OtaSystem.step, heq]
            exact hempty
      | _ => exact hdirect.elim
    · exact verifyInv_kept h hidle he hdirect happly

theorem originMachine_fst (x : OtaSystem × Origin) (es : List OtaEvent) :
    ((originMachine fw sha256).run x es).1 =
      (OtaSystem.machine fw sha256).run x.1 es :=
  EventMachine.recording_run_fst x es

theorem verifyInv_along {d : Device} {es : List OtaEvent}
    (hes : (originMachine fw sha256).Along
      (fun x e => x.1.Enabled e ∧ Careful x e) (sysOtaInit fw d, .direct) es) :
    VerifyInv ((originMachine fw sha256).run (sysOtaInit fw d, .direct) es) := by
  have hinit : VerifyInv (sysOtaInit fw d, .direct) :=
    ⟨fun hstarted => (hstarted rfl).elim, fun hstarted => (hstarted rfl).elim,
      fun hstarted => (hstarted rfl).elim⟩
  have hidle : OfferIdle (sysOtaInit fw d).check := offerIdle_along fw sha256 d []
  exact (EventMachine.Along.invariant
    (I := fun x => VerifyInv x ∧ OfferIdle x.1.check)
    (fun x e h he => ⟨verifyInv_step h.1 h.2 he.1 he.2,
      (offerKept_step fw sha256 h.2 e).idle⟩)
    hes ⟨hinit, hidle⟩).1

/-! ## The validation -/

theorem invalid_rule : CallbackRule fun _ d => d.slot.valid = false where
  reset := fun {u d} h => by
    unfold otaUpdateReset
    split
    · rfl
    · exact h
  opened := fun _ _ => rfl
  copied := fun _ h _ => h
  committed := fun outcome h => by cases outcome <;> exact h
  ready := fun h _ => h

/-- A round that marks the image valid has compared it. -/
theorem otaUpdateRun_validates {u : OtaUpdate} {d : Device} {now : ℕ}
    {firmwareOk : Bool} (hbefore : d.slot.valid = false)
    (hafter : (otaUpdateRun sha256 u d now firmwareOk).2.slot.valid = true) :
    u.apply = 0 ∧
      (u.shaVerify = [] ∨
        strncmp u.shaVerify (hexText (sha256 u.sha)) shaBuffStr = 0) ∧
      (0 < now →
        (otaUpdateRun sha256 u d now firmwareOk).2.slot.bytes = d.slot.bytes) := by
  have hreset := (invalid_rule.reset (u := u) (d := d) hbefore)
  unfold otaUpdateRun at hafter ⊢
  split at hafter
  · dsimp only at hafter
    split at hafter <;> simp [hbefore] at hafter
  next happly =>
    rw [if_neg happly]
    split at hafter
    next hready =>
      rw [if_pos hready]
      unfold otaUpdateValidate at hafter ⊢
      dsimp only at hafter ⊢
      split at hafter
      · simp [hreset] at hafter
      next hcompared =>
        rw [if_neg hcompared]
        split at hafter
        next hok =>
          rw [if_pos hok]
          refine ⟨not_not.mp happly, by tauto, fun hnow => ?_⟩
          simp [otaUpdateReset, hnow.ne']
        · simp [hreset] at hafter
    · split at hafter
      · simp [hreset] at hafter
      · simp [hbefore] at hafter

/-- Only a round of the main loop marks an image valid. -/
theorem step_validates {e : OtaEvent} (he : s.Enabled e)
    (hbefore : s.device.slot.valid = false)
    (hafter : (s.step fw sha256 e).device.slot.valid = true) :
    s.update.started ≠ 0 ∧
      (s.update.shaVerify = [] ∨
        strncmp s.update.shaVerify (hexText (sha256 s.update.sha))
          shaBuffStr = 0) ∧
      (s.step fw sha256 e).device.slot.bytes = s.device.slot.bytes := by
  have hrule := invalid_rule
  -- Every other event keeps the mark as it is.
  have hstays : (s.step fw sha256 e).device.slot.valid = false →
      s.update.started ≠ 0 ∧
        (s.update.shaVerify = [] ∨
          strncmp s.update.shaVerify (hexText (sha256 s.update.sha))
            shaBuffStr = 0) ∧
        (s.step fw sha256 e).device.slot.bytes = s.device.slot.bytes :=
    fun hinvalid => by simp [hinvalid] at hafter
  cases e with
  | update params allocated jobFree now =>
      refine hstays ?_
      rcases otaUdateStartCmd_cases s params allocated jobFree now with
        heq | ⟨file, heq⟩ | ⟨file, heq⟩ <;> simp only [OtaSystem.step, heq]
      · exact hbefore
      · exact hrule.reset hbefore
      · exact hbefore
  | check params apply outcome now =>
      refine hstays ?_
      simp only [OtaSystem.step,
        (otaUdateCheckRun_update s params apply outcome now).2]
      exact hbefore
  | apply outcome now =>
      refine hstays ?_
      simp only [OtaSystem.step, otaUdateApplyCmd]
      split <;> exact hbefore
  | cancel => exact hstays (hrule.reset (u := s.update) hbefore)
  | strategy params =>
      refine hstays ?_
      simp only [OtaSystem.step, otaUdateStrategyCmd]
      split <;> exact hbefore
  | updateOpen fname isWrite =>
      exact hstays (hrule.tftpOpen (u := s.update) hbefore fname isWrite)
  | updateWrite p outcome =>
      exact hstays (hrule.tftpWrite (u := s.update) hbefore p outcome)
  | updateClose outcome =>
      exact hstays (hrule.tftpClose (u := s.update) hbefore outcome)
  | updateError => exact hstays (hrule.reset (u := s.update) hbefore)
  | checkOpen fname isWrite => exact hstays hbefore
  | checkWrite p => exact hstays hbefore
  | checkClose => exact hstays hbefore
  | checkError => exact hstays hbefore
  | tick input =>
      simp only [OtaSystem.step, sysOtaRun] at hafter ⊢
      split at hafter
      next hbusy =>
        rw [if_pos hbusy]
        obtain ⟨happly, hcompared, hbytes⟩ :=
          otaUpdateRun_validates hbefore hafter
        refine ⟨hbusy.resolve_right (not_not.mpr happly), hcompared, ?_⟩
        exact hbytes (he.2 input.now rfl)
      · split at hafter
        · simp [hbefore] at hafter
        · split at hafter <;> simp [hbefore] at hafter

/-- A text of the right length passes the comparison only as the digest
itself. -/
theorem hexText_eq_of_strncmp {sha digest : CStr}
    (hlength : sha.length = shaBuffStr - 1)
    (hcompared : strncmp sha digest shaBuffStr = 0) : digest = sha := by
  rw [strncmp_eq_zero_iff] at hcompared
  have hlen : shaBuffStr = sha.length + 1 := by
    simp only [shaBuffStr] at hlength ⊢
    omega
  rw [List.take_of_length_le (by omega)] at hcompared
  have htake := congrArg List.length hcompared
  rw [List.length_take] at htake
  rw [hcompared, List.take_of_length_le (by omega)]

/-! ## Runs -/

/-- In every such run the image of an apply is compared with the SHA of its
check, and the image of an update command with none. -/
theorem verified_apply (fw : Firmware) (sha256 : List UInt8 → List UInt8)
    (d : Device) (es : List OtaEvent) (e : OtaEvent)
    (hes : (originMachine fw sha256).Along
      (fun x e => x.1.Enabled e ∧ Careful x e) (sysOtaInit fw d, .direct) es)
    (he : ((originMachine fw sha256).run
      (sysOtaInit fw d, .direct) es).1.Enabled e) :
    MarksVerified fw sha256
        ((originMachine fw sha256).run (sysOtaInit fw d, .direct) es) e ∧
      DirectUncompared
        ((originMachine fw sha256).run (sysOtaInit fw d, .direct) es) := by
  have hinv := verifyInv_along hes
  have hadmits : (OtaSystem.machine fw sha256).Admits (sysOtaInit fw d) es :=
    EventMachine.recording_along.mp (hes.mono fun _ _ h => h.1)
  have himage := (imageInv_along hadmits).2
  rw [← originMachine_fst (sysOtaInit fw d, .direct) es] at himage
  generalize (originMachine fw sha256).run (sysOtaInit fw d, .direct) es = x
    at he hinv himage
  refine ⟨fun hbefore hafter sha hsha => ?_, fun hstarted ho => ?_⟩
  · obtain ⟨hstarted, hcompared, hbytes⟩ := step_validates he hbefore hafter
    have hdirect : x.2 ≠ .direct := by simp [hsha]
    have hlength : sha.length = shaBuffStr - 1 := by
      simpa [hsha, Origin.sha] using hinv.length hstarted hdirect
    have hexpects : x.1.update.shaVerify = sha := by
      simpa [hsha, Origin.sha] using hinv.expects hstarted
    refine ⟨?_, fun hlt => ?_⟩
    · rcases hcompared with hnone | hcompared
      · rw [← hexpects, hnone] at hlength
        simp [shaBuffStr] at hlength
      · rw [hexpects] at hcompared
        exact hexText_eq_of_strncmp hlength hcompared
    · rw [hbytes]
      exact himage hlt
  · simpa [ho, Origin.sha] using hinv.expects hstarted

/-- A metadata file of a newer image. -/
def shaMeta (sha : String) : List UInt8 :=
  lit "image: relay\nfile: relay_fota_image.bin\nSHA: " ++ lit sha ++
    lit "\nversion: 2.3.5\ncommit: 1f0e6d2\nbuild date: 25.06.2025" ++
    lit "\nbuild time: 12:30:00\ndevice arch: rp2040\n"

/-- A check that finds the newer image, and an apply. -/
def applyRun (sha : String) (jobFree : Bool) : List OtaEvent :=
  download 1 (shaMeta sha) ++
    [.checkClose, .tick (tickAt 3),
      .apply { (tickAt 3).apply with jobFree := jobFree } 4]

/-- The download of the image of one byte. -/
def oneByteImage : List OtaEvent :=
  [.updateWrite { payload := [1], next := [] } (fun _ => .ok),
    .updateClose .ok]

/-- The SHA of that image. -/
def oneByteSha : String :=
  "4bf5122f344554c53bde2ebb8cd2b7e3d1600ad631c385a5d7cce23c7785459a"

/-- An apply that fails, and an update command. -/
def leftShaRun : List OtaEvent :=
  applyRun oneByteSha false ++
    [.update (some (lit ":tftp://h/f.bin")) true true 5]

theorem applyRun_spec :
    (originMachine relayFirmware knownSha256).Along
        (fun x e => x.1.Enabled e ∧ Careful x e)
        (sysOtaInit relayFirmware bootDevice, .direct)
        (applyRun oneByteSha true ++ oneByteImage) ∧
      ((originMachine relayFirmware knownSha256).run
        (sysOtaInit relayFirmware bootDevice, .direct)
        (applyRun oneByteSha true ++ oneByteImage)).1.Enabled
          (.tick (tickAt 5)) := by
  decide +kernel

theorem verified_apply_oneByteImage :
    let x := (originMachine relayFirmware knownSha256).run
      (sysOtaInit relayFirmware bootDevice, .direct)
      (applyRun oneByteSha true ++ oneByteImage)
    MarksVerified relayFirmware knownSha256 x (.tick (tickAt 5)) ∧
      DirectUncompared x := by
  obtain ⟨hes, he⟩ := applyRun_spec
  exact verified_apply relayFirmware knownSha256 bootDevice
    (applyRun oneByteSha true ++ oneByteImage) (.tick (tickAt 5)) hes he

/-- With a SHA of two digits any image is marked valid; with the SHA of a failed
apply left over, the image of an update command is compared with it. -/
theorem short_sha_unverified :
    (OtaSystem.machine relayFirmware knownSha256).Admits
        (sysOtaInit relayFirmware bootDevice)
        (applyRun "4b" true ++ oneByteImage ++ [.tick (tickAt 5)]) ∧
      ¬MarksVerified relayFirmware knownSha256
        ((originMachine relayFirmware knownSha256).run
          (sysOtaInit relayFirmware bootDevice, .direct)
          (applyRun "4b" true ++ oneByteImage)) (.tick (tickAt 5)) ∧
      (OtaSystem.machine relayFirmware knownSha256).Admits
        (sysOtaInit relayFirmware bootDevice) leftShaRun ∧
      ¬DirectUncompared ((originMachine relayFirmware knownSha256).run
        (sysOtaInit relayFirmware bootDevice, .direct) leftShaRun) := by
  have hshort :
      let x := (originMachine relayFirmware knownSha256).run
        (sysOtaInit relayFirmware bootDevice, .direct)
        (applyRun "4b" true ++ oneByteImage)
      (OtaSystem.machine relayFirmware knownSha256).Admits
          (sysOtaInit relayFirmware bootDevice)
          (applyRun "4b" true ++ oneByteImage ++ [.tick (tickAt 5)]) ∧
        x.1.device.slot.valid = false ∧
        (x.1.step relayFirmware knownSha256
          (.tick (tickAt 5))).device.slot.valid = true ∧
        x.2 = .check (lit "4b") ∧
        hexText (knownSha256 x.1.update.sha) ≠ lit "4b" := by
    decide +kernel
  have hleft :
      let x := (originMachine relayFirmware knownSha256).run
        (sysOtaInit relayFirmware bootDevice, .direct) leftShaRun
      (OtaSystem.machine relayFirmware knownSha256).Admits
          (sysOtaInit relayFirmware bootDevice) leftShaRun ∧
        x.1.update.started ≠ 0 ∧ x.2 = .direct ∧
        x.1.update.shaVerify ≠ [] := by
    decide +kernel
  obtain ⟨hadmits, hbefore, hafter, hsha, hother⟩ := hshort
  obtain ⟨hadmits', hstarted, hdirect, hsome⟩ := hleft
  refine ⟨hadmits, fun hmarks => ?_, hadmits', fun hnone => ?_⟩
  · exact hother (hmarks hbefore hafter _ hsha).1
  · exact hsome (hnone hstarted hdirect)

end Herak.Ota
