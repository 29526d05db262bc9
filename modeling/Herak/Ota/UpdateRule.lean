import Herak.Ota.System

/-!
# What the module does to an update

All functions of the update half are made of a few operations on the update and
the device: a reset, the opening of a download, a copy into the page buffer, a
commit of it, and flags.  A property that each of them keeps is kept by every
step of the module.
-/

namespace Herak.Ota

open CString Memory Commands

/-- The operations of the callbacks keep `P`. -/
structure CallbackRule (P : OtaUpdate → Device → Prop) : Prop where
  reset : ∀ {u d}, P u d → P (otaUpdateReset u d).1 (otaUpdateReset u d).2
  opened : ∀ {u d}, P u d → u.started ≠ 0 →
    P { u with
        sha := []
        buffP := 0
        flashOffset := 0
        buff := memset u.buff 0 buffSize
        inProgress := true }
      { d with
        slot := Slot.clear
        jobState := sysJobStateSet d.jobState otaJob }
  copied : ∀ {u d} data, P u d → data.length ≤ buffSize - u.buffP →
    P { u with
        buff := memcpy u.buff u.buffP data
        buffP := u.buffP + data.length } d
  committed : ∀ {u d} outcome, P u d →
    P (otaBuffCommit u d u.buffP outcome).2.1
      (otaBuffCommit u d u.buffP outcome).2.2
  ready : ∀ {u d}, P u d → u.inProgress = true → P { u with ready := true } d

/-- The operations of the run function keep `P` as well. -/
structure DownloadRule (P : OtaUpdate → Device → Prop) : Prop
    extends CallbackRule P where
  validated : ∀ {u d} now, P u d → u.ready = true → 0 < now →
    P { u with apply := now } { d with slot := { d.slot with valid := true } }
  rebooted : ∀ {u d}, P u d → P u { d with rebooted := true }

/-- And so do those of the commands. -/
structure UpdateRule (P : OtaUpdate → Device → Prop) : Prop
    extends DownloadRule P where
  started : ∀ {u d} now, P u d → 0 < now → P { u with started := now } d
  file : ∀ {u d} file, P u d → P { u with file := file } d
  shaVerify : ∀ {u d} sha, P u d → P { u with shaVerify := sha } d

theorem otaBuffCommit_inProgress (u : OtaUpdate) (d : Device) (size : ℕ)
    (outcome : CommitOutcome) :
    (otaBuffCommit u d size outcome).2.1.inProgress = u.inProgress := by
  cases outcome <;> rfl

variable {P : OtaUpdate → Device → Prop} {u : OtaUpdate} {d : Device}

namespace CallbackRule

theorem tftpOpen (h : CallbackRule P) (hP : P u d) (fname : Option CStr)
    (isWrite : Bool) :
    P (otaTftpUpdateOpen u d fname isWrite).2.1
      (otaTftpUpdateOpen u d fname isWrite).2.2 := by
  unfold otaTftpUpdateOpen
  split
  · split
    next hopen => exact h.opened hP hopen.2.1
    · exact hP
  · exact hP

theorem tftpClose (h : CallbackRule P) (hP : P u d) (outcome : CommitOutcome) :
    P (otaTftpUpdateClose u d outcome).1
      (otaTftpUpdateClose u d outcome).2 := by
  unfold otaTftpUpdateClose
  split
  · exact h.reset hP
  next hprogress =>
    have hprogress : u.inProgress = true := by simpa using hprogress
    split
    · refine h.ready (h.committed outcome hP) ?_
      rw [otaBuffCommit_inProgress, hprogress]
    · exact h.ready hP hprogress

theorem writeLoop (h : CallbackRule P) (outcome : ℕ → CommitOutcome)
    (fuel : ℕ) (data : List UInt8) (k : ℕ) (hP : P u d) :
    P (updateWriteLoop outcome fuel data k u d).2.1
      (updateWriteLoop outcome fuel data k u d).2.2 := by
  induction fuel generalizing data k u d with
  | zero => exact hP
  | succ fuel ih =>
      have hcopied := h.copied (data.take (min data.length
        (buffSize - u.buffP))) hP (by rw [List.length_take]; omega)
      rw [List.length_take, min_eq_left (Nat.min_le_left _ _)] at hcopied
      have hcommitted := h.committed (outcome k) hcopied
      simp only [updateWriteLoop]
      split
      · split
        · exact hcommitted
        · split
          · exact ih _ _ hcommitted
          · exact hcommitted
      · split
        · exact ih _ _ hcopied
        · exact hcopied

theorem tftpWrite (h : CallbackRule P) (hP : P u d) (p : Pbuf)
    (outcome : ℕ → CommitOutcome) :
    P (otaTftpUpdateWrite u d p outcome).2.1
      (otaTftpUpdateWrite u d p outcome).2.2 := by
  have hopened : P
      (if u.inProgress then (u, d)
        else (otaTftpUpdateOpen u d u.file.fname true).2).1
      (if u.inProgress then (u, d)
        else (otaTftpUpdateOpen u d u.file.fname true).2).2 := by
    split
    · exact hP
    · exact h.tftpOpen hP _ _
  unfold otaTftpUpdateWrite
  dsimp only
  generalize (if u.inProgress then (u, d)
    else (otaTftpUpdateOpen u d u.file.fname true).2) = ud at hopened ⊢
  split
  · exact hopened
  · exact h.writeLoop _ _ _ _ hopened

end CallbackRule

namespace DownloadRule

theorem run (h : DownloadRule P) (sha256 : List UInt8 → List UInt8)
    (hP : P u d) {now : ℕ} (hnow : 0 < now) (firmwareOk : Bool) :
    P (otaUpdateRun sha256 u d now firmwareOk).1
      (otaUpdateRun sha256 u d now firmwareOk).2 := by
  unfold otaUpdateRun
  split
  · dsimp only
    split
    · exact h.rebooted hP
    · exact hP
  · split
    next hready =>
      unfold otaUpdateValidate
      dsimp only
      split
      · exact h.reset hP
      · split
        · exact h.reset (h.validated now hP hready hnow)
        · exact h.reset hP
    · split
      · exact h.reset hP
      · exact hP

end DownloadRule

theorem otaUdateCheckRun_update (s : OtaSystem) (params : Option CStr)
    (apply : Bool) (outcome : CheckOutcome) (now : ℕ) :
    (otaUdateCheckRun s params apply outcome now).2.update = s.update ∧
      (otaUdateCheckRun s params apply outcome now).2.device = s.device := by
  unfold otaUdateCheckRun
  dsimp only
  split
  · exact ⟨rfl, rfl⟩
  · split
    · exact ⟨rfl, rfl⟩
    · split
      · exact ⟨rfl, rfl⟩
      · generalize otaCheckStart _ outcome.jobFree now = result
        split <;> exact ⟨rfl, rfl⟩

namespace UpdateRule

theorem apply (h : UpdateRule P) (hP : P u d) (c : OtaCheck) (m : MetaValues)
    (outcome : ApplyOutcome) {now : ℕ} (hnow : 0 < now) :
    P (otaUpdateApply c m u outcome now).2 d := by
  rcases otaUpdateApply_cases c m u outcome now with
    ⟨file, sha, heq, -⟩ | ⟨file, heq⟩
  · rw [heq]
    exact h.shaVerify _ (h.file file hP)
  · rw [heq]
    exact h.started now (h.shaVerify _ (h.file file hP)) hnow

variable {fw : Firmware} {sha256 : List UInt8 → List UInt8} {s : OtaSystem}

theorem startCmd (h : UpdateRule P) (hP : P s.update s.device)
    (params : Option CStr) (allocated jobFree : Bool) {now : ℕ}
    (hnow : 0 < now) :
    P (otaUdateStartCmd s params allocated jobFree now).2.update
      (otaUdateStartCmd s params allocated jobFree now).2.device := by
  unfold otaUdateStartCmd
  split
  · exact hP
  · split
    · exact h.reset hP
    · dsimp only
      split
      · exact h.reset (h.file _ hP)
      · cases jobFree with
        | true => exact h.started now (h.file _ hP) hnow
        | false => exact h.reset (h.file _ hP)

theorem tick (h : UpdateRule P) (hP : P s.update s.device) (t : TickInput)
    (hnow : 0 < t.now) :
    P (sysOtaRun fw sha256 s t).update (sysOtaRun fw sha256 s t).device := by
  unfold sysOtaRun
  split
  · exact h.run sha256 hP hnow t.firmwareOk
  · split
    · exact hP
    · split
      · exact h.apply hP _ _ _ hnow
      · exact hP

/-- A step keeps what the operations keep; the cancel, which drops a pending
apply, is left to the property. -/
theorem step (h : UpdateRule P) (hP : P s.update s.device) {e : OtaEvent}
    (he : s.Enabled e)
    (hcancel : e = .cancel → P { (otaUpdateReset s.update s.device).1 with
      apply := 0 } (otaUpdateReset s.update s.device).2) :
    P (s.step fw sha256 e).update (s.step fw sha256 e).device := by
  cases e with
  | update params allocated jobFree now =>
      exact h.startCmd hP params allocated jobFree (he.2 now rfl)
  | check params apply outcome now =>
      obtain ⟨hu, hd⟩ := otaUdateCheckRun_update s params apply outcome now
      simp only [OtaSystem.step, hu, hd]
      exact hP
  | apply outcome now =>
      simp only [OtaSystem.step, otaUdateApplyCmd]
      split
      · exact h.apply hP _ _ _ (he.2 now rfl)
      · exact hP
  | cancel => exact hcancel rfl
  | strategy params =>
      simp only [OtaSystem.step, otaUdateStrategyCmd]
      split <;> exact hP
  | updateOpen fname isWrite => exact h.tftpOpen hP fname isWrite
  | updateWrite p outcome => exact h.tftpWrite hP p outcome
  | updateClose outcome => exact h.tftpClose hP outcome
  | updateError => exact h.reset hP
  | checkOpen fname isWrite => exact hP
  | checkWrite p => exact hP
  | checkClose => exact hP
  | checkError => exact hP
  | tick input => exact h.tick hP input (he.2 input.now rfl)

end UpdateRule

end Herak.Ota
