import Herak.Ota.UpdateRule

/-!
# The job of an update

An update pauses the other modules through the OTA job bit and leaves a slot
marked valid until the reboot.  Between updates both are gone, in every run
that never cancels an update whose apply is pending: the reset that a cancel
does keeps them for the apply, which the cancel then drops.
-/

namespace Herak.Ota

open Commands

theorem set_otaJob (job : UInt32) : sysJobStateSet job otaJob &&& otaJob ≠ 0 := by
  have h : sysJobStateSet job otaJob &&& otaJob = 1 := by
    apply UInt32.toBitVec_inj.mp
    simp only [sysJobStateSet, otaJob, UInt32.toBitVec_and, UInt32.toBitVec_or]
    ext i hi
    simp
    intro h
    simp [h]
  rw [h]
  decide

theorem clear_otaJob (job : UInt32) :
    sysJobStateClear job otaJob &&& otaJob = 0 := by
  simp [sysJobStateClear, otaJob, UInt32.and_assoc]

/-- The job bit and a valid slot have a reason: an update that runs or an apply
that is pending. -/
structure JobInv (u : OtaUpdate) (d : Device) : Prop where
  job : d.jobState &&& otaJob ≠ 0 → u.started ≠ 0 ∨ u.apply ≠ 0
  valid : d.slot.valid = true → u.apply ≠ 0
  held : u.inProgress = true ∨ u.ready = true ∨ u.apply ≠ 0 →
    d.jobState &&& otaJob ≠ 0

variable {u : OtaUpdate} {d : Device}

/-- Operations that leave the flags, the job bit and the mark of the slot. -/
theorem JobInv.of_same {u' : OtaUpdate} {d' : Device} (h : JobInv u d)
    (hstarted : u'.started = u.started) (happly : u'.apply = u.apply)
    (hprogress : u'.inProgress = u.inProgress)
    (hready : u'.ready = true → u.ready = true ∨ u.inProgress = true)
    (hjob : d'.jobState = d.jobState)
    (hvalid : d'.slot.valid = d.slot.valid) : JobInv u' d' where
  job := by
    rw [hjob, hstarted, happly]
    exact h.job
  valid := by
    rw [hvalid, happly]
    exact h.valid
  held := by
    rw [hjob, happly, hprogress]
    rintro (hp | hr | ha)
    · exact h.held (Or.inl hp)
    · rcases hready hr with hr | hp
      · exact h.held (Or.inr (Or.inl hr))
      · exact h.held (Or.inl hp)
    · exact h.held (Or.inr (Or.inr ha))

theorem jobInv_reset (h : JobInv u d) :
    JobInv (otaUpdateReset u d).1 (otaUpdateReset u d).2 := by
  by_cases ha : u.apply = 0
  · refine ⟨?_, ?_, ?_⟩
    · simp [otaUpdateReset, ha, clear_otaJob]
    · simp [otaUpdateReset, ha, Slot.clear]
    · simp [otaUpdateReset, ha]
  · refine ⟨?_, ?_, ?_⟩
    · simp [otaUpdateReset, ha]
    · simp [otaUpdateReset, ha]
    · intro _
      simpa [otaUpdateReset, ha] using h.held (Or.inr (Or.inr ha))

theorem jobInv_commit (h : JobInv u d) (size : ℕ) (outcome : CommitOutcome) :
    JobInv (otaBuffCommit u d size outcome).2.1
      (otaBuffCommit u d size outcome).2.2 := by
  cases outcome with
  | ok => exact h.of_same rfl rfl rfl Or.inl rfl rfl
  | flashError => exact h
  | shaError => exact h.of_same rfl rfl rfl Or.inl rfl rfl

theorem jobInv_rule : UpdateRule JobInv where
  reset := jobInv_reset
  opened := fun _ hstarted =>
    ⟨fun _ => Or.inl hstarted, by simp [Slot.clear], fun _ => set_otaJob _⟩
  copied := fun _ h _ => h.of_same rfl rfl rfl Or.inl rfl rfl
  committed := fun outcome h => jobInv_commit h _ outcome
  ready := fun h hprogress =>
    h.of_same rfl rfl rfl (fun _ => Or.inr hprogress) rfl rfl
  validated := fun _ h hready hnow =>
    ⟨fun _ => Or.inr hnow.ne', fun _ => hnow.ne',
      fun _ => h.held (Or.inr (Or.inl hready))⟩
  rebooted := fun h => h.of_same rfl rfl rfl Or.inl rfl rfl
  started := fun _ h hnow => ⟨fun _ => Or.inl hnow.ne', h.valid, h.held⟩
  file := fun _ h => h.of_same rfl rfl rfl Or.inl rfl rfl
  shaVerify := fun _ h => h.of_same rfl rfl rfl Or.inl rfl rfl

/-! ## The whole module -/

/-- An apply is pending when the event cancels. -/
def CancelsPending (s : OtaSystem) : OtaEvent → Prop
  | .cancel => s.update.apply ≠ 0
  | _ => False

instance (s : OtaSystem) : ∀ e, Decidable (CancelsPending s e)
  | .cancel => inferInstanceAs (Decidable (_ ≠ _))
  | .update .. | .check .. | .apply .. | .strategy .. | .updateOpen ..
  | .updateWrite .. | .updateClose .. | .updateError | .checkOpen ..
  | .checkWrite .. | .checkClose | .checkError | .tick .. =>
      .isFalse id

/-- Without an update and without a pending apply, the job bit is clear and
the slot is not valid. -/
def Settled (s : OtaSystem) : Prop :=
  s.update.started = 0 → s.update.apply = 0 →
    s.device.jobState &&& otaJob = 0 ∧ s.device.slot.valid = false

instance (s : OtaSystem) : Decidable (Settled s) :=
  inferInstanceAs (Decidable (_ → _ → _ ∧ _))

variable {fw : Firmware} {sha256 : List UInt8 → List UInt8} {s : OtaSystem}

theorem JobInv.settled (h : JobInv s.update s.device) : Settled s := by
  intro hstarted happly
  constructor
  · by_contra hjob
    exact (h.job hjob).elim (· hstarted) (· happly)
  · by_contra hvalid
    exact h.valid (by simpa using hvalid) happly

theorem jobInv_init (fw : Firmware) (d : Device) :
    JobInv (sysOtaInit fw d).update (sysOtaInit fw d).device := by
  refine ⟨?_, ?_, ?_⟩
  · simp [sysOtaInit, otaUpdateReset, OtaUpdate.init, clear_otaJob]
  · simp [sysOtaInit, otaUpdateReset, OtaUpdate.init, Slot.clear]
  · simp [sysOtaInit, otaUpdateReset, OtaUpdate.init]

theorem jobInv_step (h : JobInv s.update s.device) {e : OtaEvent}
    (he : s.Enabled e) (hnot : ¬CancelsPending s e) :
    JobInv (s.step fw sha256 e).update (s.step fw sha256 e).device := by
  refine jobInv_rule.step h he ?_
  rintro rfl
  have happly : s.update.apply = 0 := not_not.mp hnot
  exact (jobInv_reset h).of_same rfl happly.symm rfl Or.inl rfl rfl

/-- Cancelling a pending apply leaves the job bit set. -/
theorem not_settled_of_cancel (h : JobInv s.update s.device) {e : OtaEvent}
    (hcancel : CancelsPending s e) : ¬Settled (s.step fw sha256 e) := by
  cases e with
  | cancel =>
      have happly : s.update.apply ≠ 0 := hcancel
      intro hsettled
      refine h.held (Or.inr (Or.inr happly)) ?_
      simpa [OtaSystem.step, otaUdateCancelCmd, OtaSystem.withUpdate,
        otaUpdateReset, happly] using (hsettled rfl rfl).1
  | _ => exact hcancel.elim

theorem jobInv_along {d : Device} {es : List OtaEvent}
    (hes : (OtaSystem.machine fw sha256).Admits (sysOtaInit fw d) es)
    (hnot : (OtaSystem.machine fw sha256).Along
      (fun s e => ¬CancelsPending s e) (sysOtaInit fw d) es) :
    JobInv ((OtaSystem.machine fw sha256).run (sysOtaInit fw d) es).update
      ((OtaSystem.machine fw sha256).run (sysOtaInit fw d) es).device := by
  have hstep : ∀ (s : OtaSystem) e, JobInv s.update s.device →
      (OtaSystem.machine fw sha256).enabled s e ∧ ¬CancelsPending s e →
      JobInv ((OtaSystem.machine fw sha256).step s e).update
        ((OtaSystem.machine fw sha256).step s e).device :=
    fun _ _ h he => jobInv_step h he.1 he.2
  exact EventMachine.Along.invariant (I := fun s => JobInv s.update s.device)
    hstep (EventMachine.along_and.mpr ⟨hes, hnot⟩) (jobInv_init fw d)

/-- The module is settled in every state of a run exactly if the run never
cancels an update whose apply is pending. -/
theorem settled_iff_no_cancel_pending (fw : Firmware)
    (sha256 : List UInt8 → List UInt8) (d : Device) (es : List OtaEvent)
    (hes : (OtaSystem.machine fw sha256).Admits (sysOtaInit fw d) es) :
    (∀ es', es' <+: es →
        Settled ((OtaSystem.machine fw sha256).run (sysOtaInit fw d) es')) ↔
      (OtaSystem.machine fw sha256).Along (fun s e => ¬CancelsPending s e)
        (sysOtaInit fw d) es := by
  constructor
  · intro hall
    by_contra hfail
    obtain ⟨before, e, after, rfl, hbefore, hcancel⟩ :=
      EventMachine.exists_first_failure hfail
    have hsettled := hall (before ++ [e]) ⟨after, by simp⟩
    rw [EventMachine.run_append] at hsettled
    exact not_settled_of_cancel
      (jobInv_along (hes.of_prefix (List.prefix_append _ _)) hbefore)
      (not_not.mp hcancel) hsettled
  · intro hnot es' hprefix
    exact (jobInv_along (hes.of_prefix hprefix)
      (hnot.of_prefix hprefix)).settled

/-- An image of one byte is downloaded and found valid. -/
def validatedImage : List OtaEvent :=
  [.update (some (CString.lit ":tftp://h/f.bin")) true true 1,
    .updateWrite { payload := [1], next := [] } (fun _ => .ok),
    .updateClose .ok,
    .tick
      { now := 2
        firmwareOk := true
        own := { ver := [], date := [], time := [] }
        offered := { ver := [], date := [], time := [] }
        apply :=
          { peerAllocated := true, pathAllocated := true,
            fnameAllocated := true, jobFree := true } }]

theorem settled_iff_no_cancel_pending_validatedImage :
    Settled ((OtaSystem.machine relayFirmware knownSha256).run bootSystem
      validatedImage) :=
  (settled_iff_no_cancel_pending relayFirmware knownSha256 bootDevice
    validatedImage (by decide +kernel)).mpr (by decide +kernel) validatedImage
    (List.prefix_refl _)

/-- A cancel in the two seconds before the reboot. -/
theorem cancel_leaves_job :
    (OtaSystem.machine relayFirmware knownSha256).Admits bootSystem
        (validatedImage ++ [.cancel]) ∧
      ¬Settled ((OtaSystem.machine relayFirmware knownSha256).run bootSystem
        (validatedImage ++ [.cancel])) := by
  decide +kernel

/-- While the module is settled the other modules run. -/
theorem runs_of_settled {Cb UserData : Type*} (ms : SysModules Cb UserData)
    (hjob : ms.jobState = 0) :
    sysModulesRun ms = ms.modules.filter (·.run) := by
  simp [sysModulesRun, hjob]

end Herak.Ota
