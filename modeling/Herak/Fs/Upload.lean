import Herak.Fs.Copy
import Herak.Tftp.Client

/-!
# Uploads

A transfer of lwIP asks for one block after the other, until a block is short.
The file layer tells the end of a file with a read of no bytes, which the hook
for the transfers turns into an error.  So a file whose length is a multiple of
the size of a block cannot be uploaded.
-/

namespace Herak.Fs

open CString Memory Ota Tftp

/-- `TFTP_MAX_PAYLOAD_SIZE` -/
abbrev tftpMaxPayloadSize : ℕ := 512

/-- One request for a block: the time, and the payload that is filled in. -/
structure UploadRound where
  now : ℕ
  payload : List UInt8
  size : payload.length = tftpMaxPayloadSize

/-- The jobs of the client, and the module that reads the file. -/
structure UploadState where
  jobs : TftpJobs
  ctx : FsCopyContext

inductive TransferEnd
  | completed
  | aborted
  deriving DecidableEq

section Transfer

variable (i : JobIdx) (disk : CStr → PicoFile)

/-- `tftp_client_read` for a job with the hooks of the file module. -/
def UploadState.read (x : UploadState) (round : UploadRound) :
    ℤ × List UInt8 × UploadState :=
  if (x.jobs i).started = 0 then (-1, round.payload, x)
  else
    let result := fsTftpRead x.ctx disk round.payload tftpMaxPayloadSize
    (result.1, result.2.1,
      { jobs := (tftpClientRead x.jobs i round.now result.1).1
        ctx := result.2.2 })

/-- The blocks that a transfer sends and how it ends, if `rounds` lasts until
then. -/
def transfer : List UploadRound → UploadState →
    Option (List (List UInt8) × TransferEnd)
  | [], _ => none
  | round :: rounds, x =>
      let result := x.read i disk round
      if result.1 < 0 then some ([], .aborted)
      else
        let block := result.2.1.take result.1.toNat
        if result.1 < tftpMaxPayloadSize then some ([block], .completed)
        else
          (transfer rounds result.2.2).map fun rest =>
            (block :: rest.1, rest.2)

/-- The blocks are the whole file and the transfer ends normally. -/
def UploadComplete (x : UploadState) (content : List UInt8) : Prop :=
  ∀ rounds : List UploadRound,
    content.length / tftpMaxPayloadSize < rounds.length →
      ∃ blocks, transfer i disk rounds x = some (blocks, .completed) ∧
        blocks.flatten = content

/-- What `cp` leaves for an upload of the file `path`, with an entry left for
it in the table of opened files. -/
structure UploadReady (x : UploadState) (path : CStr) : Prop where
  job : (x.jobs i).started ≠ 0
  copy : x.ctx.copyJob.started ≠ 0
  notOpened : x.ctx.copyJob.localFd < 0
  source : x.ctx.copyJob.src.fname = some path ∧ x.ctx.copyJob.src.peer = none
  target : x.ctx.copyJob.dst.fname.isSome ∧ x.ctx.copyJob.dst.peer.isSome
  entry : ∃ fd ∈ x.ctx.fs.openFd, fd < 0
  opens : 0 ≤ (disk path).opened

/-- The transfer is going on, with `rest` to be read. -/
structure Reading (x : UploadState) (rest : List UInt8) : Prop where
  job : (x.jobs i).started ≠ 0
  copy : x.ctx.copyJob.started ≠ 0
  opened : 0 ≤ x.ctx.copyJob.localFd
  unread : ∃ pico, x.ctx.fs.fd? x.ctx.copyJob.localFd = some pico ∧
    x.ctx.fs.unread pico = rest

end Transfer

section Blocks

variable {i : JobIdx} {disk : CStr → PicoFile} {x : UploadState}
  {rest : List UInt8}

variable (disk) in
/-- A block is what comes next, and no bytes are an error. -/
theorem Reading.read (h : Reading i x rest) (round : UploadRound) :
    ((x.read i disk round).1 = if rest = [] then -1
      else ((rest.take tftpMaxPayloadSize).length : ℤ)) ∧
      (x.read i disk round).2.1.take
          (rest.take tftpMaxPayloadSize).length =
        rest.take tftpMaxPayloadSize ∧
      Reading i (x.read i disk round).2.2
        (rest.drop tftpMaxPayloadSize) := by
  obtain ⟨pico, hfd, hunread⟩ := h.unread
  have hopened : ¬x.ctx.copyJob.localFd < 0 := not_lt.mpr h.opened
  have hread : fsTftpRead x.ctx disk round.payload tftpMaxPayloadSize =
      (if rest = [] then -1 else ((rest.take tftpMaxPayloadSize).length : ℤ),
        memcpy round.payload 0 (rest.take tftpMaxPayloadSize),
        { x.ctx with
          fs := { x.ctx.fs with
            unread := Function.update x.ctx.fs.unread pico
              (rest.drop tftpMaxPayloadSize) } }) := by
    have hempty : ((rest.take tftpMaxPayloadSize).length : ℤ) ≤ 0 ↔
        rest = [] := by
      have hsize : tftpMaxPayloadSize = 512 := rfl
      rw [List.length_take, ← List.length_eq_zero_iff]
      omega
    simp only [fsTftpRead, if_neg h.copy, if_neg hopened, fsRead, hfd, hunread,
      if_true, hempty]
  rw [UploadState.read, if_neg h.job, hread]
  refine ⟨rfl, ?_, ?_⟩
  · have htake := @take_memcpy _ round.payload (rest.take tftpMaxPayloadSize) 0
      (Nat.zero_le _)
    rwa [Nat.zero_add, List.take_zero, List.nil_append] at htake
  · refine ⟨?_, h.copy, h.opened, pico, hfd, Function.update_self _ _ _⟩
    dsimp only
    rw [tftpClientRead, onJob, if_neg h.job]
    dsimp only
    rw [Function.update_self]
    exact h.job

variable (disk) in
/-- A transfer sends everything, and ends normally unless the last block that
is sent is a full one. -/
theorem Reading.transfer (h : Reading i x rest) {rounds : List UploadRound}
    (hrounds : rest.length / tftpMaxPayloadSize < rounds.length) :
    ∃ blocks, transfer i disk rounds x =
        some (blocks, if rest.length % tftpMaxPayloadSize = 0 then .aborted
          else .completed) ∧
      blocks.flatten = rest := by
  induction rounds generalizing x rest with
  | nil => exact absurd hrounds (Nat.not_lt_zero _)
  | cons round rounds ih =>
      obtain ⟨hresult, hblock, hnext⟩ := h.read disk round
      unfold Fs.transfer
      dsimp only
      by_cases hempty : rest = []
      · rw [if_pos hempty] at hresult
        subst hempty
        rw [hresult]
        exact ⟨[], rfl, rfl⟩
      · rw [if_neg hempty] at hresult
        rw [hresult, if_neg (by omega), Int.toNat_natCast, hblock]
        have hpos := List.length_pos_iff.mpr hempty
        by_cases hshort : rest.length < tftpMaxPayloadSize
        · rw [List.take_of_length_le hshort.le, if_pos (by exact_mod_cast hshort)]
          refine ⟨[rest], ?_, by simp⟩
          rw [Nat.mod_eq_of_lt hshort, if_neg hpos.ne']
        · have hfull : (rest.take tftpMaxPayloadSize).length =
              tftpMaxPayloadSize := List.length_take_of_le (not_lt.mp hshort)
          have hlength : (rest.drop tftpMaxPayloadSize).length =
            rest.length - tftpMaxPayloadSize := List.length_drop
          obtain ⟨blocks, htransfer, hflatten⟩ := ih hnext (by
            rw [List.length_cons,
              Nat.div_eq_sub_div (by decide) (not_lt.mp hshort)] at hrounds
            rw [hlength]
            omega)
          rw [hfull, if_neg (lt_irrefl _), htransfer, Option.map_some]
          refine ⟨rest.take tftpMaxPayloadSize :: blocks, ?_, ?_⟩
          · rw [hlength, Nat.mod_eq_sub_mod (not_lt.mp hshort)]
          · rw [List.flatten_cons, hflatten, List.take_append_drop]

theorem fsOpen_of_free {fs : FsContext} (hfree : ∃ fd ∈ fs.openFd, fd < 0)
    {opened : ℤ} (h : 0 ≤ opened) (content : List UInt8) :
    ∃ (k : ℕ) (fs' : FsContext), fsOpen fs opened content = ((k : ℤ), fs') ∧
      fs'.fd? k = some opened ∧ fs'.unread opened = content := by
  obtain ⟨fd, hmem, hfd⟩ := hfree
  have hfind : (fs.openFd.findIdx? (· < 0)).isSome := by
    rw [List.findIdx?_isSome, List.any_eq_true]
    exact ⟨fd, hmem, decide_eq_true hfd⟩
  obtain ⟨k, hk⟩ := Option.isSome_iff_exists.mp hfind
  have hlt := (List.findIdx?_eq_some_iff_findIdx_eq.mp hk).1
  refine ⟨k, ⟨fs.openFd.set k opened,
    Function.update fs.unread opened content⟩, ?_, ?_,
    Function.update_self _ _ _⟩
  · simp only [fsOpen, hk, if_neg (not_lt.mpr h)]
  · exact FsContext.fd?_eq_some.mpr ⟨List.getElem?_set_self hlt, by omega⟩

/-- The first read opens the file. -/
theorem UploadReady.read_eq {path : CStr} (h : UploadReady i disk x path) :
    ∃ y, Reading i y (disk path).content ∧
      ∀ round, x.read i disk round = y.read i disk round := by
  obtain ⟨hsrc, hpeer⟩ := h.source
  obtain ⟨hdst, htarget⟩ := h.target
  obtain ⟨name, hname⟩ := Option.isSome_iff_exists.mp hdst
  obtain ⟨k, fs, hopen, hfd, hunread⟩ :=
    fsOpen_of_free h.entry h.opens (disk path).content
  have hopened : fsTftpOpenRead x.ctx disk (some name) =
      (true, { fs := fs, copyJob := { x.ctx.copyJob with localFd := k } }) := by
    have hcmp := (strcmp_eq_zero_iff name name).mpr rfl
    simp [fsTftpOpenRead, hname, hsrc, hpeer, h.copy, hcmp, hopen]
  refine ⟨{ x with ctx := (fsTftpOpenRead x.ctx disk (some name)).2 }, ?_, ?_⟩
  · rw [hopened]
    exact ⟨h.job, h.copy, Int.natCast_nonneg k, _, hfd, hunread⟩
  · intro round
    have hnotOpened : ¬(k : ℤ) < 0 := by omega
    rw [hopened, UploadState.read, UploadState.read, if_neg h.job]
    dsimp only
    rw [if_neg h.job]
    simp only [fsTftpRead, if_neg h.copy, if_pos h.notOpened, htarget, hname,
      hopened, if_true, if_neg hnotOpened]

end Blocks

/-- A file is uploaded completely if and only if its length is not a multiple
of the size of a block. -/
theorem upload_complete_iff (i : JobIdx) (disk : CStr → PicoFile)
    (x : UploadState) (path : CStr) (h : UploadReady i disk x path) :
    UploadComplete i disk x (disk path).content ↔
      (disk path).content.length % tftpMaxPayloadSize ≠ 0 := by
  obtain ⟨y, hy, hread⟩ := h.read_eq
  have hsame : ∀ rounds, rounds ≠ [] →
      transfer i disk rounds x = transfer i disk rounds y := by
    intro rounds hne
    cases rounds with
    | nil => exact absurd rfl hne
    | cons round rounds => simp only [transfer, hread]
  constructor
  · intro hcomplete hmod
    let round : UploadRound :=
      ⟨0, List.replicate tftpMaxPayloadSize 0, List.length_replicate⟩
    have hlong : (disk path).content.length / tftpMaxPayloadSize <
        (List.replicate ((disk path).content.length / tftpMaxPayloadSize + 1)
          round).length := by
      rw [List.length_replicate]
      exact Nat.lt_succ_self _
    obtain ⟨blocks, hcompleted, -⟩ := hcomplete _ hlong
    obtain ⟨blocks', haborted, -⟩ := hy.transfer disk hlong
    rw [if_pos hmod,
      ← hsame _ (List.ne_nil_of_length_pos ((Nat.zero_le _).trans_lt hlong)),
      hcompleted] at haborted
    cases haborted
  · intro hmod rounds hrounds
    obtain ⟨blocks, hcompleted, hflatten⟩ := hy.transfer disk hrounds
    rw [if_neg hmod,
      ← hsame _ (List.ne_nil_of_length_pos ((Nat.zero_le _).trans_lt hrounds))]
      at hcompleted
    exact ⟨blocks, hcompleted, hflatten⟩

/-! ## A full block -/

/-- An upload of `/f` that waits in the first slot. -/
def uploadOfF : UploadState where
  jobs := fun _ => { noJob with started := 1, requested := true }
  ctx :=
    { fs := .init
      copyJob :=
        { src := { fname := some (lit "/f"), peer := none, port := 0 }
          dst := { fname := some (lit "up"), peer := some (lit "h"), port := 69 }
          localFd := -1
          started := 1
          webIdx := 0 } }

/-- A disk on which every file has `n` bytes. -/
def zeroFiles (n : ℕ) : CStr → PicoFile :=
  fun _ => { opened := 3, content := List.replicate n 0 }

theorem uploadOfF_ready (n : ℕ) :
    UploadReady 0 (zeroFiles n) uploadOfF (lit "/f") where
  job := by decide
  copy := by decide
  notOpened := by decide
  source := by decide
  target := by decide
  entry := by decide
  opens := (by decide : (0 : ℤ) ≤ 3)

/-- An upload of three bytes. -/
theorem upload_complete_iff_short :
    UploadComplete 0 (zeroFiles 3) uploadOfF (List.replicate 3 0) ↔
      (3 : ℕ) % tftpMaxPayloadSize ≠ 0 := by
  exact upload_complete_iff 0 (zeroFiles 3) uploadOfF (lit "/f")
    (uploadOfF_ready 3)

/-- The empty file is ready to be uploaded, and is not. -/
theorem not_upload_complete :
    ¬∀ (i : JobIdx) (disk : CStr → PicoFile) (x : UploadState) (path : CStr),
      UploadReady i disk x path →
        UploadComplete i disk x (disk path).content := by
  intro h
  obtain ⟨blocks, htransfer, -⟩ :=
    h 0 (zeroFiles 0) uploadOfF (lit "/f") (uploadOfF_ready 0)
      [⟨0, List.replicate tftpMaxPayloadSize 0, List.length_replicate⟩]
      (by decide)
  have haborted : transfer 0 (zeroFiles 0)
      [⟨0, List.replicate tftpMaxPayloadSize 0, List.length_replicate⟩]
      uploadOfF = some ([], .aborted) := by
    decide +kernel
  rw [haborted] at htransfer
  cases htransfer

end Herak.Fs
