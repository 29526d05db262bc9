import Herak.Ota.Internal

/-!
# The update half

`ota_update.c`: the TFTP callbacks that write an image into the download slot,
its validation, and the run function that watches over both.  The functions
act on the update context and the device.
-/

namespace Herak.Ota

open CInt CString Memory Commands

/-- What the flash and the SHA-256 call of a commit return.  A call that fails
has no effect. -/
inductive CommitOutcome
  | ok
  | flashError
  | shaError
  deriving DecidableEq

def OtaUpdate.init : OtaUpdate where
  inProgress := false
  file := noFile
  sha := []
  shaVerify := []
  buff := List.replicate buffSize 0
  buffP := 0
  flashOffset := 0
  started := 0
  ready := false
  apply := 0

/-- `ota_tftp_update_open`; the result says whether the handle is not NULL. -/
def otaTftpUpdateOpen (u : OtaUpdate) (d : Device) (fname : Option CStr)
    (isWrite : Bool) : Bool × OtaUpdate × Device :=
  match fname, u.file.fname with
  | some fname, some own =>
      if isWrite ∧ u.started ≠ 0 ∧ strlen fname = strlen own ∧
          strcmp fname own = 0 then
        (true,
          { u with
            sha := []
            buffP := 0
            flashOffset := 0
            buff := memset u.buff 0 buffSize
            inProgress := true },
          { d with
            slot := Slot.clear
            jobState := sysJobStateSet d.jobState otaJob })
      else (false, u, d)
  | _, _ => (false, u, d)

/-- The page buffer goes to the flash whole, and `size` bytes of it to the
SHA-256 context. -/
def otaBuffCommit (u : OtaUpdate) (d : Device) (size : ℕ)
    (outcome : CommitOutcome) : ℤ × OtaUpdate × Device :=
  match outcome with
  | .flashError => (-1, u, d)
  | .shaError =>
      (-1, u, { d with slot := d.slot.program u.flashOffset u.buff })
  | .ok =>
      (0,
        { u with
          sha := u.sha ++ u.buff.take size
          flashOffset := toUInt32 (u.flashOffset + size)
          buffP := 0
          buff := memset u.buff 0 buffSize },
        { d with slot := d.slot.program u.flashOffset u.buff })

/-- `ota_update_reset`.  While an apply is pending the slot and the job bit
stay. -/
def otaUpdateReset (u : OtaUpdate) (d : Device) : OtaUpdate × Device :=
  ({ u with
      inProgress := false
      started := 0
      buffP := 0
      ready := false
      buff := memset u.buff 0 buffSize
      shaVerify := []
      sha := []
      flashOffset := 0 },
    if u.apply = 0 then
      { d with
        slot := Slot.clear
        jobState := sysJobStateClear d.jobState otaJob }
    else d)

def otaTftpUpdateClose (u : OtaUpdate) (d : Device)
    (outcome : CommitOutcome) : OtaUpdate × Device :=
  if u.inProgress = false then otaUpdateReset u d
  else
    let ud := if u.buffP ≠ 0 then (otaBuffCommit u d u.buffP outcome).2
      else (u, d)
    ({ ud.1 with ready := true }, ud.2)

/-- The loop of `ota_tftp_update_write` over the bytes left; `k` counts the
commits of the call.  Each round but one takes a byte, so that two rounds more
than bytes are enough. -/
def updateWriteLoop (outcome : ℕ → CommitOutcome) :
    ℕ → List UInt8 → ℕ → OtaUpdate → Device → ℤ × OtaUpdate × Device
  | 0, _, _, u, d => (0, u, d)
  | fuel + 1, data, k, u, d =>
      let csize := min data.length (buffSize - u.buffP)
      let u := { u with
        buff := memcpy u.buff u.buffP (data.take csize)
        buffP := u.buffP + csize }
      let data := data.drop csize
      if u.buffP = buffSize then
        let result := otaBuffCommit u d u.buffP (outcome k)
        if result.1 ≠ 0 then (-1, result.2.1, result.2.2)
        else if data ≠ [] then
          updateWriteLoop outcome fuel data (k + 1) result.2.1 result.2.2
        else (0, result.2.1, result.2.2)
      else if data ≠ [] then updateWriteLoop outcome fuel data k u d
      else (0, u, d)

/-- `ota_tftp_update_write`: only the first segment of the chain is read. -/
def otaTftpUpdateWrite (u : OtaUpdate) (d : Device) (p : Pbuf)
    (outcome : ℕ → CommitOutcome) : ℤ × OtaUpdate × Device :=
  let ud := if u.inProgress then (u, d)
    else (otaTftpUpdateOpen u d u.file.fname true).2
  if ud.1.inProgress = false then (-1, ud.1, ud.2)
  else
    updateWriteLoop outcome (p.payload.length + 2) p.payload 0 ud.1 ud.2

/-- `ota_tftp_update_error` -/
def otaTftpUpdateError (u : OtaUpdate) (d : Device) : OtaUpdate × Device :=
  otaUpdateReset u d

def hexDigit (n : ℕ) : UInt8 :=
  if n < 10 then UInt8.ofNat (48 + n) else UInt8.ofNat (87 + n)

/-- `sprintf("%02x")` of each byte. -/
def hexText (bytes : List UInt8) : CStr :=
  bytes.flatMap fun b => [hexDigit (b.toNat / 16), hexDigit (b.toNat % 16)]

/-- `ota_update_validate`: `sha256` is the digest function, `firmwareOk` what
the check of the image by the bootloader library says. -/
def otaUpdateValidate (sha256 : List UInt8 → List UInt8) (u : OtaUpdate)
    (d : Device) (now : ℕ) (firmwareOk : Bool) : ℤ × OtaUpdate × Device :=
  let shaBuff := hexText (sha256 u.sha)
  if u.shaVerify ≠ [] ∧ strncmp u.shaVerify shaBuff shaBuffStr ≠ 0 then
    (-1, otaUpdateReset u d)
  else if firmwareOk then
    (0, otaUpdateReset { u with apply := now }
      { d with slot := { d.slot with valid := true } })
  else (-1, otaUpdateReset u d)

/-- `ota_update_start`; `jobFree` says whether the TFTP client takes the
job. -/
def otaUpdateStart (u : OtaUpdate) (jobFree : Bool) (now : ℕ) :
    ℤ × OtaUpdate :=
  if jobFree then (0, { u with started := now }) else (-1, u)

def otaUpdateRun (sha256 : List UInt8 → List UInt8) (u : OtaUpdate)
    (d : Device) (now : ℕ) (firmwareOk : Bool) : OtaUpdate × Device :=
  if u.apply ≠ 0 then
    (u, if applyDelayMs < subU64 now u.apply then { d with rebooted := true }
      else d)
  else if u.ready then (otaUpdateValidate sha256 u d now firmwareOk).2
  else if updateTimeoutMs < subU64 now u.started then otaUpdateReset u d
  else (u, d)

end Herak.Ota
