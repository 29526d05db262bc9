import Herak.Ota.Commands
import Herak.Support.EventMachine

/-!
# Runs of the OTA module

Commands, callbacks of the TFTP client and rounds of the main loop reach the
module in any order until the device reboots.  Times are those of a system
that is up, so that a time that is recorded is never 0.
-/

namespace Herak.Ota

inductive OtaEvent
  | update (params : Option CStr) (allocated jobFree : Bool) (now : ℕ)
  | check (params : Option CStr) (apply : Bool) (outcome : CheckOutcome)
      (now : ℕ)
  | apply (outcome : ApplyOutcome) (now : ℕ)
  | cancel
  | strategy (params : Option CStr)
  | updateOpen (fname : Option CStr) (isWrite : Bool)
  | updateWrite (p : Pbuf) (outcome : ℕ → CommitOutcome)
  | updateClose (outcome : CommitOutcome)
  | updateError
  | checkOpen (fname : Option CStr) (isWrite : Bool)
  | checkWrite (p : Pbuf)
  | checkClose
  | checkError
  | tick (input : TickInput)

/-- The time an event reads. -/
def OtaEvent.now? : OtaEvent → Option ℕ
  | .update _ _ _ now | .check _ _ _ now | .apply _ now => some now
  | .tick input => some input.now
  | _ => none

namespace OtaSystem

variable (fw : Firmware) (sha256 : List UInt8 → List UInt8)

def step (s : OtaSystem) : OtaEvent → OtaSystem
  | .update params allocated jobFree now =>
      (otaUdateStartCmd s params allocated jobFree now).2
  | .check params apply outcome now =>
      (otaUdateCheckRun s params apply outcome now).2
  | .apply outcome now => (otaUdateApplyCmd s outcome now).2
  | .cancel => (otaUdateCancelCmd s).2
  | .strategy params => (otaUdateStrategyCmd s params).2
  | .updateOpen fname isWrite =>
      s.withUpdate (otaTftpUpdateOpen s.update s.device fname isWrite).2
  | .updateWrite p outcome =>
      s.withUpdate (otaTftpUpdateWrite s.update s.device p outcome).2
  | .updateClose outcome =>
      s.withUpdate (otaTftpUpdateClose s.update s.device outcome)
  | .updateError => s.withUpdate (otaTftpUpdateError s.update s.device)
  | .checkOpen fname isWrite =>
      { s with check := (otaTftpCheckOpen s.check fname isWrite).2 }
  | .checkWrite p => { s with check := (otaTftpCheckWrite s.check p).2 }
  | .checkClose => s.withCheck (otaTftpCheckClose s.check s.mdata)
  | .checkError => s.withCheck (otaTftpCheckError s.check)
  | .tick input => sysOtaRun fw sha256 s input

def Enabled (s : OtaSystem) (e : OtaEvent) : Prop :=
  s.device.rebooted = false ∧ ∀ now ∈ e.now?, 0 < now

instance (s : OtaSystem) (e : OtaEvent) : Decidable (s.Enabled e) :=
  inferInstanceAs (Decidable (_ ∧ _))

def machine : EventMachine OtaSystem OtaEvent where
  step := step fw sha256
  enabled := Enabled

instance (s : OtaSystem) (e : OtaEvent) :
    Decidable ((machine fw sha256).enabled s e) :=
  inferInstanceAs (Decidable (s.Enabled e))

end OtaSystem

/-! ## A device -/

/-- A firmware that the project can be built as. -/
def relayFirmware : Firmware where
  imageName := CString.lit "relay"
  imageFile := CString.lit "relay_fota_image.bin"
  projectVersion := CString.lit "2.3.4"
  gitCommitHash := CString.lit "8c7a52c"
  buildDate := CString.lit "24.06.2025"
  buildTime := CString.lit "12:30:00"
  devArch := CString.lit "rp2040"

/-- The device before the module starts. -/
def bootDevice : Device where
  slot := Slot.clear
  jobState := 0
  rebooted := false

/-- SHA-256 of the empty image and of the image with the one byte 1. -/
def knownSha256 : List UInt8 → List UInt8
  | [1] =>
      [0x4b, 0xf5, 0x12, 0x2f, 0x34, 0x45, 0x54, 0xc5,
        0x3b, 0xde, 0x2e, 0xbb, 0x8c, 0xd2, 0xb7, 0xe3,
        0xd1, 0x60, 0x0a, 0xd6, 0x31, 0xc3, 0x85, 0xa5,
        0xd7, 0xcc, 0xe2, 0x3c, 0x77, 0x85, 0x45, 0x9a]
  | _ =>
      [0xe3, 0xb0, 0xc4, 0x42, 0x98, 0xfc, 0x1c, 0x14,
        0x9a, 0xfb, 0xf4, 0xc8, 0x99, 0x6f, 0xb9, 0x24,
        0x27, 0xae, 0x41, 0xe4, 0x64, 0x9b, 0x93, 0x4c,
        0xa4, 0x95, 0x99, 0x1b, 0x78, 0x52, 0xb8, 0x55]

/-- The system after the start of the module on that device. -/
abbrev bootSystem : OtaSystem :=
  sysOtaInit relayFirmware bootDevice

end Herak.Ota
