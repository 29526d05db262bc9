import Herak.Commands.Modules
import Herak.Support.CInt
import Herak.Support.Memory

/-!
# The state of the OTA module

The update half downloads an image into the download slot of the flash, the
check half downloads the description of an image, and both share the context of
the module.  The flash, the job bits of the main loop and the reboot are the
device around it.
-/

namespace Herak.Ota

open CString Memory

def updateTimeoutMs : ℕ := 300000
abbrev buffSize : ℕ := 256
abbrev metaSize : ℕ := 512
def shaBuffStr : ℕ := 65
def applyDelayMs : ℕ := 2000
def applyRetries : ℕ := 3
def strBuffLen : ℕ := 64

/-- `tftp_file_t` -/
structure TftpFile where
  fname : Option CStr
  peer : Option CStr
  port : ℤ
  deriving DecidableEq

/-- The file of a context as `calloc` leaves it. -/
def noFile : TftpFile where
  fname := none
  peer := none
  port := 0

/-- A `pbuf` chain: the payload of the first segment, and of those behind
it. -/
structure Pbuf where
  payload : List UInt8
  next : List (List UInt8)

/-- All the bytes that a chain carries. -/
def Pbuf.bytes (p : Pbuf) : List UInt8 :=
  p.payload ++ p.next.flatten

/-- `ota_update_t`.  The SHA-256 context is the list of the bytes it was fed,
and `shaVerify` the text in its buffer. -/
structure OtaUpdate where
  inProgress : Bool
  file : TftpFile
  sha : List UInt8
  shaVerify : CStr
  buff : List UInt8
  buffP : ℕ
  flashOffset : ℕ
  started : ℕ
  ready : Bool
  apply : ℕ

/-- `ota_check_t` -/
structure OtaCheck where
  inProgress : Bool
  file : TftpFile
  buff : List UInt8
  buffP : ℕ
  started : ℕ
  apply : ℕ
  ready : Bool
  newVersion : Bool
  checkNewer : Bool
  checkVer : Bool
  checkTime : Bool
  metaFileName : CStr
  paramCache : Option CStr

/-- `ota_meta_ids` -/
inductive MetaId
  | image
  | file
  | sha
  | ver
  | commit
  | bdate
  | btime
  | darch
  deriving DecidableEq

/-- The fields in the order of the table `ota_update_mdata`. -/
def MetaId.all : List MetaId :=
  [.image, .file, .sha, .ver, .commit, .bdate, .btime, .darch]

def MetaId.name : MetaId → CStr
  | .image => lit "image:"
  | .file => lit "file:"
  | .sha => lit "SHA:"
  | .ver => lit "version:"
  | .commit => lit "commit:"
  | .bdate => lit "build date:"
  | .btime => lit "build time:"
  | .darch => lit "device arch:"

/-- The constants of the running firmware. -/
structure Firmware where
  imageName : CStr
  imageFile : CStr
  projectVersion : CStr
  gitCommitHash : CStr
  buildDate : CStr
  buildTime : CStr
  devArch : CStr

/-- What the running firmware says of a field; `NULL` for the SHA. -/
def MetaId.current (fw : Firmware) : MetaId → Option CStr
  | .image => some fw.imageName
  | .file => some fw.imageFile
  | .sha => none
  | .ver => some fw.projectVersion
  | .commit => some fw.gitCommitHash
  | .bdate => some fw.buildDate
  | .btime => some fw.buildTime
  | .darch => some fw.devArch

/-- The value pointers of `ota_update_mdata`, as offsets into the buffer of
the check. -/
abbrev MetaValues := MetaId → Option ℕ

/-- The download slot; a byte is `none` until it is programmed. -/
structure Slot where
  bytes : ℕ → Option UInt8
  valid : Bool

/-- `pfb_mark_download_slot_as_invalid` and `pfb_initialize_download_slot`. -/
def Slot.clear : Slot where
  bytes := fun _ => none
  valid := false

/-- `pfb_write_to_flash_aligned_256_bytes` -/
def Slot.program (s : Slot) (off : ℕ) (data : List UInt8) : Slot :=
  { s with
    bytes := fun a =>
      if off ≤ a ∧ a < off + data.length then data[a - off]? else s.bytes a }

/-- The flash, the job bits of `sys_modules_context` and the reboot. -/
structure Device where
  slot : Slot
  jobState : UInt32
  rebooted : Bool

/-- The static variables of `ota_meta_check_update`. -/
structure RunningCache where
  running : ℤ
  vmaj : ℤ
  vmid : ℤ
  vmin : ℤ

/-- `ota_context_t` with the tables and statics of its files, and the
device. -/
structure OtaSystem where
  update : OtaUpdate
  check : OtaCheck
  mdata : MetaValues
  cache : RunningCache
  device : Device

end Herak.Ota
