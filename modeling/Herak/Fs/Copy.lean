import Herak.Fs.Handles
import Herak.Ota.Internal

/-!
# Copy jobs

The job that `cp` leaves to the TFTP client, and the hooks that read the local
file for it.
-/

namespace Herak.Fs

open CString Ota

/-- `fs_file_copy_t` -/
structure FsFileCopy where
  src : TftpFile
  dst : TftpFile
  localFd : ℤ
  started : ℕ
  webIdx : ℤ
  deriving DecidableEq

/-- `fs_cp_reset`: the job, the files, and the web client whose connection is
closed. -/
def fsCpReset (copy : FsFileCopy) (fs : FsContext) :
    FsFileCopy × FsContext × Option ℤ :=
  ({ src := noFile, dst := noFile, localFd := -1, started := 0, webIdx := -1 },
    if 0 ≤ copy.localFd then fsClose fs copy.localFd else fs,
    if 0 ≤ copy.webIdx then some copy.webIdx else none)

/-- `fs_context_t` with its copy job. -/
structure FsCopyContext where
  fs : FsContext
  copyJob : FsFileCopy

/-- A path on the disk: what `pico_open` returns for reading, and the content
of the file. -/
structure PicoFile where
  opened : ℤ
  content : List UInt8

/-- `fs_tftp_open` for reading: whether there is a handle, and what is there
then. -/
def fsTftpOpenRead (x : FsCopyContext) (disk : CStr → PicoFile)
    (fname : Option CStr) : Bool × FsCopyContext :=
  match fname, x.copyJob.dst.fname, x.copyJob.src.fname with
  | some fname, some tftpFile, some localFile =>
      if x.copyJob.started = 0 ∨ x.copyJob.src.peer.isSome ∨
          strlen tftpFile ≠ strlen fname ∨ strcmp tftpFile fname ≠ 0 then
        (false, x)
      else
        let result := fsOpen x.fs (disk localFile).opened
          (disk localFile).content
        (0 ≤ result.1,
          { fs := result.2, copyJob := { x.copyJob with localFd := result.1 } })
  | _, _, _ => (false, x)

/-- `fs_tftp_read` -/
def fsTftpRead (x : FsCopyContext) (disk : CStr → PicoFile)
    (buf : List UInt8) (bytes : ℕ) : ℤ × List UInt8 × FsCopyContext :=
  if x.copyJob.started = 0 then (-1, buf, x)
  else
    let opened :=
      if x.copyJob.localFd < 0 then
        fsTftpOpenRead x disk
          (if x.copyJob.dst.peer.isSome then x.copyJob.dst.fname
          else x.copyJob.src.fname)
      else (true, x)
    if opened.1 then
      let x := opened.2
      let result := fsRead x.fs x.copyJob.localFd buf bytes
      (if result.1 ≤ 0 then -1 else result.1, result.2.1,
        { x with fs := result.2.2 })
    else (-1, buf, opened.2)

end Herak.Fs
