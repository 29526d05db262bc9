import Herak.Ota.Update
import Herak.Time.Epoch

/-!
# The check half

`ota_check.c`: the TFTP callbacks that receive a metadata file, its parser, the
comparison with the running firmware, and the start of the update that the file
describes.
-/

namespace Herak.Ota

open CInt CString Memory
open Time (time2epoch)

def OtaCheck.init (metaFileName : CStr) : OtaCheck where
  inProgress := false
  file := noFile
  buff := List.replicate metaSize 0
  buffP := 0
  started := 0
  apply := 0
  ready := false
  newVersion := false
  checkNewer := true
  checkVer := true
  checkTime := false
  metaFileName := metaFileName
  paramCache := none

def MetaValues.init : MetaValues := fun _ => none

/-! ## Download -/

/-- `ota_tftp_check_open`; the result says whether the handle is not NULL. -/
def otaTftpCheckOpen (c : OtaCheck) (fname : Option CStr) (isWrite : Bool) :
    Bool × OtaCheck :=
  match fname, c.file.fname with
  | some fname, some own =>
      if isWrite ∧ c.started ≠ 0 ∧ strlen fname = strlen own ∧
          strcmp fname own = 0 then
        (true,
          { c with
            buffP := 0
            buff := memset c.buff 0 buffSize
            inProgress := true })
      else (false, c)
  | _, _ => (false, c)

/-- `ota_check_reset` -/
def otaCheckReset (c : OtaCheck) : OtaCheck × MetaValues :=
  ({ c with
      started := 0
      inProgress := false
      apply := 0
      ready := false
      newVersion := false },
    MetaValues.init)

def otaTftpCheckClose (c : OtaCheck) (m : MetaValues) :
    OtaCheck × MetaValues :=
  if c.inProgress = false then otaCheckReset c
  else ({ c with ready := true }, m)

/-- `ota_tftp_check_write`: only the first segment of the chain is read. -/
def otaTftpCheckWrite (c : OtaCheck) (p : Pbuf) : ℤ × OtaCheck :=
  let c := if c.inProgress then c else (otaTftpCheckOpen c c.file.fname true).2
  if c.inProgress = false then (-1, c)
  else
    let bsize := metaSize - 1 - c.buffP
    if bsize ≤ p.payload.length then (-1, c)
    else
      (0,
        { c with
          buff := memcpy c.buff c.buffP p.payload
          buffP := c.buffP + p.payload.length })

/-- `ota_tftp_check_error` -/
def otaTftpCheckError (c : OtaCheck) : OtaCheck × MetaValues :=
  otaCheckReset c

/-! ## Parser -/

/-- The pointer behind a field name and the blanks after it, and whether it
points at a value. -/
def findValue (s name : CStr) : Option ℕ × Bool :=
  match strstr s name with
  | none => (none, false)
  | some o =>
      let o := o + strlen name
      let o := o + ((s.drop o).takeWhile isBlank).length
      (some o, s.drop o ≠ [])

/-- The first loop of `ota_meta_parse`. -/
def findValues (s : CStr) : List MetaId → MetaValues → Bool × MetaValues
  | [], m => (true, m)
  | i :: is, m =>
      let result := findValue s i.name
      let m := Function.update m i result.1
      if result.2 then findValues s is m else (false, m)

def isLineEnd (ch : UInt8) : Bool :=
  ch = 0 || ch = 10 || ch = 13

/-- End the string that starts at `o` at the end of its line. -/
def terminateValue (buff : List UInt8) (o : ℕ) : List UInt8 :=
  buff.set (o + ((buff.drop o).takeWhile fun ch => !isLineEnd ch).length) 0

/-- A round of the second loop of `ota_meta_parse`. -/
def terminateField (m : MetaValues) (buff : List UInt8) (i : MetaId) :
    List UInt8 :=
  match m i with
  | none => buff
  | some o => terminateValue buff o

/-- The second loop of `ota_meta_parse`. -/
def terminateValues (buff : List UInt8) (m : MetaValues) : List UInt8 :=
  MetaId.all.foldl (terminateField m) buff

/-- `ota_meta_parse`. -/
def otaMetaParse (c : OtaCheck) (m : MetaValues) :
    ℤ × OtaCheck × MetaValues :=
  if c.buffP < 1 then (-1, c, m)
  else
    let result := findValues (cstrAt c.buff 0) MetaId.all m
    if result.1 then
      (0, { c with buff := terminateValues c.buff result.2 }, result.2)
    else (-1, c, result.2)

/-- The text a value pointer stands for. -/
def metaValue (buff : List UInt8) (m : MetaValues) (i : MetaId) :
    Option CStr :=
  (m i).map (cstrAt buff)

/-- `META_CHECK` -/
def metaCheck (fw : Firmware) (buff : List UInt8) (m : MetaValues)
    (i : MetaId) : Bool :=
  match i.current fw, metaValue buff m i with
  | some current, some value =>
      strlen current = strlen value ∧ strcmp current value = 0
  | _, _ => false

def otaMetaValidate (fw : Firmware) (c : OtaCheck) (m : MetaValues) : ℤ :=
  if metaCheck fw c.buff m .darch = false then -1
  else if metaCheck fw c.buff m .image = false then -1
  else 0

/-! ## Comparison with the running firmware -/

/-- `GET_DIGIT`: the next token as a number, and the rest. -/
def getDigit (rest : Option CStr) (delim : CStr) :
    Option (ℤ × Option CStr) :=
  match strtokR rest delim with
  | (none, _) => none
  | (some tok, rest) => some (strtol tok 10, rest)

/-- `GET_DIGIT_VERIFY`; a maximum below the minimum stands for none. -/
def getDigitVerify (rest : Option CStr) (delim : CStr) (lo hi : ℤ) :
    Option (ℤ × Option CStr) :=
  match getDigit rest delim with
  | none => none
  | some (v, rest) =>
      if v < lo then none
      else if lo < hi ∧ hi < v then none
      else some (v, rest)

/-- The text that the date parser reads. -/
def parseDate (date : CStr) : Option (ℤ × ℤ × ℤ) := do
  let (mday, rest) ← getDigitVerify (some date) (lit ".") 1 31
  let (mon, rest) ← getDigitVerify rest (lit ".") 1 12
  let (year, _) ← getDigitVerify rest (lit ".") 1900 (-1)
  return (mday, mon - 1, year - 1900)

def parseTime (time : CStr) : Option (ℤ × ℤ × ℤ) := do
  let (hour, rest) ← getDigitVerify (some time) (lit ":") 0 23
  let (min, rest) ← getDigitVerify rest (lit ":") 0 59
  let (sec, _) ← getDigitVerify rest (lit ":") 0 60
  return (hour, min, sec)

/-- The calendar time that a date and a time write. -/
def calendarTime (date time : CStr) : Option ℤ := do
  let (mday, mon, year) ← parseDate date
  let (hour, min, sec) ← parseTime time
  return time2epoch
    { sec := sec, min := min, hour := hour, mday := mday, mon := mon,
      year := year, wday := 0, yday := 0 }

/-- The three numbers that a version text writes. -/
def versionTriple (version : CStr) : Option (ℤ × ℤ × ℤ) := do
  let (vmaj, rest) ← getDigit (some version) (lit ".")
  let (vmid, rest) ← getDigit rest (lit ".")
  let (vmin, _) ← getDigit rest (lit ".")
  return (vmaj, vmid, vmin)

/-- What the stack holds behind the text buffers of the two parsers. -/
structure StackJunk where
  ver : CStr
  date : CStr
  time : CStr

/-- `ota_str2time` -/
def otaStr2time (date time : CStr) (junk : StackJunk) : Option ℤ :=
  calendarTime (strncpy date strBuffLen junk.date)
    (strncpy time strBuffLen junk.time)

/-- `ota_str2ver` -/
def otaStr2ver (version : CStr) (junk : StackJunk) : Option (ℤ × ℤ × ℤ) :=
  versionTriple (strncpy version strBuffLen junk.ver)

/-- The numbers of the running firmware, read once: a running time of 0 counts
as not read yet. -/
def readRunning (fw : Firmware) (cache : RunningCache) (junk : StackJunk) :
    Bool × RunningCache :=
  if cache.running ≠ 0 then (true, cache)
  else
    match otaStr2ver fw.projectVersion junk with
    | none => (false, cache)
    | some (vmaj, vmid, vmin) =>
        let cache := { cache with vmaj := vmaj, vmid := vmid, vmin := vmin }
        match otaStr2time fw.buildDate fw.buildTime junk with
        | none => (false, cache)
        | some running => (true, { cache with running := running })

/-- The comparison of the versions in `ota_meta_check_update`. -/
def newByVersion (newer : Bool) (r : RunningCache) (n : ℤ × ℤ × ℤ) : Bool :=
  if newer = false then
    r.vmaj ≠ n.1 ∨ r.vmid ≠ n.2.1 ∨ r.vmin ≠ n.2.2
  else if r.vmaj < n.1 then true
  else if r.vmaj = n.1 ∧ r.vmid < n.2.1 then true
  else if r.vmaj = n.1 ∧ r.vmid = n.2.1 ∧ r.vmin < n.2.2 then true
  else false

/-- The comparison of the build times. -/
def newByTime (newer : Bool) (running newTime : ℤ) : Bool :=
  if newer = false then running ≠ newTime else running < newTime

/-- `ota_meta_check_update`; `value` is the text of a metadata field, `own` and
`offered` what the stack holds in the parsers of the two sides. -/
def otaMetaCheckUpdate (fw : Firmware) (c : OtaCheck) (cache : RunningCache)
    (value : MetaId → CStr) (own offered : StackJunk) :
    OtaCheck × RunningCache :=
  match readRunning fw cache own with
  | (false, cache) => (c, cache)
  | (true, cache) =>
      match otaStr2ver (value .ver) offered,
          otaStr2time (value .bdate) (value .btime) offered with
      | some ver, some newTime =>
          ({ c with
              newVersion :=
                (c.checkVer && newByVersion c.checkNewer cache ver) ||
                  (c.checkTime && newByTime c.checkNewer cache.running
                    newTime) },
            cache)
      | _, _ => (c, cache)

/-! ## Starting and running -/

/-- `ota_check_start` -/
def otaCheckStart (c : OtaCheck) (jobFree : Bool) (now : ℕ) : ℤ × OtaCheck :=
  if jobFree then (0, { c with started := now }) else (-1, c)

/-- `ota_check_run` -/
def otaCheckRun (fw : Firmware) (c : OtaCheck) (m : MetaValues)
    (cache : RunningCache) (now : ℕ) (own offered : StackJunk) :
    OtaCheck × MetaValues × RunningCache :=
  if c.ready then
    let parsed := otaMetaParse c m
    if parsed.1 ≠ 0 then
      let reset := otaCheckReset parsed.2.1
      (reset.1, reset.2, cache)
    else if otaMetaValidate fw parsed.2.1 parsed.2.2 ≠ 0 then
      let reset := otaCheckReset parsed.2.1
      (reset.1, reset.2, cache)
    else
      let c := parsed.2.1
      let m := parsed.2.2
      let result := otaMetaCheckUpdate fw c cache
        (fun i => (metaValue c.buff m i).getD []) own offered
      ({ result.1 with inProgress := false, started := 0 }, m, result.2)
  else if subU64 now c.started < updateTimeoutMs then (c, m, cache)
  else
    let reset := otaCheckReset c
    (reset.1, reset.2, cache)

def otaCheckSetStrategy (c : OtaCheck) (newer ver time : Bool) : OtaCheck :=
  { c with checkNewer := newer, checkVer := ver, checkTime := time }

/-- What the allocations and the TFTP client of `ota_update_apply` yield. -/
structure ApplyOutcome where
  peerAllocated : Bool
  pathAllocated : Bool
  fnameAllocated : Bool
  jobFree : Bool

/-- The file of the image: next to the metadata file. -/
def imagePath (fname value : CStr) : CStr :=
  let dir := (fname.reverse.dropWhile (· ≠ 47)).tail.reverse
  if dir = [] then value else dir ++ 47 :: value

/-- `ota_update_apply`.  A SHA of the wrong length is not copied, and a failed
start keeps the one that was. -/
def otaUpdateApply (c : OtaCheck) (m : MetaValues) (u : OtaUpdate)
    (outcome : ApplyOutcome) (now : ℕ) : ℤ × OtaUpdate :=
  let failed (u : OtaUpdate) : ℤ × OtaUpdate :=
    (-1, { u with file := { u.file with peer := none, fname := none } })
  let value (i : MetaId) : CStr := (metaValue c.buff m i).getD []
  if outcome.peerAllocated = false then failed u
  else
    let u := { u with
      file := { u.file with peer := c.file.peer, port := c.file.port } }
    let u := if strlen (value .sha) = shaBuffStr - 1 then
        { u with shaVerify := value .sha }
      else u
    let fname := c.file.fname.getD []
    if 0 < ((fname.reverse.dropWhile (· ≠ 47)).tail).length ∧
        outcome.pathAllocated = false then failed u
    else if outcome.fnameAllocated = false then failed u
    else
      let u := { u with
        file := { u.file with fname := some (imagePath fname (value .file)) } }
      let result := otaUpdateStart u outcome.jobFree now
      if result.1 ≠ 0 then failed result.2 else (0, result.2)

/-- An apply that succeeds starts the update; one that fails may have replaced
the SHA already.  Apart from these and the file nothing changes. -/
theorem otaUpdateApply_cases (c : OtaCheck) (m : MetaValues) (u : OtaUpdate)
    (outcome : ApplyOutcome) (now : ℕ) :
    let value := (metaValue c.buff m .sha).getD []
    let sha := if strlen value = shaBuffStr - 1 then value else u.shaVerify
    (∃ file sha', otaUpdateApply c m u outcome now =
        (-1, { u with file := file, shaVerify := sha' }) ∧
        (sha' = u.shaVerify ∨ sha' = sha)) ∨
      ∃ file, otaUpdateApply c m u outcome now =
        (0, { u with file := file, shaVerify := sha, started := now }) := by
  intro value sha
  have hcopy : ∀ file : TftpFile,
      (if strlen value = shaBuffStr - 1 then
          { u with file := file, shaVerify := value }
        else { u with file := file }) =
        { u with file := file, shaVerify := sha } := by
    intro file
    by_cases hlen : strlen value = shaBuffStr - 1
    · simp only [sha, if_pos hlen]
    · simp only [sha, if_neg hlen]
  unfold otaUpdateApply
  dsimp only
  split
  · exact Or.inl ⟨_, u.shaVerify, rfl, Or.inl rfl⟩
  · rw [hcopy]
    split
    · exact Or.inl ⟨_, sha, rfl, Or.inr rfl⟩
    · split
      · exact Or.inl ⟨_, sha, rfl, Or.inr rfl⟩
      · cases hjob : outcome.jobFree with
        | false => exact Or.inl ⟨_, sha, rfl, Or.inr rfl⟩
        | true => exact Or.inr ⟨_, rfl⟩

end Herak.Ota
