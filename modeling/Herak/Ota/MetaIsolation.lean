import Herak.Ota.Metadata
import Herak.Ota.System

/-!
# What an earlier metadata file leaves behind

The buffer of the check half is used for one metadata file after the other.
Opening a download clears `BUFF_SIZE` of its `META_SIZE` bytes, so that the
string in it can run from the bytes of the last download into those of an
earlier one.  This happens to the files of 256 bytes and more that do not fill
the buffer; the values of such a file are its own exactly if each has its end
of line.
-/

namespace Herak.Ota

open CString Memory Tftp

/-- The most bytes that a download can put into the buffer. -/
abbrev metaCapacity : ℕ := metaSize - 2

/-! ## Downloads -/

/-- The bytes that the download in progress has delivered, after an event. -/
def recordDelivery (c : OtaCheck) (e : OtaEvent) (h : List UInt8) :
    List UInt8 :=
  match e with
  | .checkOpen fname isWrite =>
      if (otaTftpCheckOpen c fname isWrite).1 then [] else h
  | .checkWrite p =>
      let h := if c.inProgress then h else []
      if (otaTftpCheckWrite c p).1 = 0 then h ++ p.payload else h
  | _ => h

/-- The module with a record of the metadata download in progress. -/
def deliveryMachine (fw : Firmware) (sha256 : List UInt8 → List UInt8) :
    EventMachine (OtaSystem × List UInt8) OtaEvent :=
  (OtaSystem.machine fw sha256).recording fun s e h =>
    recordDelivery s.check e h

/-- The bytes that the last metadata download of a run has delivered. -/
def delivered (fw : Firmware) (sha256 : List UInt8 → List UInt8)
    (s : OtaSystem) (es : List OtaEvent) : List UInt8 :=
  ((deliveryMachine fw sha256).run (s, []) es).2

/-- A download is complete and waits for the parser. -/
def DownloadDone (c : OtaCheck) : Prop :=
  c.inProgress = true ∧ c.ready = true

instance (c : OtaCheck) : Decidable (DownloadDone c) :=
  inferInstanceAs (Decidable (_ ∧ _))

/-- The delivered bytes are at the start of the buffer, NUL bytes follow up to
`BUFF_SIZE`, and the end of the buffer is never written. -/
structure DeliveryInv (c : OtaCheck) (h : List UInt8) : Prop where
  last : c.buff[metaCapacity]? = some 0
  count : c.inProgress = true → c.buffP = h.length
  fits : c.inProgress = true → h.length ≤ metaCapacity
  bytes : c.inProgress = true → ∀ k < h.length, c.buff[k]? = h[k]?
  clear : c.inProgress = true →
    ∀ k, h.length ≤ k → k < buffSize → c.buff[k]? = some 0

variable {c c' : OtaCheck} {h : List UInt8}

theorem DeliveryInv.of_same (hinv : DeliveryInv c h)
    (hbuff : c'.buff = c.buff) (hcount : c'.buffP = c.buffP)
    (hprogress : c'.inProgress = c.inProgress) : DeliveryInv c' h := by
  obtain ⟨hlast, hcnt, hfits, hbytes, hclear⟩ := hinv
  constructor
  · rwa [hbuff]
  · rwa [hcount, hprogress]
  · rwa [hprogress]
  · rwa [hbuff, hprogress]
  · rwa [hbuff, hprogress]

theorem DeliveryInv.of_idle (hlast : c.buff[metaCapacity]? = some 0)
    (hidle : c.inProgress = false) : DeliveryInv c h := by
  refine ⟨hlast, ?_, ?_, ?_, ?_⟩ <;> simp [hidle]

theorem DeliveryInv.capacity_lt (hinv : DeliveryInv c h) :
    metaCapacity < c.buff.length :=
  (List.getElem?_eq_some_iff.mp hinv.last).1

theorem otaTftpCheckOpen_cases (c : OtaCheck) (fname : Option CStr)
    (isWrite : Bool) :
    otaTftpCheckOpen c fname isWrite = (false, c) ∨
      otaTftpCheckOpen c fname isWrite =
        (true,
          { c with
            buffP := 0
            buff := memset c.buff 0 buffSize
            inProgress := true }) := by
  unfold otaTftpCheckOpen
  split
  · split
    · exact Or.inr rfl
    · exact Or.inl rfl
  · exact Or.inl rfl

theorem deliveryInv_opened (hinv : DeliveryInv c h) :
    DeliveryInv
      { c with
        buffP := 0
        buff := memset c.buff 0 buffSize
        inProgress := true } [] := by
  refine ⟨?_, fun _ => rfl, fun _ => Nat.zero_le _, fun _ k hk => ?_,
    fun _ k _ hk => ?_⟩
  · rw [getElem?_memset, if_neg (by decide)]
    exact hinv.last
  · simp at hk
  · rw [getElem?_memset, if_pos hk]

theorem deliveryInv_open (hinv : DeliveryInv c h) (fname : Option CStr)
    (isWrite : Bool) :
    DeliveryInv (otaTftpCheckOpen c fname isWrite).2
      (if (otaTftpCheckOpen c fname isWrite).1 then [] else h) := by
  rcases otaTftpCheckOpen_cases c fname isWrite with heq | heq
  · rw [heq]
    exact hinv
  · rw [heq]
    exact deliveryInv_opened hinv

/-- A write that is accepted puts its bytes behind those before. -/
theorem deliveryInv_copied (hinv : DeliveryInv c h)
    (hprogress : c.inProgress = true) {payload : List UInt8}
    (hfits : payload.length < metaSize - 1 - c.buffP) :
    DeliveryInv
      { c with
        buff := memcpy c.buff c.buffP payload
        buffP := c.buffP + payload.length } (h ++ payload) := by
  have hsize : metaSize = metaCapacity + 2 := rfl
  have hcount := hinv.count hprogress
  have hcap := hinv.capacity_lt
  have hin : h.length ≤ c.buff.length := by
    have := hinv.fits hprogress
    omega
  rw [hcount] at hfits
  rw [hcount]
  refine ⟨?_, fun _ => ?_, fun _ => ?_, fun _ k hk => ?_,
    fun _ k hge hk => ?_⟩
  · rw [getElem?_memcpy hin, if_neg (by omega), if_neg (by omega)]
    exact hinv.last
  · simp
  · rw [List.length_append]
    omega
  · rw [List.length_append] at hk
    rw [getElem?_memcpy hin, List.getElem?_append]
    by_cases hlt : k < h.length
    · rw [if_pos hlt, if_pos hlt]
      exact hinv.bytes hprogress k hlt
    · rw [if_neg hlt, if_neg hlt, if_pos hk]
  · rw [List.length_append] at hge
    rw [getElem?_memcpy hin, if_neg (by omega), if_neg (by omega)]
    exact hinv.clear hprogress k (by omega) hk

theorem deliveryInv_write (hinv : DeliveryInv c h) (p : Pbuf) :
    DeliveryInv (otaTftpCheckWrite c p).2
      (recordDelivery c (.checkWrite p) h) := by
  have hopened : DeliveryInv
      (if c.inProgress then c
        else (otaTftpCheckOpen c c.file.fname true).2)
      (if c.inProgress then h else []) := by
    split
    · exact hinv
    next hidle =>
      rcases otaTftpCheckOpen_cases c c.file.fname true with heq | heq
      · rw [heq]
        exact DeliveryInv.of_idle hinv.last (by simpa using hidle)
      · rw [heq]
        exact deliveryInv_opened hinv
  simp only [recordDelivery, otaTftpCheckWrite]
  generalize (if c.inProgress then c
    else (otaTftpCheckOpen c c.file.fname true).2) = opened at hopened ⊢
  split
  · simpa using hopened
  next hprogress =>
    split
    · simpa using hopened
    next hfits =>
      simpa using deliveryInv_copied hopened (by simpa using hprogress)
        (not_le.mp hfits)

/-- The parser ends strings and writes nothing else. -/
theorem otaMetaParse_last (m : MetaValues)
    (hlast : c.buff[metaCapacity]? = some 0) :
    (otaMetaParse c m).2.1.buff[metaCapacity]? = some 0 := by
  unfold otaMetaParse
  split
  · exact hlast
  · dsimp only
    split
    · exact (terminateFields_spec _ _ _).2.1 _ hlast
    · exact hlast

theorem otaMetaCheckUpdate_buff (fw : Firmware) (c : OtaCheck)
    (cache : RunningCache) (value : MetaId → CStr) (own offered : StackJunk) :
    (otaMetaCheckUpdate fw c cache value own offered).1.buff = c.buff := by
  unfold otaMetaCheckUpdate
  split
  · rfl
  · split <;> rfl

theorem deliveryInv_run (hinv : DeliveryInv c h) (fw : Firmware)
    (m : MetaValues) (cache : RunningCache) (now : ℕ)
    (own offered : StackJunk) :
    DeliveryInv (otaCheckRun fw c m cache now own offered).1 h := by
  have hparsed := otaMetaParse_last m hinv.last
  unfold otaCheckRun
  split
  · dsimp only
    split
    · exact DeliveryInv.of_idle hparsed rfl
    · split
      · exact DeliveryInv.of_idle hparsed rfl
      · refine DeliveryInv.of_idle ?_ rfl
        dsimp only
        rw [otaMetaCheckUpdate_buff]
        exact hparsed
  · split
    · exact hinv
    · exact DeliveryInv.of_idle hinv.last rfl

variable {fw : Firmware} {sha256 : List UInt8 → List UInt8} {s : OtaSystem}

theorem checkFile_buff (c : OtaCheck) (params : CStr)
    (outcome : CheckOutcome) :
    (checkFile c params outcome).2.buff = c.buff ∧
      (checkFile c params outcome).2.inProgress = c.inProgress := by
  unfold checkFile
  dsimp only
  split
  · exact ⟨rfl, rfl⟩
  · split
    · exact ⟨rfl, rfl⟩
    · split
      · exact ⟨rfl, rfl⟩
      · split
        · split <;> exact ⟨rfl, rfl⟩
        · exact ⟨rfl, rfl⟩

theorem deliveryInv_checkCmd (hinv : DeliveryInv s.check h)
    (params : Option CStr) (apply : Bool) (outcome : CheckOutcome)
    (now : ℕ) :
    DeliveryInv (otaUdateCheckRun s params apply outcome now).2.check h := by
  obtain ⟨hbuff, hidle⟩ :=
    checkFile_buff (otaCheckReset s.check).1 (params.getD []) outcome
  unfold otaUdateCheckRun
  dsimp only
  split
  · exact hinv
  · split
    · exact DeliveryInv.of_idle hinv.last rfl
    · have hlast : (checkFile (otaCheckReset s.check).1 (params.getD [])
          outcome).2.buff[metaCapacity]? = some 0 := by
        rw [hbuff]
        exact hinv.last
      split
      · exact DeliveryInv.of_idle hlast rfl
      · cases hjob : outcome.jobFree with
        | false => exact DeliveryInv.of_idle hlast rfl
        | true => exact DeliveryInv.of_idle hlast hidle

theorem deliveryInv_sysOtaRun (hinv : DeliveryInv s.check h) (t : TickInput) :
    DeliveryInv (sysOtaRun fw sha256 s t).check h := by
  unfold sysOtaRun
  split
  · exact hinv
  · split
    · exact deliveryInv_run hinv fw _ _ _ _ _
    · split
      · exact hinv.of_same rfl rfl rfl
      · exact hinv

theorem deliveryInv_step (hinv : DeliveryInv s.check h) (e : OtaEvent) :
    DeliveryInv (s.step fw sha256 e).check (recordDelivery s.check e h) := by
  cases e with
  | update params allocated jobFree now =>
      simp only [OtaSystem.step, otaUdateStartCmd]
      split
      · exact hinv
      · split
        · exact hinv
        · split
          · exact hinv
          · split <;> exact hinv
  | check params apply outcome now =>
      exact deliveryInv_checkCmd hinv params apply outcome now
  | apply outcome now =>
      simp only [OtaSystem.step, otaUdateApplyCmd]
      split <;> exact hinv
  | cancel => exact hinv
  | strategy params =>
      simp only [OtaSystem.step, otaUdateStrategyCmd]
      split
      · exact hinv
      · exact hinv.of_same rfl rfl rfl
  | updateOpen fname isWrite => exact hinv
  | updateWrite p outcome => exact hinv
  | updateClose outcome => exact hinv
  | updateError => exact hinv
  | checkOpen fname isWrite => exact deliveryInv_open hinv fname isWrite
  | checkWrite p => exact deliveryInv_write hinv p
  | checkClose =>
      simp only [OtaSystem.step, otaTftpCheckClose]
      split
      · exact DeliveryInv.of_idle hinv.last rfl
      · exact hinv.of_same rfl rfl rfl
  | checkError => exact DeliveryInv.of_idle hinv.last rfl
  | tick input => exact deliveryInv_sysOtaRun hinv input

theorem deliveryInv_init (fw : Firmware) (d : Device) :
    DeliveryInv (sysOtaInit fw d).check [] := by
  refine DeliveryInv.of_idle ?_ rfl
  simp [sysOtaInit, otaCheckSetStrategy, otaCheckReset, OtaCheck.init]

theorem deliveryInv_along (fw : Firmware)
    (sha256 : List UInt8 → List UInt8) (d : Device) (es : List OtaEvent) :
    DeliveryInv ((OtaSystem.machine fw sha256).run (sysOtaInit fw d) es).check
      (delivered fw sha256 (sysOtaInit fw d) es) := by
  have hrun : ∀ (es : List OtaEvent) (x : OtaSystem × List UInt8),
      DeliveryInv x.1.check x.2 →
      DeliveryInv ((deliveryMachine fw sha256).run x es).1.check
        ((deliveryMachine fw sha256).run x es).2 := by
    intro es
    induction es with
    | nil => exact fun _ hx => hx
    | cons e es ih => exact fun x hx => ih _ (deliveryInv_step hx e)
  have h := hrun es (sysOtaInit fw d, []) (deliveryInv_init fw d)
  rwa [deliveryMachine, EventMachine.recording_run_fst] at h

/-! ## The string in the buffer -/

/-- Every value has its end of line in the file. -/
def LinesEnd (data : List UInt8) : Prop :=
  ∀ i ∈ MetaId.all, ∀ o ∈ fieldOffset (cstrAt data 0) i,
    ∃ ch ∈ data.drop o, isLineEnd ch = true

theorem cstrAt_append_of_mem {data : List UInt8} (h : 0 ∈ data)
    (rest : List UInt8) : cstrAt (data ++ rest) 0 = cstrAt data 0 := by
  obtain ⟨behind, hdata⟩ := eq_cstr_append h
  have hlt : (data.takeWhile (· ≠ 0)).length < data.length := by
    have hlen := congrArg List.length hdata
    simp only [cstrAt, List.drop_zero, List.length_append,
      List.length_cons] at hlen
    omega
  simp only [cstrAt, List.drop_zero]
  rw [List.takeWhile_append, if_neg hlt.ne]

theorem cstrAt_of_not_mem {data : List UInt8} (h : 0 ∉ data) :
    cstrAt data 0 = data := by
  simp only [cstrAt, List.drop_zero]
  refine List.takeWhile_eq_self_iff.mpr fun ch hch => ?_
  have hne : ch ≠ 0 := by
    rintro rfl
    exact h hch
  simpa using hne

theorem cstrAt_append_of_not_mem {data : List UInt8} (h : 0 ∉ data)
    (rest : List UInt8) :
    cstrAt (data ++ rest) 0 = data ++ cstrAt rest 0 := by
  have hself := cstrAt_of_not_mem h
  simp only [cstrAt, List.drop_zero] at hself ⊢
  rw [List.takeWhile_append, if_pos (congrArg List.length hself)]

/-- Text behind a file in which every value has its end of line changes no
value. -/
theorem metaFields_append {s t : CStr} {fields : MetaId → CStr}
    (hfields : metaFields s = some fields)
    (hends : ∀ i ∈ MetaId.all, ∀ o ∈ fieldOffset s i,
      ∃ ch ∈ s.drop o, isLineEnd ch = true) :
    metaFields (s ++ t) = some fields := by
  rw [metaFields_eq_some_iff] at hfields ⊢
  intro i
  obtain ⟨o, ho, hfield⟩ := hfields i
  exact ⟨o, fieldOffset_append t ho,
    hfield.trans (lineText_append t (hends i i.mem_all o ho)).symm⟩

theorem DeliveryInv.buff_eq (hinv : DeliveryInv c h)
    (hprogress : c.inProgress = true) :
    c.buff = h ++ c.buff.drop h.length := by
  refine (List.take_append_drop h.length c.buff).symm.trans ?_
  congr 1
  refine List.ext_getElem? fun k => ?_
  by_cases hk : k < h.length
  · rw [List.getElem?_take_of_lt hk]
    exact hinv.bytes hprogress k hk
  · rw [List.getElem?_take_eq_none (not_lt.mp hk),
      List.getElem?_eq_none (not_lt.mp hk)]

/-- Files below `BUFF_SIZE` and files that fill the buffer are followed by
NUL. -/
theorem DeliveryInv.cstr_eq (hinv : DeliveryInv c h)
    (hprogress : c.inProgress = true)
    (hlen : h.length < buffSize ∨ metaCapacity ≤ h.length) :
    cstrAt c.buff 0 = cstrAt h 0 := by
  have hnul : c.buff[h.length]? = some 0 := by
    rcases hlen with hlen | hlen
    · exact hinv.clear hprogress _ le_rfl hlen
    · rw [le_antisymm (hinv.fits hprogress) hlen]
      exact hinv.last
  rw [hinv.buff_eq hprogress]
  by_cases hmem : 0 ∈ h
  · exact cstrAt_append_of_mem hmem _
  · rw [cstrAt_append_of_not_mem hmem, cstrAt_of_not_mem hmem]
    rw [← Nat.add_zero h.length, ← List.getElem?_drop] at hnul
    cases hrest : c.buff.drop h.length with
    | nil => simp [cstrAt]
    | cons ch rest =>
        rw [hrest] at hnul
        obtain rfl : ch = 0 := by simpa using hnul
        simp [cstrAt]

theorem DeliveryInv.metaFields_eq (hinv : DeliveryInv c h)
    (hprogress : c.inProgress = true) (hends : LinesEnd h)
    {fields : MetaId → CStr} (hfields : metaFields (cstrAt h 0) = some fields) :
    metaFields (cstrAt c.buff 0) = some fields := by
  rw [hinv.buff_eq hprogress]
  by_cases hmem : 0 ∈ h
  · rwa [cstrAt_append_of_mem hmem]
  · rw [cstrAt_append_of_not_mem hmem]
    have hself := cstrAt_of_not_mem hmem
    unfold LinesEnd at hends
    rw [hself] at hends hfields
    exact metaFields_append hfields hends

theorem DeliveryInv.metaResult_eq (hinv : DeliveryInv c h)
    (hprogress : c.inProgress = true) (m : MetaValues) :
    metaResult fw c m =
      if h.length < 1 then none
      else (metaFields (cstrAt c.buff 0)).map fun fields =>
        (if Acceptable fw fields then 0 else -1, fun i => some (fields i)) := by
  rw [Ota.metaResult_eq fw c m (List.mem_of_getElem? hinv.last),
    hinv.count hprogress]

/-! ## Two downloads -/

/-- Whatever the runs before it, a download of these bytes is decided in one
way. -/
def Isolated (fw : Firmware) (sha256 : List UInt8 → List UInt8)
    (data : List UInt8) : Prop :=
  ∀ d₁ d₂ es₁ es₂,
    (OtaSystem.machine fw sha256).Admits (sysOtaInit fw d₁) es₁ →
    (OtaSystem.machine fw sha256).Admits (sysOtaInit fw d₂) es₂ →
    let s₁ := (OtaSystem.machine fw sha256).run (sysOtaInit fw d₁) es₁
    let s₂ := (OtaSystem.machine fw sha256).run (sysOtaInit fw d₂) es₂
    DownloadDone s₁.check → DownloadDone s₂.check →
    delivered fw sha256 (sysOtaInit fw d₁) es₁ = data →
    delivered fw sha256 (sysOtaInit fw d₂) es₂ = data →
    metaResult fw s₁.check s₁.mdata = metaResult fw s₂.check s₂.mdata

/-- The result of a download is decided by its bytes if the string in the
buffer is. -/
theorem isolated_of_metaFields {data : List UInt8}
    {fields : Option (MetaId → CStr)}
    (hfields : ∀ c, DeliveryInv c data → c.inProgress = true →
      metaFields (cstrAt c.buff 0) = fields) :
    Isolated fw sha256 data := by
  intro d₁ d₂ es₁ es₂ _ _ s₁ s₂ hdone₁ hdone₂ hdata₁ hdata₂
  have hinv₁ : DeliveryInv s₁.check data :=
    hdata₁ ▸ deliveryInv_along fw sha256 d₁ es₁
  have hinv₂ : DeliveryInv s₂.check data :=
    hdata₂ ▸ deliveryInv_along fw sha256 d₂ es₂
  rw [hinv₁.metaResult_eq hdone₁.1, hinv₂.metaResult_eq hdone₂.1,
    hfields _ hinv₁ hdone₁.1, hfields _ hinv₂ hdone₂.1]

theorem isolated_of_length {data : List UInt8}
    (hlen : data.length < buffSize ∨ metaCapacity ≤ data.length) :
    Isolated fw sha256 data :=
  isolated_of_metaFields fun _ hinv hprogress =>
    congrArg metaFields (hinv.cstr_eq hprogress hlen)

theorem isolated_of_linesEnd {data : List UInt8} (hends : LinesEnd data)
    (hcomplete : (metaFields (cstrAt data 0)).isSome) :
    Isolated fw sha256 data := by
  obtain ⟨fields, hfields⟩ := Option.isSome_iff_exists.mp hcomplete
  exact isolated_of_metaFields fun _ hinv hprogress =>
    hinv.metaFields_eq hprogress hends hfields

/-! ## A download behind a longer one -/

def metaParams : CStr := lit ":tftp://h/m.meta"

def metaFile : TftpFile where
  fname := some (lit "m.meta")
  peer := some (lit "h")
  port := ianaPortTftp

def allAllocated : CheckOutcome where
  cacheAllocated := true
  urlAllocated := true
  nameAllocated := true
  jobFree := true

/-- A check command and the download of a file in one block. -/
def download (now : ℕ) (data : List UInt8) : List OtaEvent :=
  [.check (some metaParams) false allAllocated now,
    .checkWrite { payload := data, next := [] }]

/-- A file that fills the buffer with one byte fails at its end, and another
one follows. -/
def staleRun (b : UInt8) (data : List UInt8) : List OtaEvent :=
  download 1 (List.replicate metaCapacity b) ++
    (.checkError :: (download 2 data ++ [.checkClose]))

theorem tftpUrlParse_metaParams :
    tftpUrlParse (metaParams.drop 1) noFile true = (0, metaFile) := by
  decide +kernel

theorem checkFile_metaParams (c : OtaCheck)
    (hcache : c.paramCache = none ∨
      c.paramCache = some metaParams ∧ c.file = metaFile) :
    checkFile c metaParams allAllocated =
      (true, { c with paramCache := some metaParams, file := metaFile }) := by
  rcases hcache with hcache | ⟨hcache, hfile⟩
  · have hlast : ¬(lit "m.meta").getLast? = some 47 := by decide +kernel
    unfold checkFile
    rw [if_neg (by simp [hcache])]
    simp only [allAllocated, if_true, tftpUrlParse_metaParams, ne_eq,
      not_true_eq_false, if_false]
    exact if_neg hlast
  · unfold checkFile
    rw [if_pos hcache, ← hfile, ← hcache]

theorem otaUdateCheckRun_metaParams {now : ℕ}
    (hupdate : s.update.started = 0) (hcheck : s.check.started = 0)
    (hcache : s.check.paramCache = none ∨
      s.check.paramCache = some metaParams ∧ s.check.file = metaFile) :
    otaUdateCheckRun s (some metaParams) false allAllocated now =
      (0,
        { s with
          check :=
            { (otaCheckReset s.check).1 with
              paramCache := some metaParams
              file := metaFile
              started := now }
          mdata := MetaValues.init }) := by
  have hnot : ¬(s.update.started ≠ 0 ∨ s.check.started ≠ 0) := by
    simp [hupdate, hcheck]
  have hparams : ¬hasParams (some metaParams) = false := by decide +kernel
  have hfile := checkFile_metaParams (otaCheckReset s.check).1 hcache
  unfold otaUdateCheckRun
  rw [if_neg hnot, if_neg hparams]
  simp only [Option.getD_some, hfile, Bool.true_eq_false, if_false]
  rfl

/-- The first write of a download opens it. -/
theorem otaTftpCheckWrite_opens (c : OtaCheck) {payload : List UInt8}
    (hstarted : c.started ≠ 0) (hfile : c.file = metaFile)
    (hidle : c.inProgress = false) (hlen : payload.length ≤ metaCapacity) :
    otaTftpCheckWrite c { payload := payload, next := [] } =
      (0,
        { c with
          inProgress := true
          buff := memcpy (memset c.buff 0 buffSize) 0 payload
          buffP := payload.length }) := by
  have hsize : metaSize = metaCapacity + 2 := rfl
  have hopen : otaTftpCheckOpen c c.file.fname true =
      (true,
        { c with
          buffP := 0
          buff := memset c.buff 0 buffSize
          inProgress := true }) := by
    unfold otaTftpCheckOpen
    simp only [hfile, metaFile]
    exact if_pos ⟨trivial, hstarted, trivial, (strcmp_eq_zero_iff _ _).mpr rfl⟩
  unfold otaTftpCheckWrite
  simp only [hidle, Bool.false_eq_true, if_false, hopen, Nat.sub_zero,
    Nat.zero_add, Bool.true_eq_false]
  rw [if_neg (by omega)]

/-- The check half after a download. -/
def OtaCheck.downloaded (c : OtaCheck) (now : ℕ) (data : List UInt8) :
    OtaCheck :=
  { c with
    inProgress := true
    file := metaFile
    buff := memcpy (memset c.buff 0 buffSize) 0 data
    buffP := data.length
    started := now
    apply := 0
    ready := false
    newVersion := false
    paramCache := some metaParams }

theorem download_spec (fw : Firmware) (sha256 : List UInt8 → List UInt8)
    (s : OtaSystem) (h : List UInt8) {now : ℕ} {data : List UInt8}
    (hnow : 0 < now) (hlen : data.length ≤ metaCapacity)
    (hboot : s.device.rebooted = false)
    (hupdate : s.update.started = 0) (hcheck : s.check.started = 0)
    (hcache : s.check.paramCache = none ∨
      s.check.paramCache = some metaParams ∧ s.check.file = metaFile) :
    (OtaSystem.machine fw sha256).Admits s (download now data) ∧
      (deliveryMachine fw sha256).run (s, h) (download now data) =
        ({ s with
          check := s.check.downloaded now data
          mdata := MetaValues.init }, data) := by
  have hstart : s.step fw sha256
      (.check (some metaParams) false allAllocated now) = _ :=
    congrArg Prod.snd (otaUdateCheckRun_metaParams hupdate hcheck hcache)
  have hwrite := otaTftpCheckWrite_opens
    { (otaCheckReset s.check).1 with
      paramCache := some metaParams
      file := metaFile
      started := now } hnow.ne' rfl rfl hlen
  refine ⟨⟨⟨hboot, ?_⟩, ⟨?_, ?_⟩, trivial⟩, ?_⟩
  · simpa [OtaEvent.now?] using hnow
  · simp only [OtaSystem.machine, hstart, hboot]
  · simp [OtaEvent.now?]
  · simp only [download, EventMachine.run_cons, EventMachine.run_nil,
      deliveryMachine, EventMachine.recording, OtaSystem.machine, hstart,
      recordDelivery, hwrite, if_true]
    simp only [OtaSystem.step, hwrite]
    rfl

/-- The buffer after both files. -/
def staleBuff (b : UInt8) (data : List UInt8) : List UInt8 :=
  memcpy
    (memset
      (memcpy (memset (List.replicate metaSize 0) 0 buffSize) 0
        (List.replicate metaCapacity b)) 0 buffSize) 0 data

/-- The system after the first file, whose download failed. -/
def failedBefore (fw : Firmware) (b : UInt8) : OtaSystem :=
  { sysOtaInit fw bootDevice with
    check := (otaCheckReset ((sysOtaInit fw bootDevice).check.downloaded 1
      (List.replicate metaCapacity b))).1
    mdata := MetaValues.init }

theorem staleRun_spec (fw : Firmware) (sha256 : List UInt8 → List UInt8)
    (b : UInt8) {data : List UInt8} (hlen : data.length ≤ metaCapacity) :
    (OtaSystem.machine fw sha256).Admits (sysOtaInit fw bootDevice)
        (staleRun b data) ∧
      delivered fw sha256 (sysOtaInit fw bootDevice) (staleRun b data) =
        data ∧
      DownloadDone ((OtaSystem.machine fw sha256).run
        (sysOtaInit fw bootDevice) (staleRun b data)).check ∧
      ((OtaSystem.machine fw sha256).run (sysOtaInit fw bootDevice)
        (staleRun b data)).check.buff = staleBuff b data := by
  obtain ⟨hadmits₁, hrun₁⟩ := download_spec fw sha256
    (sysOtaInit fw bootDevice) [] (by decide : 0 < 1)
    (List.length_replicate (a := b)).le rfl rfl rfl (Or.inl rfl)
  obtain ⟨hadmits₂, hrun₂⟩ := download_spec fw sha256 (failedBefore fw b)
    (List.replicate metaCapacity b) (by decide : 0 < 2) hlen rfl rfl rfl
    (Or.inr ⟨rfl, rfl⟩)
  have hrun : (deliveryMachine fw sha256).run (sysOtaInit fw bootDevice, [])
      (staleRun b data) =
        ({ failedBefore fw b with
          check :=
            { (failedBefore fw b).check.downloaded 2 data with ready := true }
          mdata := MetaValues.init }, data) := by
    rw [staleRun, EventMachine.run_append, hrun₁, EventMachine.run_cons]
    refine (EventMachine.run_append _ _ _ _).trans ?_
    refine (congrArg (fun x => (deliveryMachine fw sha256).run x
      [.checkClose]) hrun₂).trans ?_
    rfl
  have hfst : (OtaSystem.machine fw sha256).run (sysOtaInit fw bootDevice)
      (staleRun b data) = _ :=
    (EventMachine.recording_run_fst (sysOtaInit fw bootDevice, [])
      (staleRun b data)).symm.trans (congrArg Prod.fst hrun)
  refine ⟨?_, congrArg Prod.snd hrun, ?_, ?_⟩
  · have hfst₁ : (OtaSystem.machine fw sha256).run (sysOtaInit fw bootDevice)
        (download 1 (List.replicate metaCapacity b)) = _ :=
      (EventMachine.recording_run_fst (sysOtaInit fw bootDevice, []) _).symm.trans
        (congrArg Prod.fst hrun₁)
    have hfst₂ : (OtaSystem.machine fw sha256).run (failedBefore fw b)
        (download 2 data) = _ :=
      (EventMachine.recording_run_fst (failedBefore fw b, _) _).symm.trans
        (congrArg Prod.fst hrun₂)
    refine (EventMachine.along_append _).mpr ⟨hadmits₁, ?_⟩
    rw [hfst₁]
    refine ⟨⟨rfl, by simp [OtaEvent.now?]⟩,
      (EventMachine.along_append _).mpr ⟨hadmits₂, ?_⟩⟩
    refine (congrArg (fun s => (OtaSystem.machine fw sha256).Admits s
      [.checkClose]) hfst₂).mpr ?_
    exact ⟨⟨rfl, by simp [OtaEvent.now?]⟩, trivial⟩
  · rw [hfst]
    exact ⟨rfl, rfl⟩
  · rw [hfst]
    rfl

theorem staleBuff_eq {b : UInt8} {data : List UInt8}
    (hlen : buffSize ≤ data.length) (hcap : data.length ≤ metaCapacity) :
    staleBuff b data =
      data ++ (List.replicate (metaCapacity - data.length) b ++
        List.replicate 2 0) := by
  have hzero : (List.replicate buffSize (0 : UInt8) ++
      (List.replicate metaSize 0).drop buffSize).drop metaCapacity =
        List.replicate 2 0 := by
    decide +kernel
  unfold staleBuff
  rw [memcpy_zero, memset_eq, memcpy_zero, memset_eq, List.length_replicate,
    hzero, List.drop_append, List.length_replicate, List.drop_drop,
    Nat.add_sub_cancel' hlen, List.drop_eq_nil_of_le (by simpa using hlen),
    List.nil_append, List.drop_append_of_le_length (by simpa using hcap),
    List.drop_replicate]

/-- The text behind the file: the bytes of the file before, unless they are
NUL. -/
theorem cstrAt_staleBuff {b : UInt8} {data : List UInt8}
    (hlen : buffSize ≤ data.length) (hcap : data.length ≤ metaCapacity)
    (hmem : 0 ∉ data) :
    cstrAt (staleBuff b data) 0 =
      data ++ if b = 0 then []
        else List.replicate (metaCapacity - data.length) b := by
  rw [staleBuff_eq hlen hcap, cstrAt_append_of_not_mem hmem]
  congr 1
  split
  next hb =>
    rw [hb, List.replicate_append_replicate]
    simp [cstrAt]
  next hb =>
    rw [cstrAt_append_of_not_mem]
    · simp [cstrAt]
    · intro hzero
      exact hb (List.eq_of_mem_replicate hzero).symm

/-- A NUL in the file ends every value. -/
theorem linesEnd_of_mem {data : List UInt8} (h : 0 ∈ data) :
    LinesEnd data := by
  intro i _ o ho
  obtain ⟨rest, hdata⟩ := eq_cstr_append h
  refine ⟨0, ?_, isLineEnd_zero⟩
  rw [hdata, List.drop_append_of_le_length (fieldOffset_lt ho).le]
  simp

/-- A value without its end of line runs into the bytes of the file before. -/
theorem not_isolated {data : List UInt8} (hlen : buffSize ≤ data.length)
    (hcap : data.length < metaCapacity)
    (hcomplete : (metaFields (cstrAt data 0)).isSome)
    (hopen : ¬LinesEnd data) : ¬Isolated fw sha256 data := by
  intro hiso
  have hmem : 0 ∉ data := fun hmem => hopen (linesEnd_of_mem hmem)
  obtain ⟨hadmits₁, hdata₁, hdone₁, hbuff₁⟩ :=
    staleRun_spec fw sha256 98 hcap.le
  obtain ⟨hadmits₂, hdata₂, hdone₂, hbuff₂⟩ :=
    staleRun_spec fw sha256 0 hcap.le
  have hinv₁ := deliveryInv_along fw sha256 bootDevice (staleRun 98 data)
  have hinv₂ := deliveryInv_along fw sha256 bootDevice (staleRun 0 data)
  have hresult := hiso bootDevice bootDevice _ _ hadmits₁ hadmits₂ hdone₁
    hdone₂ hdata₁ hdata₂
  have hne : ¬data.length < 1 := by
    simp only [buffSize] at hlen
    omega
  rw [hinv₁.metaResult_eq hdone₁.1, hinv₂.metaResult_eq hdone₂.1, hbuff₁,
    hbuff₂, hdata₁, hdata₂, cstrAt_staleBuff hlen hcap.le hmem,
    cstrAt_staleBuff hlen hcap.le hmem, if_neg hne, if_neg hne,
    if_neg (by decide), if_pos rfl, List.append_nil] at hresult
  -- A value whose line is open has one text in one run and a longer one in
  -- the other.
  unfold LinesEnd at hopen
  rw [cstrAt_of_not_mem hmem] at hcomplete hopen
  obtain ⟨fields, hfields⟩ := Option.isSome_iff_exists.mp hcomplete
  push Not at hopen
  obtain ⟨i, -, o, ho, hline⟩ := hopen
  obtain ⟨o', ho', hvalue⟩ := metaFields_eq_some_iff.mp hfields i
  obtain rfl : o' = o := Option.some_inj.mp (ho'.symm.trans ho)
  rw [hfields, Option.map_some] at hresult
  obtain ⟨fields', hfields', heq⟩ := Option.map_eq_some_iff.mp hresult
  obtain ⟨o₁, ho₁, hvalue₁⟩ := metaFields_eq_some_iff.mp hfields' i
  rw [fieldOffset_append _ ho] at ho₁
  obtain rfl : o' = o₁ := Option.some_inj.mp ho₁
  have hsame : fields' i = fields i :=
    Option.some_inj.mp (congrFun (congrArg Prod.snd heq) i)
  have hlt := fieldOffset_lt ho
  have hline' : ∀ ch ∈ data.drop o', isLineEnd ch = false := by
    simpa using hline
  rw [hvalue₁, hvalue, lineText_eq_drop hline', lineText_eq_drop,
    List.drop_append_of_le_length hlt.le] at hsame
  · have hlength := congrArg List.length hsame
    rw [List.length_append, List.length_replicate] at hlength
    omega
  · rw [List.drop_append_of_le_length hlt.le]
    intro ch hch
    rcases List.mem_append.mp hch with hch | hch
    · exact hline' ch hch
    · rw [List.eq_of_mem_replicate hch]
      rfl

/-- The names of all fields and one more character. -/
def fieldNames : CStr :=
  lit ("image:file:SHA:version:commit:build date:build time:" ++
    "device arch:x")

theorem metaFields_fieldNames_append (t : CStr) :
    (metaFields (fieldNames ++ t)).isSome := by
  have hall : ∀ i ∈ MetaId.all, (fieldOffset fieldNames i).isSome := by
    decide +kernel
  unfold metaFields
  rw [if_pos]
  · rfl
  · intro i hi
    obtain ⟨o, ho⟩ := Option.isSome_iff_exists.mp (hall i hi)
    rw [fieldOffset_append t ho]
    rfl

/-- One long line that has all fields. -/
theorem openLine_fieldNames (k : ℕ) :
    (metaFields (cstrAt (fieldNames ++ List.replicate k 98) 0)).isSome ∧
      ¬LinesEnd (fieldNames ++ List.replicate k 98) := by
  have hnames : ∀ ch ∈ fieldNames, isLineEnd ch = false := by decide +kernel
  have hline : ∀ ch ∈ fieldNames ++ List.replicate k 98,
      isLineEnd ch = false := by
    intro ch hch
    rcases List.mem_append.mp hch with hch | hch
    · exact hnames ch hch
    · rw [List.eq_of_mem_replicate hch]
      rfl
  have hmem : 0 ∉ fieldNames ++ List.replicate k 98 := fun hmem =>
    Bool.false_ne_true ((hline 0 hmem).symm.trans isLineEnd_zero)
  have hcomplete := metaFields_fieldNames_append (List.replicate k 98)
  refine ⟨(cstrAt_of_not_mem hmem).symm ▸ hcomplete, fun hends => ?_⟩
  obtain ⟨fields, hfields⟩ := Option.isSome_iff_exists.mp hcomplete
  obtain ⟨o, ho, -⟩ := metaFields_eq_some_iff.mp hfields .image
  obtain ⟨ch, hch, hend⟩ := hends .image MetaId.image.mem_all o
    ((cstrAt_of_not_mem hmem).symm ▸ ho)
  rw [hline ch (List.mem_of_mem_drop hch)] at hend
  exact Bool.false_ne_true hend

/-- A download of any bytes of a length is decided by them exactly if the
length is below `BUFF_SIZE` or the most that fits; a file of another length
that has all fields is decided by its bytes exactly if each value has its end
of line. -/
theorem isolated_iff (fw : Firmware) (sha256 : List UInt8 → List UInt8) :
    (∀ n, (∀ data : List UInt8, data.length = n → Isolated fw sha256 data) ↔
      n < buffSize ∨ metaCapacity ≤ n) ∧
    ∀ data : List UInt8, (metaFields (cstrAt data 0)).isSome →
      (Isolated fw sha256 data ↔
        data.length < buffSize ∨ metaCapacity ≤ data.length ∨
          LinesEnd data) := by
  refine ⟨fun n => ⟨fun hall => ?_, ?_⟩,
    fun data hcomplete => ⟨fun hiso => ?_, ?_⟩⟩
  · by_contra hn
    push Not at hn
    obtain ⟨hlen, hcap⟩ := hn
    have hnames : fieldNames.length < buffSize := by decide +kernel
    have hdata : (fieldNames ++
        List.replicate (n - fieldNames.length) 98).length = n := by
      rw [List.length_append, List.length_replicate]
      omega
    obtain ⟨hcomplete, hopen⟩ := openLine_fieldNames (n - fieldNames.length)
    exact not_isolated (hdata.symm ▸ hlen) (hdata.symm ▸ hcap) hcomplete hopen
      (hall _ hdata)
  · rintro hn data rfl
    exact isolated_of_length hn
  · by_contra hnot
    push Not at hnot
    exact not_isolated hnot.1 hnot.2.1 hcomplete hnot.2.2 hiso
  · rintro (hlen | hlen | hends)
    · exact isolated_of_length (Or.inl hlen)
    · exact isolated_of_length (Or.inr hlen)
    · exact isolated_of_linesEnd hends hcomplete

/-- A metadata file that ends in the middle of a line. -/
def relayMeta (version notes : String) : List UInt8 :=
  lit "image: relay\nfile: relay_fota_image.bin\nSHA: " ++
    lit "4bf5122f344554c53bde2ebb8cd2b7e3d1600ad631c385a5d7cce23c7785459a" ++
    lit "\nversion: " ++ lit version ++
    lit "\ncommit: 1f0e6d2\nbuild date: 25.06.2025\nbuild time: 12:30:00" ++
    lit "\nnotes: " ++ lit notes ++
    lit "\ndevice arch: rp2040"

theorem isolated_iff_relayMeta :
    Isolated relayFirmware knownSha256 (relayMeta "2.3.5" "none") :=
  ((isolated_iff relayFirmware knownSha256).2 (relayMeta "2.3.5" "none")
    (by decide +kernel)).mpr (Or.inl (by decide +kernel))

def relayNotes : String :=
  "this release polls the relays twice as often as the one before"

/-- The same file of 274 bytes is accepted by a device that has just started,
and refused behind a longer one. -/
theorem stale_bytes_change_result :
    (let es := download 1 (relayMeta "2.3.5" relayNotes) ++ [.checkClose]
      let s := (OtaSystem.machine relayFirmware knownSha256).run bootSystem es
      (OtaSystem.machine relayFirmware knownSha256).Admits bootSystem es ∧
        DownloadDone s.check ∧
        delivered relayFirmware knownSha256 bootSystem es =
          relayMeta "2.3.5" relayNotes ∧
        (metaResult relayFirmware s.check s.mdata).map Prod.fst = some 0) ∧
      (let es := staleRun 98 (relayMeta "2.3.5" relayNotes)
        let s := (OtaSystem.machine relayFirmware knownSha256).run bootSystem es
        (OtaSystem.machine relayFirmware knownSha256).Admits bootSystem es ∧
          DownloadDone s.check ∧
          delivered relayFirmware knownSha256 bootSystem es =
            relayMeta "2.3.5" relayNotes ∧
          (metaResult relayFirmware s.check s.mdata).map Prod.fst =
            some (-1)) := by
  decide +kernel

end Herak.Ota
