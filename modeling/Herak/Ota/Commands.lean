import Herak.Ota.Check
import Herak.Tftp.Url

/-!
# The commands of the OTA module

`ota.c`: the commands that start, check, apply and cancel updates, the policy of
the check, and the run function of the module.
-/

namespace Herak.Ota

open CInt CString Tftp

/-- `sys_ota_init`; the reset of the update half clears the slot and the job
bit. -/
def sysOtaInit (fw : Firmware) (d : Device) : OtaSystem :=
  let ud := otaUpdateReset OtaUpdate.init d
  let cm := otaCheckReset (OtaCheck.init (fw.imageName ++ lit ".meta"))
  { update := ud.1
    check := otaCheckSetStrategy cm.1 true true false
    mdata := cm.2
    cache := { running := 0, vmaj := 0, vmid := 0, vmin := 0 }
    device := ud.2 }

namespace OtaSystem

/-- Put what a function of the update half returns into the context. -/
def withUpdate (s : OtaSystem) (ud : OtaUpdate × Device) : OtaSystem :=
  { s with update := ud.1, device := ud.2 }

/-- Put what a function of the check half returns into the context. -/
def withCheck (s : OtaSystem) (cm : OtaCheck × MetaValues) : OtaSystem :=
  { s with check := cm.1, mdata := cm.2 }

end OtaSystem

/-- The parameters of a command start with the separator. -/
def hasParams (params : Option CStr) : Bool :=
  match params with
  | none => false
  | some params => 1 ≤ strlen params && params.head? == some 58

/-- `ota_udate_start_cmd`.  A command that fails resets the update half. -/
def otaUdateStartCmd (s : OtaSystem) (params : Option CStr)
    (allocated jobFree : Bool) (now : ℕ) : ℤ × OtaSystem :=
  if s.update.started ≠ 0 then (-1, s)
  else if hasParams params = false then
    (-1, s.withUpdate (otaUpdateReset s.update s.device))
  else
    let url := tftpUrlParse ((params.getD []).drop 1) s.update.file allocated
    let u := { s.update with file := url.2 }
    if url.1 ≠ 0 then (-1, s.withUpdate (otaUpdateReset u s.device))
    else
      let result := otaUpdateStart u jobFree now
      if result.1 ≠ 0 then
        (-1, s.withUpdate (otaUpdateReset result.2 s.device))
      else (0, s.withUpdate (result.2, s.device))

/-- What the allocations and the TFTP client of a check command yield. -/
structure CheckOutcome where
  cacheAllocated : Bool
  urlAllocated : Bool
  nameAllocated : Bool
  jobFree : Bool

/-- The file that a check command names; the parse is skipped for the
parameters of the last command. -/
def checkFile (c : OtaCheck) (params : CStr) (outcome : CheckOutcome) :
    Bool × OtaCheck :=
  if c.paramCache = some params then (true, c)
  else
    let c := { c with
      paramCache := if outcome.cacheAllocated then some params else none }
    let url := tftpUrlParse (params.drop 1) noFile outcome.urlAllocated
    let c := { c with file := url.2 }
    if url.1 ≠ 0 then (false, c)
    else
      match c.file.fname with
      | none =>
          (true,
            { c with
              file := { c.file with
                fname := if outcome.nameAllocated then some c.metaFileName
                  else none } })
      | some fname =>
          if fname.getLast? = some 47 then
            if outcome.nameAllocated then
              (true,
                { c with
                  file := { c.file with
                    fname := some (fname ++ c.metaFileName) } })
            else (false, c)
          else (true, c)

/-- `ota_udate_check_run`.  A command that fails forgets its parameters and
resets the check half. -/
def otaUdateCheckRun (s : OtaSystem) (params : Option CStr) (apply : Bool)
    (outcome : CheckOutcome) (now : ℕ) : ℤ × OtaSystem :=
  let failed (c : OtaCheck) : ℤ × OtaSystem :=
    (-1, s.withCheck (otaCheckReset { c with paramCache := none }))
  if s.update.started ≠ 0 ∨ s.check.started ≠ 0 then (-1, s)
  else if hasParams params = false then failed s.check
  else
    let cm := otaCheckReset s.check
    let named := checkFile cm.1 (params.getD []) outcome
    if named.1 = false then failed named.2
    else
      let c := { named.2 with apply := if apply then applyRetries else 0 }
      let result := otaCheckStart c outcome.jobFree now
      if result.1 ≠ 0 then failed result.2
      else (0, s.withCheck (result.2, cm.2))

/-- A field of the policy: an empty one is skipped, another is compared with
its word. -/
def policyField (rest : Option CStr) (word : CStr) : Bool × Option CStr :=
  match rest with
  | some (58 :: rest) => (false, some rest)
  | _ =>
      let token := strtokR rest (lit ":")
      match token.1 with
      | some tok =>
          (strlen tok = strlen word ∧ strcmp tok word = 0, token.2)
      | none => (false, token.2)

/-- `ota_udate_strategy_cmd` -/
def otaUdateStrategyCmd (s : OtaSystem) (params : Option CStr) :
    ℤ × OtaSystem :=
  if hasParams params = false then (-1, s)
  else
    let newer := policyField (some ((params.getD []).drop 1)) (lit "new")
    let ver := policyField newer.2 (lit "version")
    let time := policyField ver.2 (lit "time")
    (0, { s with check := otaCheckSetStrategy s.check newer.1 ver.1 time.1 })

/-- `ota_udate_cancel_cmd`: the pending apply is dropped only after the
reset. -/
def otaUdateCancelCmd (s : OtaSystem) : ℤ × OtaSystem :=
  let s := s.withUpdate (otaUpdateReset s.update s.device)
  (0, { s with update := { s.update with apply := 0 } })

/-- `ota_udate_apply_cmd` -/
def otaUdateApplyCmd (s : OtaSystem) (outcome : ApplyOutcome) (now : ℕ) :
    ℤ × OtaSystem :=
  if s.check.newVersion then
    (0, { s with
      update := (otaUpdateApply s.check s.mdata s.update outcome now).2 })
  else (0, s)

/-- What a round of the module reads: the time, the check of the image, the
stack of the parsers and the outcome of an apply. -/
structure TickInput where
  now : ℕ
  firmwareOk : Bool
  own : StackJunk
  offered : StackJunk
  apply : ApplyOutcome

/-- `sys_ota_run` -/
def sysOtaRun (fw : Firmware) (sha256 : List UInt8 → List UInt8)
    (s : OtaSystem) (t : TickInput) : OtaSystem :=
  if s.update.started ≠ 0 ∨ s.update.apply ≠ 0 then
    s.withUpdate (otaUpdateRun sha256 s.update s.device t.now t.firmwareOk)
  else if s.check.started ≠ 0 then
    let result := otaCheckRun fw s.check s.mdata s.cache t.now t.own t.offered
    { s with check := result.1, mdata := result.2.1, cache := result.2.2 }
  else if s.check.newVersion ∧ s.check.apply ≠ 0 then
    let c := { s.check with apply := s.check.apply - 1 }
    { s with
      check := c
      update := (otaUpdateApply c s.mdata s.update t.apply t.now).2 }
  else s

end Herak.Ota
