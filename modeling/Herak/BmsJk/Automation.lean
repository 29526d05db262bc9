import Herak.BmsJk.Device
import Herak.Scripts.Script
import Herak.Support.BinaryFloat

/-!
# JK BMS automation

`bms_jk_automation.c`: the state of the battery and the excess of solar power,
which the cell frames change, and the scripts that belong to each state.
-/

namespace Herak.BmsJk

open BinaryFloat CInt CString Scripts

/-- `BATT_STATE_COUNT_THR` -/
def battStateCountThr : ℕ := 3

/-- `BATT_STATE_CHARGE_THR` -/
def battStateChargeThr : ℕ := 90

/-- `BATT_STATE_CHARGE_TRY_DELAY_MS` -/
def battStateChargeTryDelayMs : ℕ := 120000

/-- `DEV_NAME`; `%s` of a NULL pointer prints `(null)`. -/
def devName (dev : JkBmsDev) : CStr :=
  dev.userName.getD (dev.name.getD (lit "(null)"))

/-! ## Scripts -/

/-- The times that the script module reads: the time of a run request, and the
date, `none` while it is not known. -/
structure ScriptClock where
  runNow : ℕ
  tm : Option ℤ

/-- `script_exist` of a prefix; -1 without the script module. -/
def scriptExistPrefix (scripts : Option ScriptsContext) (name : CStr) : ℤ :=
  match scripts with
  | none => -1
  | some ctx => scriptExist ctx name true

/-- `script_auto` of a prefix. -/
def scriptAuto (cronNext : CronExpr → ℤ → ℤ) (scripts : Option ScriptsContext)
    (name : CStr) (enable : Bool) (clock : ScriptClock) :
    Option ScriptsContext :=
  scripts.map fun ctx =>
    (scriptNameAutoRun cronNext ctx name enable true clock.tm).2

/-- `script_run` of a prefix. -/
def scriptRun (scripts : Option ScriptsContext) (name : CStr)
    (clock : ScriptClock) : Option ScriptsContext :=
  scripts.map fun ctx => (scriptNameRun ctx name true clock.runNow).2

/-- The prefix of the scripts of a state, when there are any. -/
def AutoAction.scriptPrefix (aauto : AutoAction) (on : Bool) : Option CStr :=
  if on then if aauto.scriptOnCount ≠ 0 then aauto.scriptOnPrefix else none
  else if aauto.scriptOffCount ≠ 0 then aauto.scriptOffPrefix else none

/-- `jk_bt_auto_action` -/
def jkBtAutoAction (cronNext : CronExpr → ℤ → ℤ)
    (scripts : Option ScriptsContext) (clock : ScriptClock)
    (aauto : AutoAction) : Option ScriptsContext × AutoAction :=
  let scripts :=
    match aauto.scriptPrefix (!aauto.state) with
    | none => scripts
    | some name => scriptAuto cronNext scripts name false clock
  let scripts :=
    match aauto.scriptPrefix aauto.state with
    | none => scripts
    | some name =>
        scriptRun (scriptAuto cronNext scripts name true clock) name clock
  (scripts, { aauto with runs := toUInt64 (aauto.runs + 1) })

/-! ## The battery -/

/-- The test of bit `i` of the mask; no bit is set from 32 on. -/
def CellInfo.isEnabled (info : CellInfo) (i : ℕ) : Bool :=
  info.cellsEnabled.testBit i

/-- The loops over the cells from `i` on that stop at the first one that is not
enabled; `f` gives the new count of a cell. -/
def forEnabled (info : CellInfo) (f : ℕ → ℕ → ℕ) :
    ℕ → ℕ → (ℕ → ℕ) → ℕ → ℕ
  | 0, _, counts => counts
  | n + 1, i, counts =>
      if info.isEnabled i then
        forEnabled info f n (i + 1) (Function.update counts i (f i (counts i)))
      else counts

/-- `jk_bt_new_batt_state` -/
def jkBtNewBattState (cronNext : CronExpr → ℤ → ℤ)
    (scripts : Option ScriptsContext) (clock : ScriptClock) (dev : JkBmsDev) :
    Option ScriptsContext × JkBmsDev :=
  let acted := jkBtAutoAction cronNext scripts clock dev.autoBatt
  let info := dev.cellInfo
  (acted.1,
    { dev with
      autoBatt := acted.2
      cellInfo :=
        { info with
          cellsLowCount := forEnabled info (fun _ _ => 0) bmsMaxCells 0
            info.cellsLowCount
          cellsHighCount := forEnabled info (fun _ _ => 0) bmsMaxCells 0
            info.cellsHighCount } })

/-- The loop of `jk_bt_check_cell_levels` in the normal state, over the cells
from `i` on: whether a cell is low, and the counts. -/
def checkLow (info : CellInfo) (cellVLow : ℕ) :
    ℕ → ℕ → (ℕ → ℕ) → Bool × (ℕ → ℕ)
  | 0, _, counts => (false, counts)
  | n + 1, i, counts =>
      if info.isEnabled i then
        let counts := if info.cellsV i < cellVLow then
            Function.update counts i (toUInt32 (counts i + 1))
          else counts
        if battStateCountThr ≤ counts i then (true, counts)
        else checkLow info cellVLow n (i + 1) counts
      else (false, counts)

/-- Where the second loop in the low state stops. -/
def checkHigh (info : CellInfo) (counts : ℕ → ℕ) : ℕ → ℕ → ℕ
  | 0, i => i
  | n + 1, i =>
      if info.isEnabled i then
        if counts i < battStateCountThr then i
        else checkHigh info counts n (i + 1)
      else i

/-- The new count of a cell in the low state. -/
def highCount (info : CellInfo) (cellVHigh i count : ℕ) : ℕ :=
  if cellVHigh ≤ info.cellsV i then toUInt32 (count + 1) else count

/-- `jk_bt_check_cell_levels` -/
def jkBtCheckCellLevels (cronNext : CronExpr → ℤ → ℤ)
    (scripts : Option ScriptsContext) (clock : ScriptClock) (dev : JkBmsDev) :
    Option ScriptsContext × JkBmsDev :=
  let info := dev.cellInfo
  if info.valid = false then (scripts, dev)
  else if dev.autoBatt.state then
    let low := checkLow info dev.cellVLow bmsMaxCells 0 info.cellsLowCount
    let dev := { dev with cellInfo := { info with cellsLowCount := low.2 } }
    if low.1 then
      jkBtNewBattState cronNext scripts clock
        { dev with autoBatt := { dev.autoBatt with state := false } }
    else (scripts, dev)
  else
    let counts := forEnabled info (highCount info dev.cellVHigh) bmsMaxCells 0
      info.cellsHighCount
    let dev := { dev with cellInfo := { info with cellsHighCount := counts } }
    if info.isEnabled (checkHigh info counts bmsMaxCells 0) then (scripts, dev)
    else
      jkBtNewBattState cronNext scripts clock
        { dev with autoBatt := { dev.autoBatt with state := true } }

/-! ## Solar power -/

/-- The comparison of the charge current, in ampere, with the threshold. -/
def belowThreshold (info : CellInfo) (chargeCurrentThreshold : ℕ) : Bool :=
  ((ofFrac binary64 info.battChargeCurr 1).mul (ofFrac binary64 1 1000)).lt
    (ofFrac binary64 chargeCurrentThreshold 1)

/-- The value of `has_excess` at the label `out`. -/
def hasExcess (info : CellInfo) (chargeCurrentThreshold : ℕ) : Bool :=
  if info.battChargeCurr < 0 then false
  else if info.battState < battStateChargeThr ∧
      belowThreshold info chargeCurrentThreshold then false
  else true

/-- `jk_bt_check_solar` -/
def jkBtCheckSolar (cronNext : CronExpr → ℤ → ℤ)
    (scripts : Option ScriptsContext) (now : ℕ) (clock : ScriptClock)
    (dev : JkBmsDev) : Option ScriptsContext × JkBmsDev :=
  if dev.cellInfo.valid = false then (scripts, dev)
  else if dev.autoSolar.state = false ∧
      subU64 now dev.lastSolarTry < battStateChargeTryDelayMs then
    (scripts, dev)
  else
    let excess := hasExcess dev.cellInfo dev.chargeCurrentThreshold
    if dev.autoSolar.state ≠ excess then
      let acted := jkBtAutoAction cronNext scripts clock
        { dev.autoSolar with state := excess }
      (acted.1,
        { dev with
          lastSolarTry := if excess then dev.lastSolarTry else now
          autoSolar := acted.2 })
    else (scripts, dev)

/-- The times that the automation reads in a round of a device. -/
structure FrameClock where
  batt : ScriptClock
  solarNow : ℕ
  solar : ScriptClock
  reply : ℕ

/-- `jk_bt_automation_run` -/
def jkBtAutomationRun (cronNext : CronExpr → ℤ → ℤ)
    (scripts : Option ScriptsContext) (clock : FrameClock) (dev : JkBmsDev) :
    Option ScriptsContext × JkBmsDev :=
  let batt := if dev.autoBatt.enabled then
      jkBtCheckCellLevels cronNext scripts clock.batt dev
    else (scripts, dev)
  if batt.2.autoSolar.enabled then
    jkBtCheckSolar cronNext batt.1 clock.solarNow clock.solar batt.2
  else batt

/-! ## Settings -/

/-- The prefix of the scripts of a device. -/
def scriptsPrefix (dev : JkBmsDev) (name : CStr) : CStr :=
  devName dev ++ lit "_" ++ name ++ lit "_"

/-- `jk_bt_find_auto_scripts` -/
def jkBtFindAutoScripts (scripts : Option ScriptsContext) (dev : JkBmsDev)
    (aauto : AutoAction) : AutoAction :=
  if aauto.scriptOnCount ≠ 0 ∨ aauto.scriptOffCount ≠ 0 then aauto
  else
    let on := scriptsPrefix dev aauto.scriptOnName
    let off := scriptsPrefix dev aauto.scriptOffName
    { aauto with
      scriptOnPrefix := some on
      scriptOnCount := scriptExistPrefix scripts on
      scriptOffPrefix := some off
      scriptOffCount := scriptExistPrefix scripts off }

/-- `jk_bt_automation_find_scripts` -/
def jkBtAutomationFindScripts (scripts : Option ScriptsContext)
    (dev : JkBmsDev) : JkBmsDev :=
  let dev := if dev.autoBatt.enabled then
      { dev with autoBatt := jkBtFindAutoScripts scripts dev dev.autoBatt }
    else dev
  if dev.autoSolar.enabled then
    { dev with autoSolar := jkBtFindAutoScripts scripts dev dev.autoSolar }
  else dev

/-- `jk_bt_enable_battery_track` -/
def jkBtEnableBatteryTrack (dev : JkBmsDev) (cellVLow cellVHigh : ℕ) :
    JkBmsDev :=
  if cellVHigh ≤ cellVLow then dev
  else
    { dev with
      cellVLow := cellVLow
      cellVHigh := cellVHigh
      autoBatt :=
        { dev.autoBatt with
          enabled := true
          scriptOnName := lit "batt_normal"
          scriptOffName := lit "batt_low"
          state := false } }

/-- `jk_bt_enable_solar_track` -/
def jkBtEnableSolarTrack (scripts : Option ScriptsContext) (dev : JkBmsDev)
    (chargeCurrent : ℤ) : JkBmsDev :=
  let threshold := toUInt16 chargeCurrent
  let aauto : AutoAction :=
    { dev.autoSolar with
      enabled := decide (0 < threshold)
      scriptOnName := lit "solar_on"
      scriptOffName := lit "solar_off"
      state := false }
  let dev := { dev with chargeCurrentThreshold := threshold }
  if aauto.enabled = true ∧ aauto.scriptOnCount = 0 ∧
      aauto.scriptOffCount = 0 then
    { dev with autoSolar := jkBtFindAutoScripts scripts dev aauto }
  else { dev with autoSolar := aauto }

/-- The device and the current that `charge_current_threshold` names; `atNull`
is the string at the address 0, which is read without a second part. -/
def thresholdRequest (params atNull : CStr) : Option (ℤ × ℤ) :=
  if strlen params < 2 ∨ params.head? ≠ some 58 then none
  else
    match strtokR (some (params.drop 1)) (lit ":") with
    | (none, _) => none
    | (some tok, rest) => some (strtol tok 0, strtol (rest.getD atNull) 0)

/-- `cmd_bms_jk_set_charge_current_threshold` -/
def cmdBmsJkSetChargeCurrentThreshold (scripts : Option ScriptsContext)
    (devices : List JkBmsDev) (params atNull : CStr) : ℤ × List JkBmsDev :=
  match thresholdRequest params atNull with
  | none => (-1, devices)
  | some (id, current) =>
      if id < 0 then (-1, devices)
      else
        match devices[id.toNat]? with
        | none => (-1, devices)
        | some dev =>
            (0, devices.set id.toNat (jkBtEnableSolarTrack scripts dev
              (if current ≤ 0 then 0 else current)))

end Herak.BmsJk
