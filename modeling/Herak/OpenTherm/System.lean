import Herak.Common.Internal
import Herak.OpenTherm.Device
import Herak.Support.EventMachine

/-!
# The OpenTherm module

The cycles of `opentherm_dev_run` that read the boiler and set its parameters,
and the commands of the user that change the parameters.
-/

namespace Herak.OpenTherm

open BinaryFloat CFloat CString

/-! ## State -/

/-- `opentherm_measure_data_t` without the fields of the gas calculation. -/
structure OpenthermMeasureData where
  force : Bool
  flowTemperature : CFloat32
  returnTemperature : CFloat32
  flameCurrent : CFloat32
  dhwTemperature : CFloat32
  modulationLevel : CFloat32
  chPressure : CFloat32
  dhwFlowRate : CFloat32
  exhaustTemperature : BitVec 16
  deriving DecidableEq

/-- The fields of `opentherm_errors_data_t` that `opentherm_read_errors`
reads. -/
structure OpenthermErrorsData where
  force : Bool
  faultSvcNeeded : Bool
  faultLowWaterPressure : Bool
  faultFlame : Bool
  faultLowAirPressure : Bool
  faultHighWaterTemperature : Bool
  faultCode : BitVec 8
  faultBurnerStarts : BitVec 16
  faultFlameLow : BitVec 16
  faultOemCode : BitVec 16
  deriving DecidableEq

/-- `opentherm_device_config_data_t` -/
structure OpenthermDeviceConfigData where
  force : Bool
  chMaxCfg : BitVec 8
  chMinCfg : BitVec 8
  dhwMaxCfg : BitVec 8
  dhwMinCfg : BitVec 8
  chTemperatureSetpointRangemin : CFloat32
  chTemperatureSetpointRangemax : CFloat32
  dhwTemperatureSetpointRangemin : CFloat32
  dhwTemperatureSetpointRangemax : CFloat32
  deriving DecidableEq

/-- `opentherm_data_write_t` -/
structure OpenthermDataWrite where
  chTemperatureSetpoint : CFloat32
  dhwTemperatureSetpoint : CFloat32
  chMax : CFloat32
  dhwMax : CFloat32
  deriving DecidableEq

/-- `opentherm_context_t` -/
structure OpenthermContext where
  data : OpenthermMeasureData
  errors : OpenthermErrorsData
  devConfig : OpenthermDeviceConfigData
  paramDesired : OpenthermDataWrite
  paramActual : OpenthermDataWrite
  supported : Supported

/-- The floating point number of an integer. -/
def floatOf (n : ℤ) : CFloat32 := ofFrac binary32 n 1

/-- The context from `calloc` after `opentherm_data_init` and
`opentherm_dev_init`. -/
def openthermDataInit : OpenthermContext where
  data := ⟨false, .zero _, .zero _, .zero _, .zero _, .zero _, .zero _, .zero _, 0⟩
  errors := ⟨false, false, false, false, false, false, 0, 0, 0, 0⟩
  devConfig := ⟨false, 0, 0, 0, 0, .zero _, .zero _, .zero _, .zero _⟩
  paramDesired := ⟨floatOf 25, floatOf 40, floatOf 40, floatOf 60⟩
  paramActual := ⟨.zero _, .zero _, .zero _, .zero _⟩
  supported := fun _ => cmdSupportedRetries

/-! ## Cycles of reads -/

/-- One read of a cycle: `if (!ot_cmd_read(ctx, id, NULL, &repl)) store`. -/
structure Read where
  id : ℕ
  store : OtData → OpenthermContext → OpenthermContext

/-- The reads of a cycle, which share the variable `repl`. -/
def readAll (exchange : Exchange) :
    List Read → OtData → OpenthermContext → OpenthermContext
  | [], _, ctx => ctx
  | r :: reads, repl, ctx =>
      let ret := otCmdRead exchange ctx.supported r.id none repl
      let ctx := { ctx with supported := ret.2.1 }
      readAll exchange reads ret.2.2
        (if ret.1 then r.store ret.2.2 ctx else ctx)

/-- The stored value of `DATA_READ` for two floats. -/
def keepFloat (old new : CFloat32) : CFloat32 :=
  if old.eq new then old else new

/-- `DATA_READ(ctx->data.data.flame_current, repl.f)` -/
def readFlameCurrent : Read where
  id := dataIdFlameCurrent
  store repl ctx := { ctx with data := { ctx.data with
    force := ctx.data.force || !ctx.data.flameCurrent.eq repl.f
    flameCurrent := keepFloat ctx.data.flameCurrent repl.f } }

/-- `DATA_READ(ctx->data.data.modulation_level, repl.f)`, and the test for a
negative level. -/
def readRelModLevel : Read where
  id := dataIdRelModLevel
  store repl ctx :=
    let level := keepFloat ctx.data.modulationLevel repl.f
    { ctx with data := { ctx.data with
      force := ctx.data.force || !ctx.data.modulationLevel.eq repl.f
      modulationLevel := if level.lt (.zero _) then .zero _ else level } }

/-- `DATA_READ(ctx->data.data.ch_pressure, repl.f)` -/
def readChPressure : Read where
  id := dataIdChPressure
  store repl ctx := { ctx with data := { ctx.data with
    force := ctx.data.force || !ctx.data.chPressure.eq repl.f
    chPressure := keepFloat ctx.data.chPressure repl.f } }

/-- `DATA_READ(ctx->data.data.dhw_flow_rate, repl.f)` -/
def readDhwFlowRate : Read where
  id := dataIdDhwFlowRate
  store repl ctx := { ctx with data := { ctx.data with
    force := ctx.data.force || !ctx.data.dhwFlowRate.eq repl.f
    dhwFlowRate := keepFloat ctx.data.dhwFlowRate repl.f } }

/-- `DATA_READ(ctx->data.data.flow_temperature, repl.f)` -/
def readTboiler : Read where
  id := dataIdTboiler
  store repl ctx := { ctx with data := { ctx.data with
    force := ctx.data.force || !ctx.data.flowTemperature.eq repl.f
    flowTemperature := keepFloat ctx.data.flowTemperature repl.f } }

/-- `DATA_READ(ctx->data.data.dhw_temperature, repl.f)` -/
def readTdhw : Read where
  id := dataIdTdhw
  store repl ctx := { ctx with data := { ctx.data with
    force := ctx.data.force || !ctx.data.dhwTemperature.eq repl.f
    dhwTemperature := keepFloat ctx.data.dhwTemperature repl.f } }

/-- `DATA_READ(ctx->data.data.return_temperature, repl.f)` -/
def readTret : Read where
  id := dataIdTret
  store repl ctx := { ctx with data := { ctx.data with
    force := ctx.data.force || !ctx.data.returnTemperature.eq repl.f
    returnTemperature := keepFloat ctx.data.returnTemperature repl.f } }

/-- `DATA_READ(ctx->data.data.exhaust_temperature, repl.f)`: the field is an
`int16_t`, which is compared and assigned through conversions. -/
def readTexhaust : Read where
  id := dataIdTexhaust
  store repl ctx :=
    let same := (floatOf ctx.data.exhaustTemperature.toInt).eq repl.f
    { ctx with data := { ctx.data with
      force := ctx.data.force || !same
      exhaustTemperature :=
        if same then ctx.data.exhaustTemperature else toInt16 repl.f } }

def dataReads : List Read :=
  [readFlameCurrent, readRelModLevel, readChPressure, readDhwFlowRate,
    readTboiler, readTdhw, readTret, readTexhaust]

/-- `opentherm_read_data` without the gas calculation. -/
def openthermReadData (exchange : Exchange) (ctx : OpenthermContext) :
    OpenthermContext :=
  readAll exchange dataReads .zero ctx

/-- The reads of the fault code and of the fault flags. -/
def readAsfFault : Read where
  id := dataIdAsfFault
  store repl ctx :=
    let errors :=
      { ctx.errors with
        faultCode := repl.u8arr0
        faultSvcNeeded := repl.u8arr1 &&& 0x01 != 0
        faultLowWaterPressure := repl.u8arr1 &&& 0x04 != 0
        faultFlame := repl.u8arr1 &&& 0x08 != 0
        faultLowAirPressure := repl.u8arr1 &&& 0x10 != 0
        faultHighWaterTemperature := repl.u8arr1 &&& 0x20 != 0 }
    { ctx with errors :=
        { errors with force := ctx.errors.force || errors != ctx.errors } }

/-- `ERRORS_READ(ctx->data.errors.fault_burner_starts, repl.u16)` -/
def readUnsuccessfulBurnerStarts : Read where
  id := dataIdUnsuccessfulBurnerStarts
  store repl ctx := { ctx with errors := { ctx.errors with
    force := ctx.errors.force || ctx.errors.faultBurnerStarts != repl.u16
    faultBurnerStarts := repl.u16 } }

/-- `ERRORS_READ(ctx->data.errors.fault_flame_low, repl.u16)` -/
def readFlameSignalLowCount : Read where
  id := dataIdFlameSignalLowCount
  store repl ctx := { ctx with errors := { ctx.errors with
    force := ctx.errors.force || ctx.errors.faultFlameLow != repl.u16
    faultFlameLow := repl.u16 } }

/-- `ERRORS_READ(ctx->data.errors.fault_oem_code, repl.u16)` -/
def readOemDiagnosticCode : Read where
  id := dataIdOemDiagnosticCode
  store repl ctx := { ctx with errors := { ctx.errors with
    force := ctx.errors.force || ctx.errors.faultOemCode != repl.u16
    faultOemCode := repl.u16 } }

def errorReads : List Read :=
  [readAsfFault, readUnsuccessfulBurnerStarts, readFlameSignalLowCount,
    readOemDiagnosticCode]

/-- `opentherm_read_errors` -/
def openthermReadErrors (exchange : Exchange) (ctx : OpenthermContext) :
    OpenthermContext :=
  readAll exchange errorReads .zero ctx

/-- The reads of the bounds of the heating. -/
def readMaxtsetBounds : Read where
  id := dataIdMaxtsetBounds
  store repl ctx :=
    let c := ctx.devConfig
    let max := floatOf repl.u8arr1.toNat
    { ctx with
      devConfig := { c with
        force := c.force || c.chMaxCfg != repl.u8arr1 ||
          c.chMinCfg != repl.u8arr0
        chMaxCfg := repl.u8arr1
        chMinCfg := repl.u8arr0
        chTemperatureSetpointRangemax :=
          if repl.u8arr1 ≠ 0 then max else c.chTemperatureSetpointRangemax
        chTemperatureSetpointRangemin :=
          if 0 < repl.u8arr0 then floatOf repl.u8arr0.toNat
          else c.chTemperatureSetpointRangemin }
      paramDesired := { ctx.paramDesired with
        chMax := if repl.u8arr1 ≠ 0 then max else ctx.paramDesired.chMax } }

/-- The reads of the bounds of the hot water. -/
def readTdhwsetBounds : Read where
  id := dataIdTdhwsetBounds
  store repl ctx :=
    let c := ctx.devConfig
    let max := floatOf repl.u8arr1.toNat
    { ctx with
      devConfig := { c with
        force := c.force || c.dhwMaxCfg != repl.u8arr1 ||
          c.dhwMinCfg != repl.u8arr0
        dhwMaxCfg := repl.u8arr1
        dhwMinCfg := repl.u8arr0
        dhwTemperatureSetpointRangemax :=
          if repl.u8arr1 ≠ 0 then max else c.dhwTemperatureSetpointRangemax
        dhwTemperatureSetpointRangemin :=
          if 0 < repl.u8arr0 then floatOf repl.u8arr0.toNat
          else c.dhwTemperatureSetpointRangemin }
      paramDesired := { ctx.paramDesired with
        dhwMax := if repl.u8arr1 ≠ 0 then max else ctx.paramDesired.dhwMax } }

/-- `CFG_READ(ctx->data.param_actual.ch_max, repl.f)` -/
def readMaxtset : Read where
  id := dataIdMaxtset
  store repl ctx := { ctx with
    devConfig := { ctx.devConfig with
      force := ctx.devConfig.force || !ctx.paramActual.chMax.eq repl.f }
    paramActual := { ctx.paramActual with
      chMax := keepFloat ctx.paramActual.chMax repl.f } }

def cfgReads : List Read :=
  [readMaxtsetBounds, readTdhwsetBounds, readMaxtset]

/-- `opentherm_read_cfg_data` -/
def openthermReadCfgData (exchange : Exchange) (ctx : OpenthermContext) :
    OpenthermContext :=
  readAll exchange cfgReads .zero ctx

/-! ## Synchronisation of the parameters -/

/-- `opentherm_sync_param_f`: the new `supported` and `actual`. -/
def openthermSyncParamF (exchange : Exchange) (supported : Supported)
    (cmd : ℕ) (desired actual : CFloat32) : Supported × CFloat32 :=
  if desired.eq actual then (supported, actual)
  else
    let ret := otCmdWrite exchange supported cmd
      (some (OtData.zero.setF desired)) .zero
    (ret.2.1, if ret.1 then ret.2.2.f else actual)

/-- `opentherm_sync_params` -/
def openthermSyncParams (exchange : Exchange) (ctx : OpenthermContext) :
    OpenthermContext :=
  let desired := ctx.paramDesired
  let actual := ctx.paramActual
  let chMax := openthermSyncParamF exchange ctx.supported dataIdMaxtset
    desired.chMax actual.chMax
  let dhw := openthermSyncParamF exchange chMax.1 dataIdTdhwset
    desired.dhwTemperatureSetpoint actual.dhwTemperatureSetpoint
  let ch := openthermSyncParamF exchange dhw.1 dataIdTset
    desired.chTemperatureSetpoint actual.chTemperatureSetpoint
  { ctx with
    supported := ch.1
    paramActual := { actual with
      chMax := chMax.2
      dhwTemperatureSetpoint := dhw.2
      chTemperatureSetpoint := ch.2 } }

/-! ## Commands of the user -/

/-- `cmd_get_param_str` for its first parameter. -/
def cmdGetParamStr (params : Option CStr) : Option CStr :=
  match params with
  | none => none
  | some params =>
      if params.head? ≠ some 58 ∨ strlen params < 2 then none
      else (strtokR (some (params.drop 1)) (lit ":")).1

/-- The number that a command asks for, if it is accepted. -/
def cmdRequest (params : Option CStr) : Option CFloat32 :=
  match cmdGetParamStr params with
  | none => none
  | some val =>
      match sysStrtof val with
      | none => none
      | some f =>
          if f.lt (.zero _) = true ∨ (floatOf 100).lt f = true then none
          else some f

/-- The number brought into a range. -/
def clampToRange (rangemin rangemax f : CFloat32) : CFloat32 :=
  if rangemax.lt f then rangemax
  else if f.lt rangemin then rangemin
  else f

/-- `cmd_set_param_float` -/
def cmdSetParamFloat (ctx : OpenthermContext) (params : Option CStr)
    (id : ℕ) : ℤ × OpenthermContext :=
  match cmdRequest params with
  | none => (-1, ctx)
  | some f =>
      if id = dataIdTset then
        (0, { ctx with paramDesired := { ctx.paramDesired with
          chTemperatureSetpoint := clampToRange
            ctx.devConfig.chTemperatureSetpointRangemin
            ctx.devConfig.chTemperatureSetpointRangemax f } })
      else if id = dataIdTdhwset then
        (0, { ctx with paramDesired := { ctx.paramDesired with
          dhwTemperatureSetpoint := clampToRange
            ctx.devConfig.dhwTemperatureSetpointRangemin
            ctx.devConfig.dhwTemperatureSetpointRangemax f } })
      else (-1, ctx)

/-- `cmd_set_dwh_temp` -/
def cmdSetDwhTemp (ctx : OpenthermContext) (params : Option CStr) :
    ℤ × OpenthermContext :=
  cmdSetParamFloat ctx params dataIdTdhwset

/-- `cmd_set_ch_temp` -/
def cmdSetChTemp (ctx : OpenthermContext) (params : Option CStr) :
    ℤ × OpenthermContext :=
  cmdSetParamFloat ctx params dataIdTset

/-! ## Runs -/

/-- A cycle of the module, with what the boiler replies in it, or a command. -/
inductive OtEvent
  | readData (exchange : Exchange)
  | readErrors (exchange : Exchange)
  | readCfgData (exchange : Exchange)
  | syncParams (exchange : Exchange)
  | setChTemp (params : Option CStr)
  | setDwhTemp (params : Option CStr)

def OpenthermContext.step (ctx : OpenthermContext) : OtEvent → OpenthermContext
  | .readData exchange => openthermReadData exchange ctx
  | .readErrors exchange => openthermReadErrors exchange ctx
  | .readCfgData exchange => openthermReadCfgData exchange ctx
  | .syncParams exchange => openthermSyncParams exchange ctx
  | .setChTemp params => (cmdSetChTemp ctx params).2
  | .setDwhTemp params => (cmdSetDwhTemp ctx params).2

/-- The module, whose cycles and commands come in any order. -/
def openthermMachine : EventMachine OpenthermContext OtEvent where
  step := OpenthermContext.step
  enabled := fun _ _ => True

end Herak.OpenTherm
