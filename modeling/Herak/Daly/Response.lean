import Herak.Support.Access
import Herak.Support.CFloat

/-!
# Responses of a Daly BMS

`bms_daly_proto.c` checks a response and tells its command, and the handlers of
`bms_daly_bt.c` decode its eight data bytes into the state of the battery.
`char` is unsigned on the target.
-/

namespace Herak.Daly

open Access BinaryFloat CFloat

/-! ## Responses -/

/-- `FRAME_HEAD` -/
def frameHead : UInt8 := 0xa5

/-- `FRAME_DATA_LEN` -/
def frameDataLen : UInt8 := 8

/-- `COMMAND_LEN` -/
def commandLen : ℕ := 13

/-- `daly_qcmd_t` -/
inductive DalyQcmd
  | daly90 | daly91 | daly92 | daly93 | daly94 | daly95 | daly96 | daly97
  | daly98 | daly50 | daly51 | daly53 | daly54 | daly57 | daly59 | daly5A
  | daly5B | daly5E | daly5F | daly60 | daly62 | daly63 | max
  deriving DecidableEq

/-- `Qcommands`, without the descriptions. -/
def qcommands : List (DalyQcmd × UInt8) :=
  [(.daly90, 0x90), (.daly91, 0x91), (.daly92, 0x92), (.daly93, 0x93),
    (.daly94, 0x94), (.daly95, 0x95), (.daly96, 0x96), (.daly97, 0x97),
    (.daly98, 0x98), (.daly50, 0x50), (.daly51, 0x51), (.daly53, 0x53),
    (.daly54, 0x54), (.daly57, 0x57), (.daly59, 0x59), (.daly5A, 0x5A),
    (.daly5B, 0x5B), (.daly5E, 0x5E), (.daly5F, 0x5F), (.daly60, 0x60),
    (.daly62, 0x62), (.daly63, 0x63)]

/-- `bms_get_qcommand_desc` -/
def bmsGetQcommandDesc (idx : DalyQcmd) : ℤ :=
  if qcommands.any (·.1 = idx) then 0 else -1

/-- The search for a command byte at the end of `bms_verify_response`. -/
def findQcommand (cmd : UInt8) : DalyQcmd :=
  match qcommands.find? (·.2 = cmd) with
  | none => .max
  | some (id, _) => id

/-- `bms_verify_response` of a buffer, `none` for NULL: its result and the
buffer that it leaves; `crc8` is `btstack_crc8_calc`. -/
def bmsVerifyResponse (crc8 : List UInt8 → UInt8) (buf : Option (List UInt8)) :
    DalyQcmd × Option (List UInt8) :=
  match buf with
  | none => (.max, none)
  | some buf =>
      if buf.length < commandLen then (.max, some buf)
      else if buf.getD 0 0 ≠ frameHead then (.max, some buf)
      else if buf.getD 1 0 ≠ 0x01 then (.max, some buf)
      else if buf.getD 3 0 ≠ frameDataLen then (.max, some buf)
      else
        let crc := buf.getD 12 0
        let buf := buf.set 12 0
        if crc ≠ crc8 (buf.take commandLen) then (.max, some buf)
        else (findQcommand (buf.getD 2 0), some buf)

/-! ## The state -/

/-- `DALY_MAX_CELLS` -/
abbrev dalyMaxCells : ℕ := 48

/-- `DALY_MAX_TEMPS` -/
abbrev dalyMaxTemps : ℕ := 16

/-- `bms_daly_state_t` -/
structure BmsDalyState where
  batV : CFloat32
  acquisitionV : CFloat32
  batI : CFloat32
  socP : CFloat32
  batMaxv : UInt16
  batMaxvCell : UInt8
  batMinv : UInt16
  batMinvCell : UInt8
  batMaxt : UInt8
  batMaxtCell : UInt8
  batMint : UInt8
  batMintCell : UInt8
  chargeState : UInt8
  chargeMos : UInt8
  dischargeMos : UInt8
  bmsLife : UInt8
  remainCapacity : UInt32
  cells : UInt8
  tSensors : UInt8
  chargerRunning : UInt8
  loadRunning : UInt8
  dioStates : UInt8
  cellsVoltage : Vector UInt16 dalyMaxCells
  cellsTemperature : Vector UInt16 dalyMaxTemps
  cellsStates : Vector UInt8 (dalyMaxCells / 8)
  failStatus : Vector UInt8 7
  failCode : UInt8

namespace BmsDalyState

def voltageField : ArrayField BmsDalyState UInt16 dalyMaxCells where
  get := cellsVoltage
  put s v := { s with cellsVoltage := v }
  get_put _ _ := rfl
  put_put _ _ _ := rfl
  put_get _ := rfl

def temperatureField : ArrayField BmsDalyState UInt16 dalyMaxTemps where
  get := cellsTemperature
  put s v := { s with cellsTemperature := v }
  get_put _ _ := rfl
  put_put _ _ _ := rfl
  put_get _ := rfl

def statesField : ArrayField BmsDalyState UInt8 (dalyMaxCells / 8) where
  get := cellsStates
  put s v := { s with cellsStates := v }
  get_put _ _ := rfl
  put_put _ _ _ := rfl
  put_get _ := rfl

def failField : ArrayField BmsDalyState UInt8 7 where
  get := failStatus
  put s v := { s with failStatus := v }
  get_put _ _ := rfl
  put_put _ _ _ := rfl
  put_get _ := rfl

end BmsDalyState

open BmsDalyState

/-! ## Handlers -/

/-- A handler of the bytes that its pointer points to. -/
abbrev Handler := List UInt8 → Decoder BmsDalyState Unit

/-- `GET_U16` -/
def getU16 (buf : List UInt8) (i : ℕ) : Decoder BmsDalyState ℕ := do
  let hi ← readByte buf i
  let lo ← readByte buf (i + 1)
  return hi.toNat <<< 8 ||| lo.toNat

/-- `GET_U32` -/
def getU32 (buf : List UInt8) (i : ℕ) : Decoder BmsDalyState ℕ := do
  let b0 ← readByte buf i
  let b1 ← readByte buf (i + 1)
  let b2 ← readByte buf (i + 2)
  let b3 ← readByte buf (i + 3)
  return b0.toNat <<< 0x18 ||| b1.toNat <<< 0x10 ||| b2.toNat <<< 0x08 |||
    b3.toNat

/-- An `int` that is stored in a `float`. -/
def floatOfInt (n : ℤ) : CFloat32 :=
  ofFrac binary32 n 1

def d90CmdProcess : Handler := fun buf => do
  let v ← getU16 buf 0
  update fun s => { s with batV := floatOfInt ((v : ℤ).tdiv 10) }
  let v ← getU16 buf 2
  update fun s => { s with acquisitionV := floatOfInt ((v : ℤ).tdiv 10) }
  let i ← getU16 buf 4
  update fun s => { s with batI := floatOfInt ((i - 30000 : ℤ).tdiv 10) }
  let soc ← getU16 buf 8
  update fun s => { s with socP := floatOfInt ((soc : ℤ).tdiv 10) }

def d91CmdProcess : Handler := fun buf => do
  let maxv ← getU16 buf 0
  let maxvCell ← readByte buf 2
  let minv ← getU16 buf 3
  let minvCell ← readByte buf 5
  update fun s =>
    { s with
      batMaxv := maxv.toUInt16
      batMaxvCell := maxvCell
      batMinv := minv.toUInt16
      batMinvCell := minvCell }

def d92CmdProcess : Handler := fun buf => do
  let maxt ← readByte buf 0
  let maxtCell ← readByte buf 1
  let mint ← readByte buf 2
  let mintCell ← readByte buf 3
  update fun s =>
    { s with
      batMaxt := maxt - 40
      batMaxtCell := maxtCell
      batMint := mint - 40
      batMintCell := mintCell }

def d93CmdProcess : Handler := fun buf => do
  let chargeState ← readByte buf 0
  let chargeMos ← readByte buf 1
  let dischargeMos ← readByte buf 2
  let bmsLife ← readByte buf 3
  let remainCapacity ← getU32 buf 4
  update fun s =>
    { s with
      chargeState := chargeState
      chargeMos := chargeMos
      dischargeMos := dischargeMos
      bmsLife := bmsLife
      remainCapacity := remainCapacity.toUInt32 }

def d94CmdProcess : Handler := fun buf => do
  let cells ← readByte buf 0
  let tSensors ← readByte buf 1
  let chargerRunning ← readByte buf 2
  let loadRunning ← readByte buf 3
  let dioStates ← readByte buf 4
  update fun s =>
    { s with
      cells := cells
      tSensors := tSensors
      chargerRunning := chargerRunning
      loadRunning := loadRunning
      dioStates := dioStates }

def d95CmdProcess : Handler := fun buf => do
  let frame := (← readByte buf 0).toNat
  if 16 ≤ frame then return
  let frame := frame * 3
  store voltageField frame (← getU16 buf 1).toUInt16
  store voltageField (frame + 1) (← getU16 buf 3).toUInt16
  store voltageField (frame + 2) (← getU16 buf 5).toUInt16

/-- The difference wraps in the unsigned field. -/
def d96CmdProcess : Handler := fun buf => do
  let frame := (← readByte buf 0).toNat
  if 3 ≤ frame then return
  let frame := frame * 7
  copyLoop temperatureField frame (fun raw => raw.toUInt16 - 40) buf 1 7 0

def d97CmdProcess : Handler := fun buf =>
  copyLoop statesField 0 id buf 0 6 0

def d98CmdProcess : Handler := fun buf => do
  copyLoop failField 0 id buf 0 7 0
  let code ← readByte buf 7
  update fun s => { s with failCode := code }

/-- `daly_commnds_handler` -/
def dalyCommndsHandler : List (DalyQcmd × Handler) :=
  [(.daly90, d90CmdProcess), (.daly91, d91CmdProcess), (.daly92, d92CmdProcess),
    (.daly93, d93CmdProcess), (.daly94, d94CmdProcess), (.daly95, d95CmdProcess),
    (.daly96, d96CmdProcess), (.daly97, d97CmdProcess),
    (.daly98, d98CmdProcess)]

/-- `process_response` -/
def processResponse (cmd : DalyQcmd) : Handler := fun buf =>
  match dalyCommndsHandler.find? (·.1 = cmd) with
  | none => pure ()
  | some (_, cb) => cb buf

/-- The decoding in `daly_bt_process_data`. -/
def dalyBtProcessData (crc8 : List UInt8 → UInt8) (data : List UInt8) :
    Decoder BmsDalyState Unit :=
  match bmsVerifyResponse crc8 (some data) with
  | (cmd, some data) =>
      if cmd ≠ .max ∧ bmsGetQcommandDesc cmd = 0 then
        processResponse cmd (data.drop 4)
      else pure ()
  | (_, none) => pure ()

end Herak.Daly
