import Herak.Support.CInt
import Herak.Support.CString
import Herak.Support.Memory

/-!
# JK BMS devices

A BMS sends its frames in notifications of one characteristic, the terminal.
`jkBtProcessTerminal` puts them together in a buffer, and the decoder reads
the buffer once a whole frame stands in it.
-/

namespace Herak.BmsJk

open CInt Memory

/-- `NOTIFY_PACKET_SIZE` -/
def notifyPacketSize : ℕ := 300

/-- `BMS_MAX_CELLS` -/
def bmsMaxCells : ℕ := 32

/-- `jk_notify_pkt_start` -/
def jkNotifyPktStart : List UInt8 := [0x55, 0xAA, 0xEB, 0x90]

/-- `_terminal_svc` -/
def terminalSvc : List UInt8 :=
  [0x00, 0x00, 0xFF, 0xE0, 0x00, 0x00, 0x10, 0x00,
    0x80, 0x00, 0x00, 0x80, 0x5F, 0x9B, 0x34, 0xFB]

/-- `_terminal_charc_read` -/
def terminalCharcRead : List UInt8 :=
  [0x00, 0x00, 0xff, 0xe1, 0x00, 0x00, 0x10, 0x00,
    0x80, 0x00, 0x00, 0x80, 0x5f, 0x9b, 0x34, 0xfb]

/-- `bt_event_t`, as far as it is the state of a device. -/
inductive BtState
  | disconnected
  | connected
  | ready
  deriving DecidableEq

/-- `bt_characteristic_t` -/
structure BtCharacteristic where
  charId : ℕ
  uuid128 : List UInt8

/-- `bt_characteristicvalue_t`; its length is that of the data. -/
structure BtCharacteristicValue where
  charId : ℕ
  data : List UInt8

/-- `bt_charc_t` -/
structure BtCharc where
  valid : Bool
  charId : ℕ
  sendTime : ℕ
  notify : Bool

/-- `bms_cells_info_t`, as far as the automation reads it.  Voltages are in
millivolts, the charge current is in milliamperes. -/
structure CellInfo where
  valid : Bool
  cellsLowCount : ℕ → ℕ
  cellsHighCount : ℕ → ℕ
  cellsV : ℕ → ℕ
  cellsEnabled : ℕ
  battChargeCurr : ℤ
  battState : ℕ

/-- `bt_auto_action_t` -/
structure AutoAction where
  enabled : Bool
  state : Bool
  runs : ℕ
  scriptOnName : CStr
  scriptOnPrefix : Option CStr
  scriptOnCount : ℤ
  scriptOffName : CStr
  scriptOffPrefix : Option CStr
  scriptOffCount : ℤ

/-- `jk_bms_dev_t` -/
structure JkBmsDev where
  name : Option CStr
  userName : Option CStr
  btIndex : ℤ
  sendTime : ℕ
  lastReply : ℕ
  requestCount : ℕ
  state : BtState
  cellInfo : CellInfo
  nbuffReady : Bool
  waitReply : Bool
  nbuff : List UInt8
  nbuffCurr : ℕ
  jkTermCharc : BtCharc
  timeoutMsec : ℕ
  autoBatt : AutoAction
  cellVLow : ℕ
  cellVHigh : ℕ
  autoSolar : AutoAction
  chargeCurrentThreshold : ℕ
  lastSolarTry : ℕ

/-- An automation before it is enabled. -/
def AutoAction.cleared : AutoAction where
  enabled := false
  state := false
  runs := 0
  scriptOnName := []
  scriptOnPrefix := none
  scriptOnCount := 0
  scriptOffName := []
  scriptOffPrefix := none
  scriptOffCount := 0

/-- A device without automation, before it is connected. -/
def JkBmsDev.cleared (userName : Option CStr) (btIndex : ℤ)
    (timeoutMsec : ℕ) : JkBmsDev where
  name := none
  userName := userName
  btIndex := btIndex
  sendTime := 0
  lastReply := 0
  requestCount := 0
  state := .disconnected
  cellInfo :=
    { valid := false, cellsLowCount := fun _ => 0, cellsHighCount := fun _ => 0,
      cellsV := fun _ => 0, cellsEnabled := 0, battChargeCurr := 0,
      battState := 0 }
  nbuffReady := false
  waitReply := false
  nbuff := List.replicate notifyPacketSize 0
  nbuffCurr := 0
  jkTermCharc := { valid := false, charId := 0, sendTime := 0, notify := false }
  timeoutMsec := timeoutMsec
  autoBatt := AutoAction.cleared
  cellVLow := 0
  cellVHigh := 0
  autoSolar := AutoAction.cleared
  chargeCurrentThreshold := 0
  lastSolarTry := 0

/-! ## The terminal -/

/-- `charc_new`; `svc128` is what `bt_service_get_uuid` finds. -/
def charcNew (dev : JkBmsDev) (charc : BtCharacteristic)
    (svc128 : Option (List UInt8)) : JkBmsDev :=
  match svc128 with
  | none => dev
  | some svc128 =>
      if svc128 ≠ terminalSvc then dev
      else if charc.uuid128 ≠ terminalCharcRead then dev
      else
        { dev with
          jkTermCharc :=
            { dev.jkTermCharc with charId := charc.charId, valid := true } }

/-- `charc_reset` -/
def charcReset (dev : JkBmsDev) : JkBmsDev :=
  { dev with
    jkTermCharc :=
      { dev.jkTermCharc with valid := false, sendTime := 0, notify := false }
    nbuffCurr := 0
    nbuffReady := false
    waitReply := false }

/-- `calc_crc` -/
def calcCrc (data : List UInt8) : UInt8 :=
  data.foldl (· + ·) 0

/-- What `jk_bt_process_terminal` does once it has copied a fragment. -/
def terminalCheck (dev : JkBmsDev) : JkBmsDev :=
  if dev.nbuffCurr = notifyPacketSize then
    if dev.nbuff.take jkNotifyPktStart.length ≠ jkNotifyPktStart then
      { dev with nbuffCurr := 0 }
    else if calcCrc (dev.nbuff.take (dev.nbuffCurr - 1)) ≠
        dev.nbuff.getD (dev.nbuffCurr - 1) 0 then
      { dev with nbuffCurr := 0 }
    else { dev with nbuffReady := true }
  else dev

/-- What happens to the buffer of a device: bytes are copied to an offset, or
the decoder runs on its content.  It is recorded for the statements; nothing
reads it. -/
inductive BufferUse
  | copied (offset : ℕ) (size : ℤ)
  | decoded (nbuff : List UInt8)

/-- The copy of `csize` bytes, and what follows it. -/
def terminalCopy (dev : JkBmsDev) (data : List UInt8) (csize : ℤ) :
    List BufferUse × JkBmsDev :=
  ([.copied dev.nbuffCurr csize],
    terminalCheck
      { dev with
        nbuff := memcpy dev.nbuff dev.nbuffCurr (data.take csize.toNat)
        nbuffCurr := toUInt16 (dev.nbuffCurr + csize) })

/-- `jk_bt_process_terminal` -/
def jkBtProcessTerminal (dev : JkBmsDev) (val : BtCharacteristicValue) :
    List BufferUse × JkBmsDev :=
  let ssize := jkNotifyPktStart.length
  let len : ℤ := val.data.length
  if dev.nbuffReady = true then ([], dev)
  else if dev.jkTermCharc.charId ≠ val.charId then ([], dev)
  else if len < ssize then ([], dev)
  else if val.data.take ssize = jkNotifyPktStart then
    terminalCopy { dev with nbuffCurr := 0 } val.data
      (if len < notifyPacketSize then len else notifyPacketSize)
  else
    let csize : ℤ := notifyPacketSize - dev.nbuffCurr
    terminalCopy dev val.data (if len < csize then len else csize)

/-! ## The decoder -/

/-- `DATA_UINT8_GET` -/
def dataUint8Get (nbuff : List UInt8) (ofs : ℕ) : ℕ :=
  (nbuff.getD ofs 0).toNat

/-- `DATA_UINT16_GET` -/
def dataUint16Get (nbuff : List UInt8) (ofs : ℕ) : ℕ :=
  dataUint8Get nbuff (ofs + 1) * 2 ^ 8 + dataUint8Get nbuff ofs

/-- `DATA_UINT32_GET` -/
def dataUint32Get (nbuff : List UInt8) (ofs : ℕ) : ℕ :=
  dataUint16Get nbuff (ofs + 2) * 2 ^ 16 + dataUint16Get nbuff ofs

/-- `DATA_INT32_GET` -/
def dataInt32Get (nbuff : List UInt8) (ofs : ℕ) : ℤ :=
  toInt32 (dataUint32Get nbuff ofs)

/-- `jk_bt_process_cell_frame` -/
def jkBtProcessCellFrame (dev : JkBmsDev) : JkBmsDev :=
  { dev with
    cellInfo :=
      { dev.cellInfo with
        valid := true
        cellsV := fun i => dataUint16Get dev.nbuff (6 + i * 2)
        cellsEnabled := dataUint32Get dev.nbuff 70
        battChargeCurr := dataInt32Get dev.nbuff 158
        battState := dataUint8Get dev.nbuff 173 } }

theorem dataUint8Get_lt (nbuff : List UInt8) (ofs : ℕ) :
    dataUint8Get nbuff ofs < 2 ^ 8 :=
  UInt8.toNat_lt _

theorem dataUint16Get_lt (nbuff : List UInt8) (ofs : ℕ) :
    dataUint16Get nbuff ofs < 2 ^ 16 := by
  have hlow := dataUint8Get_lt nbuff ofs
  have hhigh := dataUint8Get_lt nbuff (ofs + 1)
  simp only [dataUint16Get]
  omega

theorem dataUint32Get_lt (nbuff : List UInt8) (ofs : ℕ) :
    dataUint32Get nbuff ofs < 2 ^ 32 := by
  have hlow := dataUint16Get_lt nbuff ofs
  have hhigh := dataUint16Get_lt nbuff (ofs + 2)
  simp only [dataUint32Get]
  omega

theorem dataInt32Get_range (nbuff : List UInt8) (ofs : ℕ) :
    -2 ^ 31 ≤ dataInt32Get nbuff ofs ∧ dataInt32Get nbuff ofs < 2 ^ 31 := by
  have hlow := Int.le_bmod (x := dataUint32Get nbuff ofs) (m := 2 ^ 32)
    (by decide)
  have hhigh := Int.bmod_lt (x := dataUint32Get nbuff ofs) (m := 2 ^ 32)
    (by decide)
  simp only [dataInt32Get, toInt32]
  omega

end Herak.BmsJk
