import Herak.BmsJk.Automation
import Herak.Support.EventMachine

/-!
# The JK BMS module

The callbacks of the Bluetooth stack and the rounds of the main loop, over all
devices of the module and the scripts they act on.
-/

namespace Herak.BmsJk

open CInt CString Scripts

/-- `CMD_POLL_MS` -/
def cmdPollMs : ℕ := 5000

/-- `CMD_TIMEOUT_MS` -/
def cmdTimeoutMs : ℕ := 1000

/-- The devices of `bms_context_t`, the scripts, and whether a reboot is asked
for; `uses` records what happened to the buffer of which device. -/
structure BmsSystem where
  devices : List JkBmsDev
  scripts : Option ScriptsContext
  reboot : Bool
  uses : List (ℕ × BufferUse)

namespace BmsSystem

def setDevice (s : BmsSystem) (i : ℕ) (dev : JkBmsDev) : BmsSystem :=
  { s with devices := s.devices.set i dev }

def record (s : BmsSystem) (i : ℕ) (uses : List BufferUse) : BmsSystem :=
  { s with uses := s.uses ++ uses.map (Prod.mk i) }

end BmsSystem

/-! ## Configuration -/

/-- What `get_bms_config` reads of a device: its name, its timeout, its cell
levels in millivolts and its threshold in ampere, where they are given and
valid. -/
structure BmsConfig where
  userName : Option CStr
  timeoutMsec : ℕ
  cellLevels : Option (ℕ × ℕ)
  threshold : Option ℤ

/-- What `get_bms_config` makes of a device. -/
def getBmsConfigOne (scripts : Option ScriptsContext) (btIndex : ℤ)
    (config : BmsConfig) : JkBmsDev :=
  let dev := JkBmsDev.cleared config.userName btIndex config.timeoutMsec
  let dev := match config.cellLevels with
    | none => dev
    | some (low, high) => jkBtEnableBatteryTrack dev low high
  match config.threshold with
  | none => dev
  | some current => jkBtEnableSolarTrack scripts dev current

/-! ## Frames -/

/-- `bms_jk_frame_process` -/
def bmsJkFrameProcess (cronNext : CronExpr → ℤ → ℤ)
    (scripts : Option ScriptsContext) (clock : FrameClock) (dev : JkBmsDev) :
    List BufferUse × Option ScriptsContext × JkBmsDev :=
  if dev.nbuffReady = false then ([], scripts, dev)
  else
    let result : Option ScriptsContext × JkBmsDev :=
      if dataUint8Get dev.nbuff 4 = 0x02 then
        jkBtAutomationRun cronNext scripts clock (jkBtProcessCellFrame dev)
      else (scripts, dev)
    ([.decoded dev.nbuff], result.1,
      { result.2 with
        lastReply := clock.reply
        nbuffCurr := 0
        nbuffReady := false
        waitReply := false })

/-- A cell frame and the times that are read while it is processed. -/
structure CellFrame where
  nbuff : List UInt8
  clock : FrameClock

/-- What a cell frame does to a device. -/
def cellFrameStep (cronNext : CronExpr → ℤ → ℤ)
    (s : Option ScriptsContext × JkBmsDev) (frame : CellFrame) :
    Option ScriptsContext × JkBmsDev :=
  jkBtAutomationRun cronNext s.1 frame.clock
    (jkBtProcessCellFrame { s.2 with nbuff := frame.nbuff })

/-- A device that receives cell frames, and the scripts. -/
def cellMachine (cronNext : CronExpr → ℤ → ℤ) :
    EventMachine (Option ScriptsContext × JkBmsDev) CellFrame where
  step := cellFrameStep cronNext
  enabled := fun _ _ => True

/-! ## Callbacks -/

/-- `bt_event_t` with its data. -/
inductive BtEvent
  | connected (name : CStr) (now : ℕ)
  | disconnected
  | ready (now : ℕ)
  | newService
  | newCharacteristic (charc : BtCharacteristic) (svc128 : Option (List UInt8))
  | valueReceived (val : BtCharacteristicValue)

/-- `jk_bt_event` -/
def jkBtEvent (scripts : Option ScriptsContext) (idx : ℤ) (event : BtEvent)
    (dev : JkBmsDev) : List BufferUse × JkBmsDev :=
  if idx ≠ dev.btIndex then ([], dev)
  else
    match event with
    | .connected name now =>
        ([], jkBtAutomationFindScripts scripts
          { charcReset { dev with name := some name } with
            state := .connected, lastReply := now })
    | .disconnected =>
        ([], { charcReset dev with state := .disconnected, name := none })
    | .ready now => ([], { dev with state := .ready, lastReply := now })
    | .newService => ([], dev)
    | .newCharacteristic charc svc128 => ([], charcNew dev charc svc128)
    | .valueReceived val =>
        if dev.state = .ready then jkBtProcessTerminal dev val else ([], dev)

/-! ## Rounds -/

/-- What a request reads: whether notifications could be enabled, whether the
request could be written, and the times of both. -/
structure SendInput where
  notified : Bool
  written : Bool
  now : ℕ
  sendTime : ℕ

/-- `bms_jk_send_request` -/
def bmsJkSendRequest (dev : JkBmsDev) (input : SendInput) : JkBmsDev :=
  let charc := dev.jkTermCharc
  { dev with
    jkTermCharc :=
      { charc with
        notify := charc.notify || input.notified
        sendTime := if input.written then input.now else charc.sendTime }
    requestCount := toUInt32 (dev.requestCount + 1)
    sendTime := input.sendTime
    waitReply := true }

/-- The requests and timeouts of `bms_jk_run`. -/
def bmsJkRunOne (now : ℕ) (input : SendInput) (dev : JkBmsDev) : JkBmsDev :=
  if dev.state ≠ .ready ∨ dev.jkTermCharc.valid = false then dev
  else if dev.waitReply then
    if cmdTimeoutMs < subU64 now dev.sendTime then
      { dev with nbuffCurr := 0, nbuffReady := false, waitReply := false }
    else dev
  else if cmdPollMs ≤ subU64 now dev.sendTime then bmsJkSendRequest dev input
  else dev

/-- `bms_jk_timeout_check` asks for a reboot. -/
def bmsJkTimeoutCheck (devices : List JkBmsDev) (now : ℕ) : Bool :=
  devices.any fun dev =>
    dev.timeoutMsec ≠ 0 ∧ dev.lastReply ≠ 0 ∧
      dev.timeoutMsec < subU64 now dev.lastReply

/-- What a round of the module reads. -/
structure BmsTick where
  now : ℕ
  send : ℕ → SendInput
  frame : ℕ → FrameClock
  timeoutNow : ℕ

/-- A round of the loop of `bms_jk_process`. -/
def bmsJkProcessOne (cronNext : CronExpr → ℤ → ℤ) (t : BmsTick)
    (s : BmsSystem) (i : ℕ) : BmsSystem :=
  match s.devices[i]? with
  | none => s
  | some dev =>
      let result := bmsJkFrameProcess cronNext s.scripts (t.frame i) dev
      { (s.setDevice i result.2.2).record i result.1 with
        scripts := result.2.1 }

/-- `bms_jk_run` -/
def bmsJkRun (cronNext : CronExpr → ℤ → ℤ) (s : BmsSystem) (t : BmsTick) :
    BmsSystem :=
  let s := { s with
    devices := s.devices.mapIdx fun i => bmsJkRunOne t.now (t.send i) }
  let s := (List.range s.devices.length).foldl (bmsJkProcessOne cronNext t) s
  { s with reboot := s.reboot || bmsJkTimeoutCheck s.devices t.timeoutNow }

/-! ## Runs -/

/-- A callback of a device with the index that the stack passes, a round, a
threshold command, and anything that other modules do to the scripts. -/
inductive BmsEvent
  | bt (i : ℕ) (idx : ℤ) (event : BtEvent)
  | tick (t : BmsTick)
  | threshold (params atNull : CStr)
  | scripts (scripts : Option ScriptsContext)

namespace BmsSystem

/-- The system after `bms_jk_init`; `btIndex` tells what the stack calls the
devices. -/
def init (scripts : Option ScriptsContext) (btIndex : ℕ → ℤ)
    (configs : List BmsConfig) : BmsSystem where
  devices := configs.mapIdx fun i config =>
    getBmsConfigOne scripts (btIndex i) config
  scripts := scripts
  reboot := false
  uses := []

variable (cronNext : CronExpr → ℤ → ℤ)

def step (s : BmsSystem) : BmsEvent → BmsSystem
  | .bt i idx event =>
      match s.devices[i]? with
      | none => s
      | some dev =>
          let result := jkBtEvent s.scripts idx event dev
          (s.setDevice i result.2).record i result.1
  | .tick t => bmsJkRun cronNext s t
  | .threshold params atNull =>
      { s with
        devices := (cmdBmsJkSetChargeCurrentThreshold s.scripts s.devices params
          atNull).2 }
  | .scripts scripts => { s with scripts := scripts }

def machine : EventMachine BmsSystem BmsEvent where
  step := step cronNext
  enabled := fun _ _ => True

end BmsSystem

end Herak.BmsJk
