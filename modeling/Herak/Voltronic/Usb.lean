import Mathlib.Data.Fin.VecNotation
import Mathlib.Data.List.FinRange
import Herak.Support.CString
import Herak.Voltronic.Proto

/-!
# Queries of a Voltronic inverter

`mppt_voltronic_usb.c` asks the inverter one command at a time and decodes what
it answers.  An answer does not name its command: it is decoded as the answer
to the command that is current when its terminator arrives.
-/

namespace Herak.Voltronic

open CString

/-! ## Commands -/

/-- `voltron_qcmd_t` -/
inductive VoltronQcmd
  | qpi | qid | qvfw | qvfw2 | qvfw3 | verfw | qpiri | qflag | qpigs | qpigs2
  | qmod | qpiws | qdi | qmchgcr | qmuchgcr | qboot | qopm | qpgsn | qoppt
  | qchpt | qt | qbeqi | qmn | qgmn | qet | qey | qem | qed | qlt | qly | qlm
  | qld | qled
  deriving DecidableEq

/-- `Qcommands`, without the descriptions. -/
def qcommands : VoltronQcmd → String
  | .qpi => "QPI"
  | .qid => "QID"
  | .qvfw => "QVFW"
  | .qvfw2 => "QVFW2"
  | .qvfw3 => "QVFW3"
  | .verfw => "VERFW"
  | .qpiri => "QPIRI"
  | .qflag => "QFLAG"
  | .qpigs => "QPIGS"
  | .qpigs2 => "QPIGS2"
  | .qmod => "QMOD"
  | .qpiws => "QPIWS"
  | .qdi => "QDI"
  | .qmchgcr => "QMCHGCR"
  | .qmuchgcr => "QMUCHGCR"
  | .qboot => "QBOOT"
  | .qopm => "QOPM"
  | .qpgsn => "QPGSn"
  | .qoppt => "QOPPT"
  | .qchpt => "QCHPT"
  | .qt => "QT"
  | .qbeqi => "QBEQI"
  | .qmn => "QMN"
  | .qgmn => "QGMN"
  | .qet => "QET"
  | .qey => "QEY"
  | .qem => "QEM"
  | .qed => "QED"
  | .qlt => "QLT"
  | .qly => "QLY"
  | .qlm => "QLM"
  | .qld => "QLD"
  | .qled => "QLED"

/-- `COMMAND_MAX_LEN` -/
def commandMaxLen : ℕ := 24

/-- `mppt_get_qcommand` -/
def mpptGetQcommand (idx : VoltronQcmd) (append : List UInt8) :
    Option (List UInt8) :=
  let text := lit (qcommands idx) ++ append
  if commandMaxLen ≤ text.length + 3 then none
  else do
    let crc ← calculateCrc text text.length
    some (text ++ [crcHigh crc, crcLow crc, endOfInput])

/-- The commands that are asked with a date. -/
def VoltronQcmd.hasDate : VoltronQcmd → Bool
  | .qey | .qly | .qem | .qlm | .qed | .qld => true
  | _ => false

/-- `cmd_get`; `date` is what the commands with a date print of it, if the date
is known. -/
def cmdGet (date : Option (VoltronQcmd → List UInt8)) (idx : VoltronQcmd) :
    Option (List UInt8) :=
  if idx.hasDate then date.bind fun print => mpptGetQcommand idx (print idx)
  else mpptGetQcommand idx []

/-! ## Handlers -/

/-- An entry of `voltron_commnds_handler`, without its callback. -/
structure CommandHandler where
  id : VoltronQcmd
  oneTime : Bool
  minReplySize : ℕ

/-- `mppt_context.cmd_count` -/
abbrev cmdCount : ℕ := 12

/-- `voltron_commnds_handler` -/
def voltronCommndsHandler : Fin cmdCount → CommandHandler :=
  ![⟨.qid, true, 15⟩, ⟨.qvfw, true, 15⟩, ⟨.qflag, true, 12⟩, ⟨.qdi, true, 76⟩,
    ⟨.qpiri, true, 95⟩, ⟨.qpigs, false, 107⟩, ⟨.qmod, true, 2⟩,
    ⟨.qpiws, true, 37⟩, ⟨.qet, false, 9⟩, ⟨.qmn, true, 11⟩, ⟨.qgmn, true, 4⟩,
    ⟨.qt, false, 15⟩]

/-- `mppt_context` with the flags `send` of the handlers and the index of
`mppt_solar_cmd_next`; `cmdBuff` holds the first `cmd_buf_len` bytes. -/
structure MpptContext (Data : Type*) where
  usbConnected : Bool
  sendInProgress : Bool
  timeoutState : Bool
  timeoutCount : UInt32
  cmdSendTime : UInt64
  usbResetTime : UInt64
  cmdIdx : VoltronQcmd
  cmdBuff : List UInt8
  vdata : Data
  send : Fin cmdCount → Bool
  nextIdx : ℕ

/-- The callbacks of the handlers: what a command makes of the buffer, with its
result. -/
abbrev Callbacks (Data : Type*) := VoltronQcmd → List UInt8 → Data → ℤ × Data

variable {Data : Type*}

/-- `mppt_solar_init` -/
def mpptSolarInit (vdata : Data) : MpptContext Data where
  usbConnected := false
  sendInProgress := false
  timeoutState := false
  timeoutCount := 0
  cmdSendTime := 0
  usbResetTime := 0
  cmdIdx := .qpi
  cmdBuff := []
  vdata := vdata
  send := fun _ => true
  nextIdx := 0

namespace MpptContext

/-- The search of `mppt_cmd_process_known`. -/
def findHandler (idx : VoltronQcmd) : Option (Fin cmdCount) :=
  (List.finRange cmdCount).find? fun i => (voltronCommndsHandler i).id = idx

/-- `mppt_cmd_process_known`, with the command whose callback it calls. -/
def mpptCmdProcessKnown (cb : Callbacks Data) (ctx : MpptContext Data)
    (buff : List UInt8) (len : ℤ) :
    MpptContext Data × Option VoltronQcmd :=
  match findHandler ctx.cmdIdx with
  | none => (ctx, none)
  | some i =>
      if (voltronCommndsHandler i).minReplySize ≤ len then
        let (ret, vdata) := cb ctx.cmdIdx buff ctx.vdata
        ({ ctx with
            vdata := vdata
            send :=
              if ret = 0 ∧ (voltronCommndsHandler i).oneTime = true then
                Function.update ctx.send i false
              else ctx.send },
          some ctx.cmdIdx)
      else (ctx, none)

/-- `mppt_cmd_process`; the index is below `MPPT_QMAX`. -/
def mpptCmdProcess (cb : Callbacks Data) (ctx : MpptContext Data) :
    MpptContext Data × Option VoltronQcmd :=
  match mpptVerifyReply (some ctx.cmdBuff) ctx.cmdBuff.length with
  | some (len, some buff) => ctx.mpptCmdProcessKnown cb buff len
  | _ => (ctx, none)

/-- `reset_state` -/
def resetState (ctx : MpptContext Data) : MpptContext Data :=
  { ctx with
    usbConnected := false
    sendInProgress := false
    timeoutState := false
    send := fun _ => true }

/-- `CMD_BUF_SIZE` -/
def cmdBufSize : ℕ := 128

/-- `mppt_usb_callback` of a `HID_REPORT`, with the command whose callback it
calls and the bytes that it is called for. -/
def hidReport (cb : Callbacks Data) (ctx : MpptContext Data)
    (data : List UInt8) :
    MpptContext Data × Option (VoltronQcmd × List UInt8) :=
  if ctx.cmdBuff.length + data.length < cmdBufSize then
    let ctx := { ctx with cmdBuff := ctx.cmdBuff ++ data }
    if endOfInput ∈ data then
      let (after, called) := ctx.mpptCmdProcess cb
      ({ after with
          cmdBuff := []
          sendInProgress := false
          timeoutState := false },
        called.map fun cmd => (cmd, ctx.cmdBuff))
    else (ctx, none)
  else (ctx, none)

/-- `mppt_usb_callback` of a `HID_MOUNT`. -/
def hidMount (ctx : MpptContext Data) : MpptContext Data :=
  { ctx.resetState with usbConnected := true }

/-- `mppt_usb_callback` of a `HID_UNMOUNT`. -/
def hidUnmount (ctx : MpptContext Data) : MpptContext Data :=
  ctx.resetState

/-! ## Queries -/

/-- The loop of `mppt_solar_cmd_next` for a number of rounds. -/
def cmdNextLoop (send : Fin cmdCount → Bool) : ℕ → ℕ → Option (Fin cmdCount × ℕ)
  | 0, _ => none
  | fuel + 1, idx =>
      if h : idx < cmdCount then
        if send ⟨idx, h⟩ then some (⟨idx, h⟩, idx + 1)
        else cmdNextLoop send fuel (if cmdCount ≤ idx + 1 then 0 else idx + 1)
      else none

/-- `mppt_solar_cmd_next`: the entry of the next command and the index that
stays for the next call. -/
def mpptSolarCmdNext (ctx : MpptContext Data) : Option (Fin cmdCount × ℕ) :=
  cmdNextLoop ctx.send cmdCount (if cmdCount ≤ ctx.nextIdx then 0 else ctx.nextIdx)

/-- `USB_DISCOVERY_MS` -/
def usbDiscoveryMs : UInt64 := 30000

/-- `SENT_WAIT_MS` -/
def sentWaitMs : UInt64 := 20000

/-- `SENT_MIN_TIME_MS` -/
def sentMinTimeMs : UInt64 := 5000

/-- What a call of `mppt_solar_query` reads and is answered: the time, the
date, and whether `usb_send_to_device` takes the command. -/
structure QueryCall where
  now : UInt64
  date : Option (VoltronQcmd → List UInt8)
  taken : Bool

/-- The timeout of `mppt_solar_query`. -/
def checkTimeout (ctx : MpptContext Data) (now : UInt64) : MpptContext Data :=
  if sentWaitMs < now - ctx.cmdSendTime then
    { ctx with
      timeoutCount :=
        if ctx.timeoutState then ctx.timeoutCount else ctx.timeoutCount + 1
      sendInProgress := false
      timeoutState := true }
  else ctx

/-- The end of `mppt_solar_query`, with the command that the device is sent. -/
def sendNext (ctx : MpptContext Data) (call : QueryCall) :
    MpptContext Data × Option (VoltronQcmd × List UInt8) :=
  match ctx.mpptSolarCmdNext with
  | none => (ctx, none)
  | some (i, nextIdx) =>
      let ctx := { ctx with
        cmdIdx := (voltronCommndsHandler i).id
        nextIdx := nextIdx }
      match cmdGet call.date ctx.cmdIdx with
      | none => (ctx, none)
      | some cmd =>
          let ctx := { ctx with cmdBuff := [] }
          if call.taken then
            ({ ctx with sendInProgress := true, cmdSendTime := call.now },
              some (ctx.cmdIdx, cmd))
          else (ctx, none)

/-- The condition under which `mppt_solar_query` goes on to the next
command. -/
def movesOn (ctx : MpptContext Data) (now : UInt64) : Bool :=
  ctx.usbConnected &&
    (!(ctx.checkTimeout now).sendInProgress &&
      decide (sentMinTimeMs < now - ctx.cmdSendTime))

/-- `mppt_solar_query`, with the command that the device is sent. -/
def mpptSolarQuery (ctx : MpptContext Data) (call : QueryCall) :
    MpptContext Data × Option (VoltronQcmd × List UInt8) :=
  if !ctx.usbConnected then
    if usbDiscoveryMs < call.now - ctx.usbResetTime then
      ({ ctx with usbResetTime := call.now }, none)
    else (ctx, none)
  else
    let ctx := ctx.checkTimeout call.now
    if !ctx.sendInProgress && decide (sentMinTimeMs < call.now - ctx.cmdSendTime)
    then ctx.sendNext call
    else (ctx, none)

end MpptContext

/-! ## The lookup of a handler -/

theorem findHandler_id (i : Fin cmdCount) :
    MpptContext.findHandler (voltronCommndsHandler i).id = some i := by
  revert i
  decide

/-- Every callback is called for replies that fit the buffer. -/
theorem minReplySize_le (i : Fin cmdCount) :
    (voltronCommndsHandler i).minReplySize ≤ 107 := by
  revert i
  decide

/-! ## The next command -/

/-- The commands that are asked again and again ask to be sent, so that the
search of the next command ends. -/
def MpptContext.Sending (ctx : MpptContext Data) : Prop :=
  ∀ i, (voltronCommndsHandler i).oneTime = false → ctx.send i = true

namespace MpptContext

theorem cmdNextLoop_isSome {send : Fin cmdCount → Bool} {last : Fin cmdCount}
    (hlast : send last = true) {fuel idx : ℕ} (hidx : idx ≤ last)
    (hfuel : last < fuel + idx) : (cmdNextLoop send fuel idx).isSome := by
  induction fuel generalizing idx with
  | zero => omega
  | succ fuel ih =>
      have hlt : idx < cmdCount := by omega
      rw [cmdNextLoop, dif_pos hlt]
      by_cases hsend : send ⟨idx, hlt⟩ = true
      · rw [if_pos hsend]
        rfl
      · have hne : idx ≠ last := by
          rintro rfl
          exact hsend hlast
        rw [if_neg hsend, if_neg (by omega)]
        exact ih (by omega) (by omega)

/-- The last handler asks to be sent, so that the search does not pass the end
of the table. -/
theorem Sending.mpptSolarCmdNext_isSome {ctx : MpptContext Data}
    (h : ctx.Sending) : ctx.mpptSolarCmdNext.isSome := by
  have hlast : ctx.send 11 = true := h 11 rfl
  have heleven : ((11 : Fin cmdCount) : ℕ) = 11 := rfl
  have hcount : cmdCount = 12 := rfl
  refine cmdNextLoop_isSome hlast ?_ ?_
  · split <;> omega
  · omega

theorem qcommands_length_lt (i : Fin cmdCount) :
    (lit (qcommands (voltronCommndsHandler i).id)).length + 3 <
      commandMaxLen := by
  revert i
  decide +kernel

/-- Every command of the table can be prepared. -/
theorem cmdGet_isSome (date : Option (VoltronQcmd → List UInt8))
    (i : Fin cmdCount) : (cmdGet date (voltronCommndsHandler i).id).isSome := by
  have hdate : (voltronCommndsHandler i).id.hasDate = false := by
    revert i
    decide
  have hlen := qcommands_length_lt i
  rw [cmdGet, hdate, if_neg Bool.false_ne_true, mpptGetQcommand, List.append_nil,
    if_neg (by omega), calculateCrc_eq (Nat.le_refl _)]
  rfl

/-! ## What the functions leave -/

section

variable (cb : Callbacks Data) (ctx : MpptContext Data)

/-- A callback belongs to the current command, and only a command of one time
stops asking to be sent. -/
theorem mpptCmdProcessKnown_spec (buff : List UInt8) (len : ℤ) :
    (ctx.mpptCmdProcessKnown cb buff len).1.cmdIdx = ctx.cmdIdx ∧
      (ctx.Sending → (ctx.mpptCmdProcessKnown cb buff len).1.Sending) ∧
      ∀ cmd ∈ (ctx.mpptCmdProcessKnown cb buff len).2, cmd = ctx.cmdIdx := by
  unfold mpptCmdProcessKnown
  split
  · exact ⟨rfl, id, fun cmd hcmd => by cases hcmd⟩
  next i _ =>
    split
    · refine ⟨rfl, fun h j hj => ?_, fun cmd hcmd => (Option.some.inj hcmd).symm⟩
      dsimp only
      split
      next hone =>
        have hne : j ≠ i := by
          rintro rfl
          rw [hone.2] at hj
          cases hj
        rw [Function.update_of_ne hne]
        exact h j hj
      · exact h j hj
    · exact ⟨rfl, id, fun cmd hcmd => by cases hcmd⟩

theorem mpptCmdProcess_spec :
    (ctx.mpptCmdProcess cb).1.cmdIdx = ctx.cmdIdx ∧
      (ctx.Sending → (ctx.mpptCmdProcess cb).1.Sending) ∧
      ∀ cmd ∈ (ctx.mpptCmdProcess cb).2, cmd = ctx.cmdIdx := by
  unfold mpptCmdProcess
  split
  · exact mpptCmdProcessKnown_spec cb ctx _ _
  · exact ⟨rfl, id, fun cmd hcmd => by cases hcmd⟩

variable (data : List UInt8)

theorem hidReport_cmdIdx : (ctx.hidReport cb data).1.cmdIdx = ctx.cmdIdx := by
  unfold hidReport
  split
  · split
    · exact (mpptCmdProcess_spec cb { ctx with cmdBuff := ctx.cmdBuff ++ data }).1
    · rfl
  · rfl

theorem Sending.hidReport {ctx : MpptContext Data} (h : ctx.Sending) :
    (ctx.hidReport cb data).1.Sending := by
  unfold MpptContext.hidReport
  split
  · split
    · exact (mpptCmdProcess_spec cb
        { ctx with cmdBuff := ctx.cmdBuff ++ data }).2.1 h
    · exact h
  · exact h

/-- A piece without a terminator is added to the buffer if it fits. -/
theorem hidReport_cmdBuff (hend : endOfInput ∉ data) :
    (ctx.hidReport cb data).1.cmdBuff =
      if ctx.cmdBuff.length + data.length < cmdBufSize then ctx.cmdBuff ++ data
      else ctx.cmdBuff := by
  rw [hidReport, if_neg hend]
  split
  · rfl
  · rfl

variable {cb ctx data}

/-- A callback is called for the current command, with all that the buffer
holds. -/
theorem hidReport_called {cmd : VoltronQcmd} {reply : List UInt8}
    (h : (ctx.hidReport cb data).2 = some (cmd, reply)) :
    cmd = ctx.cmdIdx ∧ reply = ctx.cmdBuff ++ data ∧ endOfInput ∈ data ∧
      (ctx.cmdBuff ++ data).length < cmdBufSize := by
  unfold hidReport at h
  split at h
  next hfits =>
    split at h
    next hend =>
      obtain ⟨cmd', hcmd', heq⟩ := Option.map_eq_some_iff.mp h
      obtain ⟨rfl, rfl⟩ := Prod.mk.inj heq
      have hspec := (mpptCmdProcess_spec cb
        { ctx with cmdBuff := ctx.cmdBuff ++ data }).2.2 cmd' hcmd'
      exact ⟨hspec, rfl, hend, by rwa [List.length_append]⟩
    · cases h
  · cases h

end

/-- What a query does: it stays with the current command, or goes on to another
one with an empty buffer. -/
theorem mpptSolarQuery_cases (ctx : MpptContext Data) (h : ctx.Sending)
    (call : QueryCall) :
    (ctx.movesOn call.now = false ∧ (ctx.mpptSolarQuery call).2 = none ∧
      (ctx.mpptSolarQuery call).1.cmdIdx = ctx.cmdIdx ∧
      (ctx.mpptSolarQuery call).1.cmdBuff = ctx.cmdBuff ∧
      (ctx.mpptSolarQuery call).1.send = ctx.send) ∨
    (ctx.movesOn call.now = true ∧
      (ctx.mpptSolarQuery call).1.cmdBuff = [] ∧
      (ctx.mpptSolarQuery call).1.send = ctx.send ∧
      ∃ i, (ctx.mpptSolarQuery call).1.cmdIdx = (voltronCommndsHandler i).id ∧
        ∀ sent ∈ (ctx.mpptSolarQuery call).2,
          sent.1 = (voltronCommndsHandler i).id) := by
  have htimeout : (ctx.checkTimeout call.now).cmdIdx = ctx.cmdIdx ∧
      (ctx.checkTimeout call.now).cmdBuff = ctx.cmdBuff ∧
      (ctx.checkTimeout call.now).send = ctx.send ∧
      (ctx.checkTimeout call.now).nextIdx = ctx.nextIdx ∧
      (ctx.checkTimeout call.now).cmdSendTime = ctx.cmdSendTime := by
    unfold checkTimeout
    split <;> exact ⟨rfl, rfl, rfl, rfl, rfl⟩
  obtain ⟨hidx, hbuff, hsend, hnext, htime⟩ := htimeout
  unfold mpptSolarQuery movesOn
  cases hconnected : ctx.usbConnected with
  | false =>
      left
      refine ⟨Bool.false_and _, ?_⟩
      simp only [Bool.not_false, if_true]
      split <;> exact ⟨rfl, rfl, rfl, rfl⟩
  | true =>
      simp only [Bool.not_true, Bool.false_eq_true, if_false, Bool.true_and, htime]
      split
      next hmove =>
        right
        have hsome : (ctx.checkTimeout call.now).mpptSolarCmdNext.isSome := by
          unfold mpptSolarCmdNext
          rw [hsend, hnext]
          exact h.mpptSolarCmdNext_isSome
        obtain ⟨⟨i, nextIdx⟩, hi⟩ := Option.isSome_iff_exists.mp hsome
        obtain ⟨cmd, hcmd⟩ := Option.isSome_iff_exists.mp (cmdGet_isSome call.date i)
        simp only [sendNext, hi, hcmd]
        refine ⟨hmove, ?_, ?_, i, ?_, ?_⟩
        · split <;> rfl
        · split <;> exact hsend
        · split <;> rfl
        · intro sent hsent
          split at hsent
          · rw [← Option.some.inj hsent]
          · cases hsent
      next hstay =>
        left
        exact ⟨Bool.not_eq_true _ ▸ hstay, rfl, hidx, hbuff, hsend⟩

end MpptContext

end Herak.Voltronic
