import Herak.Support.EventMachine
import Herak.Voltronic.Usb

/-!
# Whose answer is it

The driver is followed together with the inverter, which answers the commands
that it was sent in order, each at most once and after any time.  The driver
gives up on an answer after `SENT_WAIT_MS` and when the device is mounted or
unmounted, but the inverter may still give it.
-/

namespace Herak.Voltronic

open CString

/-! ## The driver and the inverter -/

/-- A command that the inverter was sent: how many commands the driver had gone
on to by then, and what the inverter has answered so far. -/
structure Query where
  serial : ℕ
  cmd : VoltronQcmd
  said : List UInt8

/-- The driver, how many commands it has gone on to, and the answers that the
inverter owes. -/
structure MpptLink (Data : Type*) where
  ctx : MpptContext Data
  asked : ℕ
  owed : List Query

/-- Turns of the main loop, events of the USB stack, among them the pieces of an
answer, and the inverter passing over a command. -/
inductive MpptEvent
  | query (call : MpptContext.QueryCall)
  | mount
  | unmount
  | report (data : List UInt8)
  | pass

variable {Data : Type*}

/-- The inverter gives a piece of the answer that it owes first, which ends with
the terminator. -/
def giveAnswer (owed : List Query) (data : List UInt8) : List Query :=
  match owed with
  | [] => []
  | q :: rest =>
      if endOfInput ∈ data then rest
      else { q with said := q.said ++ data } :: rest

theorem giveAnswer_ne_nil {owed : List Query} {data : List UInt8}
    (howed : owed ≠ []) (hend : endOfInput ∉ data) :
    giveAnswer owed data ≠ [] := by
  obtain ⟨q, rest, rfl⟩ := List.exists_cons_of_ne_nil howed
  rw [giveAnswer, if_neg hend]
  exact List.cons_ne_nil _ _

namespace MpptLink

def init (vdata : Data) : MpptLink Data := ⟨mpptSolarInit vdata, 0, []⟩

def step (cb : Callbacks Data) (x : MpptLink Data) : MpptEvent → MpptLink Data
  | .query call =>
      { ctx := (x.ctx.mpptSolarQuery call).1
        asked := if x.ctx.movesOn call.now then x.asked + 1 else x.asked
        owed := x.owed ++ ((x.ctx.mpptSolarQuery call).2.map fun sent =>
          ⟨x.asked + 1, sent.1, []⟩).toList }
  | .mount => { x with ctx := x.ctx.hidMount }
  | .unmount => { x with ctx := x.ctx.hidUnmount }
  | .report data =>
      { x with
        ctx := (x.ctx.hidReport cb data).1
        owed := giveAnswer x.owed data }
  | .pass => { x with owed := x.owed.tail }

/-- The inverter says nothing that it was not asked for. -/
def Enabled (x : MpptLink Data) : MpptEvent → Prop
  | .report _ => x.owed ≠ []
  | _ => True

end MpptLink

def mpptMachine (cb : Callbacks Data) :
    EventMachine (MpptLink Data) MpptEvent where
  step := MpptLink.step cb
  enabled := MpptLink.Enabled

/-! ## The property and the condition -/

/-- A reply that is decoded as the answer to a command is the answer of the
inverter to that command, which the driver has asked last.  Pieces of an answer
that does not fit the buffer may be left out. -/
def Attributed (cb : Callbacks Data) (x : MpptLink Data) : MpptEvent → Prop
  | .report data =>
      ∀ cmd reply, (x.ctx.hidReport cb data).2 = some (cmd, reply) →
        ∃ q, x.owed.head? = some q ∧ q.serial = x.asked ∧ q.cmd = cmd ∧
          reply.Sublist (q.said ++ data) ∧
          ((q.said ++ data).length < MpptContext.cmdBufSize →
            reply = q.said ++ data)
  | _ => True

/-- The driver goes on to another command only when the inverter owes no
answer. -/
def NothingOwed (x : MpptLink Data) : MpptEvent → Prop
  | .query call => x.ctx.movesOn call.now = true → x.owed = []
  | _ => True

/-- What the inverter owes is the answer to the last command, and the buffer
holds what it has said of it. -/
structure MpptLink.Answering (x : MpptLink Data) : Prop where
  sending : x.ctx.Sending
  single : x.owed.length ≤ 1
  serial : ∀ q ∈ x.owed, q.serial = x.asked
  cmd : ∀ q ∈ x.owed, q.cmd = x.ctx.cmdIdx
  heard : ∀ q ∈ x.owed, x.ctx.cmdBuff.Sublist q.said
  whole : ∀ q ∈ x.owed, q.said.length < MpptContext.cmdBufSize →
    x.ctx.cmdBuff = q.said

namespace MpptLink

variable {cb : Callbacks Data} {x : MpptLink Data}

theorem init_answering (vdata : Data) : (init vdata).Answering where
  sending := fun _ _ => rfl
  single := Nat.zero_le 1
  serial := fun _ hq => (List.not_mem_nil hq).elim
  cmd := fun _ hq => (List.not_mem_nil hq).elim
  heard := fun _ hq => (List.not_mem_nil hq).elim
  whole := fun _ hq => (List.not_mem_nil hq).elim

/-! ## A step -/

/-- The driver forgets what it was waiting for, but not the buffer. -/
theorem Answering.resetState (h : x.Answering) (connected : Bool) :
    Answering
      { x with ctx := { x.ctx.resetState with usbConnected := connected } } where
  sending := fun _ _ => rfl
  single := h.single
  serial := h.serial
  cmd := h.cmd
  heard := h.heard
  whole := h.whole

theorem Answering.pass (h : x.Answering) :
    Answering { x with owed := x.owed.tail } where
  sending := h.sending
  single := by
    have := h.single
    simp only [List.length_tail]
    omega
  serial := fun q hq => h.serial q (List.mem_of_mem_tail hq)
  cmd := fun q hq => h.cmd q (List.mem_of_mem_tail hq)
  heard := fun q hq => h.heard q (List.mem_of_mem_tail hq)
  whole := fun q hq => h.whole q (List.mem_of_mem_tail hq)

theorem Answering.query (h : x.Answering) (call : MpptContext.QueryCall)
    (howed : NothingOwed x (.query call)) :
    (step cb x (.query call)).Answering := by
  rcases x.ctx.mpptSolarQuery_cases h.sending call with
    ⟨hstay, hnone, hidx, hbuff, hsend⟩ | ⟨hmove, hbuff, hsend, i, hidx, hsent⟩
  · -- Nothing is sent, and what is owed stays as it was.
    have hstep : step cb x (.query call) =
        { x with ctx := (x.ctx.mpptSolarQuery call).1 } := by
      simp [step, hstay, hnone]
    rw [hstep]
    exact
      { sending := fun j hj => by rw [hsend]; exact h.sending j hj
        single := h.single
        serial := h.serial
        cmd := fun q hq => (h.cmd q hq).trans hidx.symm
        heard := fun q hq => by rw [hbuff]; exact h.heard q hq
        whole := fun q hq hlen => by rw [hbuff]; exact h.whole q hq hlen }
  · -- The only answer that is owed is that to the new command.
    have hstep : step cb x (.query call) =
        { ctx := (x.ctx.mpptSolarQuery call).1
          asked := x.asked + 1
          owed := ((x.ctx.mpptSolarQuery call).2.map fun sent =>
            ⟨x.asked + 1, sent.1, []⟩).toList } := by
      simp [step, hmove, howed hmove]
    have hnew : ∀ q ∈ (step cb x (.query call)).owed,
        q = ⟨x.asked + 1, (voltronCommndsHandler i).id, []⟩ := by
      intro q hq
      rw [hstep, Option.mem_toList] at hq
      obtain ⟨sent, hsome, rfl⟩ := Option.map_eq_some_iff.mp hq
      rw [hsent sent hsome]
    refine ⟨?_, ?_, ?_, ?_, ?_, ?_⟩
    · intro j hj
      rw [hstep, hsend]
      exact h.sending j hj
    · rw [hstep]
      exact Option.length_toList_le
    · intro q hq
      rw [hnew q hq, hstep]
    · intro q hq
      rw [hnew q hq, hstep]
      exact hidx.symm
    · intro q hq
      rw [hnew q hq, hstep, hbuff]
    · intro q hq _
      rw [hnew q hq, hstep, hbuff]

/-- A piece of the answer that is owed. -/
theorem Answering.report (h : x.Answering) (data : List UInt8) :
    (step cb x (.report data)).Answering := by
  cases howed : x.owed with
  | nil =>
      have hnone : (step cb x (.report data)).owed = [] := by
        simp [step, howed, giveAnswer]
      refine ⟨h.sending.hidReport cb data, ?_, ?_, ?_, ?_, ?_⟩ <;> simp [hnone]
  | cons q rest =>
      have hrest : rest = [] := by
        have hsingle := h.single
        rw [howed, List.length_cons] at hsingle
        exact List.eq_nil_of_length_eq_zero (by omega)
      have hmem : q ∈ x.owed := by simp [howed]
      by_cases hend : endOfInput ∈ data
      · have hnone : (step cb x (.report data)).owed = [] := by
          simp [step, howed, giveAnswer, hend, hrest]
        refine ⟨h.sending.hidReport cb data, ?_, ?_, ?_, ?_, ?_⟩ <;>
          simp [hnone]
      · have hone : (step cb x (.report data)).owed =
            [{ q with said := q.said ++ data }] := by
          simp [step, howed, giveAnswer, hend, hrest]
        have hbuff : (step cb x (.report data)).ctx.cmdBuff =
            if x.ctx.cmdBuff.length + data.length < MpptContext.cmdBufSize then
              x.ctx.cmdBuff ++ data
            else x.ctx.cmdBuff :=
          x.ctx.hidReport_cmdBuff cb data hend
        have hidx : (step cb x (.report data)).ctx.cmdIdx = x.ctx.cmdIdx :=
          x.ctx.hidReport_cmdIdx cb data
        refine ⟨h.sending.hidReport cb data, by simp [hone], ?_, ?_, ?_, ?_⟩
        all_goals
          intro q' hq'
          rw [hone, List.mem_singleton] at hq'
          subst hq'
        · exact h.serial q hmem
        · exact (h.cmd q hmem).trans hidx.symm
        · have hheard := h.heard q hmem
          rw [hbuff]
          split
          · exact hheard.append_right data
          · exact hheard.trans (List.sublist_append_left _ _)
        · intro hlen
          rw [List.length_append] at hlen
          have hwhole := h.whole q hmem (by omega)
          rw [hbuff, hwhole, if_pos hlen]

/-- As long as nothing is owed when the driver goes on, what is owed is the
answer to its last command. -/
theorem Answering.step (h : x.Answering) (e : MpptEvent)
    (howed : NothingOwed x e) : (step cb x e).Answering := by
  cases e with
  | query call => exact h.query call howed
  | mount => exact h.resetState true
  | unmount => exact h.resetState false
  | report data => exact h.report data
  | pass => exact h.pass

/-- What is decoded is then the answer to the last command. -/
theorem Answering.attributed (h : x.Answering) (e : MpptEvent)
    (henabled : x.Enabled e) : Attributed cb x e := by
  cases e with
  | report data =>
      intro cmd reply hcalled
      obtain ⟨rfl, rfl, -, -⟩ := MpptContext.hidReport_called hcalled
      cases howed : x.owed with
      | nil => exact (henabled howed).elim
      | cons q rest =>
          have hmem : q ∈ x.owed := by simp [howed]
          refine ⟨q, rfl, h.serial q hmem, h.cmd q hmem,
            (h.heard q hmem).append_right data, fun hlen => ?_⟩
          rw [List.length_append] at hlen
          rw [h.whole q hmem (by omega)]
  | query call => trivial
  | mount => trivial
  | unmount => trivial
  | pass => trivial

end MpptLink

/-! ## A late answer -/

/-- A reply that is long enough for every command. -/
def longReply : List UInt8 :=
  frame (0x28 :: List.replicate 119 0x30)

theorem longReply_length : longReply.length = 123 := by
  simp [longReply, frame]

theorem endOfInput_mem_longReply : endOfInput ∈ longReply := by
  simp [longReply, frame]

/-- Whatever command of the table is current, the reply is decoded as the
answer to it. -/
theorem hidReport_longReply (cb : Callbacks Data) {ctx : MpptContext Data}
    (hbuff : ctx.cmdBuff = []) (i : Fin cmdCount)
    (hidx : ctx.cmdIdx = (voltronCommndsHandler i).id) :
    (ctx.hidReport cb longReply).2 = some (ctx.cmdIdx, longReply) := by
  have hfits : ctx.cmdBuff.length + longReply.length <
      MpptContext.cmdBufSize := by
    rw [hbuff, longReply_length]
    decide
  have hverify := @mpptVerifyReply_frame (0x28 :: List.replicate 119 0x30)
    [] rfl (by simp) (by simp [endOfInput]) (by simp)
  rw [List.append_nil, ← longReply] at hverify
  have hlong : ((voltronCommndsHandler i).minReplySize : ℤ) ≤
      ((0x28 :: List.replicate 119 (0x30 : UInt8)).length : ℕ) := by
    have hmin := minReplySize_le i
    rw [List.length_cons, List.length_replicate]
    omega
  rw [MpptContext.hidReport, if_pos hfits]
  simp only [if_pos endOfInput_mem_longReply, MpptContext.mpptCmdProcess, hbuff,
    List.nil_append, hverify, MpptContext.mpptCmdProcessKnown, hidx,
    findHandler_id, if_pos hlong, Option.map_some]

/-- When the driver goes on although an answer is owed, this answer can be
decoded as that to the new command. -/
theorem MpptLink.Answering.misattributed {cb : Callbacks Data}
    {x : MpptLink Data} (h : x.Answering) (call : MpptContext.QueryCall)
    (hmove : x.ctx.movesOn call.now = true) (howed : x.owed ≠ []) :
    (MpptLink.step cb x (.query call)).Enabled (.report longReply) ∧
      ¬Attributed cb (MpptLink.step cb x (.query call)) (.report longReply) := by
  rcases x.ctx.mpptSolarQuery_cases h.sending call with
    ⟨hstay, -⟩ | ⟨-, hbuff, -, i, hidx, -⟩
  · rw [hmove] at hstay
    cases hstay
  · obtain ⟨q, rest, hq⟩ := List.exists_cons_of_ne_nil howed
    have hhead : (MpptLink.step cb x (.query call)).owed.head? = some q := by
      simp [MpptLink.step, hq]
    have hasked : (MpptLink.step cb x (.query call)).asked = x.asked + 1 := by
      simp [MpptLink.step, hmove]
    constructor
    · intro hnil
      rw [hnil] at hhead
      cases hhead
    · intro hattributed
      obtain ⟨q', hq', hserial, -⟩ := hattributed _ _
        (hidReport_longReply cb hbuff i hidx)
      rw [hhead, Option.some.injEq] at hq'
      have hold := h.serial q (by simp [hq])
      rw [← hq', hasked] at hserial
      omega

/-! ## Runs -/

/-- A report of the inverter. -/
def IsReport (e : MpptEvent) : Prop :=
  ∃ data, e = .report data

/-- In a run the driver goes on to other commands only when no answer is owed,
exactly if, whatever the inverter goes on to answer after any part of the run,
each reply is decoded as the answer to the command that it answers. -/
theorem mpptReplies_attributed_iff (cb : Callbacks Data) (vdata : Data)
    (es : List MpptEvent)
    (hadmits : (mpptMachine cb).Admits (MpptLink.init vdata) es) :
    (mpptMachine cb).Along NothingOwed (MpptLink.init vdata) es ↔
      ∀ before, before <+: es → ∀ reports, (∀ e ∈ reports, IsReport e) →
        (mpptMachine cb).Admits
          ((mpptMachine cb).run (MpptLink.init vdata) before) reports →
        (mpptMachine cb).Along (Attributed cb) (MpptLink.init vdata)
          (before ++ reports) := by
  refine EventMachine.along_iff_followed (I := MpptLink.Answering)
    (fun x e h _ howed => h.step e howed)
    (fun x e h henabled _ => h.attributed e henabled) ?_ ?_
    (MpptLink.init_answering vdata) hadmits
  · rintro x e ⟨data, rfl⟩
    trivial
  · intro x e h _ hmissed
    cases e with
    | query call =>
        obtain ⟨hmove, howed⟩ := Classical.not_imp.mp hmissed
        obtain ⟨henabled, hwrong⟩ :
            (MpptLink.step cb x (.query call)).Enabled (.report longReply) ∧
              ¬Attributed cb (MpptLink.step cb x (.query call))
                (.report longReply) :=
          h.misattributed call hmove howed
        refine ⟨[.report longReply], ?_, ⟨henabled, trivial⟩,
          fun halong => hwrong halong.1⟩
        intro f hf
        obtain rfl := List.mem_singleton.mp hf
        exact ⟨longReply, rfl⟩
    | mount => exact (hmissed trivial).elim
    | unmount => exact (hmissed trivial).elim
    | report data => exact (hmissed trivial).elim
    | pass => exact (hmissed trivial).elim

/-! ## A run with a late answer -/

/-- `voltron_qflags_data_t` -/
structure VoltronQflagsData where
  buzzer : Bool
  overloadBypass : Bool
  powerSaving : Bool
  lcdTimeout : Bool
  overloadRestart : Bool
  overtempRestart : Bool
  backlight : Bool
  primarySourceInterruptAlarm : Bool
  faultCodeRecord : Bool
  deriving DecidableEq

/-- The letters of `qflag_cmd_process`. -/
def setFlag (flags : VoltronQflagsData) (letter : UInt8) : VoltronQflagsData :=
  if letter = 0x41 ∨ letter = 0x61 then { flags with buzzer := true }
  else if letter = 0x42 ∨ letter = 0x62 then { flags with overloadBypass := true }
  else if letter = 0x4A ∨ letter = 0x6A then { flags with powerSaving := true }
  else if letter = 0x4B ∨ letter = 0x6B then { flags with lcdTimeout := true }
  else if letter = 0x55 ∨ letter = 0x75 then { flags with overloadRestart := true }
  else if letter = 0x56 ∨ letter = 0x76 then { flags with overtempRestart := true }
  else if letter = 0x58 ∨ letter = 0x78 then { flags with backlight := true }
  else if letter = 0x59 ∨ letter = 0x79 then
    { flags with primarySourceInterruptAlarm := true }
  else if letter = 0x5A ∨ letter = 0x7A then { flags with faultCodeRecord := true }
  else flags

/-- `qflag_cmd_process`: the letters from the first `E` to a `D`. -/
def qflagCmdProcess (buff : List UInt8) : VoltronQflagsData :=
  let text := buff.takeWhile (· ≠ 0)
  let letters := (text.dropWhile (· ≠ 0x45)).takeWhile fun c =>
    decide (c ≠ 0x44 ∧ c ≠ endOfInput)
  letters.foldl setFlag
    ⟨false, false, false, false, false, false, false, false, false⟩

/-- The callbacks, of which the run below calls that of `QFLAG`. -/
def flagCallbacks : Callbacks VoltronQflagsData := fun cmd buff flags =>
  if cmd = .qflag then (0, qflagCmdProcess buff) else (-1, flags)

/-- The answer `(VERFW:00041.17` to `QVFW`. -/
def firmwareAnswer : List UInt8 :=
  frame (lit "(VERFW:00041.17")

/-- `QID` is never answered, and the answer to `QVFW` comes when `QFLAG` has been
asked. -/
def lateAnswer : List MpptEvent :=
  [.mount, .query ⟨6000, none, true⟩, .pass, .query ⟨26001, none, true⟩,
    .query ⟨46002, none, true⟩, .report firmwareAnswer]

/-- The firmware version is decoded as the flags of the device. -/
theorem not_mpptReplies_attributed :
    (mpptMachine flagCallbacks).Admits
        (MpptLink.init (qflagCmdProcess [])) lateAnswer ∧
      ¬(mpptMachine flagCallbacks).Along (Attributed flagCallbacks)
        (MpptLink.init (qflagCmdProcess [])) lateAnswer := by
  refine ⟨⟨trivial, trivial, trivial, trivial, trivial, ?_, trivial⟩, ?_⟩
  · exact List.cons_ne_nil _ _
  · rintro ⟨-, -, -, -, -, hlate, -⟩
    obtain ⟨q, hq, -, hcmd, -⟩ := hlate .qflag firmwareAnswer (by decide +kernel)
    have howed : q = ⟨2, .qvfw, []⟩ := (Option.some.inj hq).symm
    rw [howed] at hcmd
    cases hcmd

/-- An answer that comes in two pieces before the next command. -/
def timelyAnswer : List MpptEvent :=
  [.mount, .query ⟨6000, none, true⟩, .report (firmwareAnswer.take 8),
    .report (firmwareAnswer.drop 8), .query ⟨12000, none, true⟩]

theorem timelyAnswer_attributed :
    (mpptMachine flagCallbacks).Along (Attributed flagCallbacks)
      (MpptLink.init (qflagCmdProcess [])) timelyAnswer := by
  have hpiece : endOfInput ∉ firmwareAnswer.take 8 := by decide +kernel
  have hadmits : (mpptMachine flagCallbacks).Admits
      (MpptLink.init (qflagCmdProcess [])) timelyAnswer :=
    ⟨trivial, trivial, List.cons_ne_nil _ _,
      giveAnswer_ne_nil (List.cons_ne_nil _ _) hpiece, trivial, trivial⟩
  have howed : (mpptMachine flagCallbacks).Along NothingOwed
      (MpptLink.init (qflagCmdProcess [])) timelyAnswer :=
    ⟨trivial, fun _ => rfl, trivial, trivial, fun _ => by decide +kernel, trivial⟩
  have hrun := (mpptReplies_attributed_iff flagCallbacks (qflagCmdProcess [])
    timelyAnswer hadmits).mp howed timelyAnswer (List.prefix_refl _) []
  rw [List.append_nil] at hrun
  exact hrun (fun e he => (List.not_mem_nil he).elim) trivial

end Herak.Voltronic
