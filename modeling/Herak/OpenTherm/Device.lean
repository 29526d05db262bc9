import Herak.OpenTherm.Frame
import Herak.Support.CFloat
import Herak.Support.FloatConversion

/-!
# The OpenTherm device

`opentherm_dev.c`: the table of the data ids, and the commands that read and
write them.  A value comes from the boiler as a word of 16 bits; the handler of
its id decodes it into a union, from which the callers read it.
-/

namespace Herak.OpenTherm

open BinaryFloat CFloat

/-! ## Data ids -/

def dataIdStatus : ℕ := 0
def dataIdTset : ℕ := 1
def dataIdPrimaryConfig : ℕ := 2
def dataIdSecondaryConfig : ℕ := 3
def dataIdCommand : ℕ := 4
def dataIdAsfFault : ℕ := 5
def dataIdRbpFlags : ℕ := 6
def dataIdCoolingControl : ℕ := 7
def dataIdTsetch2 : ℕ := 8
def dataIdTroverride : ℕ := 9
def dataIdTspCount : ℕ := 10
def dataIdTspData : ℕ := 11
def dataIdFhbCount : ℕ := 12
def dataIdFhbData : ℕ := 13
def dataIdMaxRelModulation : ℕ := 14
def dataIdMaxCapacityMinModulation : ℕ := 15
def dataIdTrset : ℕ := 16
def dataIdRelModLevel : ℕ := 17
def dataIdChPressure : ℕ := 18
def dataIdDhwFlowRate : ℕ := 19
def dataIdDayTime : ℕ := 20
def dataIdDate : ℕ := 21
def dataIdYear : ℕ := 22
def dataIdTrsetch2 : ℕ := 23
def dataIdTr : ℕ := 24
def dataIdTboiler : ℕ := 25
def dataIdTdhw : ℕ := 26
def dataIdToutside : ℕ := 27
def dataIdTret : ℕ := 28
def dataIdTstorage : ℕ := 29
def dataIdTcollector : ℕ := 30
def dataIdTflowch2 : ℕ := 31
def dataIdTdhw2 : ℕ := 32
def dataIdTexhaust : ℕ := 33
def dataIdBoilerFanSpeed : ℕ := 35
def dataIdFlameCurrent : ℕ := 36
def dataIdTdhwsetBounds : ℕ := 48
def dataIdMaxtsetBounds : ℕ := 49
def dataIdHcratioBounds : ℕ := 50
def dataIdTdhwset : ℕ := 56
def dataIdMaxtset : ℕ := 57
def dataIdHcratio : ℕ := 58
def dataIdBrand : ℕ := 93
def dataIdBrandVer : ℕ := 94
def dataIdBradSnumber : ℕ := 95
def dataIdRemoteOverrideFunction : ℕ := 100
def dataIdUnsuccessfulBurnerStarts : ℕ := 113
def dataIdFlameSignalLowCount : ℕ := 114
def dataIdOemDiagnosticCode : ℕ := 115
def dataIdBurnerStarts : ℕ := 116
def dataIdChPumpStarts : ℕ := 117
def dataIdDhwPumpStarts : ℕ := 118
def dataIdDhwBurnerStarts : ℕ := 119
def dataIdBurnerOperationHours : ℕ := 120
def dataIdChPumpOperationHours : ℕ := 121
def dataIdDhwPumpOperationHours : ℕ := 122
def dataIdDhwBurnerOperationHours : ℕ := 123
def dataIdOpenthermVersionPrimary : ℕ := 124
def dataIdOpenthermVersionSecondary : ℕ := 125
def dataIdPrimaryVersion : ℕ := 126
def dataIdSecondaryVersion : ℕ := 127

/-- `DATA_ID_CMD_MAX` -/
def dataIdCmdMax : ℕ := 128

/-! ## Messages -/

def msgTypeReadData : BitVec 8 := 0
def msgTypeWriteData : BitVec 8 := 1
def msgTypeReadAck : BitVec 8 := 4
def msgTypeWriteAck : BitVec 8 := 5
def msgTypeDataInvalid : BitVec 8 := 6
def msgTypeUnknownDataId : BitVec 8 := 7

/-- `opentherm_cmd_response_t` without `CMD_RESPONSE_OK`. -/
inductive CmdFailure
  | l1Err
  | wrongParam
  | invalid
  | unknown
  deriving DecidableEq

/-- `opentherm_dev_pio_exchange`: the reply to a request, if one comes.  It is
given for a cycle of reads or writes, in which no request is sent twice. -/
abbrev Exchange := OpenthermMsg → Option OpenthermMsg

/-- The common body of `opentherm_dev_read` and `opentherm_dev_write`. -/
def openthermDevExchange (exchange : Exchange) (request ack : BitVec 8)
    (cmd : ℕ) (send : BitVec 16) : Except CmdFailure (BitVec 16) :=
  match exchange ⟨request, BitVec.ofNat 8 cmd, send⟩ with
  | none => .error .l1Err
  | some repl =>
      if repl.msgType = ack ∧ repl.id.toNat = cmd then .ok repl.value
      else if repl.msgType = msgTypeDataInvalid then .error .invalid
      else if repl.msgType = msgTypeUnknownDataId then .error .unknown
      else .error .wrongParam

/-- `opentherm_dev_read` -/
def openthermDevRead (exchange : Exchange) (cmd : ℕ) (send : BitVec 16) :
    Except CmdFailure (BitVec 16) :=
  openthermDevExchange exchange msgTypeReadData msgTypeReadAck cmd send

/-- `opentherm_dev_write` -/
def openthermDevWrite (exchange : Exchange) (cmd : ℕ) (send : BitVec 16) :
    Except CmdFailure (BitVec 16) :=
  openthermDevExchange exchange msgTypeWriteData msgTypeWriteAck cmd send

theorem openthermDevExchange_ok {exchange : Exchange}
    {request ack : BitVec 8} {cmd : ℕ} {send v : BitVec 16}
    (h : openthermDevExchange exchange request ack cmd send = .ok v) :
    exchange ⟨request, BitVec.ofNat 8 cmd, send⟩ =
      some ⟨ack, BitVec.ofNat 8 cmd, v⟩ := by
  simp only [openthermDevExchange] at h
  split at h
  · cases h
  next repl hrepl =>
    split_ifs at h with hack
    obtain ⟨htype, hid⟩ := hack
    rw [hrepl, ← htype, ← hid, ← Except.ok.inj h, BitVec.ofNat_toNat,
      BitVec.setWidth_eq]

/-! ## The union of the values -/

/-- `ot_data_t`: the four bytes of the union, the first one lowest. -/
structure OtData where
  raw : BitVec 32
  deriving DecidableEq

namespace OtData

/-- `ot_data_t repl = {0}` -/
def zero : OtData := ⟨0⟩

def u16 (d : OtData) : BitVec 16 := d.raw.setWidth 16

def setU16 (d : OtData) (v : BitVec 16) : OtData :=
  ⟨d.raw &&& 0xFFFF0000#32 ||| v.setWidth 32⟩

def i16 (d : OtData) : ℤ := d.u16.toInt

def setI16 (d : OtData) (v : ℤ) : OtData := d.setU16 (BitVec.ofInt 16 v)

def f (d : OtData) : CFloat32 := Value.ofBits binary32 d.raw.toNat

def setF (_ : OtData) (v : CFloat32) : OtData := ⟨BitVec.ofNat 32 v.toBits⟩

/-- `u8arr[0]` -/
def u8arr0 (d : OtData) : BitVec 8 := d.raw.setWidth 8

/-- `u8arr[1]` -/
def u8arr1 (d : OtData) : BitVec 8 := (d.raw >>> 8).setWidth 8

def setU8arr (d : OtData) (b0 b1 : BitVec 8) : OtData :=
  d.setU16 (b1 ++ b0)

def setI8arr (d : OtData) (b0 b1 : ℤ) : OtData :=
  d.setU8arr (BitVec.ofInt 8 b0) (BitVec.ofInt 8 b1)

@[simp] theorem u16_setU16 (d : OtData) (v : BitVec 16) :
    (d.setU16 v).u16 = v := by
  apply BitVec.eq_of_getLsbD_eq
  intro i hi
  have hbit : i < 32 := by omega
  have hmask : (0xFFFF0000#32).getLsbD i = false := by
    have hall : ∀ j : Fin 16, (0xFFFF0000#32).getLsbD j = false := by decide
    exact hall ⟨i, hi⟩
  simp only [u16, setU16, BitVec.getLsbD_setWidth, BitVec.getLsbD_or,
    BitVec.getLsbD_and, hi, hbit, hmask, decide_true, Bool.and_false,
    Bool.true_and, Bool.false_or]

/-- A number that was stored in the union is read back. -/
theorem f_setF (d : OtData) {units : ℤ}
    (h : binary32.Representable units.natAbs) :
    (d.setF (.finite units h)).f = .finite units h := by
  have hlt := Value.toBits_lt h
  have hsize : 2 * signPattern binary32 = 2 ^ 32 := by decide
  rw [f, setF, BitVec.toNat_ofNat, Nat.mod_eq_of_lt (by omega),
    Value.ofBits_toBits h]

@[simp] theorem u8arr0_setU16 (d : OtData) (v : BitVec 16) :
    (d.setU16 v).u8arr0 = v.setWidth 8 := by
  have hbyte : ∀ e : OtData, e.u8arr0 = e.u16.setWidth 8 := by
    intro e
    simp [u8arr0, u16, BitVec.setWidth_setWidth_of_le]
  rw [hbyte, u16_setU16]

@[simp] theorem u8arr1_setU16 (d : OtData) (v : BitVec 16) :
    (d.setU16 v).u8arr1 = (v >>> 8).setWidth 8 := by
  have hbyte : ∀ e : OtData, e.u8arr1 = (e.u16 >>> 8).setWidth 8 := by
    intro e
    apply BitVec.eq_of_getLsbD_eq
    intro i hi
    have hlow : 8 + i < 16 := by omega
    simp only [u8arr1, u16, BitVec.getLsbD_setWidth, BitVec.getLsbD_ushiftRight,
      hlow, decide_true, Bool.true_and]
  rw [hbyte, u16_setU16]

@[simp] theorem u8arr0_setU8arr (d : OtData) (b0 b1 : BitVec 8) :
    (d.setU8arr b0 b1).u8arr0 = b0 := by
  rw [setU8arr, u8arr0_setU16, BitVec.setWidth_append_eq_right]

@[simp] theorem u8arr1_setU8arr (d : OtData) (b0 b1 : BitVec 8) :
    (d.setU8arr b0 b1).u8arr1 = b1 := by
  rw [setU8arr, u8arr1_setU16]
  apply BitVec.eq_of_getLsbD_eq
  intro i hi
  have hhigh : ¬8 + i < 8 := by omega
  rw [BitVec.getLsbD_setWidth, BitVec.getLsbD_ushiftRight,
    BitVec.getLsbD_append, if_neg hhigh, Nat.add_sub_cancel_left,
    decide_eq_true hi, Bool.true_and]

end OtData

/-! ## The handlers -/

/-- The common body of the handlers: `encode` gives the word that is sent for
`out`, and `decode` stores the word that comes back. -/
def openthermCmd (encode : OtData → BitVec 16)
    (decode : BitVec 16 → OtData → OtData) (exchange : Exchange) (cmd : ℕ)
    (out : Option OtData) (inp : OtData) (write : Bool) :
    Except CmdFailure OtData :=
  let send := match out with
    | none => 0
    | some out => encode out
  let ret := if write then openthermDevWrite exchange cmd send
    else openthermDevRead exchange cmd send
  match ret with
  | .error e => .error e
  | .ok v => .ok (decode v inp)

/-- `(v ^ 0x8000) - 0x8000` -/
def signed16 (v : BitVec 16) : ℤ := ((v ^^^ 0x8000).toNat : ℤ) - 0x8000

/-- `(b ^ 0x80) - 0x80` -/
def signed8 (b : BitVec 8) : ℤ := ((b ^^^ 0x80).toNat : ℤ) - 0x80

/-- Flipping the sign bit and taking it away leaves the signed number. -/
theorem xor_two_pow_sub_eq_toInt {w : ℕ} (v : BitVec (w + 1)) :
    ((v.toNat ^^^ 2 ^ w : ℕ) : ℤ) - 2 ^ w = v.toInt := by
  have hlt : v.toNat < 2 * 2 ^ w := by
    rw [← pow_succ']
    exact v.isLt
  have hdiv := Nat.xor_div_two_pow (a := v.toNat) (b := 2 ^ w) (n := w)
  have hmod := Nat.xor_mod_two_pow (a := v.toNat) (b := 2 ^ w) (n := w)
  rw [Nat.div_self (by positivity)] at hdiv
  rw [Nat.mod_self, Nat.xor_zero] at hmod
  have hsum := Nat.div_add_mod (v.toNat ^^^ 2 ^ w) (2 ^ w)
  have hsum' := Nat.div_add_mod v.toNat (2 ^ w)
  rw [hdiv, hmod] at hsum
  rw [BitVec.toInt_eq_toNat_cond, ← hsum]
  rcases Nat.lt_or_ge v.toNat (2 ^ w) with hlow | hhigh
  · rw [Nat.div_eq_of_lt hlow, Nat.mod_eq_of_lt hlow,
      if_pos (by rw [pow_succ']; omega)]
    push_cast
    simp
  · have hone : v.toNat / 2 ^ w = 1 := Nat.div_eq_of_lt_le (by omega) (by omega)
    have hmodv : v.toNat % 2 ^ w = v.toNat - 2 ^ w := by
      rw [hone] at hsum'
      omega
    rw [hone, hmodv, Nat.xor_self, Nat.mul_zero, Nat.zero_add,
      if_neg (by rw [pow_succ']; omega), Nat.cast_sub hhigh, pow_succ']
    push_cast
    ring

theorem signed16_eq (v : BitVec 16) : signed16 v = v.toInt := by
  have h := xor_two_pow_sub_eq_toInt (w := 15) v
  rw [signed16, BitVec.toNat_xor]
  exact h

theorem signed8_eq (b : BitVec 8) : signed8 b = b.toInt := by
  have h := xor_two_pow_sub_eq_toInt (w := 7) b
  rw [signed8, BitVec.toNat_xor]
  exact h

/-- The conversion of a float to `int16_t`. -/
def toInt16 (x : CFloat32) : BitVec 16 := BitVec.ofInt 16 x.toInt32

/-- The fixed-point word of a float; the second branch is taken for NaN, too. -/
def fixed88 (x : CFloat32) : BitVec 16 :=
  let scaled := (ofFrac binary32 0x100 1).mul x
  if (Value.zero binary32).le x then toInt16 scaled
  else toInt16 ((ofFrac binary32 0x10000 1).sub scaled)

/-- `(float)i16 / 256.0f`, of which both operations are exact. -/
def float88 (v : BitVec 16) : CFloat32 := ofFrac binary32 (signed16 v) 256

/-- A handler reads one word and stores it. -/
theorem openthermCmd_read {encode : OtData → BitVec 16}
    {decode : BitVec 16 → OtData → OtData} {exchange : Exchange} {cmd : ℕ}
    {inp result : OtData}
    (h : openthermCmd encode decode exchange cmd none inp false =
      .ok result) :
    ∃ word, openthermDevRead exchange cmd 0 = .ok word ∧
      result = decode word inp := by
  simp only [openthermCmd, Bool.false_eq_true, if_false] at h
  split at h
  · cases h
  next word hword => exact ⟨word, hword, (Except.ok.inj h).symm⟩

theorem float88_eq (v : BitVec 16) :
    ∃ h, float88 v = .finite (v.toInt * 2 ^ 141) h := by
  have hlow := BitVec.le_toInt v
  have hhigh := BitVec.toInt_lt (x := v)
  obtain ⟨h, heq⟩ := Value.ofFrac_two_pow (f := binary32) (n := v.toInt)
    (k := 8) (by simp only [binary32]; omega) (by decide) (by decide)
  refine ⟨h, ?_⟩
  rw [float88, signed16_eq]
  exact heq

/-- `opentherm_cmd_uint16` -/
def openthermCmdUint16 := openthermCmd OtData.u16 fun v inp => inp.setU16 v

/-- `opentherm_cmd_int16` -/
def openthermCmdInt16 :=
  openthermCmd OtData.u16 fun v inp => inp.setI16 (signed16 v)

/-- `opentherm_cmd_float` -/
def openthermCmdFloat :=
  openthermCmd (fun out => fixed88 out.f) fun v inp => inp.setF (float88 v)

/-- `opentherm_cmd_int8arr` -/
def openthermCmdInt8arr :=
  openthermCmd OtData.u16 fun v inp =>
    inp.setI8arr (signed8 (v.setWidth 8)) (signed8 ((v >>> 8).setWidth 8))

/-- `opentherm_cmd_uint8arr` -/
def openthermCmdUint8arr :=
  openthermCmd OtData.u16 fun v inp =>
    inp.setU8arr (v.setWidth 8) ((v >>> 8).setWidth 8)

/-- The handlers that the table of commands names. -/
inductive DataHandler
  | uint16
  | int16
  | float
  | int8arr
  | uint8arr
  deriving DecidableEq

/-- `data_handler_t` -/
def DataHandler.func : DataHandler → Exchange → ℕ → Option OtData → OtData →
    Bool → Except CmdFailure OtData
  | .uint16 => openthermCmdUint16
  | .int16 => openthermCmdInt16
  | .float => openthermCmdFloat
  | .int8arr => openthermCmdInt8arr
  | .uint8arr => openthermCmdUint8arr

/-- The word that a handler sends. -/
def DataHandler.encode : DataHandler → OtData → BitVec 16
  | .float => fun out => fixed88 out.f
  | _ => OtData.u16

/-- The union after a handler has stored a word. -/
def DataHandler.store : DataHandler → BitVec 16 → OtData → OtData
  | .uint16 => fun v inp => inp.setU16 v
  | .int16 => fun v inp => inp.setI16 (signed16 v)
  | .float => fun v inp => inp.setF (float88 v)
  | .int8arr => fun v inp =>
      inp.setI8arr (signed8 (v.setWidth 8)) (signed8 ((v >>> 8).setWidth 8))
  | .uint8arr => fun v inp =>
      inp.setU8arr (v.setWidth 8) ((v >>> 8).setWidth 8)

theorem DataHandler.func_eq (h : DataHandler) :
    h.func = openthermCmd h.encode h.store := by
  cases h <;> rfl

/-! ## The table of commands -/

/-- `struct val_limits` -/
inductive ValLimits
  | none
  | i32 (min max : ℤ)
  | u32 (min max : ℕ)
  | float (min max : CFloat32)

/-- `ot_commands_t` without `supported`, which changes. -/
structure OtCommand where
  id : ℕ
  cmdRead : Bool
  cmdWrite : Bool
  func : DataHandler
  limits : ValLimits

/-- The limits of a float, which are given as integers. -/
def ValLimits.ofInts (min max : ℤ) : ValLimits :=
  .float (ofFrac binary32 min 1) (ofFrac binary32 max 1)

/-- `commands_init` -/
def commandsInit : List OtCommand :=
  [⟨dataIdStatus, true, false, .uint8arr, .none⟩,
   ⟨dataIdTset, false, true, .float, .none⟩,
   ⟨dataIdPrimaryConfig, false, true, .uint8arr, .none⟩,
   ⟨dataIdSecondaryConfig, true, false, .uint8arr, .none⟩,
   ⟨dataIdCommand, false, true, .uint8arr, .none⟩,
   ⟨dataIdAsfFault, true, false, .uint8arr, .none⟩,
   ⟨dataIdRbpFlags, true, false, .uint8arr, .none⟩,
   ⟨dataIdCoolingControl, false, true, .float, .none⟩,
   ⟨dataIdTsetch2, false, true, .float, .none⟩,
   ⟨dataIdTroverride, true, false, .float, .ofInts 0 30⟩,
   ⟨dataIdTspCount, true, false, .uint8arr, .none⟩,
   ⟨dataIdTspData, true, true, .uint8arr, .none⟩,
   ⟨dataIdFhbCount, true, false, .uint8arr, .none⟩,
   ⟨dataIdFhbData, true, false, .uint8arr, .none⟩,
   ⟨dataIdMaxRelModulation, false, true, .float, .none⟩,
   ⟨dataIdMaxCapacityMinModulation, true, false, .uint8arr, .none⟩,
   ⟨dataIdTrset, false, true, .float, .none⟩,
   ⟨dataIdRelModLevel, true, false, .float, .ofInts 0 100⟩,
   ⟨dataIdChPressure, true, false, .float, .ofInts 0 5⟩,
   ⟨dataIdDhwFlowRate, true, false, .float, .ofInts 0 16⟩,
   ⟨dataIdDayTime, true, true, .uint16, .none⟩,
   ⟨dataIdDate, true, true, .uint8arr, .none⟩,
   ⟨dataIdYear, true, true, .uint16, .u32 0 65535⟩,
   ⟨dataIdTrsetch2, false, true, .float, .none⟩,
   ⟨dataIdTr, false, true, .float, .none⟩,
   ⟨dataIdTboiler, true, false, .float, .none⟩,
   ⟨dataIdTdhw, true, false, .float, .none⟩,
   ⟨dataIdToutside, true, false, .float, .none⟩,
   ⟨dataIdTret, true, false, .float, .ofInts (-40) 127⟩,
   ⟨dataIdTstorage, true, false, .float, .ofInts (-40) 127⟩,
   ⟨dataIdTcollector, true, false, .int16, .i32 (-40) 250⟩,
   ⟨dataIdTflowch2, true, false, .float, .ofInts (-40) 127⟩,
   ⟨dataIdTdhw2, true, false, .float, .ofInts (-40) 127⟩,
   ⟨dataIdTexhaust, true, false, .int16, .i32 (-40) 500⟩,
   ⟨dataIdBoilerFanSpeed, true, false, .uint16, .none⟩,
   ⟨dataIdFlameCurrent, true, false, .float, .none⟩,
   ⟨dataIdTdhwsetBounds, true, false, .int8arr, .none⟩,
   ⟨dataIdMaxtsetBounds, true, false, .int8arr, .none⟩,
   ⟨dataIdHcratioBounds, true, false, .int8arr, .none⟩,
   ⟨dataIdTdhwset, true, true, .float, .ofInts 0 127⟩,
   ⟨dataIdMaxtset, true, true, .float, .ofInts 0 127⟩,
   ⟨dataIdHcratio, true, true, .float, .none⟩,
   ⟨dataIdBrand, true, false, .uint8arr, .none⟩,
   ⟨dataIdBrandVer, true, false, .uint8arr, .none⟩,
   ⟨dataIdBradSnumber, true, false, .uint8arr, .none⟩,
   ⟨dataIdRemoteOverrideFunction, true, false, .uint16, .none⟩,
   ⟨dataIdUnsuccessfulBurnerStarts, true, true, .uint16, .none⟩,
   ⟨dataIdFlameSignalLowCount, true, true, .uint16, .none⟩,
   ⟨dataIdOemDiagnosticCode, true, false, .uint16, .none⟩,
   ⟨dataIdBurnerStarts, true, true, .uint16, .u32 0 65535⟩,
   ⟨dataIdChPumpStarts, true, true, .uint16, .u32 0 65535⟩,
   ⟨dataIdDhwPumpStarts, true, true, .uint16, .u32 0 65535⟩,
   ⟨dataIdDhwBurnerStarts, true, true, .uint16, .u32 0 65535⟩,
   ⟨dataIdBurnerOperationHours, true, true, .uint16, .u32 0 65535⟩,
   ⟨dataIdChPumpOperationHours, true, true, .uint16, .u32 0 65535⟩,
   ⟨dataIdDhwPumpOperationHours, true, true, .uint16, .u32 0 65535⟩,
   ⟨dataIdDhwBurnerOperationHours, true, true, .uint16, .u32 0 65535⟩,
   ⟨dataIdOpenthermVersionPrimary, false, true, .float, .none⟩,
   ⟨dataIdOpenthermVersionSecondary, true, false, .float, .none⟩,
   ⟨dataIdPrimaryVersion, false, true, .uint8arr, .none⟩,
   ⟨dataIdSecondaryVersion, true, false, .uint8arr, .none⟩]

/-- `ot_commands[id]`; an entry that `commands_init` leaves empty allows no
command. -/
def otCommands (id : ℕ) : Option OtCommand :=
  commandsInit.find? fun cmd => cmd.id = id

/-- `CMD_SUPPORTED_RETRIES` -/
def cmdSupportedRetries : ℤ := 10

/-- `ot_cmd_data_validate` -/
def otCmdDataValidate (limits : ValLimits) (val : OtData) : Bool :=
  match limits with
  | .i32 min max => min ≤ val.i16 ∧ val.i16 ≤ max
  | .u32 min max => min ≤ val.u16.toNat ∧ val.u16.toNat ≤ max
  | .float min max => min.le val.f && val.f.le max
  | .none => true

/-! ## Reading and writing -/

/-- The field `supported` of the table. -/
abbrev Supported := ℕ → ℤ

/-- The count of the replies that an id is not known. -/
def noteFailure (supported : Supported) (id : ℕ) (e : CmdFailure) : Supported :=
  if e = .unknown then Function.update supported id (supported id - 1)
  else supported

/-- `ot_cmd_read`; returns whether the value in `inp` is valid, which is written
in any case in which the handler succeeds. -/
def otCmdRead (exchange : Exchange) (supported : Supported) (id : ℕ)
    (out : Option OtData) (inp : OtData) : Bool × Supported × OtData :=
  if dataIdCmdMax ≤ id then (false, supported, inp)
  else
    match otCommands id with
    | none => (false, supported, inp)
    | some cmd =>
        if cmd.cmdRead = false ∨ supported id = 0 then (false, supported, inp)
        else
          match cmd.func.func exchange id out inp false with
          | .error e => (false, noteFailure supported id e, inp)
          | .ok inp => (otCmdDataValidate cmd.limits inp, supported, inp)

/-- `ot_cmd_write` -/
def otCmdWrite (exchange : Exchange) (supported : Supported) (id : ℕ)
    (out : Option OtData) (inp : OtData) : Bool × Supported × OtData :=
  if dataIdCmdMax ≤ id then (false, supported, inp)
  else
    match otCommands id with
    | none => (false, supported, inp)
    | some cmd =>
        if cmd.cmdWrite = false ∨ supported id = 0 then (false, supported, inp)
        else
          match cmd.func.func exchange id out inp true with
          | .error e => (false, noteFailure supported id e, inp)
          | .ok inp => (true, supported, inp)

section

variable (exchange : Exchange) (supported : Supported) {id : ℕ}
  {cmd : OtCommand} (hcmd : otCommands id = some cmd) (hid : id < dataIdCmdMax)
  (inp : OtData)

include hcmd hid

/-- A read of an id asks the boiler once. -/
theorem otCmdRead_eq (hread : cmd.cmdRead = true) :
    otCmdRead exchange supported id none inp =
      if supported id = 0 then (false, supported, inp)
      else
        match openthermDevRead exchange id 0 with
        | .error e => (false, noteFailure supported id e, inp)
        | .ok word =>
            (otCmdDataValidate cmd.limits (cmd.func.store word inp), supported,
              cmd.func.store word inp) := by
  rw [otCmdRead, if_neg (Nat.not_le.mpr hid), hcmd]
  simp only [hread, Bool.true_eq_false, false_or, DataHandler.func_eq,
    openthermCmd, Bool.false_eq_true, if_false]
  cases openthermDevRead exchange id 0 <;> rfl

/-- A write of an id sends one word. -/
theorem otCmdWrite_eq (hwrite : cmd.cmdWrite = true) (out : OtData) :
    otCmdWrite exchange supported id (some out) inp =
      if supported id = 0 then (false, supported, inp)
      else
        match openthermDevWrite exchange id (cmd.func.encode out) with
        | .error e => (false, noteFailure supported id e, inp)
        | .ok word => (true, supported, cmd.func.store word inp) := by
  rw [otCmdWrite, if_neg (Nat.not_le.mpr hid), hcmd]
  simp only [hwrite, Bool.true_eq_false, false_or, DataHandler.func_eq,
    openthermCmd, if_true]
  cases openthermDevWrite exchange id (cmd.func.encode out) <;> rfl

end

/-- A valid read has stored the word of a reply, and it has passed the
limits. -/
theorem otCmdRead_valid {exchange : Exchange} {supported : Supported} {id : ℕ}
    {inp : OtData}
    (h : (otCmdRead exchange supported id none inp).1 = true) :
    ∃ cmd word, otCommands id = some cmd ∧ supported id ≠ 0 ∧
      exchange ⟨msgTypeReadData, BitVec.ofNat 8 id, 0⟩ =
        some ⟨msgTypeReadAck, BitVec.ofNat 8 id, word⟩ ∧
      otCmdDataValidate cmd.limits (cmd.func.store word inp) = true ∧
      otCmdRead exchange supported id none inp =
        (true, supported, cmd.func.store word inp) := by
  simp only [otCmdRead] at h ⊢
  split_ifs at h ⊢ with hmax
  cases hcmd : otCommands id with
  | none => simp [hcmd] at h
  | some cmd =>
      simp only [hcmd] at h ⊢
      split_ifs at h ⊢ with hrefuse
      rw [DataHandler.func_eq] at h ⊢
      cases hread : openthermCmd cmd.func.encode cmd.func.store exchange id
          none inp false with
      | error e => simp [hread] at h
      | ok result =>
          obtain ⟨word, hword, rfl⟩ := openthermCmd_read hread
          simp only [hread] at h ⊢
          exact ⟨cmd, word, rfl, fun hzero => hrefuse (.inr hzero),
            openthermDevExchange_ok hword, h, by rw [h]⟩

/-- A read changes only the count of its own id. -/
theorem otCmdRead_supported (exchange : Exchange) (supported : Supported)
    (id : ℕ) (inp : OtData) {other : ℕ} (hne : other ≠ id) :
    (otCmdRead exchange supported id none inp).2.1 other = supported other := by
  simp only [otCmdRead]
  split_ifs
  · rfl
  · split
    · rfl
    · split_ifs
      · rfl
      · split
        · simp only [noteFailure]
          split_ifs
          · exact Function.update_of_ne hne _ _
          · rfl
        · rfl

/-- A write changes only the count of its own id. -/
theorem otCmdWrite_supported (exchange : Exchange) (supported : Supported)
    (id : ℕ) (out : Option OtData) (inp : OtData) {other : ℕ}
    (hne : other ≠ id) :
    (otCmdWrite exchange supported id out inp).2.1 other = supported other := by
  simp only [otCmdWrite]
  split_ifs
  · rfl
  · split
    · rfl
    · split_ifs
      · rfl
      · split
        · simp only [noteFailure]
          split_ifs
          · exact Function.update_of_ne hne _ _
          · rfl
        · rfl

end Herak.OpenTherm
