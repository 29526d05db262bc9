import Herak.OpenTherm.System
import Mathlib.Tactic.FinCases

/-!
# Readings of the boiler

The formats, limits and data ids of the stored fields, as the table of commands
and the declarations of the fields give them, against what the cycles store.
-/

namespace Herak.OpenTherm

open BinaryFloat CFloat

/-! ## What a reply says -/

/-- The value of a word in the format of its id. -/
inductive OtValue
  | u16 (v : BitVec 16)
  | i16 (v : ℤ)
  | float (v : CFloat32)
  | i8arr (b0 b1 : ℤ)
  | u8arr (b0 b1 : BitVec 8)

/-- The decoding that the handler of an id declares. -/
def DataHandler.decode (h : DataHandler) (word : BitVec 16) : OtValue :=
  match h with
  | .uint16 => .u16 word
  | .int16 => .i16 word.toInt
  | .float => .float (ofFrac binary32 word.toInt 256)
  | .int8arr => .i8arr (word.setWidth 8).toInt ((word >>> 8).setWidth 8).toInt
  | .uint8arr => .u8arr (word.setWidth 8) ((word >>> 8).setWidth 8)

/-- The value lies within the limits. -/
def ValLimits.Within (limits : ValLimits) (v : OtValue) : Prop :=
  match limits, v with
  | .none, _ => True
  | .i32 min max, .i16 v => min ≤ v ∧ v ≤ max
  | .u32 min max, .u16 v => min ≤ v.toNat ∧ v.toNat ≤ max
  | .float min max, .float v => min.le v = true ∧ v.le max = true
  | _, _ => False

/-- The request that reads a data id. -/
def readRequest (id : ℕ) : OpenthermMsg :=
  ⟨msgTypeReadData, BitVec.ofNat 8 id, 0⟩

/-- The reply that gives the value of a data id. -/
def readAck (id : ℕ) (word : BitVec 16) : OpenthermMsg :=
  ⟨msgTypeReadAck, BitVec.ofNat 8 id, word⟩

/-- The boiler sends a valid value of a data id. -/
def ValidReply (exchange : Exchange) (id : ℕ) (v : OtValue) : Prop :=
  ∃ cmd word, otCommands id = some cmd ∧
    exchange (readRequest id) = some (readAck id word) ∧
    cmd.func.decode word = v ∧ cmd.limits.Within v

/-! ## The stored fields -/

/-- The fields that the cycles of reads store. -/
inductive Field
  | flameCurrent
  | modulationLevel
  | chPressure
  | dhwFlowRate
  | flowTemperature
  | dhwTemperature
  | returnTemperature
  | exhaustTemperature
  | faultCode
  | faultSvcNeeded
  | faultLowWaterPressure
  | faultFlame
  | faultLowAirPressure
  | faultHighWaterTemperature
  | faultBurnerStarts
  | faultFlameLow
  | faultOemCode
  | chMaxCfg
  | chMinCfg
  | chTemperatureSetpointRangemax
  | chTemperatureSetpointRangemin
  | desiredChMax
  | dhwMaxCfg
  | dhwMinCfg
  | dhwTemperatureSetpointRangemax
  | dhwTemperatureSetpointRangemin
  | desiredDhwMax
  | actualChMax
  deriving DecidableEq

/-- The content of a field, by its C type. -/
inductive Stored
  | float (v : CFloat32)
  | int16 (v : ℤ)
  | uint16 (v : BitVec 16)
  | uint8 (v : ℤ)
  | flag (v : Bool)

namespace Field

/-- The data id of a field, which its declaration names. -/
def id : Field → ℕ
  | .flameCurrent => dataIdFlameCurrent
  | .modulationLevel => dataIdRelModLevel
  | .chPressure => dataIdChPressure
  | .dhwFlowRate => dataIdDhwFlowRate
  | .flowTemperature => dataIdTboiler
  | .dhwTemperature => dataIdTdhw
  | .returnTemperature => dataIdTret
  | .exhaustTemperature => dataIdTexhaust
  | .faultCode | .faultSvcNeeded | .faultLowWaterPressure | .faultFlame
  | .faultLowAirPressure | .faultHighWaterTemperature => dataIdAsfFault
  | .faultBurnerStarts => dataIdUnsuccessfulBurnerStarts
  | .faultFlameLow => dataIdFlameSignalLowCount
  | .faultOemCode => dataIdOemDiagnosticCode
  | .chMaxCfg | .chMinCfg | .chTemperatureSetpointRangemax
  | .chTemperatureSetpointRangemin | .desiredChMax => dataIdMaxtsetBounds
  | .dhwMaxCfg | .dhwMinCfg | .dhwTemperatureSetpointRangemax
  | .dhwTemperatureSetpointRangemin | .desiredDhwMax => dataIdTdhwsetBounds
  | .actualChMax => dataIdMaxtset

def get (field : Field) (ctx : OpenthermContext) : Stored :=
  match field with
  | .flameCurrent => .float ctx.data.flameCurrent
  | .modulationLevel => .float ctx.data.modulationLevel
  | .chPressure => .float ctx.data.chPressure
  | .dhwFlowRate => .float ctx.data.dhwFlowRate
  | .flowTemperature => .float ctx.data.flowTemperature
  | .dhwTemperature => .float ctx.data.dhwTemperature
  | .returnTemperature => .float ctx.data.returnTemperature
  | .exhaustTemperature => .int16 ctx.data.exhaustTemperature.toInt
  | .faultCode => .uint8 ctx.errors.faultCode.toNat
  | .faultSvcNeeded => .flag ctx.errors.faultSvcNeeded
  | .faultLowWaterPressure => .flag ctx.errors.faultLowWaterPressure
  | .faultFlame => .flag ctx.errors.faultFlame
  | .faultLowAirPressure => .flag ctx.errors.faultLowAirPressure
  | .faultHighWaterTemperature => .flag ctx.errors.faultHighWaterTemperature
  | .faultBurnerStarts => .uint16 ctx.errors.faultBurnerStarts
  | .faultFlameLow => .uint16 ctx.errors.faultFlameLow
  | .faultOemCode => .uint16 ctx.errors.faultOemCode
  | .chMaxCfg => .uint8 ctx.devConfig.chMaxCfg.toNat
  | .chMinCfg => .uint8 ctx.devConfig.chMinCfg.toNat
  | .chTemperatureSetpointRangemax =>
      .float ctx.devConfig.chTemperatureSetpointRangemax
  | .chTemperatureSetpointRangemin =>
      .float ctx.devConfig.chTemperatureSetpointRangemin
  | .desiredChMax => .float ctx.paramDesired.chMax
  | .dhwMaxCfg => .uint8 ctx.devConfig.dhwMaxCfg.toNat
  | .dhwMinCfg => .uint8 ctx.devConfig.dhwMinCfg.toNat
  | .dhwTemperatureSetpointRangemax =>
      .float ctx.devConfig.dhwTemperatureSetpointRangemax
  | .dhwTemperatureSetpointRangemin =>
      .float ctx.devConfig.dhwTemperatureSetpointRangemin
  | .desiredDhwMax => .float ctx.paramDesired.dhwMax
  | .actualChMax => .float ctx.paramActual.chMax

/-- What a field holds for a value of its data id: the value, or the part of it
that the field is for. -/
def content (field : Field) (v : OtValue) : Option Stored :=
  match field, v with
  | .flameCurrent, .float v | .modulationLevel, .float v
  | .chPressure, .float v | .dhwFlowRate, .float v
  | .flowTemperature, .float v | .dhwTemperature, .float v
  | .returnTemperature, .float v | .actualChMax, .float v => some (.float v)
  | .exhaustTemperature, .i16 v => some (.int16 v)
  | .faultCode, .u8arr b0 _ => some (.uint8 b0.toNat)
  | .faultSvcNeeded, .u8arr _ b1 => some (.flag (b1.getLsbD 0))
  | .faultLowWaterPressure, .u8arr _ b1 => some (.flag (b1.getLsbD 2))
  | .faultFlame, .u8arr _ b1 => some (.flag (b1.getLsbD 3))
  | .faultLowAirPressure, .u8arr _ b1 => some (.flag (b1.getLsbD 4))
  | .faultHighWaterTemperature, .u8arr _ b1 => some (.flag (b1.getLsbD 5))
  | .faultBurnerStarts, .u16 v | .faultFlameLow, .u16 v
  | .faultOemCode, .u16 v => some (.uint16 v)
  | .chMaxCfg, .i8arr _ b1 | .dhwMaxCfg, .i8arr _ b1 => some (.uint8 b1)
  | .chMinCfg, .i8arr b0 _ | .dhwMinCfg, .i8arr b0 _ => some (.uint8 b0)
  | .chTemperatureSetpointRangemax, .i8arr _ b1
  | .dhwTemperatureSetpointRangemax, .i8arr _ b1 | .desiredChMax, .i8arr _ b1
  | .desiredDhwMax, .i8arr _ b1 => some (.float (floatOf b1))
  | .chTemperatureSetpointRangemin, .i8arr b0 _
  | .dhwTemperatureSetpointRangemin, .i8arr b0 _ => some (.float (floatOf b0))
  | _, _ => none

/-- The field is unchanged, or holds what the boiler has just sent. -/
def Follows (field : Field) (exchange : Exchange)
    (before after : OpenthermContext) : Prop :=
  field.get after = field.get before ∨
    ∃ v, ValidReply exchange field.id v ∧
      field.content v = some (field.get after)

end Field

/-- The reads of a cycle, with what the boiler replies. -/
def OtEvent.cycle : OtEvent → Option (Exchange × List Read)
  | .readData exchange => some (exchange, dataReads)
  | .readErrors exchange => some (exchange, errorReads)
  | .readCfgData exchange => some (exchange, cfgReads)
  | _ => none

/-- Every field follows the boiler in a cycle of reads. -/
def ReadingsFollow (ctx : OpenthermContext) (e : OtEvent) : Prop :=
  ∀ exchange reads, e.cycle = some (exchange, reads) →
    ∀ field : Field, field.Follows exchange ctx (openthermMachine.step ctx e)

/-- The readers of a data id treat this word as the table declares it: it is
not a temperature of the exhaust, which is stored as a float, nor a bound below
0, which is stored as unsigned. -/
def ReadAsDeclared (id : ℕ) (word : BitVec 16) : Prop :=
  id ≠ dataIdTexhaust ∧
    (id = dataIdMaxtsetBounds ∨ id = dataIdTdhwsetBounds →
      (word.setWidth 8).msb = false ∧ ((word >>> 8).setWidth 8).msb = false)

/-- All valid replies of a cycle are read as declared. -/
def RepliesMeet (ctx : OpenthermContext) (e : OtEvent) : Prop :=
  ∀ exchange reads, e.cycle = some (exchange, reads) →
    ∀ r ∈ reads, ctx.supported r.id ≠ 0 → ∀ cmd word,
      otCommands r.id = some cmd →
      exchange (readRequest r.id) = some (readAck r.id word) →
      cmd.limits.Within (cmd.func.decode word) → ReadAsDeclared r.id word

/-! ## Handlers and limits -/

/-- The limits of a command are of the member that its handler stores. -/
def ValLimits.Fits (limits : ValLimits) (h : DataHandler) : Prop :=
  match limits, h with
  | .none, _ | .i32 _ _, .int16 | .u32 _ _, .uint16 | .float _ _, .float => True
  | _, _ => False

theorem commandsInit_fits : ∀ cmd ∈ commandsInit, cmd.limits.Fits cmd.func := by
  intro cmd h
  fin_cases h <;> trivial

theorem otCommands_fits {id : ℕ} {cmd : OtCommand}
    (h : otCommands id = some cmd) : cmd.limits.Fits cmd.func :=
  commandsInit_fits cmd (List.mem_of_find?_eq_some h)

namespace DataHandler

variable (word : BitVec 16) (inp : OtData)

theorem uint16_u16 : (uint16.store word inp).u16 = word :=
  OtData.u16_setU16 inp word

theorem int16_i16 : (int16.store word inp).i16 = word.toInt := by
  simp only [store, OtData.setI16, OtData.i16, OtData.u16_setU16, signed16_eq,
    BitVec.ofInt_toInt]

theorem float_f :
    (float.store word inp).f = ofFrac binary32 word.toInt 256 := by
  obtain ⟨h, heq⟩ := float88_eq word
  simp only [store, heq, OtData.f_setF]
  rw [← heq, float88, signed16_eq]

theorem uint8arr_u8arr0 :
    (uint8arr.store word inp).u8arr0 = word.setWidth 8 :=
  OtData.u8arr0_setU8arr _ _ _

theorem uint8arr_u8arr1 :
    (uint8arr.store word inp).u8arr1 = (word >>> 8).setWidth 8 :=
  OtData.u8arr1_setU8arr _ _ _

theorem int8arr_u8arr0 :
    (int8arr.store word inp).u8arr0 = word.setWidth 8 := by
  simp only [store, OtData.setI8arr, OtData.u8arr0_setU8arr, signed8_eq,
    BitVec.ofInt_toInt]

theorem int8arr_u8arr1 :
    (int8arr.store word inp).u8arr1 = (word >>> 8).setWidth 8 := by
  simp only [store, OtData.setI8arr, OtData.u8arr1_setU8arr, signed8_eq,
    BitVec.ofInt_toInt]

end DataHandler

/-- What passes the validation lies within the limits. -/
theorem within_of_validate {limits : ValLimits} {h : DataHandler}
    {word : BitVec 16} {inp : OtData} (hfits : limits.Fits h)
    (hvalid : otCmdDataValidate limits (h.store word inp) = true) :
    limits.Within (h.decode word) := by
  cases limits with
  | none => trivial
  | i32 min max =>
      cases h <;> first | exact hfits.elim | skip
      simpa [otCmdDataValidate, DataHandler.int16_i16, ValLimits.Within,
        DataHandler.decode] using hvalid
  | u32 min max =>
      cases h <;> first | exact hfits.elim | skip
      simpa [otCmdDataValidate, DataHandler.uint16_u16, ValLimits.Within,
        DataHandler.decode] using hvalid
  | float min max =>
      cases h <;> first | exact hfits.elim | skip
      simpa [otCmdDataValidate, DataHandler.float_f, ValLimits.Within,
        DataHandler.decode] using hvalid

/-! ## One read -/

theorem keepFloat_eq (old new : CFloat32) :
    keepFloat old new = old ∨ keepFloat old new = new := by
  rw [keepFloat]
  split
  · exact .inl rfl
  · exact .inr rfl

/-- What is kept compares like the new value. -/
theorem keepFloat_key {old new : CFloat32} :
    (keepFloat old new).key = new.key := by
  rw [keepFloat]
  split
  next heq =>
    simp only [Value.eq] at heq
    split at heq
    next a b ha hb =>
      rw [ha, hb, of_decide_eq_true heq]
    · cases heq
  · rfl

/-- A level within its limits is not negative. -/
theorem level_kept (old : CFloat32) {new : CFloat32}
    (h : (Value.zero binary32).le new = true) :
    (keepFloat old new).lt (.zero _) = false := by
  simp only [Value.le, Value.lt, keepFloat_key] at h ⊢
  split at h
  next a b ha hb =>
    rw [ha, hb]
    simpa using h
  · cases h

namespace Field

/-- The read that stores a field. -/
def read : Field → Read
  | .flameCurrent => readFlameCurrent
  | .modulationLevel => readRelModLevel
  | .chPressure => readChPressure
  | .dhwFlowRate => readDhwFlowRate
  | .flowTemperature => readTboiler
  | .dhwTemperature => readTdhw
  | .returnTemperature => readTret
  | .exhaustTemperature => readTexhaust
  | .faultCode | .faultSvcNeeded | .faultLowWaterPressure | .faultFlame
  | .faultLowAirPressure | .faultHighWaterTemperature => readAsfFault
  | .faultBurnerStarts => readUnsuccessfulBurnerStarts
  | .faultFlameLow => readFlameSignalLowCount
  | .faultOemCode => readOemDiagnosticCode
  | .chMaxCfg | .chMinCfg | .chTemperatureSetpointRangemax
  | .chTemperatureSetpointRangemin | .desiredChMax => readMaxtsetBounds
  | .dhwMaxCfg | .dhwMinCfg | .dhwTemperatureSetpointRangemax
  | .dhwTemperatureSetpointRangemin | .desiredDhwMax => readTdhwsetBounds
  | .actualChMax => readMaxtset

/-- The reads of all cycles. -/
def reads : List Read := dataReads ++ errorReads ++ cfgReads

theorem reads_supported : ∀ r ∈ reads, ∀ repl ctx,
    (r.store repl ctx).supported = ctx.supported := by
  intro r hr repl ctx
  fin_cases hr <;> rfl

/-- A read stores the fields of its data id only. -/
theorem read_frame : ∀ r ∈ reads, ∀ field : Field, r.id ≠ field.id →
    ∀ repl ctx, field.get (r.store repl ctx) = field.get ctx := by
  intro r hr field hne repl ctx
  fin_cases hr <;> cases field <;> first | rfl | exact absurd rfl hne

/-- A field is stored by one read. -/
theorem read_unique : ∀ r ∈ reads, ∀ field : Field, r.id = field.id →
    r = field.read := by
  intro r hr field hid
  fin_cases hr <;> cases field <;> first | rfl | cases hid

/-- A float that a read keeps in one field. -/
theorem float_stored {old : CFloat32} {word : BitVec 16} (inp : OtData)
    {field : Field} {ctx after : OpenthermContext}
    (hold : field.get ctx = .float old)
    (hnew : field.get after =
      .float (keepFloat old (DataHandler.float.store word inp).f))
    (hcontent : ∀ v, field.content (.float v) = some (.float v)) :
    field.get after = field.get ctx ∨
      field.content (DataHandler.float.decode word) =
        some (field.get after) := by
  rw [DataHandler.float_f] at hnew
  rw [hold, hnew, DataHandler.decode, hcontent]
  exact (keepFloat_eq old _).imp (congrArg _) fun h => by rw [h]

theorem and_bit (b : BitVec 8) (i : ℕ) (hi : i < 8) :
    (b &&& BitVec.twoPow 8 i != 0) = b.getLsbD i := by
  rw [BitVec.and_twoPow]
  cases b.getLsbD i
  · rfl
  · have hne : BitVec.twoPow 8 i ≠ 0 := by
      intro h
      have hbit := congrArg (BitVec.getLsbD · i) h
      simp [hi] at hbit
    simpa using hne

/-- The signed number of a byte below `0x80` is its unsigned one. -/
theorem toInt_of_msb {b : BitVec 8} (h : b.msb = false) :
    b.toInt = b.toNat := by
  rw [BitVec.toInt_eq_msb_cond, h]
  rfl

section

variable {word : BitVec 16} (inp : OtData)

/-- The lower bound of a reply, as the readers see it. -/
theorem lower_bound (h : (word.setWidth 8).msb = false) :
    (((DataHandler.int8arr.store word inp).u8arr0.toNat : ℕ) : ℤ) =
      (word.setWidth 8).toInt := by
  rw [DataHandler.int8arr_u8arr0, toInt_of_msb h]

/-- The upper bound of a reply, as the readers see it. -/
theorem upper_bound (h : ((word >>> 8).setWidth 8).msb = false) :
    (((DataHandler.int8arr.store word inp).u8arr1.toNat : ℕ) : ℤ) =
      ((word >>> 8).setWidth 8).toInt := by
  rw [DataHandler.int8arr_u8arr1, toInt_of_msb h]

/-- A fault flag of a reply, as the readers see it. -/
theorem fault_flag (i : ℕ) (hi : i < 8) :
    ((DataHandler.uint8arr.store word inp).u8arr1 &&& BitVec.twoPow 8 i != 0) =
      ((word >>> 8).setWidth 8).getLsbD i := by
  rw [DataHandler.uint8arr_u8arr1, and_bit _ i hi]

/-- A range that a read keeps unless the bound is 0. -/
theorem range_stored {old new : CFloat32} {used : Prop} [Decidable used]
    {field : Field} {ctx after : OpenthermContext} {v : OtValue}
    (hold : field.get ctx = .float old)
    (hnew : field.get after = .float (if used then new else old))
    (hcontent : field.content v = some (.float new)) :
    field.get after = field.get ctx ∨
      field.content v = some (field.get after) := by
  rw [hold, hnew, hcontent]
  split
  · exact .inr rfl
  · exact .inl rfl

end

/-- A valid reply is stored as it is declared. -/
theorem stored_as_declared (field : Field) {cmd : OtCommand}
    (hcmd : otCommands field.id = some cmd) {word : BitVec 16}
    (hread : ReadAsDeclared field.id word)
    (hwithin : cmd.limits.Within (cmd.func.decode word)) (inp : OtData)
    (ctx : OpenthermContext) :
    field.get (field.read.store (cmd.func.store word inp) ctx) =
        field.get ctx ∨
      field.content (cmd.func.decode word) =
        some (field.get (field.read.store (cmd.func.store word inp) ctx)) := by
  obtain ⟨hexhaust, hbounds⟩ := hread
  cases field
  case exhaustTemperature => exact absurd rfl hexhaust
  case modulationLevel =>
    obtain rfl := Option.some.inj hcmd
    refine float_stored inp rfl ?_ fun _ => rfl
    have hlevel := level_kept ctx.data.modulationLevel hwithin.1
    rw [← DataHandler.float_f word inp] at hlevel
    simp only [get, read, readRelModLevel, hlevel]
    rfl
  case flameCurrent | chPressure | dhwFlowRate | flowTemperature
      | dhwTemperature | returnTemperature | actualChMax =>
    obtain rfl := Option.some.inj hcmd
    exact float_stored inp rfl rfl fun _ => rfl
  case faultCode =>
    obtain rfl := Option.some.inj hcmd
    exact .inr (congrArg (fun b : BitVec 8 => some (Stored.uint8 b.toNat))
      (DataHandler.uint8arr_u8arr0 word inp).symm)
  case faultSvcNeeded =>
    obtain rfl := Option.some.inj hcmd
    exact .inr (congrArg (some ∘ Stored.flag)
      (fault_flag inp 0 (by decide)).symm)
  case faultLowWaterPressure =>
    obtain rfl := Option.some.inj hcmd
    exact .inr (congrArg (some ∘ Stored.flag)
      (fault_flag inp 2 (by decide)).symm)
  case faultFlame =>
    obtain rfl := Option.some.inj hcmd
    exact .inr (congrArg (some ∘ Stored.flag)
      (fault_flag inp 3 (by decide)).symm)
  case faultLowAirPressure =>
    obtain rfl := Option.some.inj hcmd
    exact .inr (congrArg (some ∘ Stored.flag)
      (fault_flag inp 4 (by decide)).symm)
  case faultHighWaterTemperature =>
    obtain rfl := Option.some.inj hcmd
    exact .inr (congrArg (some ∘ Stored.flag)
      (fault_flag inp 5 (by decide)).symm)
  case faultBurnerStarts | faultFlameLow | faultOemCode =>
    obtain rfl := Option.some.inj hcmd
    exact .inr (congrArg (some ∘ Stored.uint16)
      (DataHandler.uint16_u16 word inp).symm)
  case chMaxCfg =>
    obtain rfl := Option.some.inj hcmd
    exact .inr (congrArg (some ∘ Stored.uint8)
      (upper_bound inp (hbounds (.inl rfl)).2).symm)
  case dhwMaxCfg =>
    obtain rfl := Option.some.inj hcmd
    exact .inr (congrArg (some ∘ Stored.uint8)
      (upper_bound inp (hbounds (.inr rfl)).2).symm)
  case chMinCfg =>
    obtain rfl := Option.some.inj hcmd
    exact .inr (congrArg (some ∘ Stored.uint8)
      (lower_bound inp (hbounds (.inl rfl)).1).symm)
  case dhwMinCfg =>
    obtain rfl := Option.some.inj hcmd
    exact .inr (congrArg (some ∘ Stored.uint8)
      (lower_bound inp (hbounds (.inr rfl)).1).symm)
  case chTemperatureSetpointRangemax | desiredChMax =>
    obtain rfl := Option.some.inj hcmd
    refine range_stored rfl rfl ?_
    exact congrArg (some ∘ Stored.float ∘ floatOf)
      (upper_bound inp (hbounds (.inl rfl)).2).symm
  case dhwTemperatureSetpointRangemax | desiredDhwMax =>
    obtain rfl := Option.some.inj hcmd
    refine range_stored rfl rfl ?_
    exact congrArg (some ∘ Stored.float ∘ floatOf)
      (upper_bound inp (hbounds (.inr rfl)).2).symm
  case chTemperatureSetpointRangemin =>
    obtain rfl := Option.some.inj hcmd
    refine range_stored rfl rfl ?_
    exact congrArg (some ∘ Stored.float ∘ floatOf)
      (lower_bound inp (hbounds (.inl rfl)).1).symm
  case dhwTemperatureSetpointRangemin =>
    obtain rfl := Option.some.inj hcmd
    refine range_stored rfl rfl ?_
    exact congrArg (some ∘ Stored.float ∘ floatOf)
      (lower_bound inp (hbounds (.inr rfl)).1).symm

/-! ## Cycles -/

theorem Follows.trans {field : Field} {exchange : Exchange}
    {a b c : OpenthermContext} (hab : field.Follows exchange a b)
    (hbc : field.Follows exchange b c) : field.Follows exchange a c := by
  rcases hbc with hbc | hbc
  · rcases hab with hab | ⟨v, hreply, hcontent⟩
    · exact .inl (hbc.trans hab)
    · exact .inr ⟨v, hreply, by rw [hcontent, hbc]⟩
  · exact .inr hbc

/-- The count of the failures is not one of the fields. -/
theorem get_supported (field : Field) (ctx : OpenthermContext)
    (supported : Supported) :
    field.get { ctx with supported := supported } = field.get ctx := by
  cases field <;> rfl

/-- One read of a cycle. -/
theorem read_follows {exchange : Exchange} {r : Read} (hr : r ∈ reads)
    (ctx : OpenthermContext) (repl : OtData)
    (hmeets : ctx.supported r.id ≠ 0 → ∀ cmd word,
      otCommands r.id = some cmd →
      exchange (readRequest r.id) = some (readAck r.id word) →
      cmd.limits.Within (cmd.func.decode word) → ReadAsDeclared r.id word)
    (field : Field) :
    let ret := otCmdRead exchange ctx.supported r.id none repl
    field.Follows exchange ctx
      (if ret.1 = true then r.store ret.2.2 { ctx with supported := ret.2.1 }
        else { ctx with supported := ret.2.1 }) := by
  intro ret
  split
  next hvalid =>
    by_cases hid : r.id = field.id
    · obtain rfl := read_unique r hr field hid
      obtain ⟨cmd, word, hcmd, hsupported, hreply, hvalidate, hret⟩ :=
        otCmdRead_valid hvalid
      have hwithin := within_of_validate (otCommands_fits hcmd) hvalidate
      have hread := hmeets hsupported cmd word hcmd hreply hwithin
      rw [hid] at hcmd hread hreply
      have hstored := stored_as_declared field hcmd hread hwithin repl
        { ctx with supported := ret.2.1 }
      have hunion : ret.2.2 = cmd.func.store word repl :=
        congrArg (fun x => x.2.2) hret
      rw [hunion]
      rcases hstored with hstored | hstored
      · exact .inl (hstored.trans (get_supported field ctx _))
      · exact .inr ⟨_, ⟨cmd, word, hcmd, hreply, rfl, hwithin⟩, hstored⟩
    · exact .inl ((read_frame r hr field hid _ _).trans
        (get_supported field ctx _))
  · exact .inl (get_supported field ctx _)

/-- The reads of a cycle have different ids, so that the replies to the others
do not change whether an id is supported. -/
theorem readAll_follows {exchange : Exchange} {rs : List Read}
    (hrs : ∀ r ∈ rs, r ∈ reads) (hdistinct : (rs.map Read.id).Nodup)
    (ctx : OpenthermContext) (repl : OtData)
    (hmeets : ∀ r ∈ rs, ctx.supported r.id ≠ 0 → ∀ cmd word,
      otCommands r.id = some cmd →
      exchange (readRequest r.id) = some (readAck r.id word) →
      cmd.limits.Within (cmd.func.decode word) → ReadAsDeclared r.id word)
    (field : Field) :
    field.Follows exchange ctx (readAll exchange rs repl ctx) := by
  induction rs generalizing ctx repl with
  | nil => exact .inl rfl
  | cons r rs ih =>
      have hr := hrs r List.mem_cons_self
      rw [List.map_cons, List.nodup_cons] at hdistinct
      refine (read_follows hr ctx repl
        (hmeets r List.mem_cons_self) field).trans ?_
      refine ih (fun q hq => hrs q (List.mem_cons_of_mem _ hq)) hdistinct.2 _ _
        fun q hq hsupported => hmeets q (List.mem_cons_of_mem _ hq) ?_
      have hne : q.id ≠ r.id := fun heq =>
        hdistinct.1 (heq ▸ List.mem_map_of_mem hq)
      have hsame := otCmdRead_supported exchange ctx.supported r.id repl hne
      split at hsupported
      · rw [reads_supported r hr] at hsupported
        exact fun hzero => hsupported (hsame.trans hzero)
      · exact fun hzero => hsupported (hsame.trans hzero)

end Field

/-! ## Runs -/

/-- A cycle whose valid replies are read as declared leaves every field
unchanged or stores what the boiler has just sent. -/
theorem readingsFollow_of_repliesMeet (ctx : OpenthermContext) (e : OtEvent)
    (h : RepliesMeet ctx e) : ReadingsFollow ctx e := by
  intro exchange reads hcycle
  have hmeets := h exchange reads hcycle
  cases e with
  | readData exchange =>
      cases hcycle
      exact Field.readAll_follows (fun r hr => by simp [Field.reads, hr])
        (by decide) ctx .zero hmeets
  | readErrors exchange =>
      cases hcycle
      exact Field.readAll_follows (fun r hr => by simp [Field.reads, hr])
        (by decide) ctx .zero hmeets
  | readCfgData exchange =>
      cases hcycle
      exact Field.readAll_follows (fun r hr => by simp [Field.reads, hr])
        (by decide) ctx .zero hmeets
  | syncParams | setChTemp | setDwhTemp => cases hcycle

/-- In every run, the readings are what the boiler sent as long as all its
valid replies are read as declared. -/
theorem readings_follow_replies (ctx : OpenthermContext)
    (events : List OtEvent)
    (h : openthermMachine.Along RepliesMeet ctx events) :
    openthermMachine.Along ReadingsFollow ctx events :=
  h.mono readingsFollow_of_repliesMeet

/-- A boiler that returns water of 45.0 degrees, reports bounds of 20 and 80
for the heating, and knows no other ids. -/
def boilerAt45 : Exchange := fun request =>
  if request = readRequest dataIdTret then
    some (readAck dataIdTret 0x2D00)
  else if request = readRequest dataIdMaxtsetBounds then
    some (readAck dataIdMaxtsetBounds 0x5014)
  else some ⟨msgTypeUnknownDataId, request.id, 0⟩

theorem boilerAt45_unknown {id : ℕ}
    (hret : readRequest id ≠ readRequest dataIdTret)
    (hbounds : readRequest id ≠ readRequest dataIdMaxtsetBounds)
    (word : BitVec 16) :
    boilerAt45 (readRequest id) ≠ some (readAck id word) := by
  rw [boilerAt45, if_neg hret, if_neg hbounds]
  intro h
  have htype : msgTypeUnknownDataId = msgTypeReadAck :=
    congrArg OpenthermMsg.msgType (Option.some.inj h)
  exact absurd htype (by decide)

theorem readings_follow_replies_boilerAt45 :
    openthermMachine.Along ReadingsFollow openthermDataInit
      [.readData boilerAt45, .readCfgData boilerAt45] := by
  refine readings_follow_replies _ _ ⟨?_, ?_, trivial⟩
  · intro exchange reads hcycle r hr _ cmd word _ hreply _
    cases hcycle
    refine ⟨?_, fun hid => ?_⟩
    · intro hid
      rw [hid] at hreply
      exact boilerAt45_unknown (by decide) (by decide) word hreply
    · fin_cases hr <;> exact absurd hid (by decide)
  · intro exchange reads hcycle r hr _ cmd word _ hreply _
    cases hcycle
    fin_cases hr
    · obtain rfl : (0x5014 : BitVec 16) = word :=
        congrArg OpenthermMsg.value (Option.some.inj hreply)
      exact ⟨by decide, fun _ => by decide⟩
    · exact (boilerAt45_unknown (by decide) (by decide) word hreply).elim
    · exact ⟨by decide, fun hid => absurd hid (by decide)⟩

/-- The same boiler with an exhaust of 100 degrees. -/
def boilerWithExhaust : Exchange := fun request =>
  if request = readRequest dataIdTexhaust then
    some (readAck dataIdTexhaust 100)
  else boilerAt45 request

theorem boilerWithExhaust_stored :
    (openthermReadData boilerWithExhaust
      openthermDataInit).data.exhaustTemperature.toInt = 45 := by
  decide +kernel

/-- The temperature of the exhaust is read as a float from a union that holds
an integer over a part of the temperature of the return water. -/
theorem exhaust_not_followed :
    ¬openthermMachine.Along ReadingsFollow openthermDataInit
      [.readData boilerWithExhaust] := by
  rintro ⟨hfollow, -⟩
  have hstored := boilerWithExhaust_stored
  rcases hfollow _ _ rfl .exhaustTemperature with h | ⟨v, hreply, hcontent⟩
  · have hsame := Stored.int16.inj h
    rw [show (openthermMachine.step openthermDataInit
      (.readData boilerWithExhaust)) = openthermReadData boilerWithExhaust
        openthermDataInit from rfl, hstored] at hsame
    exact absurd hsame (by decide)
  · obtain ⟨cmd, word, hcmd, hword, rfl, -⟩ := hreply
    obtain rfl := Option.some.inj hcmd
    obtain rfl : (100 : BitVec 16) = word :=
      congrArg OpenthermMsg.value (Option.some.inj hword)
    have hvalue := Stored.int16.inj (Option.some.inj hcontent)
    rw [show (openthermMachine.step openthermDataInit
      (.readData boilerWithExhaust)) = openthermReadData boilerWithExhaust
        openthermDataInit from rfl, hstored] at hvalue
    exact absurd hvalue (by decide)

end Herak.OpenTherm
