import Herak.OpenTherm.FixedPoint
import Herak.OpenTherm.Readings

/-!
# Setpoints

The setpoints of the heating and of the hot water: what a command asks for,
which bounds the boiler has reported, and what a synchronisation writes.
-/

namespace Herak.OpenTherm

open BinaryFloat CFloat CString

/-! ## Fixed-point numbers -/

/-- The number of 256ths in a float, rounded down. -/
def fixedPoint : CFloat32 → ℤ
  | .finite units _ => units * 256 / 2 ^ 149
  | _ => 0

/-- The float is a number of the range. -/
def Between (lo hi : ℤ) : CFloat32 → Prop
  | .finite units _ => lo * 2 ^ 149 ≤ units ∧ units ≤ hi * 2 ^ 149
  | _ => False

instance (lo hi : ℤ) : (x : CFloat32) → Decidable (Between lo hi x)
  | .finite _ _ => inferInstanceAs (Decidable (_ ∧ _))
  | .inf _ => .isFalse id
  | .nan => .isFalse id

theorem floatOf_eq {n : ℤ} (hn : n.natAbs < 2 ^ 24) :
    ∃ h, floatOf n = .finite (n * 2 ^ 149) h :=
  Value.ofFrac_two_pow (k := 0) hn (by decide) (by decide)

theorem floatOf_zero : floatOf 0 = Value.zero binary32 := by
  obtain ⟨h, heq⟩ := floatOf_eq (n := 0) (by decide)
  rw [heq]
  rfl

/-- A setpoint is written as its fixed-point number. -/
theorem fixed88_toInt {x : CFloat32} (hx : Between 0 127 x) :
    (fixed88 x).toInt = fixedPoint x := by
  cases x with
  | inf | nan => exact hx.elim
  | finite units h =>
      obtain ⟨hlow, hhigh⟩ := hx
      rw [fixed88_of_nonneg h (by omega) (by omega),
        BitVec.toInt_ofInt_eq_self (by decide) (by omega) (by omega)]
      simp only [fixedPoint]
      omega

/-- A number of a range is written as one of the range. -/
theorem fixedPoint_between {lo hi : ℤ} {x : CFloat32} (h : Between lo hi x) :
    256 * lo ≤ fixedPoint x ∧ fixedPoint x ≤ 256 * hi := by
  cases x with
  | inf | nan => exact h.elim
  | finite units hrep =>
      obtain ⟨hlow, hhigh⟩ := h
      simp only [fixedPoint]
      constructor
      · rw [Int.le_ediv_iff_mul_le (by positivity)]
        omega
      · refine Int.ediv_le_of_le_mul (by positivity) ?_
        omega

/-- A number brought into a range lies in it. -/
theorem clampToRange_between {lo hi : ℤ} (hlo : lo.natAbs < 2 ^ 24)
    (hhi : hi.natAbs < 2 ^ 24) (hle : lo ≤ hi) {x : CFloat32}
    (hx : IsFinite x) :
    Between lo hi (clampToRange (floatOf lo) (floatOf hi) x) := by
  obtain ⟨units, h, rfl⟩ := hx
  obtain ⟨hmin, hlow⟩ := floatOf_eq hlo
  obtain ⟨hmax, hhigh⟩ := floatOf_eq hhi
  rw [hlow, hhigh, clampToRange]
  split_ifs with habove hbelow
  · exact ⟨by omega, le_rfl⟩
  · exact ⟨le_rfl, by omega⟩
  · rw [Value.lt_finite] at habove hbelow
    exact ⟨by omega, by omega⟩

/-! ## The two setpoints -/

/-- The setpoints that a user sets. -/
inductive Setpoint
  | ch
  | dhw
  deriving DecidableEq

/-- What the module keeps for a setpoint. -/
structure SetpointState where
  desired : CFloat32
  actual : CFloat32
  rangemin : CFloat32
  rangemax : CFloat32

/-- The lower bound in a reply to a request for bounds. -/
def lowerBound (word : BitVec 16) : ℤ := (word.setWidth 8).toInt

/-- The upper bound in a reply to a request for bounds. -/
def upperBound (word : BitVec 16) : ℤ := ((word >>> 8).setWidth 8).toInt

namespace Setpoint

/-- The data id by which a setpoint is written. -/
def id : Setpoint → ℕ
  | .ch => dataIdTset
  | .dhw => dataIdTdhwset

/-- The data id of the bounds of a setpoint. -/
def boundsId : Setpoint → ℕ
  | .ch => dataIdMaxtsetBounds
  | .dhw => dataIdTdhwsetBounds

def state (k : Setpoint) (ctx : OpenthermContext) : SetpointState :=
  match k with
  | .ch =>
      ⟨ctx.paramDesired.chTemperatureSetpoint,
        ctx.paramActual.chTemperatureSetpoint,
        ctx.devConfig.chTemperatureSetpointRangemin,
        ctx.devConfig.chTemperatureSetpointRangemax⟩
  | .dhw =>
      ⟨ctx.paramDesired.dhwTemperatureSetpoint,
        ctx.paramActual.dhwTemperatureSetpoint,
        ctx.devConfig.dhwTemperatureSetpointRangemin,
        ctx.devConfig.dhwTemperatureSetpointRangemax⟩

/-- The message by which a synchronisation writes a setpoint. -/
def sent (k : Setpoint) (ctx : OpenthermContext) : Option OpenthermMsg :=
  if (k.state ctx).desired.eq (k.state ctx).actual = true ∨
      ctx.supported k.id = 0 then none
  else some ⟨msgTypeWriteData, BitVec.ofNat 8 k.id,
    fixed88 (k.state ctx).desired⟩

/-- The value that the boiler acknowledges in a synchronisation. -/
def acknowledgedBy (k : Setpoint) (exchange : Exchange)
    (ctx : OpenthermContext) : Option CFloat32 :=
  match k.sent ctx with
  | none => none
  | some req =>
      match openthermDevWrite exchange k.id req.value with
      | .error _ => none
      | .ok v => some (float88 v)

/-- The word with bounds that the boiler reports in a configuration read. -/
def reportedBy (k : Setpoint) (exchange : Exchange) (ctx : OpenthermContext) :
    Option (BitVec 16) :=
  if ctx.supported k.boundsId = 0 then none
  else
    match openthermDevRead exchange k.boundsId 0 with
    | .error _ => none
    | .ok word => some word

/-- The number that a command asks for. -/
def requestedBy (k : Setpoint) (e : OtEvent) : Option CFloat32 :=
  match k, e with
  | .ch, .setChTemp params | .dhw, .setDwhTemp params => cmdRequest params
  | _, _ => none

end Setpoint

/-! ## What a cycle does to a setpoint -/

namespace SetpointState

def report (s : SetpointState) (word : BitVec 16) : SetpointState :=
  { s with
    rangemax := if (word >>> 8).setWidth 8 ≠ 0#8 then
      floatOf ((word >>> 8).setWidth 8).toNat else s.rangemax
    rangemin := if 0#8 < word.setWidth 8 then
      floatOf (word.setWidth 8).toNat else s.rangemin }

def request (s : SetpointState) (f : CFloat32) : SetpointState :=
  { s with desired := clampToRange s.rangemin s.rangemax f }

def acknowledge (s : SetpointState) (a : CFloat32) : SetpointState :=
  { s with actual := a }

end SetpointState

namespace Setpoint

variable (k : Setpoint)

@[simp] theorem state_supported (ctx : OpenthermContext)
    (supported : Supported) :
    k.state { ctx with supported := supported } = k.state ctx := by
  cases k <;> rfl

/-- Reads that store other fields leave a setpoint alone. -/
theorem readAll_state {exchange : Exchange} {rs : List Read}
    (hrs : ∀ r ∈ rs, ∀ repl ctx, k.state (r.store repl ctx) = k.state ctx)
    (repl : OtData) (ctx : OpenthermContext) :
    k.state (readAll exchange rs repl ctx) = k.state ctx := by
  induction rs generalizing repl ctx with
  | nil => rfl
  | cons r rs ih =>
      rw [readAll, ih fun q hq => hrs q (List.mem_cons_of_mem _ hq)]
      split
      · rw [hrs r List.mem_cons_self, state_supported]
      · exact k.state_supported _ _

theorem readData_state (exchange : Exchange) (ctx : OpenthermContext) :
    k.state (openthermReadData exchange ctx) = k.state ctx := by
  refine k.readAll_state (fun r hr repl ctx => ?_) .zero ctx
  fin_cases hr <;> cases k <;> rfl

theorem readErrors_state (exchange : Exchange) (ctx : OpenthermContext) :
    k.state (openthermReadErrors exchange ctx) = k.state ctx := by
  refine k.readAll_state (fun r hr repl ctx => ?_) .zero ctx
  fin_cases hr <;> cases k <;> rfl

theorem otCommands_boundsId : otCommands k.boundsId =
    some ⟨k.boundsId, true, false, .int8arr, .none⟩ := by
  cases k <;> rfl

/-- The read of bounds is a report, if the boiler sends one. -/
theorem otCmdRead_bounds (exchange : Exchange) (ctx : OpenthermContext)
    (inp : OtData) :
    let ret := otCmdRead exchange ctx.supported k.boundsId none inp
    match k.reportedBy exchange ctx with
    | none => ret.1 = false
    | some word => ret.1 = true ∧
        ret.2.2 = DataHandler.int8arr.store word inp := by
  have hid : k.boundsId < dataIdCmdMax := by
    cases k <;> decide
  intro ret
  simp only [ret, reportedBy,
    otCmdRead_eq exchange ctx.supported k.otCommands_boundsId hid inp rfl]
  by_cases hzero : ctx.supported k.boundsId = 0
  · simp only [hzero, if_true]
  · simp only [hzero, if_false]
    cases openthermDevRead exchange k.boundsId 0 with
    | error e => rfl
    | ok word => exact ⟨rfl, rfl⟩

/-- The read that reports the bounds of a setpoint. -/
def boundsRead : Setpoint → Read
  | .ch => readMaxtsetBounds
  | .dhw => readTdhwsetBounds

theorem boundsRead_state (word : BitVec 16) (inp : OtData)
    (ctx : OpenthermContext) :
    k.state (k.boundsRead.store (DataHandler.int8arr.store word inp) ctx) =
      (k.state ctx).report word := by
  cases k
  all_goals
    simp only [boundsRead, state, readMaxtsetBounds, readTdhwsetBounds,
      SetpointState.report, DataHandler.int8arr_u8arr0,
      DataHandler.int8arr_u8arr1]
    rfl

/-- The read of bounds among the reads of a cycle. -/
theorem boundsRead_follows (exchange : Exchange) (ctx : OpenthermContext)
    (repl : OtData) {rest : List Read}
    (hrest : ∀ r ∈ rest, ∀ repl ctx, k.state (r.store repl ctx) = k.state ctx) :
    k.state (readAll exchange (k.boundsRead :: rest) repl ctx) =
      match k.reportedBy exchange ctx with
      | none => k.state ctx
      | some word => (k.state ctx).report word := by
  have hid : k.boundsRead.id = k.boundsId := by
    cases k <;> rfl
  have hread := k.otCmdRead_bounds exchange ctx repl
  rw [readAll, k.readAll_state hrest, hid]
  cases hreport : k.reportedBy exchange ctx with
  | none =>
      simp only [hreport] at hread
      rw [if_neg (by simp [hread]), state_supported]
  | some word =>
      simp only [hreport] at hread
      rw [if_pos hread.1, hread.2, k.boundsRead_state, state_supported]

theorem readCfgData_state (exchange : Exchange) (ctx : OpenthermContext) :
    k.state (openthermReadCfgData exchange ctx) =
      match k.reportedBy exchange ctx with
      | none => k.state ctx
      | some word => (k.state ctx).report word := by
  cases k with
  | ch =>
      refine boundsRead_follows .ch exchange ctx .zero fun r hr repl ctx => ?_
      fin_cases hr <;> rfl
  | dhw =>
      -- The first read of the cycle is of the other setpoint.
      rw [openthermReadCfgData, cfgReads, readAll]
      set ret := otCmdRead exchange ctx.supported readMaxtsetBounds.id none
        .zero with hret
      set ctx' := if ret.1 = true then
          readMaxtsetBounds.store ret.2.2 { ctx with supported := ret.2.1 }
        else { ctx with supported := ret.2.1 } with hctx'
      have hstate : dhw.state ctx' = dhw.state ctx := by
        rw [hctx']
        split <;> rfl
      have hsupported : ctx'.supported dhw.boundsId =
          ctx.supported dhw.boundsId := by
        rw [← otCmdRead_supported exchange ctx.supported readMaxtsetBounds.id
          .zero (by decide : dhw.boundsId ≠ readMaxtsetBounds.id), hctx']
        split <;> rfl
      have hreport : dhw.reportedBy exchange ctx' =
          dhw.reportedBy exchange ctx := by
        rw [reportedBy, reportedBy, hsupported]
      rw [← hstate, ← hreport]
      refine boundsRead_follows .dhw exchange ctx' _ fun r hr repl ctx => ?_
      fin_cases hr
      rfl

/-- What a synchronisation of one parameter sends and keeps. -/
theorem openthermSyncParamF_eq (exchange : Exchange) (supported : Supported)
    {id : ℕ} {cmd : OtCommand} (hcmd : otCommands id = some cmd)
    (hid : id < dataIdCmdMax) (hwrite : cmd.cmdWrite = true)
    (hfunc : cmd.func = .float) {desired : CFloat32}
    (hfinite : IsFinite desired) (actual : CFloat32) :
    openthermSyncParamF exchange supported id desired actual =
      if desired.eq actual = true ∨ supported id = 0 then (supported, actual)
      else
        match openthermDevWrite exchange id (fixed88 desired) with
        | .error e => (noteFailure supported id e, actual)
        | .ok word => (supported, float88 word) := by
  obtain ⟨units, h, rfl⟩ := hfinite
  have hencode : DataHandler.float.encode
      (OtData.zero.setF (.finite units h)) = fixed88 (.finite units h) := by
    simp only [DataHandler.encode, OtData.f_setF]
  have hstore : ∀ word, (DataHandler.float.store word OtData.zero).f =
      float88 word := by
    intro word
    rw [DataHandler.float_f, float88, signed16_eq]
  rw [openthermSyncParamF,
    otCmdWrite_eq exchange supported hcmd hid OtData.zero hwrite, hfunc,
    hencode]
  by_cases heq : (Value.finite units h).eq actual = true
  · rw [if_pos heq, if_pos (.inl heq)]
  · rw [if_neg heq]
    by_cases hzero : supported id = 0
    · simp [hzero]
    · rw [if_neg hzero, if_neg (not_or.mpr ⟨heq, hzero⟩)]
      cases openthermDevWrite exchange id (fixed88 (.finite units h)) with
      | error e => simp
      | ok word => simp [hstore]

theorem openthermSyncParamF_supported (exchange : Exchange)
    (supported : Supported) (id : ℕ) (desired actual : CFloat32) {other : ℕ}
    (hne : other ≠ id) :
    (openthermSyncParamF exchange supported id desired actual).1 other =
      supported other := by
  rw [openthermSyncParamF]
  split
  · rfl
  · exact otCmdWrite_supported exchange supported id _ _ hne

/-- The value of a setpoint that a synchronisation keeps. -/
theorem syncParamF_actual (exchange : Exchange) (ctx : OpenthermContext)
    (hfinite : IsFinite (k.state ctx).desired)
    {supported : Supported} (hsame : supported k.id = ctx.supported k.id) :
    (openthermSyncParamF exchange supported k.id (k.state ctx).desired
        (k.state ctx).actual).2 =
      (k.acknowledgedBy exchange ctx).getD (k.state ctx).actual := by
  have hid : k.id < dataIdCmdMax := by
    cases k <;> decide
  obtain ⟨cmd, hcmd, hwrite, hfunc⟩ : ∃ cmd, otCommands k.id = some cmd ∧
      cmd.cmdWrite = true ∧ cmd.func = .float := by
    cases k <;> exact ⟨_, rfl, rfl, rfl⟩
  rw [openthermSyncParamF_eq exchange supported hcmd hid hwrite hfunc hfinite,
    acknowledgedBy, sent, hsame]
  split
  · rfl
  · dsimp only
    cases openthermDevWrite exchange k.id (fixed88 (k.state ctx).desired) <;>
      rfl

theorem syncParams_state (exchange : Exchange) (ctx : OpenthermContext)
    (hfinite : IsFinite (k.state ctx).desired) :
    k.state (openthermSyncParams exchange ctx) =
      (k.state ctx).acknowledge
        ((k.acknowledgedBy exchange ctx).getD (k.state ctx).actual) := by
  cases k with
  | ch =>
      rw [← syncParamF_actual .ch exchange ctx hfinite]
      · rfl
      · rw [openthermSyncParamF_supported _ _ _ _ _
            (by decide : ch.id ≠ dataIdTdhwset),
          openthermSyncParamF_supported _ _ _ _ _
            (by decide : ch.id ≠ dataIdMaxtset)]
  | dhw =>
      rw [← syncParamF_actual .dhw exchange ctx hfinite]
      · rfl
      · rw [openthermSyncParamF_supported _ _ _ _ _
            (by decide : dhw.id ≠ dataIdMaxtset)]

/-- What an event is to a setpoint. -/
theorem step_state (ctx : OpenthermContext) (e : OtEvent)
    (hfinite : IsFinite (k.state ctx).desired) :
    k.state (openthermMachine.step ctx e) =
      match e with
      | .readCfgData exchange =>
          match k.reportedBy exchange ctx with
          | none => k.state ctx
          | some word => (k.state ctx).report word
      | .syncParams exchange => (k.state ctx).acknowledge
          ((k.acknowledgedBy exchange ctx).getD (k.state ctx).actual)
      | _ =>
          match k.requestedBy e with
          | none => k.state ctx
          | some f => (k.state ctx).request f := by
  cases e with
  | readData exchange => cases k <;> exact readData_state _ exchange ctx
  | readErrors exchange => cases k <;> exact readErrors_state _ exchange ctx
  | readCfgData exchange => exact k.readCfgData_state exchange ctx
  | syncParams exchange => exact k.syncParams_state exchange ctx hfinite
  | setChTemp params =>
      simp only [openthermMachine, OpenthermContext.step, cmdSetChTemp,
        cmdSetParamFloat]
      cases k <;> simp only [requestedBy] <;> cases cmdRequest params <;> rfl
  | setDwhTemp params =>
      simp only [openthermMachine, OpenthermContext.step, cmdSetDwhTemp,
        cmdSetParamFloat]
      cases k <;> simp only [requestedBy] <;> cases cmdRequest params <;> rfl

end Setpoint

/-! ## The record of a run -/

/-- What has happened to a setpoint: the bounds that the boiler reported last,
the number that the last accepted command asked for if no bounds had been
reported, the value that the boiler acknowledged last, and whether the setpoint
has been set since the last report or lay within the bounds reported. -/
structure SetpointRecord where
  bounds : Option (ℤ × ℤ)
  request : Option CFloat32
  acknowledged : Option CFloat32
  vetted : Bool

namespace SetpointRecord

def init : SetpointRecord := ⟨none, none, none, true⟩

/-- The record after an event. -/
def next (r : SetpointRecord) (k : Setpoint) (ctx : OpenthermContext)
    (e : OtEvent) : SetpointRecord :=
  match e with
  | .readCfgData exchange =>
      match k.reportedBy exchange ctx with
      | none => r
      | some word =>
          let lo := lowerBound word
          let hi := upperBound word
          { r with
            bounds := some (lo, hi)
            vetted := decide (Between lo hi (k.state ctx).desired) }
  | .syncParams exchange =>
      { r with
        acknowledged := (k.acknowledgedBy exchange ctx).or r.acknowledged }
  | _ =>
      match k.requestedBy e with
      | none => r
      | some f =>
          { r with
            request := if r.bounds = none then some f else none
            vetted := true }

end SetpointRecord

/-- The module with the records of its setpoints. -/
def setpointMachine :
    EventMachine (OpenthermContext × (Setpoint → SetpointRecord)) OtEvent :=
  openthermMachine.recording fun ctx e record k => (record k).next k ctx e

/-- What a synchronisation sends lies within the bounds that the boiler
reported last, and is what a command asked for before it reported any. -/
structure WrittenWell (k : Setpoint) (ctx : OpenthermContext)
    (r : SetpointRecord) : Prop where
  within : ∀ msg, k.sent ctx = some msg → ∀ lo hi, r.bounds = some (lo, hi) →
    256 * lo ≤ msg.value.toInt ∧ msg.value.toInt ≤ 256 * hi
  requested : ∀ f, r.request = some f → ∀ msg, k.sent ctx = some msg →
    msg.value.toInt = fixedPoint f
  written : ∀ f, r.request = some f → k.sent ctx = none →
    ctx.supported k.id = 0 ∨ ∃ a, r.acknowledged = some a ∧ f.eq a = true

/-- Every synchronisation writes the setpoints well. -/
def SetpointsWritten (x : OpenthermContext × (Setpoint → SetpointRecord))
    (e : OtEvent) : Prop :=
  ∀ exchange, e = .syncParams exchange → ∀ k, WrittenWell k x.1 (x.2 k)

/-- The condition on a step: an accepted command asks for 0 and follows an
acknowledged write, unless bounds have been reported; reported bounds are
below 0x80, the upper one is not 0, and it is not below the lower bound in use;
and what is sent has been set since the last report or lay within its bounds. -/
structure StepMeets (k : Setpoint) (ctx : OpenthermContext)
    (r : SetpointRecord) (e : OtEvent) : Prop where
  command : ∀ f, k.requestedBy e = some f → r.bounds = none →
    f = Value.zero binary32 ∧ r.acknowledged ≠ none
  report : ∀ exchange word, e = .readCfgData exchange →
    k.reportedBy exchange ctx = some word →
    0 ≤ lowerBound word ∧ 0 < upperBound word ∧
      lowerBound word ≤ upperBound word ∧
      (lowerBound word = 0 → (k.state ctx).rangemin.le
        (floatOf (upperBound word)) = true)
  sync : ∀ exchange, e = .syncParams exchange → r.bounds ≠ none →
    k.sent ctx ≠ none → r.vetted = true

def SetpointsMeet (x : OpenthermContext × (Setpoint → SetpointRecord))
    (e : OtEvent) : Prop :=
  ∀ k, StepMeets k x.1 (x.2 k) e

/-! ## The invariant -/

/-- What a run keeps for a setpoint. -/
structure SetpointInv (s : SetpointState) (r : SetpointRecord) : Prop where
  desired : Between 0 127 s.desired
  ranges : ∃ lo hi : ℤ, 0 ≤ lo ∧ lo ≤ hi ∧ hi ≤ 127 ∧
    s.rangemin = floatOf lo ∧ s.rangemax = floatOf hi ∧
    (r.bounds = none → lo = 0 ∧ hi = 0) ∧
    ∀ b, r.bounds = some b → b.1 ≤ lo ∧ hi = b.2
  vetted : ∀ b, r.bounds = some b → r.vetted = true →
    Between b.1 b.2 s.desired
  request : ∀ f, r.request = some f →
    f = s.desired ∧ r.acknowledged ≠ none
  acknowledged : ∀ a, r.acknowledged = some a → s.actual = a

namespace Between

theorem mono {lo hi lo' hi' : ℤ} {x : CFloat32} (h : Between lo hi x)
    (hlo : lo' ≤ lo) (hhi : hi ≤ hi') : Between lo' hi' x := by
  cases x with
  | finite units hrep =>
      obtain ⟨hlow, hhigh⟩ := h
      exact ⟨by omega, by omega⟩
  | inf | nan => exact h.elim

theorem isFinite {lo hi : ℤ} {x : CFloat32} (h : Between lo hi x) :
    IsFinite x := by
  cases x with
  | finite units hrep => exact ⟨units, hrep, rfl⟩
  | inf | nan => exact h.elim

theorem floatOf {n : ℤ} (hn : n.natAbs < 2 ^ 24) :
    Between n n (floatOf n) := by
  obtain ⟨h, heq⟩ := floatOf_eq hn
  rw [heq]
  exact ⟨le_rfl, le_rfl⟩

end Between

theorem floatOf_le {a b : ℤ} (ha : a.natAbs < 2 ^ 24) (hb : b.natAbs < 2 ^ 24)
    (h : (floatOf a).le (floatOf b) = true) : a ≤ b := by
  obtain ⟨ha', hfa⟩ := floatOf_eq ha
  obtain ⟨hb', hfb⟩ := floatOf_eq hb
  rw [hfa, hfb, Value.le_finite] at h
  omega

theorem cmdRequest_isFinite {params : Option CStr} {f : CFloat32}
    (h : cmdRequest params = some f) : IsFinite f := by
  simp only [cmdRequest] at h
  split at h
  · cases h
  · split at h
    · cases h
    next hvalue =>
      split_ifs at h
      obtain rfl := Option.some.inj h
      exact (sysStrtof_finite hvalue).1

/-- A byte of a bound that is not negative. -/
theorem toNat_of_toInt_nonneg {b : BitVec 8} (h : 0 ≤ b.toInt) :
    (b.toNat : ℤ) = b.toInt ∧ b.toInt ≤ 127 := by
  have hlt := b.isLt
  rw [BitVec.toInt_eq_toNat_cond] at h ⊢
  split at h
  next hsmall =>
    rw [if_pos hsmall]
    omega
  · omega

namespace SetpointInv

variable {s : SetpointState} {r : SetpointRecord}

theorem init (k : Setpoint) :
    SetpointInv (k.state openthermDataInit) .init where
  desired := by
    cases k
    · exact (Between.floatOf (n := 25) (by decide)).mono (by decide)
        (by decide)
    · exact (Between.floatOf (n := 40) (by decide)).mono (by decide)
        (by decide)
  ranges := ⟨0, 0, le_rfl, le_rfl, by decide,
    by cases k <;> exact floatOf_zero.symm,
    by cases k <;> exact floatOf_zero.symm, fun _ => ⟨rfl, rfl⟩,
    fun _ h => nomatch h⟩
  vetted := fun _ h => nomatch h
  request := fun _ h => nomatch h
  acknowledged := fun _ h => nomatch h

theorem report (h : SetpointInv s r) {word : BitVec 16}
    (hlow : 0 ≤ lowerBound word) (hhigh : 0 < upperBound word)
    (hle : lowerBound word ≤ upperBound word)
    (hstale : lowerBound word = 0 →
      s.rangemin.le (floatOf (upperBound word)) = true) :
    SetpointInv (s.report word)
      { r with
        bounds := some (lowerBound word, upperBound word)
        vetted :=
          decide (Between (lowerBound word) (upperBound word) s.desired) } := by
  obtain ⟨lo, hi, hlo, hlohi, hhi, hmin, hmax, -, -⟩ := h.ranges
  obtain ⟨hnat0, hbyte0⟩ := toNat_of_toInt_nonneg (b := word.setWidth 8) hlow
  obtain ⟨hnat1, hbyte1⟩ :=
    toNat_of_toInt_nonneg (b := (word >>> 8).setWidth 8) hhigh.le
  have hmax' : (s.report word).rangemax = floatOf (upperBound word) := by
    have hne : (word >>> 8).setWidth 8 ≠ 0#8 := by
      intro hzero
      rw [upperBound, hzero] at hhigh
      exact absurd hhigh (by decide)
    simp only [SetpointState.report, if_pos hne, hnat1]
    rfl
  refine ⟨h.desired, ?_, ?_, h.request, h.acknowledged⟩
  · by_cases hzero : word.setWidth 8 = 0#8
    · -- Without a new lower bound the old one stays in use.
      have hlower : lowerBound word = 0 := by
        rw [lowerBound, hzero]
        rfl
      have hmin' : (s.report word).rangemin = floatOf lo := by
        simp only [SetpointState.report, hzero, BitVec.lt_irrefl, if_false]
        exact hmin
      have hbelow : lo ≤ upperBound word := by
        refine floatOf_le (by omega) ?_ (hmin ▸ hstale hlower)
        simp only [upperBound] at hhigh ⊢
        omega
      refine ⟨lo, _, hlo, hbelow, hbyte1, hmin', hmax', nofun, ?_⟩
      rintro b hb
      obtain rfl := Option.some.inj hb
      exact ⟨by rw [hlower]; exact hlo, rfl⟩
    · have hpos : 0#8 < word.setWidth 8 :=
        Nat.pos_of_ne_zero fun h => hzero (BitVec.eq_of_toNat_eq h)
      have hmin' : (s.report word).rangemin = floatOf (lowerBound word) := by
        simp only [SetpointState.report, if_pos hpos, hnat0]
        rfl
      refine ⟨_, _, hlow, hle, hbyte1, hmin', hmax', nofun, ?_⟩
      rintro b hb
      obtain rfl := Option.some.inj hb
      exact ⟨le_rfl, rfl⟩
  · rintro b hb hvetted
    obtain rfl := Option.some.inj hb
    exact of_decide_eq_true hvetted

theorem requested (h : SetpointInv s r) {f : CFloat32}
    (hf : IsFinite f)
    (hzero : r.bounds = none →
      f = Value.zero binary32 ∧ r.acknowledged ≠ none) :
    SetpointInv (s.request f)
      { r with
        request := if r.bounds = none then some f else none
        vetted := true } := by
  obtain ⟨lo, hi, hlo, hlohi, hhi, hmin, hmax, hnone, hsome⟩ := h.ranges
  have hclamp : Between lo hi (s.request f).desired := by
    simp only [SetpointState.request, hmin, hmax]
    exact clampToRange_between (by omega) (by omega) hlohi hf
  refine ⟨hclamp.mono hlo hhi,
    ⟨lo, hi, hlo, hlohi, hhi, hmin, hmax, hnone, hsome⟩, ?_, ?_,
    h.acknowledged⟩
  · intro b hb _
    obtain ⟨hb1, rfl⟩ := hsome b hb
    exact hclamp.mono hb1 le_rfl
  · intro f' hf'
    dsimp only at hf'
    split_ifs at hf' with hbounds
    obtain rfl := Option.some.inj hf'
    obtain ⟨rfl, hack⟩ := hzero hbounds
    obtain ⟨rfl, rfl⟩ := hnone hbounds
    refine ⟨?_, hack⟩
    simp only [SetpointState.request, hmin, hmax, floatOf_zero, clampToRange]
    simp [Value.zero]

theorem acknowledge (h : SetpointInv s r) (a : Option CFloat32) :
    SetpointInv (s.acknowledge (a.getD s.actual))
      { r with acknowledged := a.or r.acknowledged } where
  desired := h.desired
  ranges := h.ranges
  vetted := h.vetted
  request := by
    intro f hf
    obtain ⟨hdesired, hack⟩ := h.request f hf
    refine ⟨hdesired, ?_⟩
    cases a with
    | none => exact hack
    | some a => exact Option.some_ne_none a
  acknowledged := by
    cases a with
    | none => exact h.acknowledged
    | some a => exact fun _ ha => Option.some.inj ha

end SetpointInv

/-! ## Runs -/

namespace Setpoint

theorem requestedBy_isFinite {k : Setpoint} {e : OtEvent} {f : CFloat32}
    (h : k.requestedBy e = some f) : IsFinite f := by
  cases k <;> cases e <;> first | exact cmdRequest_isFinite h | cases h

end Setpoint

/-- A step that meets the condition keeps the invariant. -/
theorem SetpointInv.step {k : Setpoint} {ctx : OpenthermContext}
    {r : SetpointRecord} (h : SetpointInv (k.state ctx) r) {e : OtEvent}
    (hmeets : StepMeets k ctx r e) :
    SetpointInv (k.state (openthermMachine.step ctx e)) (r.next k ctx e) := by
  have hstate := k.step_state ctx e h.desired.isFinite
  have hcommand : SetpointInv
      (match k.requestedBy e with
        | none => k.state ctx
        | some f => (k.state ctx).request f)
      (match k.requestedBy e with
        | none => r
        | some f =>
            { r with
              request := if r.bounds = none then some f else none
              vetted := true }) := by
    cases hf : k.requestedBy e with
    | none => exact h
    | some f =>
        exact h.requested (Setpoint.requestedBy_isFinite hf)
          (hmeets.command f hf)
  rw [hstate]
  cases e with
  | readCfgData exchange =>
      simp only [SetpointRecord.next]
      cases hreport : k.reportedBy exchange ctx with
      | none => exact h
      | some word =>
          obtain ⟨hlow, hhigh, hle, hstale⟩ :=
            hmeets.report exchange word rfl hreport
          exact h.report hlow hhigh hle hstale
  | syncParams exchange => exact h.acknowledge _
  | readData exchange => exact hcommand
  | readErrors exchange => exact hcommand
  | setChTemp params => exact hcommand
  | setDwhTemp params => exact hcommand

/-- A synchronisation writes well what the invariant says of a setpoint. -/
theorem SetpointInv.writtenWell {k : Setpoint} {ctx : OpenthermContext}
    {r : SetpointRecord} (h : SetpointInv (k.state ctx) r)
    (hsync : r.bounds ≠ none → k.sent ctx ≠ none → r.vetted = true) :
    WrittenWell k ctx r := by
  have hvalue : ∀ msg, k.sent ctx = some msg →
      msg.value.toInt = fixedPoint (k.state ctx).desired := by
    intro msg hmsg
    rw [Setpoint.sent] at hmsg
    split_ifs at hmsg
    rw [← Option.some.inj hmsg]
    exact fixed88_toInt h.desired
  constructor
  · intro msg hmsg lo hi hbounds
    have hvetted := hsync (by rw [hbounds]; exact Option.some_ne_none _)
      (by rw [hmsg]; exact Option.some_ne_none _)
    rw [hvalue msg hmsg]
    exact fixedPoint_between (h.vetted (lo, hi) hbounds hvetted)
  · intro f hf msg hmsg
    rw [hvalue msg hmsg, (h.request f hf).1]
  · intro f hf hnone
    obtain ⟨rfl, hack⟩ := h.request f hf
    obtain ⟨a, ha⟩ := Option.ne_none_iff_exists'.mp hack
    rw [Setpoint.sent] at hnone
    split_ifs at hnone with hkept
    rcases hkept with heq | hzero
    · exact .inr ⟨a, ha, h.acknowledged a ha ▸ heq⟩
    · exact .inl hzero

/-- In every run from the initialisation whose steps meet the condition, every
synchronisation writes the setpoints within the bounds reported last, and as
they were requested before bounds were reported. -/
theorem setpoints_written_within_bounds (events : List OtEvent)
    (h : setpointMachine.Along SetpointsMeet
      (openthermDataInit, fun _ => .init) events) :
    setpointMachine.Along SetpointsWritten
      (openthermDataInit, fun _ => .init) events :=
  h.mono_of_invariant
    (I := fun x => ∀ k : Setpoint, SetpointInv (k.state x.1) (x.2 k))
    (fun _ _ hinv hmeets k => (hinv k).step (hmeets k))
    (fun _ _ hinv hmeets exchange he k =>
      (hinv k).writtenWell ((hmeets k).sync exchange he))
    SetpointInv.init

/-- A boiler that acknowledges what is written. -/
def boilerEcho : Exchange := fun request =>
  some ⟨msgTypeWriteAck, request.id, request.value⟩

/-- The setpoints are written, the bounds of the heating are reported, and the
heating is set above them and written again. -/
def boundedRun : List OtEvent :=
  [.syncParams boilerEcho, .readCfgData boilerAt45,
    .setChTemp (some (lit ":90")), .syncParams boilerEcho]

theorem boundedRun_reported :
    Setpoint.ch.reportedBy boilerAt45
        (openthermMachine.run openthermDataInit [.syncParams boilerEcho]) =
      some 0x5014 ∧
    Setpoint.dhw.reportedBy boilerAt45
        (openthermMachine.run openthermDataInit [.syncParams boilerEcho]) =
      none := by
  decide +kernel

theorem setpoints_written_within_bounds_boundedRun :
    setpointMachine.Along SetpointsWritten
      (openthermDataInit, fun _ => .init) boundedRun := by
  refine setpoints_written_within_bounds boundedRun ⟨?_, ?_, ?_, ?_, trivial⟩
  · intro k
    refine ⟨?_, nofun, fun _ _ hbounds => absurd rfl hbounds⟩
    cases k <;> exact nofun
  · obtain ⟨hch, hdhw⟩ := boundedRun_reported
    intro k
    refine ⟨by cases k <;> exact nofun, ?_, nofun⟩
    rintro exchange word he hword
    cases he
    cases k with
    | ch =>
        obtain rfl := Option.some.inj (hch.symm.trans hword)
        exact ⟨by decide, by decide, by decide, by decide⟩
    | dhw => exact nomatch hdhw.symm.trans hword
  · intro k
    refine ⟨?_, nofun, nofun⟩
    cases k with
    | ch =>
        intro f _ hbounds
        exact absurd hbounds (by decide +kernel)
    | dhw => exact nofun
  · intro k
    refine ⟨by cases k <;> exact nofun, nofun, ?_⟩
    cases k with
    | ch => exact fun _ _ _ _ => by decide +kernel
    | dhw => exact fun _ _ hbounds => absurd (by decide +kernel) hbounds

/-- The command is accepted before bounds are reported. -/
def earlyRun : List OtEvent :=
  [.setChTemp (some (lit ":50")), .syncParams boilerEcho]

/-- A range of 0 to 0 is in force before the boiler reports bounds, so that the
requested 50 degrees become 0 and are not written. -/
theorem early_setpoint_not_written :
    ¬setpointMachine.Along SetpointsWritten
      (openthermDataInit, fun _ => .init) earlyRun := by
  rintro ⟨-, hsync, -⟩
  have hwritten := (hsync _ rfl .ch).written (floatOf 50) (by decide +kernel)
    (by decide +kernel)
  rcases hwritten with hzero | ⟨a, ha, -⟩
  · exact absurd hzero (by decide +kernel)
  · cases ha

end Herak.OpenTherm
