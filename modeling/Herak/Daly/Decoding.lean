import Herak.Daly.Response

/-!
# What the protocol gives to a response

A response has eight data bytes.  The description of a field by the protocol is
compared with what the handlers store, which read beside the data, leave an
array and wrap below the offset of a temperature.
-/

namespace Herak.Daly

open Access BinaryFloat BmsDalyState CFloat

/-! ## The protocol -/

def byteAt (data : List UInt8) (i : ℕ) : ℕ :=
  (data.getD i 0).toNat

/-- Two bytes, the high one first. -/
def wordAt (data : List UInt8) (i : ℕ) : ℕ :=
  256 * byteAt data i + byteAt data (i + 1)

/-- The state after the data bytes of a response are decoded as the protocol
describes them.  Cell `j` belongs to the frame `j / 3` of voltages, sensor `j`
to the frame `j / 7` of temperatures, and no frame changes the others. -/
def Decoded (cmd : DalyQcmd) (data : List UInt8) (s s' : BmsDalyState) :
    Prop :=
  match cmd with
  | .daly90 =>
      s' = { s with
        batV := ofFrac binary32 (wordAt data 0) 10
        acquisitionV := ofFrac binary32 (wordAt data 2) 10
        batI := ofFrac binary32 (wordAt data 4 - 30000) 10
        socP := ofFrac binary32 (wordAt data 6) 10 }
  | .daly91 =>
      s' = { s with
          batMaxv := s'.batMaxv, batMaxvCell := s'.batMaxvCell
          batMinv := s'.batMinv, batMinvCell := s'.batMinvCell } ∧
        s'.batMaxv.toNat = wordAt data 0 ∧
        s'.batMaxvCell.toNat = byteAt data 2 ∧
        s'.batMinv.toNat = wordAt data 3 ∧
        s'.batMinvCell.toNat = byteAt data 5
  | .daly92 =>
      s' = { s with
          batMaxt := s'.batMaxt, batMaxtCell := s'.batMaxtCell
          batMint := s'.batMint, batMintCell := s'.batMintCell } ∧
        (s'.batMaxt.toNat : ℤ) = byteAt data 0 - 40 ∧
        s'.batMaxtCell.toNat = byteAt data 1 ∧
        (s'.batMint.toNat : ℤ) = byteAt data 2 - 40 ∧
        s'.batMintCell.toNat = byteAt data 3
  | .daly93 =>
      s' = { s with
          chargeState := s'.chargeState, chargeMos := s'.chargeMos
          dischargeMos := s'.dischargeMos, bmsLife := s'.bmsLife
          remainCapacity := s'.remainCapacity } ∧
        s'.chargeState.toNat = byteAt data 0 ∧
        s'.chargeMos.toNat = byteAt data 1 ∧
        s'.dischargeMos.toNat = byteAt data 2 ∧
        s'.bmsLife.toNat = byteAt data 3 ∧
        s'.remainCapacity.toNat = 65536 * wordAt data 4 + wordAt data 6
  | .daly94 =>
      s' = { s with
          cells := s'.cells, tSensors := s'.tSensors
          chargerRunning := s'.chargerRunning, loadRunning := s'.loadRunning
          dioStates := s'.dioStates } ∧
        s'.cells.toNat = byteAt data 0 ∧
        s'.tSensors.toNat = byteAt data 1 ∧
        s'.chargerRunning.toNat = byteAt data 2 ∧
        s'.loadRunning.toNat = byteAt data 3 ∧
        s'.dioStates.toNat = byteAt data 4
  | .daly95 =>
      s' = { s with cellsVoltage := s'.cellsVoltage } ∧
        ∀ (j : ℕ) (_ : j < dalyMaxCells), s'.cellsVoltage[j].toNat =
          if j / 3 = byteAt data 0 then wordAt data (1 + 2 * (j % 3))
          else s.cellsVoltage[j].toNat
  | .daly96 =>
      s' = { s with cellsTemperature := s'.cellsTemperature } ∧
        ∀ (j : ℕ) (_ : j < dalyMaxTemps), (s'.cellsTemperature[j].toNat : ℤ) =
          if j / 7 = byteAt data 0 then (byteAt data (1 + j % 7) : ℤ) - 40
          else s.cellsTemperature[j].toNat
  | .daly97 =>
      s' = { s with cellsStates := s'.cellsStates } ∧
        ∀ (j : ℕ) (_ : j < dalyMaxCells / 8),
          s'.cellsStates[j].toNat = byteAt data j
  | .daly98 =>
      s' = { s with failStatus := s'.failStatus, failCode := s'.failCode } ∧
        (∀ (j : ℕ) (_ : j < 7), s'.failStatus[j].toNat = byteAt data j) ∧
        s'.failCode.toNat = byteAt data 7
  | _ => s' = s

/-- The responses that the code decodes as the protocol describes them. -/
def Decodable (cmd : DalyQcmd) (data : List UInt8) : Prop :=
  cmd ≠ .daly90 ∧
    (cmd = .daly92 → 40 ≤ byteAt data 0 ∧ 40 ≤ byteAt data 2) ∧
    (cmd = .daly96 → byteAt data 0 ≠ 2 ∧
      (byteAt data 0 < 2 → ∀ i < 7, 40 ≤ byteAt data (1 + i)))

/-! ## Handlers -/

/-- A handler ends inside all arrays, reads the data bytes alone and decodes
them. -/
def Handled (cmd : DalyQcmd) (buf data : List UInt8) (s : BmsDalyState) :
    Prop :=
  ∃ r, processResponse cmd buf ⟨[], s⟩ = some ((), r) ∧
    (∀ i ∈ r.reads, i < 8) ∧ Decoded cmd data s r.data

theorem shiftLeft_or_byte (n : ℕ) (lo : UInt8) :
    n <<< 8 ||| lo.toNat = 256 * n + lo.toNat := by
  rw [← Nat.shiftLeft_add_eq_or_of_lt lo.toNat_lt, Nat.shiftLeft_eq]
  omega

section

variable {buf data : List UInt8}

theorem getU16_apply {i : ℕ} (h : i + 1 < buf.length)
    (r : Run BmsDalyState) :
    getU16 buf i r = some (wordAt buf i,
      { r with reads := r.reads ++ [i] ++ [i + 1] }) := by
  have hi : i < buf.length := by omega
  simp only [getU16, bind_apply, readByte_apply hi, readByte_apply h,
    Option.bind_some, pure_apply, shiftLeft_or_byte]
  rfl

theorem getU16_reads {i : ℕ} {r : Run BmsDalyState}
    {p : ℕ × Run BmsDalyState} (h : getU16 buf i r = some p) :
    i ∈ p.2.reads := by
  simp only [getU16, bind_apply, Option.bind_eq_some_iff, readByte,
    Option.map_eq_some_iff] at h
  obtain ⟨_, ⟨_, _, rfl⟩, _, ⟨_, _, rfl⟩, h⟩ := h
  rw [← Option.some.inj h]
  simp

theorem wordAt_lt (i : ℕ) : wordAt buf i < 2 ^ 16 := by
  have hhi := (buf.getD i 0).toNat_lt
  have hlo := (buf.getD (i + 1) 0).toNat_lt
  simp only [wordAt, byteAt]
  omega

theorem toNat_wordAt (i : ℕ) : (wordAt buf i).toUInt16.toNat = wordAt buf i := by
  rw [UInt16.toNat_ofNat', Nat.mod_eq_of_lt (wordAt_lt i)]

theorem getU32_apply {i : ℕ} (h : i + 3 < buf.length) (r : Run BmsDalyState) :
    getU32 buf i r = some (65536 * wordAt buf i + wordAt buf (i + 2),
      { r with
        reads := r.reads ++ [i] ++ [i + 1] ++ [i + 2] ++ [i + 3] }) := by
  have h0 : i < buf.length := by omega
  have h1 : i + 1 < buf.length := by omega
  have h2 : i + 2 < buf.length := by omega
  have hbytes : ∀ a b c d : UInt8,
      a.toNat <<< 0x18 ||| b.toNat <<< 0x10 ||| c.toNat <<< 0x08 ||| d.toNat =
        65536 * (256 * a.toNat + b.toNat) + (256 * c.toNat + d.toNat) := by
    intro a b c d
    have hsplit : a.toNat <<< 0x18 ||| b.toNat <<< 0x10 ||| c.toNat <<< 0x08 =
        ((a.toNat <<< 8 ||| b.toNat) <<< 8 ||| c.toNat) <<< 8 := by
      simp only [Nat.shiftLeft_or_distrib, ← Nat.shiftLeft_add]
    rw [hsplit, shiftLeft_or_byte, shiftLeft_or_byte, shiftLeft_or_byte]
    omega
  simp only [getU32, bind_apply, readByte_apply h0, readByte_apply h1,
    readByte_apply h2, readByte_apply h, Option.bind_some, pure_apply, hbytes]
  rfl

/-! ## Each command -/

variable {s : BmsDalyState}

/-- The handler of the total voltage reads the charge behind the data. -/
theorem d90_not_handled : ¬Handled .daly90 buf data s := by
  rintro ⟨r, hrun, hreads, _⟩
  have hprocess : processResponse .daly90 buf = d90CmdProcess buf := rfl
  simp only [hprocess, d90CmdProcess, bind_apply, update_apply,
    Option.bind_eq_some_iff, Option.some.injEq] at hrun
  obtain ⟨_, _, _, rfl, _, _, _, rfl, _, _, _, rfl, soc, hsoc, hrun⟩ := hrun
  obtain ⟨_, rfl⟩ := Prod.mk.inj hrun
  have hread : 8 ∈ soc.2.reads := getU16_reads hsoc
  exact absurd (hreads 8 hread) (by decide)

section

variable (hlen : 8 ≤ buf.length)
  (hdata : ∀ i < 8, buf.getD i 0 = data.getD i 0)

include hlen hdata

theorem d91_handled : Handled .daly91 buf data s := by
  have hprocess : processResponse .daly91 buf = d91CmdProcess buf := rfl
  have hbyte : ∀ i < 8, byteAt buf i = byteAt data i :=
    fun i hi => congrArg UInt8.toNat (hdata i hi)
  simp only [Handled, hprocess, d91CmdProcess, bind_apply]
  simp (disch := omega) only [readByte_apply, getU16_apply, Option.bind_some,
    update_apply]
  refine ⟨_, rfl, by simp, rfl, ?_, ?_, ?_, ?_⟩
  · rw [toNat_wordAt, wordAt, wordAt, hbyte 0 (by decide), hbyte 1 (by decide)]
  · exact hbyte 2 (by decide)
  · rw [toNat_wordAt, wordAt, wordAt, hbyte 3 (by decide), hbyte 4 (by decide)]
  · exact hbyte 5 (by decide)

theorem d92_handled_iff : Handled .daly92 buf data s ↔
    40 ≤ byteAt data 0 ∧ 40 ≤ byteAt data 2 := by
  have hprocess : processResponse .daly92 buf = d92CmdProcess buf := rfl
  -- The difference is the one of the protocol when it does not wrap.
  have hsub : ∀ b : UInt8, ((b - 40).toNat : ℤ) = b.toNat - 40 ↔
      40 ≤ b.toNat := by
    intro b
    have hlt := b.toNat_lt
    rw [UInt8.toNat_sub]
    change ((2 ^ 8 - 40 + b.toNat) % 2 ^ 8 : ℕ) = (b.toNat : ℤ) - 40 ↔ _
    omega
  simp only [Handled, hprocess, d92CmdProcess, bind_apply]
  simp (disch := omega) only [readByte_apply, Option.bind_some, update_apply,
    Option.some.injEq, Prod.mk.injEq, true_and, exists_eq_left', Decoded,
    hdata]
  simp only [byteAt, hsub, true_and, and_true]
  exact ⟨fun h => h.2, fun h => ⟨by simp, h⟩⟩

theorem d93_handled : Handled .daly93 buf data s := by
  have hprocess : processResponse .daly93 buf = d93CmdProcess buf := rfl
  have hbyte : ∀ i < 8, byteAt buf i = byteAt data i :=
    fun i hi => congrArg UInt8.toNat (hdata i hi)
  simp only [Handled, hprocess, d93CmdProcess, bind_apply]
  simp (disch := omega) only [readByte_apply, getU32_apply, Option.bind_some,
    update_apply]
  refine ⟨_, rfl, by simp, rfl, hbyte 0 (by decide), hbyte 1 (by decide),
    hbyte 2 (by decide), hbyte 3 (by decide), ?_⟩
  have hhigh : wordAt buf 4 < 2 ^ 16 := wordAt_lt 4
  have hlow : wordAt buf (4 + 2) < 2 ^ 16 := wordAt_lt 6
  rw [UInt32.toNat_ofNat', Nat.mod_eq_of_lt (by omega)]
  simp (disch := decide) only [wordAt, hbyte]

theorem d94_handled : Handled .daly94 buf data s := by
  have hprocess : processResponse .daly94 buf = d94CmdProcess buf := rfl
  have hbyte : ∀ i < 8, byteAt buf i = byteAt data i :=
    fun i hi => congrArg UInt8.toNat (hdata i hi)
  simp only [Handled, hprocess, d94CmdProcess, bind_apply]
  simp (disch := omega) only [readByte_apply, Option.bind_some, update_apply]
  exact ⟨_, rfl, by simp, rfl, hbyte 0 (by decide), hbyte 1 (by decide),
    hbyte 2 (by decide), hbyte 3 (by decide), hbyte 4 (by decide)⟩

theorem d95_handled : Handled .daly95 buf data s := by
  have hprocess : processResponse .daly95 buf = d95CmdProcess buf := rfl
  have hcells : dalyMaxCells = 48 := rfl
  have hbyte : ∀ i < 8, byteAt buf i = byteAt data i :=
    fun i hi => congrArg UInt8.toNat (hdata i hi)
  have hzero : (buf.getD 0 0).toNat = byteAt data 0 := hbyte 0 (by decide)
  have hword : ∀ k < 3, wordAt data (1 + 2 * k) = wordAt buf (1 + 2 * k) := by
    intro k hk
    simp only [wordAt]
    rw [hbyte _ (by omega), hbyte _ (by omega)]
  simp only [Handled, hprocess, d95CmdProcess, bind_apply]
  rw [readByte_apply (by omega)]
  simp only [Option.bind_some, hzero]
  by_cases hframe : 16 ≤ byteAt data 0
  · rw [if_pos hframe]
    refine ⟨_, rfl, by simp, rfl, fun j hj => ?_⟩
    rw [if_neg (by omega)]
  · have hfield : byteAt data 0 * 3 + 2 < dalyMaxCells := by omega
    rw [if_neg hframe]
    simp only [bind_apply]
    simp (disch := omega) only [getU16_apply, store_apply, Option.bind_some]
    refine ⟨_, rfl, by simp, rfl, fun j hj => ?_⟩
    simp only [voltageField, Vector.getElem_set]
    by_cases hcell : j / 3 = byteAt data 0
    · rw [if_pos hcell, hword _ (Nat.mod_lt j (by decide))]
      obtain hmod | hmod | hmod : j % 3 = 0 ∨ j % 3 = 1 ∨ j % 3 = 2 := by omega
      · rw [if_neg (by omega), if_neg (by omega), if_pos (by omega), hmod,
          toNat_wordAt]
      · rw [if_neg (by omega), if_pos (by omega), hmod, toNat_wordAt]
      · rw [if_pos (by omega), hmod, toNat_wordAt]
    · rw [if_neg hcell, if_neg (by omega), if_neg (by omega),
        if_neg (by omega)]

theorem d96_handled_iff : Handled .daly96 buf data s ↔
    byteAt data 0 ≠ 2 ∧
      (byteAt data 0 < 2 → ∀ i < 7, 40 ≤ byteAt data (1 + i)) := by
  have hprocess : processResponse .daly96 buf = d96CmdProcess buf := rfl
  have htemps : dalyMaxTemps = 16 := rfl
  have hbyte : ∀ i < 8, byteAt buf i = byteAt data i :=
    fun i hi => congrArg UInt8.toNat (hdata i hi)
  have hzero : (buf.getD 0 0).toNat = byteAt data 0 := hbyte 0 (by decide)
  -- The difference is the one of the protocol when it does not wrap.
  have hsub : ∀ b : UInt8, ((b.toUInt16 - 40).toNat : ℤ) = b.toNat - 40 ↔
      40 ≤ b.toNat := by
    intro b
    have hlt := b.toNat_lt
    rw [UInt16.toNat_sub, UInt8.toNat_toUInt16]
    change ((2 ^ 16 - 40 + b.toNat) % 2 ^ 16 : ℕ) = (b.toNat : ℤ) - 40 ↔ _
    omega
  simp only [Handled, hprocess, d96CmdProcess, bind_apply]
  rw [readByte_apply (by omega)]
  simp only [Option.bind_some, hzero]
  by_cases hframe : 3 ≤ byteAt data 0
  · rw [if_pos hframe]
    refine ⟨fun _ => ⟨by omega, by omega⟩, fun _ => ?_⟩
    refine ⟨_, rfl, by simp, rfl, fun j hj => ?_⟩
    rw [if_neg (by omega)]
  · rw [if_neg hframe]
    by_cases htwo : byteAt data 0 = 2
    · rw [copyLoop_none _ _ _ _ (by decide) (by omega)]
      constructor
      · rintro ⟨_, hrun, _⟩
        cases hrun
      · exact fun h => absurd htwo h.1
    · have hlow : byteAt data 0 < 2 := by omega
      rw [copyLoop_apply _ _ (by omega) (by omega)]
      have helem : ∀ (j : ℕ) (_ : j < dalyMaxTemps),
          ((copied s.cellsTemperature (byteAt data 0 * 7)
              (fun raw => raw.toUInt16 - 40) buf 1 7 0)[j].toNat : ℤ) =
            if j / 7 = byteAt data 0 then
              (((buf.getD (1 + j % 7) 0).toUInt16 - 40).toNat : ℤ)
            else s.cellsTemperature[j].toNat := by
        intro j hj
        simp only [copied, Vector.getElem_ofFn]
        by_cases hsensor : j / 7 = byteAt data 0
        · have hofs : j - byteAt data 0 * 7 = j % 7 := by omega
          rw [if_pos hsensor, if_pos (by omega), hofs]
        · rw [if_neg hsensor, if_neg (by omega)]
      constructor
      · rintro ⟨r, hrun, _, _, htemps⟩
        refine ⟨htwo, fun _ i hi => ?_⟩
        obtain rfl := (Prod.mk.inj (Option.some.inj hrun)).2
        have hsensor := (helem (7 * byteAt data 0 + i) (by omega)).symm.trans
          (htemps (7 * byteAt data 0 + i) (by omega))
        have hdiv : (7 * byteAt data 0 + i) / 7 = byteAt data 0 := by omega
        have hmod : (7 * byteAt data 0 + i) % 7 = i := by omega
        rw [if_pos hdiv, if_pos hdiv, hmod, ← hbyte (1 + i) (by omega)]
          at hsensor
        rw [← hbyte (1 + i) (by omega)]
        exact (hsub _).mp hsensor
      · rintro ⟨_, hraw⟩
        refine ⟨_, rfl, by simp; omega, rfl, fun j hj => ?_⟩
        refine (helem j hj).trans ?_
        by_cases hsensor : j / 7 = byteAt data 0
        · rw [if_pos hsensor, if_pos hsensor, ← hbyte (1 + j % 7) (by omega)]
          refine (hsub _).mpr ?_
          have hbig := hraw hlow (j % 7) (Nat.mod_lt j (by decide))
          rwa [← hbyte (1 + j % 7) (by omega)] at hbig
        · rw [if_neg hsensor, if_neg hsensor]

theorem d97_handled : Handled .daly97 buf data s := by
  have hprocess : processResponse .daly97 buf = d97CmdProcess buf := rfl
  have hcells : dalyMaxCells = 48 := rfl
  have hbyte : ∀ i < 8, byteAt buf i = byteAt data i :=
    fun i hi => congrArg UInt8.toNat (hdata i hi)
  simp only [Handled, hprocess, d97CmdProcess]
  rw [copyLoop_apply _ _ (by omega) (by decide)]
  refine ⟨_, rfl, by simp; omega, rfl, fun j hj => ?_⟩
  simp only [statesField, copied, Vector.getElem_ofFn]
  have hin : 0 + 0 ≤ j ∧ j < 0 + 0 + 6 := by omega
  rw [if_pos hin, Nat.zero_add, Nat.sub_zero]
  exact hbyte j (by omega)

theorem d98_handled : Handled .daly98 buf data s := by
  have hprocess : processResponse .daly98 buf = d98CmdProcess buf := rfl
  have hbyte : ∀ i < 8, byteAt buf i = byteAt data i :=
    fun i hi => congrArg UInt8.toNat (hdata i hi)
  simp only [Handled, hprocess, d98CmdProcess, bind_apply]
  rw [copyLoop_apply _ _ (by omega) (by decide)]
  simp only [Option.bind_some]
  rw [readByte_apply (by omega)]
  simp only [Option.bind_some, update_apply]
  refine ⟨_, rfl, by simp; omega, rfl, fun j hj => ?_, hbyte 7 (by decide)⟩
  simp only [failField, copied, Vector.getElem_ofFn]
  have hin : 0 + 0 ≤ j ∧ j < 0 + 0 + 7 := by omega
  rw [if_pos hin, Nat.zero_add, Nat.sub_zero]
  exact hbyte j (by omega)

/-- The handler of a command does what the protocol asks for exactly on the
responses that are decodable. -/
theorem handled_iff (cmd : DalyQcmd) :
    Handled cmd buf data s ↔ Decodable cmd data := by
  have hother : processResponse cmd buf = pure () → (Decoded cmd data s s) →
      Handled cmd buf data s :=
    fun hprocess hdecoded => ⟨⟨[], s⟩, by rw [hprocess]; rfl,
      fun _ hi => absurd hi List.not_mem_nil, hdecoded⟩
  cases cmd with
  | daly90 => simp [Decodable, d90_not_handled]
  | daly91 => simp [Decodable, d91_handled hlen hdata]
  | daly92 => simp [Decodable, d92_handled_iff hlen hdata]
  | daly93 => simp [Decodable, d93_handled hlen hdata]
  | daly94 => simp [Decodable, d94_handled hlen hdata]
  | daly95 => simp [Decodable, d95_handled hlen hdata]
  | daly96 => simp [Decodable, d96_handled_iff hlen hdata]
  | daly97 => simp [Decodable, d97_handled hlen hdata]
  | daly98 => simp [Decodable, d98_handled hlen hdata]
  | _ => simpa [Decodable] using hother rfl rfl

end

end

/-! ## Accepted responses -/

/-- The data bytes of a frame. -/
def frameData (buf : List UInt8) : List UInt8 :=
  (buf.drop 4).take 8

/-- An accepted buffer holds a frame, and loses its checksum alone. -/
theorem bmsVerifyResponse_accepted {crc8 : List UInt8 → UInt8}
    {buf : List UInt8}
    (h : (bmsVerifyResponse crc8 (some buf)).1 ≠ .max) :
    commandLen ≤ buf.length ∧
      (bmsVerifyResponse crc8 (some buf)).2 = some (buf.set 12 0) ∧
      (bmsVerifyResponse crc8 (some buf)).1 = findQcommand (buf.getD 2 0) := by
  simp only [bmsVerifyResponse] at h ⊢
  split_ifs at h ⊢ with hlen hhead haddr hdata hcrc
  · exact absurd rfl h
  · exact absurd rfl h
  · exact absurd rfl h
  · exact absurd rfl h
  · exact absurd rfl h
  · refine ⟨Nat.not_lt.mp hlen, rfl, ?_⟩
    simp

/-- Each command of an accepted buffer has a description. -/
theorem bmsGetQcommandDesc_accepted {cmd : UInt8}
    (h : findQcommand cmd ≠ .max) :
    bmsGetQcommandDesc (findQcommand cmd) = 0 := by
  simp only [findQcommand] at h ⊢
  split at h
  · exact absurd rfl h
  next id code hfind =>
    rw [bmsGetQcommandDesc, if_pos]
    exact List.any_eq_true.mpr
      ⟨_, List.mem_of_find?_eq_some hfind, decide_eq_true rfl⟩

/-- The handler of an accepted buffer gets the bytes behind its head. -/
theorem dalyBtProcessData_accepted {crc8 : List UInt8 → UInt8}
    {buf : List UInt8}
    (h : (bmsVerifyResponse crc8 (some buf)).1 ≠ .max) :
    dalyBtProcessData crc8 buf =
      processResponse (bmsVerifyResponse crc8 (some buf)).1
        ((buf.set 12 0).drop 4) := by
  obtain ⟨_, hbuf, hcmd⟩ := bmsVerifyResponse_accepted h
  have hdesc := bmsGetQcommandDesc_accepted (hcmd ▸ h)
  rw [← hcmd] at hdesc
  simp only [dalyBtProcessData]
  generalize bmsVerifyResponse crc8 (some buf) = result at hbuf h hdesc
  obtain ⟨cmd, rest⟩ := result
  dsimp only at hbuf h hdesc ⊢
  rw [hbuf]
  dsimp only
  rw [if_pos ⟨h, hdesc⟩]

theorem frameData_getD (buf : List UInt8) :
    ∀ i < 8, ((buf.set 12 0).drop 4).getD i 0 = (frameData buf).getD i 0 := by
  intro i hi
  simp only [frameData, List.getD_eq_getElem?_getD, List.getElem?_drop,
    List.getElem?_take_of_lt hi]
  rw [List.getElem?_set_ne (by omega)]

/-- An accepted buffer is decoded inside all arrays, from its data bytes alone
and as the protocol describes it, exactly when it is decodable. -/
theorem response_decoded_iff {crc8 : List UInt8 → UInt8} {buf : List UInt8}
    (h : (bmsVerifyResponse crc8 (some buf)).1 ≠ .max) (s : BmsDalyState) :
    (∃ r, dalyBtProcessData crc8 buf ⟨[], s⟩ = some ((), r) ∧
        (∀ i ∈ r.reads, i < 8) ∧
        Decoded (bmsVerifyResponse crc8 (some buf)).1 (frameData buf) s
          r.data) ↔
      Decodable (bmsVerifyResponse crc8 (some buf)).1 (frameData buf) := by
  have hlen := (bmsVerifyResponse_accepted h).1
  have hcode : commandLen = 13 := rfl
  rw [dalyBtProcessData_accepted h]
  refine handled_iff ?_ (frameData_getD buf) _
  rw [List.length_drop, List.length_set]
  omega

/-- The checksum of a reflected polynomial, for the examples. -/
def crc8Reflected (data : List UInt8) : UInt8 :=
  let shift (crc : UInt8) : UInt8 :=
    if crc &&& 1 = 1 then crc >>> 1 ^^^ 0xE0 else crc >>> 1
  0xFF - data.foldl (fun crc byte => shift^[8] (crc ^^^ byte)) 0xFF

/-- `bms_context` at boot. -/
def BmsDalyState.zero : BmsDalyState where
  batV := floatOfInt 0
  acquisitionV := floatOfInt 0
  batI := floatOfInt 0
  socP := floatOfInt 0
  batMaxv := 0
  batMaxvCell := 0
  batMinv := 0
  batMinvCell := 0
  batMaxt := 0
  batMaxtCell := 0
  batMint := 0
  batMintCell := 0
  chargeState := 0
  chargeMos := 0
  dischargeMos := 0
  bmsLife := 0
  remainCapacity := 0
  cells := 0
  tSensors := 0
  chargerRunning := 0
  loadRunning := 0
  dioStates := 0
  cellsVoltage := Vector.replicate _ 0
  cellsTemperature := Vector.replicate _ 0
  cellsStates := Vector.replicate _ 0
  failStatus := Vector.replicate _ 0
  failCode := 0

/-- The voltages of the cells 4 to 6. -/
def voltageFrame : List UInt8 :=
  [0xa5, 0x01, 0x95, 8, 1, 0x0c, 0xe4, 0x0c, 0xe5, 0x0c, 0xe6, 0, 0x92]

/-- The temperatures of the third frame, which has two sensors of the sixteen. -/
def temperatureFrame : List UInt8 :=
  [0xa5, 0x01, 0x96, 8, 2, 50, 50, 50, 50, 50, 50, 50, 0x12]

theorem response_decoded_voltages :
    ∃ r, dalyBtProcessData crc8Reflected voltageFrame ⟨[], .zero⟩ =
        some ((), r) ∧
      (∀ i ∈ r.reads, i < 8) ∧
      Decoded .daly95 (frameData voltageFrame) .zero r.data := by
  have hcmd : (bmsVerifyResponse crc8Reflected (some voltageFrame)).1 =
      .daly95 := by decide +kernel
  have haccepted : (bmsVerifyResponse crc8Reflected
      (some voltageFrame)).1 ≠ .max := by
    rw [hcmd]
    decide
  have hdecoded := response_decoded_iff haccepted .zero
  rw [hcmd] at hdecoded
  exact hdecoded.mpr ⟨by decide, by decide, by decide⟩

theorem temperatureFrame_accepted :
    (bmsVerifyResponse crc8Reflected (some temperatureFrame)).1 = .daly96 := by
  decide +kernel

/-- No run of the handler of the third frame of temperatures ends. -/
theorem temperatureFrame_not_handled (s : BmsDalyState) :
    ¬Handled .daly96 ((temperatureFrame.set 12 0).drop 4)
      (frameData temperatureFrame) s := by
  have hlen : 8 ≤ ((temperatureFrame.set 12 0).drop 4).length := by decide
  have htwo : byteAt (frameData temperatureFrame) 0 = 2 := by decide
  rw [d96_handled_iff hlen (frameData_getD temperatureFrame)]
  exact fun h => h.1 htwo

/-- The third frame of temperatures leaves its array. -/
theorem temperatures_overflow :
    ¬∀ (crc8 : List UInt8 → UInt8) (buf : List UInt8) (s : BmsDalyState),
      (bmsVerifyResponse crc8 (some buf)).1 ≠ .max →
      ∃ r, dalyBtProcessData crc8 buf ⟨[], s⟩ = some ((), r) ∧
        (∀ i ∈ r.reads, i < 8) ∧
        Decoded (bmsVerifyResponse crc8 (some buf)).1 (frameData buf) s
          r.data := by
  intro h
  have hcmd := temperatureFrame_accepted
  have haccepted : (bmsVerifyResponse crc8Reflected
      (some temperatureFrame)).1 ≠ .max := by
    rw [hcmd]
    decide
  have hhandled := h crc8Reflected temperatureFrame .zero haccepted
  rw [dalyBtProcessData_accepted haccepted, hcmd] at hhandled
  exact temperatureFrame_not_handled .zero hhandled

end Herak.Daly
