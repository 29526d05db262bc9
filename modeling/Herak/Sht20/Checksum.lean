import Herak.Support.Crc

/-!
# The checksum of a SHT20 reading

`sht20_check_crc` of `sht20.c`: the sensor sends a CRC-8 behind the two bytes
of a measurement.  The loop shifts the bits of a byte out of the register one
by one, which is the remainder of a division by
`X ^ 8 + X ^ 5 + X ^ 4 + 1`.  An access outside the buffer is `none`.
-/

namespace Herak.Sht20

open Polynomial

/-! ## The code -/

/-- `POLYNOMIAL` -/
def polynomial : ℕ := 0x131

/-- `SHT20_RET_OK` -/
def retOk : ℤ := 0

/-- `SHT20_RET_ERR` -/
def retErr : ℤ := -1

/-- A step of the inner loop; the value goes back to eight bits. -/
def crcBit (crc : UInt8) : UInt8 :=
  if crc &&& 0x80 ≠ 0 then UInt8.ofNat ((crc.toNat <<< 1) ^^^ polynomial)
  else UInt8.ofNat (crc.toNat <<< 1)

def crcBits : ℕ → UInt8 → UInt8
  | 0, crc => crc
  | j + 1, crc => crcBits j (crcBit crc)

/-- A round of the outer loop. -/
def crcByte (crc byte : UInt8) : UInt8 :=
  crcBits 8 (crc ^^^ byte)

def crcLoop (data : List UInt8) : ℕ → ℕ → UInt8 → Option UInt8
  | 0, _, crc => some crc
  | count + 1, i, crc => do
      let byte ← data[i]?
      crcLoop data count (i + 1) (crcByte crc byte)

/-- `sht20_check_crc` -/
def sht20CheckCrc (data : List UInt8) (count checksum : UInt8) : Option ℤ := do
  let crc ← crcLoop data count.toNat 0 0
  if crc ≠ checksum then some retErr else some retOk

/-! ## The bitwise CRC -/

/-- `X ^ 5 + X ^ 4 + 1`, which `X ^ 8` is replaced by. -/
def crcPolynomial : BitVec 8 := 0x31#8

theorem generator_crcPolynomial :
    Crc.generator crcPolynomial = X ^ 8 + X ^ 5 + X ^ 4 + 1 := by
  have hpoly : Crc.poly crcPolynomial = 1 + X ^ 4 + X ^ 5 := by
    simp [Crc.poly, crcPolynomial, Finset.sum_range_succ]
  rw [Crc.generator, hpoly]
  ring

/-- The ninth bit of the constant only takes the bit that the shift loses. -/
theorem crcBit_toBitVec (crc : UInt8) :
    (crcBit crc).toBitVec = Crc.shift crcPolynomial crc.toBitVec := by
  have hall : ∀ d : BitVec 8, (crcBit (UInt8.ofBitVec d)).toBitVec =
      Crc.shift crcPolynomial d := by decide
  exact hall crc.toBitVec

theorem crcBits_toBitVec (j : ℕ) (crc : UInt8) :
    (crcBits j crc).toBitVec =
      (Crc.shift crcPolynomial)^[j] crc.toBitVec := by
  induction j generalizing crc with
  | zero => rfl
  | succ j ih =>
      rw [crcBits, ih, crcBit_toBitVec, Function.iterate_succ_apply]

/-- A byte is eight bits of the message. -/
theorem crcByte_toBitVec (crc byte : UInt8) :
    (crcByte crc byte).toBitVec =
      (Crc.msbBits byte.toBitVec).foldl (Crc.bitStep crcPolynomial)
        crc.toBitVec := by
  have hpos : 0 < 8 := by decide
  refine Crc.eq_foldl_bitStep crcPolynomial hpos ?_
  rw [crcByte, crcBits_toBitVec, Crc.residue_shift_iterate crcPolynomial _ _ hpos,
    UInt8.toBitVec_xor, Crc.poly_xor, Crc.residue_add, Crc.length_msbBits,
    Crc.messagePoly_msbBits, mul_add]

theorem foldl_crcByte (message : List UInt8) (crc : UInt8) :
    (message.foldl crcByte crc).toBitVec =
      (Crc.messageBits message).foldl (Crc.bitStep crcPolynomial)
        crc.toBitVec := by
  induction message generalizing crc with
  | nil => rfl
  | cons byte message ih =>
      rw [List.foldl_cons, ih, crcByte_toBitVec, ← List.foldl_append]
      rfl

/-- The loop computes the bitwise CRC. -/
theorem foldl_crcByte_zero (message : List UInt8) :
    (message.foldl crcByte 0).toBitVec =
      Crc.bitwise crcPolynomial (Crc.messageBits message) :=
  foldl_crcByte message 0

theorem crcLoop_eq (data : List UInt8) (count i : ℕ) (crc : UInt8)
    (h : i + count ≤ data.length) :
    crcLoop data count i crc =
      some (((data.drop i).take count).foldl crcByte crc) := by
  induction count generalizing i crc with
  | zero => simp [crcLoop]
  | succ count ih =>
      have hi : i < data.length := by omega
      rw [List.drop_eq_getElem_cons hi, List.take_succ_cons, List.foldl_cons,
        ← ih (i + 1) (crcByte crc data[i]) (by omega)]
      simp [crcLoop, List.getElem?_eq_getElem hi]

theorem crcLoop_append (message rest : List UInt8) :
    crcLoop (message ++ rest) message.length 0 0 =
      some (message.foldl crcByte 0) := by
  rw [crcLoop_eq _ _ 0 0 (by simp), List.drop_zero, List.take_left' rfl]

/-! ## The check -/

theorem sht20CheckCrc_eq (message rest : List UInt8) (count checksum : UInt8)
    (hcount : message.length = count.toNat) :
    sht20CheckCrc (message ++ rest) count checksum =
      some (if message.foldl crcByte 0 = checksum then retOk else retErr) := by
  rw [sht20CheckCrc, ← hcount, crcLoop_append]
  by_cases hcrc : message.foldl crcByte 0 = checksum
  · simp [hcrc]
  · simp [hcrc]

theorem sht20CheckCrc_eq_retOk_iff (message rest : List UInt8)
    (count checksum : UInt8) (hcount : message.length = count.toNat) :
    sht20CheckCrc (message ++ rest) count checksum = some retOk ↔
      checksum.toBitVec =
        Crc.bitwise crcPolynomial (Crc.messageBits message) := by
  rw [sht20CheckCrc_eq message rest count checksum hcount,
    ← foldl_crcByte_zero, UInt8.toBitVec_inj]
  by_cases hcrc : message.foldl crcByte 0 = checksum
  · simp [hcrc]
  · simp [hcrc, Ne.symm hcrc, retOk, retErr]

theorem sht20CheckCrc_of_ne_retOk {message rest : List UInt8}
    {count checksum : UInt8} (hcount : message.length = count.toNat)
    (h : sht20CheckCrc (message ++ rest) count checksum ≠ some retOk) :
    sht20CheckCrc (message ++ rest) count checksum = some retErr := by
  rw [sht20CheckCrc_eq message rest count checksum hcount] at h ⊢
  by_cases hcrc : message.foldl crcByte 0 = checksum
  · exact absurd (by rw [if_pos hcrc]) h
  · rw [if_neg hcrc]

/-- An accepted string with its checksum has the CRC 0. -/
theorem bitwise_of_accepted {message rest : List UInt8} {count checksum : UInt8}
    (hcount : message.length = count.toNat)
    (h : sht20CheckCrc (message ++ rest) count checksum = some retOk) :
    Crc.bitwise crcPolynomial (Crc.messageBits (message ++ [checksum])) = 0#8 := by
  have hcrc := (sht20CheckCrc_eq_retOk_iff message rest count checksum hcount).mp h
  have hlast : Crc.messageBits [checksum] = Crc.msbBits checksum.toBitVec :=
    List.append_nil _
  rw [Crc.messageBits_append, hlast, hcrc]
  exact Crc.bitwise_append_bitwise crcPolynomial _ (by decide)

/-- The check accepts the remainder of the message times `X ^ 8` and nothing
else, the accepted strings have the CRC 0, and no burst of eight bits leads
from one of them to another. -/
theorem sht20CheckCrc_detects (message rest : List UInt8)
    (count checksum : UInt8) (hcount : message.length = count.toNat) :
    (sht20CheckCrc (message ++ rest) count checksum = some retOk ↔
      Crc.poly checksum.toBitVec =
        (Crc.messagePoly (Crc.messageBits message) * X ^ 8) %ₘ
          (X ^ 8 + X ^ 5 + X ^ 4 + 1)) ∧
    (sht20CheckCrc (message ++ rest) count checksum ≠ some retOk →
      sht20CheckCrc (message ++ rest) count checksum = some retErr) ∧
    (sht20CheckCrc (message ++ rest) count checksum = some retOk →
      (∀ rest', crcLoop (message ++ [checksum] ++ rest')
        (message.length + 1) 0 0 = some 0) ∧
      ∀ message' rest' checksum' k, message'.length = message.length →
        (message', checksum') ≠ (message, checksum) →
        (∀ i, i < k ∨ k + 8 ≤ i →
          (Crc.messageBits (message ++ [checksum]))[i]? =
            (Crc.messageBits (message' ++ [checksum']))[i]?) →
        sht20CheckCrc (message' ++ rest') count checksum' = some retErr) := by
  have hpos : 0 < 8 := by decide
  refine ⟨?_, sht20CheckCrc_of_ne_retOk hcount, fun haccepted => ⟨?_, ?_⟩⟩
  · rw [sht20CheckCrc_eq_retOk_iff message rest count checksum hcount,
      ← generator_crcPolynomial, ← Crc.poly_bitwise crcPolynomial _ hpos]
    exact Crc.poly_injective.eq_iff.symm
  · intro rest'
    have hlen : (message ++ [checksum]).length = message.length + 1 := by simp
    rw [← hlen, crcLoop_append, Option.some.injEq, ← UInt8.toBitVec_inj,
      foldl_crcByte_zero, bitwise_of_accepted hcount haccepted]
    rfl
  · intro message' rest' checksum' k hlen hne hburst
    refine sht20CheckCrc_of_ne_retOk (hlen.trans hcount) fun haccepted' => hne ?_
    have hbits : (Crc.messageBits (message ++ [checksum])).length =
        (Crc.messageBits (message' ++ [checksum'])).length := by simp [hlen]
    have hsame := Crc.messageBits_injective
      (Crc.eq_of_bitwise_eq_of_burst hpos (p := crcPolynomial) (by decide) hbits k
        hburst ((bitwise_of_accepted hcount haccepted).trans
          (bitwise_of_accepted (hlen.trans hcount) haccepted').symm))
    obtain ⟨hmessage, hchecksum⟩ := List.append_inj hsame hlen.symm
    rw [hmessage, List.singleton_inj.mp hchecksum]

/-- The CRC of `0x68 0x3A` is `0x7C`, which `0x7D` is a burst away from. -/
theorem sht20CheckCrc_detects_reading :
    sht20CheckCrc [0x68, 0x3A] 2 0x7D = some retErr := by
  have hcheck := sht20CheckCrc_detects [0x68, 0x3A] [] 2 0x7C rfl
  have haccepted : sht20CheckCrc [0x68, 0x3A] 2 0x7C = some retOk := by
    decide +kernel
  refine (hcheck.2.2 haccepted).2 [0x68, 0x3A] [] 0x7D 16 rfl (by decide) ?_
  rintro i (hi | hi)
  · revert i
    decide
  · rw [List.getElem?_eq_none (by simpa using hi),
      List.getElem?_eq_none (by simpa using hi)]

end Herak.Sht20
