import Herak.Support.Crc
import Herak.Voltronic.Proto

/-!
# The CRC of a Voltronic frame

`calculate_crc` takes four bits a step with a table of 16 entries.  An entry is
the bitwise CRC of its index, and a step multiplies the register by `X ^ 4`, so
that the loop is the bitwise CRC with the polynomial `0x1021`.
-/

namespace Herak.Voltronic

open Polynomial

/-! ## The bitwise CRC -/

/-- `X ^ 12 + X ^ 5 + 1`, which `X ^ 16` is replaced by. -/
def crcPolynomial : BitVec 16 := 0x1021#16

theorem generator_crcPolynomial :
    Crc.generator crcPolynomial = X ^ 16 + X ^ 12 + X ^ 5 + 1 := by
  have hpoly : Crc.poly crcPolynomial = 1 + X ^ 5 + X ^ 12 := by
    simp [Crc.poly, crcPolynomial, Finset.sum_range_succ]
  rw [Crc.generator, hpoly]
  ring

/-! ## A step of the table -/

/-- An entry of the table is the CRC of its index. -/
theorem crcTable_getD (nibble : BitVec 4) :
    (crcTable.getD nibble.toNat 0).toBitVec =
      Crc.bitwise crcPolynomial (Crc.msbBits nibble) := by
  revert nibble
  decide

/-- The top of a register, to which the next nibble is added. -/
def crcTop (crc : UInt16) : BitVec 4 :=
  (crc.toBitVec >>> 12).setWidth 4

theorem poly_crcTop (crc : UInt16) :
    Crc.poly (crcTop crc) = Crc.poly (crc.toBitVec >>> 12) := by
  ext i
  rw [Crc.poly_coeff, Crc.poly_coeff, crcTop, BitVec.getLsbD_setWidth]
  by_cases hi : i < 4
  · simp [hi]
  · have hout : (crc.toBitVec >>> 12).getLsbD i = false := by
      rw [BitVec.getLsbD_ushiftRight]
      exact BitVec.getLsbD_of_ge _ _ (by omega)
    rw [hout, Bool.and_false]

theorem crcNibble_toBitVec (crc nibble : UInt16) (d : BitVec 4)
    (hd : nibble.toNat = d.toNat) :
    (crcNibble crc nibble).toBitVec =
      Crc.bitwise crcPolynomial (Crc.msbBits (crcTop crc ^^^ d)) ^^^
        (crc.toBitVec <<< 4) := by
  have htop : (crc >>> 12).toNat = (crcTop crc).toNat := by
    have hlt := UInt16.toNat_lt crc
    rw [crcTop, BitVec.toNat_setWidth, BitVec.toNat_ushiftRight,
      UInt16.toNat_shiftRight, UInt16.toNat_toBitVec, Nat.shiftRight_eq_div_pow,
      Nat.shiftRight_eq_div_pow]
    have hshift : (12 : UInt16).toNat % 16 = 12 := rfl
    rw [hshift]
    omega
  have hindex : (crc >>> 12 ^^^ nibble).toNat = (crcTop crc ^^^ d).toNat := by
    rw [UInt16.toNat_xor, BitVec.toNat_xor, htop, hd]
  rw [crcNibble, hindex, UInt16.toBitVec_xor, crcTable_getD]
  rfl

/-- A nibble is four bits of the message. -/
theorem crcNibble_eq (crc nibble : UInt16) (d : BitVec 4)
    (hd : nibble.toNat = d.toNat) :
    (crcNibble crc nibble).toBitVec =
      (Crc.msbBits d).foldl (Crc.bitStep crcPolynomial) crc.toBitVec := by
  have hpos : 0 < 16 := by decide
  refine Crc.eq_foldl_bitStep crcPolynomial hpos ?_
  have hshift := congrArg (Crc.residue crcPolynomial)
    (Crc.poly_shiftLeft crc.toBitVec (show 4 ≤ 16 by decide))
  simp only [Crc.residue_add, Crc.residue_mul, Crc.residue_X_pow] at hshift
  rw [crcNibble_toBitVec crc nibble d hd, Crc.poly_xor, Crc.residue_add,
    Crc.residue_bitwise crcPolynomial _ hpos, Crc.residue_mul,
    Crc.residue_X_pow, Crc.messagePoly_msbBits, Crc.messagePoly_msbBits,
    Crc.length_msbBits, Crc.poly_xor, Crc.residue_add, poly_crcTop]
  linear_combination hshift

/-- A byte is eight bits of the message. -/
theorem crcByte_eq (crc : UInt16) (byte : UInt8) :
    (crcByte crc byte).toBitVec =
      (Crc.msbBits byte.toBitVec).foldl (Crc.bitStep crcPolynomial)
        crc.toBitVec := by
  have hbits : Crc.msbBits byte.toBitVec =
      Crc.msbBits (byte.toBitVec.extractLsb' 4 4) ++
        Crc.msbBits (byte.toBitVec.extractLsb' 0 4) := by
    rw [← Crc.msbBits_append, BitVec.extractLsb'_append_extractLsb']
  have hhigh : (byte >>> 4).toUInt16.toNat =
      (byte.toBitVec.extractLsb' 4 4).toNat := by
    have hlt := UInt8.toNat_lt byte
    have hshift : (4 : UInt8).toNat % 8 = 4 := rfl
    rw [UInt8.toNat_toUInt16, UInt8.toNat_shiftRight, BitVec.extractLsb'_toNat,
      UInt8.toNat_toBitVec, hshift, Nat.shiftRight_eq_div_pow]
    omega
  have hlow : (byte &&& 0x0F).toUInt16.toNat =
      (byte.toBitVec.extractLsb' 0 4).toNat := by
    rw [UInt8.toNat_toUInt16, UInt8.toNat_and, BitVec.extractLsb'_toNat]
    exact Nat.and_two_pow_sub_one_eq_mod byte.toNat 4
  rw [crcByte, crcNibble_eq _ _ _ hlow, crcNibble_eq _ _ _ hhigh, hbits,
    List.foldl_append]

/-- The loop is the bitwise CRC. -/
theorem foldl_crcByte (message : List UInt8) (crc : UInt16) :
    (message.foldl crcByte crc).toBitVec =
      (Crc.messageBits message).foldl (Crc.bitStep crcPolynomial) crc.toBitVec := by
  induction message generalizing crc with
  | nil => rfl
  | cons byte message ih =>
      rw [List.foldl_cons, ih, crcByte_eq, ← List.foldl_append]
      rfl

theorem crcLoop_append (message rest : List UInt8) :
    crcLoop (message ++ rest) message.length 0 0 =
      some (message.foldl crcByte 0) := by
  rw [crcLoop_eq 0 (by simp), List.drop_zero, List.take_left' rfl]

/-- The CRC of a message, which the loop ends with. -/
theorem foldl_crcByte_zero (message : List UInt8) :
    (message.foldl crcByte 0).toBitVec =
      Crc.bitwise crcPolynomial (Crc.messageBits message) :=
  foldl_crcByte message 0

/-! ## The remainder -/

/-- For a fixed length the CRC is linear. -/
theorem foldl_crcByte_xor (message message' : List UInt8)
    (hlen : message.length = message'.length) :
    (List.zipWith (· ^^^ ·) message message').foldl crcByte 0 =
      message.foldl crcByte 0 ^^^ message'.foldl crcByte 0 := by
  refine UInt16.toBitVec_inj.mp ?_
  rw [UInt16.toBitVec_xor, foldl_crcByte_zero, foldl_crcByte_zero,
    foldl_crcByte_zero, Crc.messageBits_xor message message' hlen,
    Crc.bitwise_xor crcPolynomial _ _ (by decide) (by simp [hlen])]

/-- The loop of `calculate_crc` is the bitwise CRC with the polynomial
`0x1021`: the remainder of the message times `X ^ 16`, which is linear in the
messages of a length. -/
theorem calculateCrc_isBitwise (message rest : List UInt8) :
    ∃ crc, crcLoop (message ++ rest) message.length 0 0 = some crc ∧
      calculateCrc (message ++ rest) message.length =
        some (if message = [] then 0 else fixReserved crc) ∧
      crc.toBitVec = Crc.bitwise 0x1021#16 (Crc.messageBits message) ∧
      Crc.poly crc.toBitVec =
        (Crc.messagePoly (Crc.messageBits message) * X ^ 16) %ₘ
          (X ^ 16 + X ^ 12 + X ^ 5 + 1) ∧
      ∀ message' rest' crc', message'.length = message.length →
        crcLoop (message' ++ rest') message'.length 0 0 = some crc' →
        ∀ rest'', crcLoop
            (List.zipWith (· ^^^ ·) message message' ++ rest'')
            message.length 0 0 = some (crc ^^^ crc') := by
  have hpos : 0 < 16 := by decide
  refine ⟨message.foldl crcByte 0, crcLoop_append message rest, ?_,
    foldl_crcByte_zero message, ?_, ?_⟩
  · rw [calculateCrc, crcLoop_append]
    obtain _ | ⟨byte, message⟩ := message
    · rfl
    · rfl
  · rw [← generator_crcPolynomial, foldl_crcByte_zero]
    exact Crc.poly_bitwise crcPolynomial (Crc.messageBits message) hpos
  · intro message' rest' crc' hlen hcrc' rest''
    rw [crcLoop_append] at hcrc'
    have hxor : (List.zipWith (· ^^^ ·) message message').length =
        message.length := by simp [hlen]
    rw [← hxor, crcLoop_append, foldl_crcByte_xor message message' hlen.symm,
      Option.some.inj hcrc']

/-- The CRC of two messages of a byte is the sum of their CRCs. -/
theorem calculateCrc_isBitwise_bytes :
    crcLoop [0x31 ^^^ 0x07] 1 0 0 = some (0x2672 ^^^ 0x70E7) := by
  obtain ⟨crc, hcrc, _, _, _, hxor⟩ := calculateCrc_isBitwise [0x31] []
  have hsome : crcLoop [0x31] 1 0 0 = some 0x2672 := by decide
  have heq : crc = 0x2672 := Option.some.inj (hcrc.symm.trans hsome)
  have hsum := hxor [0x07] [] 0x70E7 rfl (by decide) []
  rwa [heq] at hsum

end Herak.Voltronic
