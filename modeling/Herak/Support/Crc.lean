import Mathlib.Algebra.CharP.Two
import Mathlib.Algebra.Field.ZMod
import Mathlib.Algebra.Polynomial.Basic
import Mathlib.Data.BitVec
import Mathlib.Data.UInt
import Mathlib.RingTheory.AdjoinRoot

/-!
# Cyclic redundancy checks

A register of `w` bits is a polynomial over the field of two elements, of a
degree below `w`.  The check of a message is the remainder of the message times
`X ^ w` after a division by the generator, which is `X ^ w` and the polynomial
of a register.  A register is best compared with other ones in the ring of
remainders, where a shift is a multiplication by the root of the generator.
-/

namespace Crc

open Polynomial

/-! ## Registers as polynomials -/

/-- The coefficient that a bit stands for. -/
def bit (b : Bool) : ZMod 2 :=
  if b then 1 else 0

@[simp] theorem bit_false : bit false = 0 := rfl

@[simp] theorem bit_true : bit true = 1 := rfl

theorem bit_xor (a b : Bool) : bit (a ^^ b) = bit a + bit b := by
  cases a <;> cases b <;> decide

theorem bit_injective : Function.Injective bit := by
  intro a b h
  cases a <;> cases b <;> first | rfl | (revert h; decide)

section Poly

variable {w : ℕ}

/-- Bit `i` of the register is the coefficient of `X ^ i`. -/
noncomputable def poly (c : BitVec w) : (ZMod 2)[X] :=
  ∑ i ∈ Finset.range w, C (bit (c.getLsbD i)) * X ^ i

theorem poly_coeff (c : BitVec w) (i : ℕ) :
    (poly c).coeff i = bit (c.getLsbD i) := by
  simp only [poly, finsetSum_coeff, coeff_C_mul, coeff_X_pow, mul_ite, mul_one,
    mul_zero, Finset.sum_ite_eq, Finset.mem_range]
  split
  · rfl
  next hi => rw [BitVec.getLsbD_of_ge c i (Nat.le_of_not_lt hi), bit_false]

theorem poly_injective : Function.Injective (poly : BitVec w → (ZMod 2)[X]) := by
  intro c d h
  refine BitVec.eq_of_getLsbD_eq fun i _ => bit_injective ?_
  rw [← poly_coeff, ← poly_coeff, h]

@[simp] theorem poly_zero : poly (0#w) = 0 := by
  ext i
  rw [poly_coeff, BitVec.getLsbD_zero, bit_false, coeff_zero]

theorem poly_xor (c d : BitVec w) : poly (c ^^^ d) = poly c + poly d := by
  ext i
  rw [coeff_add, poly_coeff, poly_coeff, poly_coeff, BitVec.getLsbD_xor, bit_xor]

theorem degree_poly_lt (c : BitVec w) : (poly c).degree < w := by
  rw [degree_lt_iff_coeff_zero]
  intro i hi
  rw [poly_coeff, BitVec.getLsbD_of_ge c i hi, bit_false]

/-- A shift to the left loses the bits that a shift to the right keeps. -/
theorem poly_shiftLeft (c : BitVec w) {k : ℕ} (hk : k ≤ w) :
    poly (c <<< k) + poly (c >>> (w - k)) * X ^ w = poly c * X ^ k := by
  ext i
  rw [coeff_add, coeff_mul_X_pow', coeff_mul_X_pow', poly_coeff,
    BitVec.getLsbD_shiftLeft]
  by_cases hw : w ≤ i
  · have hki : k ≤ i := hk.trans hw
    have hsum : w - k + (i - w) = i - k := by omega
    rw [if_pos hw, if_pos hki, poly_coeff, poly_coeff,
      BitVec.getLsbD_ushiftRight, hsum]
    simp [Nat.not_lt.mpr hw]
  · by_cases hki : k ≤ i
    · simp [hw, hki, poly_coeff, Nat.lt_of_not_le hw, Nat.not_lt.mpr hki]
    · simp [hw, hki, Nat.lt_of_not_le hki]

end Poly

/-! ## Remainders -/

section Residue

variable {w : ℕ} (p : BitVec w)

/-- The generator: `X ^ w` and the polynomial of the register. -/
noncomputable def generator : (ZMod 2)[X] :=
  X ^ w + poly p

theorem generator_monic : (generator p).Monic :=
  monic_X_pow_add (degree_poly_lt p)

theorem degree_generator : (generator p).degree = w := by
  rw [generator, degree_add_eq_left_of_degree_lt, degree_X_pow]
  rw [degree_X_pow]
  exact degree_poly_lt p

/-- A polynomial in the ring of remainders. -/
noncomputable def residue (f : (ZMod 2)[X]) : AdjoinRoot (generator p) :=
  AdjoinRoot.mk (generator p) f

@[simp] theorem residue_add (f g : (ZMod 2)[X]) :
    residue p (f + g) = residue p f + residue p g :=
  map_add _ f g

@[simp] theorem residue_mul (f g : (ZMod 2)[X]) :
    residue p (f * g) = residue p f * residue p g :=
  map_mul _ f g

@[simp] theorem residue_X_pow (k : ℕ) :
    residue p (X ^ k) = residue p X ^ k :=
  map_pow _ X k

theorem residue_eq_iff_dvd (f g : (ZMod 2)[X]) :
    residue p f = residue p g ↔ generator p ∣ f - g :=
  AdjoinRoot.mk_eq_mk

/-- The generator is 0, so that `X ^ w` is the polynomial of the register. -/
theorem residue_pow_width : residue p X ^ w = residue p (poly p) := by
  rw [← residue_X_pow, residue_eq_iff_dvd, CharTwo.sub_eq_add]
  exact dvd_rfl

/-- A register is the remainder of a polynomial if they are the same in the
ring of remainders. -/
theorem poly_eq_modByMonic_iff (c : BitVec w) (f : (ZMod 2)[X]) :
    poly c = f %ₘ generator p ↔ residue p (poly c) = residue p f := by
  have hmonic := generator_monic p
  have hself : poly c %ₘ generator p = poly c := by
    rw [modByMonic_eq_self_iff hmonic, degree_generator]
    exact degree_poly_lt c
  rw [residue_eq_iff_dvd, ← modByMonic_eq_zero_iff_dvd hmonic, sub_modByMonic,
    sub_eq_zero, hself]

theorem residue_poly_injective :
    Function.Injective fun c : BitVec w => residue p (poly c) := by
  intro c d h
  have hc := (poly_eq_modByMonic_iff p c (poly d)).mpr h
  have hd := (poly_eq_modByMonic_iff p d (poly d)).mpr rfl
  exact poly_injective (hc.trans hd.symm)

/-! ## Shifts -/

/-- A shift of a register; a bit that leaves it comes back as the generator. -/
def shift (c : BitVec w) : BitVec w :=
  (c <<< 1) ^^^ (if c.msb then p else 0#w)

theorem poly_ushiftRight_msb (c : BitVec w) (hw : 0 < w) :
    poly (c >>> (w - 1)) = C (bit c.msb) := by
  ext i
  rw [poly_coeff, coeff_C, BitVec.getLsbD_ushiftRight]
  by_cases hi : i = 0
  · rw [if_pos hi, hi, Nat.add_zero, BitVec.msb_eq_getLsbD_last]
  · rw [if_neg hi, BitVec.getLsbD_of_ge c _ (by omega), bit_false]

/-- A shift is a multiplication by the root. -/
theorem residue_shift (c : BitVec w) (hw : 0 < w) :
    residue p (poly (shift p c)) = residue p X * residue p (poly c) := by
  have hshift := congrArg (residue p) (poly_shiftLeft c hw)
  rw [poly_ushiftRight_msb c hw] at hshift
  simp only [residue_add, residue_mul, residue_X_pow, residue_pow_width,
    pow_one] at hshift
  have hback : residue p (poly (if c.msb then p else 0#w)) =
      residue p (C (bit c.msb)) * residue p (poly p) := by
    cases c.msb <;> simp [residue]
  rw [shift, poly_xor, residue_add, hback, hshift, mul_comm]

theorem residue_shift_iterate (k : ℕ) (c : BitVec w) (hw : 0 < w) :
    residue p (poly ((shift p)^[k] c)) =
      residue p X ^ k * residue p (poly c) := by
  induction k generalizing c with
  | zero => simp
  | succ k ih => rw [Function.iterate_succ_apply, ih, residue_shift p c hw,
      ← mul_assoc, ← pow_succ]

/-! ## Messages -/

/-- A bit enters the register at its top. -/
def bitStep (c : BitVec w) (b : Bool) : BitVec w :=
  (c <<< 1) ^^^ (if c.msb ^^ b then p else 0#w)

/-- The bitwise check of a message, whose first bit is its highest one: the
register starts at 0 and nothing is reflected. -/
def bitwise (bits : List Bool) : BitVec w :=
  bits.foldl (bitStep p) 0#w

theorem residue_bitStep (c : BitVec w) (b : Bool) (hw : 0 < w) :
    residue p (poly (bitStep p c b)) =
      residue p X * residue p (poly c) +
        residue p X ^ w * residue p (C (bit b)) := by
  have hstep : bitStep p c b = shift p c ^^^ (if b then p else 0#w) := by
    rw [bitStep, shift, BitVec.xor_assoc]
    cases c.msb <;> cases b <;> simp
  have hback : residue p (poly (if b then p else 0#w)) =
      residue p (C (bit b)) * residue p (poly p) := by
    cases b <;> simp [residue]
  rw [hstep, poly_xor, residue_add, residue_shift p c hw, hback,
    residue_pow_width, mul_comm (residue p (C (bit b)))]

end Residue

/-- The polynomial of a message. -/
noncomputable def messagePoly (bits : List Bool) : (ZMod 2)[X] :=
  bits.foldl (fun f b => X * f + C (bit b)) 0

@[simp] theorem messagePoly_nil : messagePoly [] = 0 := rfl

theorem messagePoly_concat (bits : List Bool) (b : Bool) :
    messagePoly (bits ++ [b]) = X * messagePoly bits + C (bit b) := by
  rw [messagePoly, List.foldl_append]
  rfl

theorem messagePoly_append (bits bits' : List Bool) :
    messagePoly (bits ++ bits') =
      messagePoly bits * X ^ bits'.length + messagePoly bits' := by
  induction bits' using List.reverseRecOn with
  | nil => simp
  | append_singleton bits' b ih =>
      rw [← List.append_assoc, messagePoly_concat, messagePoly_concat, ih,
        List.length_append, List.length_singleton, pow_succ]
      ring

/-- The last bit of a message is its constant coefficient. -/
theorem messagePoly_coeff (bits : List Bool) (i : ℕ) :
    (messagePoly bits).coeff i = bit (bits.reverse.getD i false) := by
  induction bits using List.reverseRecOn generalizing i with
  | nil => simp
  | append_singleton bits b ih =>
      rw [messagePoly_concat, coeff_add, List.reverse_append]
      cases i with
      | zero => simp
      | succ i => simp [coeff_X_mul, ih, coeff_C_succ]

theorem messagePoly_coeff_of_lt (bits : List Bool) {i : ℕ} (hi : i < bits.length) :
    (messagePoly bits).coeff i = bit bits[bits.length - 1 - i] := by
  have hrev : i < bits.reverse.length := by rwa [List.length_reverse]
  rw [messagePoly_coeff, List.getD_eq_getElem?_getD, List.getElem?_eq_getElem hrev,
    Option.getD_some, List.getElem_reverse]

/-- For a fixed length the message is known from its polynomial. -/
theorem eq_of_messagePoly_eq {bits bits' : List Bool}
    (hlen : bits.length = bits'.length)
    (h : messagePoly bits = messagePoly bits') : bits = bits' := by
  refine List.ext_getElem hlen fun i hi hi' => bit_injective ?_
  have hlast : bits.length - 1 - i < bits.length := by omega
  have hback : bits.length - 1 - (bits.length - 1 - i) = i := by omega
  have hcoeff := congrArg (fun f => coeff f (bits.length - 1 - i)) h
  rw [messagePoly_coeff_of_lt bits hlast,
    messagePoly_coeff_of_lt bits' (hlen ▸ hlast)] at hcoeff
  simpa only [← hlen, hback] using hcoeff

theorem messagePoly_xor (bits bits' : List Bool)
    (hlen : bits.length = bits'.length) :
    messagePoly (List.zipWith xor bits bits') =
      messagePoly bits + messagePoly bits' := by
  ext i
  simp only [coeff_add, messagePoly_coeff, ← bit_xor, List.getD_eq_getElem?_getD,
    List.reverse_zipWith hlen, List.getElem?_zipWith]
  by_cases hi : i < bits.length
  · have hi' : i < bits'.length := hlen ▸ hi
    simp [hi, hi']
  · have hi' : ¬ i < bits'.length := hlen ▸ hi
    simp [hi, hi']

section Check

variable {w : ℕ} (p : BitVec w)

/-- The register that a message leaves behind another one. -/
theorem residue_foldl_bitStep (bits : List Bool) (c : BitVec w) (hw : 0 < w) :
    residue p (poly (bits.foldl (bitStep p) c)) =
      residue p X ^ bits.length * residue p (poly c) +
        residue p X ^ w * residue p (messagePoly bits) := by
  induction bits using List.reverseRecOn with
  | nil => simp [residue]
  | append_singleton bits b ih =>
      rw [List.foldl_append, List.foldl_cons, List.foldl_nil,
        residue_bitStep p _ b hw, ih, messagePoly_concat]
      simp only [residue_add, residue_mul, List.length_append,
        List.length_singleton, pow_succ]
      ring

/-- A step over several bits at once is found by its remainder. -/
theorem eq_foldl_bitStep {bits : List Bool} {c c' : BitVec w} (hw : 0 < w)
    (h : residue p (poly c') =
      residue p X ^ bits.length * residue p (poly c) +
        residue p X ^ w * residue p (messagePoly bits)) :
    c' = bits.foldl (bitStep p) c :=
  residue_poly_injective p (h.trans (residue_foldl_bitStep p bits c hw).symm)

theorem residue_bitwise (bits : List Bool) (hw : 0 < w) :
    residue p (poly (bitwise p bits)) = residue p (messagePoly bits * X ^ w) := by
  rw [bitwise, residue_foldl_bitStep p bits _ hw]
  simp [residue, mul_comm]

/-- The check of a message is the remainder of the message times `X ^ w`. -/
theorem poly_bitwise (bits : List Bool) (hw : 0 < w) :
    poly (bitwise p bits) = (messagePoly bits * X ^ w) %ₘ generator p :=
  (poly_eq_modByMonic_iff p _ _).mpr (residue_bitwise p bits hw)

/-- For a fixed length the check is linear. -/
theorem bitwise_xor (bits bits' : List Bool) (hw : 0 < w)
    (hlen : bits.length = bits'.length) :
    bitwise p (List.zipWith xor bits bits') =
      bitwise p bits ^^^ bitwise p bits' := by
  refine residue_poly_injective p ?_
  simp only [poly_xor, residue_add, residue_bitwise p _ hw,
    messagePoly_xor bits bits' hlen, residue_mul, add_mul]

end Check

/-! ## Bursts -/

section Burst

variable {w : ℕ} {p : BitVec w}

/-- A generator with a constant term and a power of `X` have no factor in
common. -/
theorem isCoprime_generator_X (hw : 0 < w) (hp : p.getLsbD 0 = true) (k : ℕ) :
    IsCoprime (generator p) (X ^ k) := by
  have hcoeff : (generator p).coeff 0 = 1 := by
    rw [generator, coeff_add, coeff_X_pow, poly_coeff, hp, if_neg hw.ne, zero_add,
      bit_true]
  have hndvd : ¬ X ∣ generator p := by
    rw [X_dvd_iff, hcoeff]
    exact one_ne_zero
  exact ((irreducible_X.coprime_iff_not_dvd).mpr hndvd).symm.pow_right

/-- A polynomial with all its terms in a window of the width of the register
is no multiple of the generator. -/
theorem not_generator_dvd_of_window (hw : 0 < w) (hp : p.getLsbD 0 = true)
    {f : (ZMod 2)[X]} (hf : f ≠ 0) (s : ℕ)
    (hlow : ∀ i < s, f.coeff i = 0) (hhigh : ∀ i, s + w ≤ i → f.coeff i = 0) :
    ¬ generator p ∣ f := by
  obtain ⟨g, rfl⟩ := X_pow_dvd_iff.mpr hlow
  intro hdvd
  have hg : generator p ∣ g :=
    (isCoprime_generator_X hw hp s).dvd_of_dvd_mul_left hdvd
  have hdegree : g.degree < (generator p).degree := by
    rw [degree_generator, degree_lt_iff_coeff_zero]
    intro i hi
    rw [← coeff_X_pow_mul g s i]
    exact hhigh (i + s) (by omega)
  exact (generator_monic p).not_dvd_of_degree_lt (right_ne_zero_of_mul hf)
    hdegree hg

/-- Two messages with the same check are not apart in one burst of the width of
the register. -/
theorem eq_of_bitwise_eq_of_burst (hw : 0 < w) (hp : p.getLsbD 0 = true)
    {bits bits' : List Bool} (hlen : bits.length = bits'.length) (k : ℕ)
    (hburst : ∀ i, i < k ∨ k + w ≤ i → bits[i]? = bits'[i]?)
    (heq : bitwise p bits = bitwise p bits') : bits = bits' := by
  by_contra hne
  have hdiff : messagePoly bits - messagePoly bits' ≠ 0 :=
    sub_ne_zero.mpr fun h => hne (eq_of_messagePoly_eq hlen h)
  -- A coefficient of the difference is 0 where the messages agree.
  have hzero : ∀ i, (i < bits.length →
      bits.length - 1 - i < k ∨ k + w ≤ bits.length - 1 - i) →
      (messagePoly bits - messagePoly bits').coeff i = 0 := by
    intro i hwindow
    rw [coeff_sub, sub_eq_zero]
    by_cases hi : i < bits.length
    · have hsame := hburst _ (hwindow hi)
      rw [List.getElem?_eq_getElem (by omega),
        List.getElem?_eq_getElem (by omega)] at hsame
      rw [messagePoly_coeff_of_lt bits hi,
        messagePoly_coeff_of_lt bits' (hlen ▸ hi), Option.some.inj hsame]
      simp only [hlen]
    · have hout : bits.reverse[i]? = none :=
        List.getElem?_eq_none (by simpa using hi)
      have hout' : bits'.reverse[i]? = none :=
        List.getElem?_eq_none (by simpa [← hlen] using hi)
      simp only [messagePoly_coeff, List.getD_eq_getElem?_getD, hout, hout']
  have hndvd : ¬ generator p ∣ messagePoly bits - messagePoly bits' := by
    refine not_generator_dvd_of_window hw hp hdiff (bits.length - (k + w)) ?_ ?_
    · intro i hi
      exact hzero i fun _ => Or.inr (by omega)
    · intro i hi
      exact hzero i fun _ => Or.inl (by omega)
  have hres : residue p (messagePoly bits * X ^ w) =
      residue p (messagePoly bits' * X ^ w) := by
    rw [← residue_bitwise p bits hw, heq, residue_bitwise p bits' hw]
  rw [residue_eq_iff_dvd, ← sub_mul] at hres
  exact hndvd ((isCoprime_generator_X hw hp w).dvd_of_dvd_mul_right hres)

end Burst

/-! ## Words -/

section Words

variable {k : ℕ}

/-- The bits of a word, the highest one first. -/
def msbBits (d : BitVec k) : List Bool :=
  List.ofFn fun i : Fin k => d.getMsbD i

@[simp] theorem length_msbBits (d : BitVec k) : (msbBits d).length = k :=
  List.length_ofFn

theorem messagePoly_msbBits (d : BitVec k) : messagePoly (msbBits d) = poly d := by
  ext i
  rw [messagePoly_coeff, poly_coeff, List.getD_eq_getElem?_getD]
  by_cases hi : i < k
  · have hrev : i < (msbBits d).reverse.length := by simpa using hi
    have hsub : k - 1 - (k - 1 - i) = i := by omega
    rw [List.getElem?_eq_getElem hrev, List.getElem_reverse]
    simp [msbBits, BitVec.getMsbD, hsub]
  · have hout : (msbBits d).reverse[i]? = none :=
      List.getElem?_eq_none (by simpa using hi)
    rw [hout, BitVec.getLsbD_of_ge d i (Nat.le_of_not_lt hi), Option.getD_none]

theorem msbBits_xor (c d : BitVec k) :
    msbBits (c ^^^ d) = List.zipWith xor (msbBits c) (msbBits d) := by
  refine List.ext_getElem (by simp) fun i hi _ => ?_
  simp [msbBits]

/-- The bits of two words in a row. -/
theorem msbBits_append {m : ℕ} (c : BitVec k) (d : BitVec m) :
    msbBits (c ++ d) = msbBits c ++ msbBits d := by
  refine List.ext_getElem (by simp) fun i hi _ => ?_
  simp only [msbBits, List.getElem_append, List.getElem_ofFn,
    List.length_ofFn, BitVec.getMsbD_append]
  by_cases hik : i < k
  · simp [hik, Nat.not_le.mpr hik]
  · simp [hik, Nat.le_of_not_lt hik]

end Words

/-- A message with its check behind it has the check 0. -/
theorem bitwise_append_bitwise {w : ℕ} (p : BitVec w) (bits : List Bool)
    (hw : 0 < w) :
    bitwise p (bits ++ msbBits (bitwise p bits)) = 0#w := by
  refine residue_poly_injective p ?_
  simp only [residue_bitwise p _ hw, messagePoly_append, messagePoly_msbBits,
    residue_mul, residue_add, length_msbBits, poly_zero]
  rw [← residue_mul, ← residue_bitwise p bits hw, ← residue_add,
    CharTwo.add_self_eq_zero, residue, map_zero, zero_mul]

/-! ## Bytes -/

/-- The bits of a string: the bytes in their order, of each the highest bit
first. -/
def messageBits (message : List UInt8) : List Bool :=
  message.flatMap fun byte => msbBits byte.toBitVec

@[simp] theorem length_messageBits (message : List UInt8) :
    (messageBits message).length = 8 * message.length := by
  simp [messageBits, List.length_flatMap, Nat.mul_comm]

theorem messageBits_append (message message' : List UInt8) :
    messageBits (message ++ message') =
      messageBits message ++ messageBits message' :=
  List.flatMap_append

theorem messageBits_xor (message message' : List UInt8)
    (hlen : message.length = message'.length) :
    messageBits (List.zipWith (· ^^^ ·) message message') =
      List.zipWith xor (messageBits message) (messageBits message') := by
  induction message generalizing message' with
  | nil => rfl
  | cons byte message ih =>
      obtain _ | ⟨byte', message'⟩ := message'
      · cases hlen
      · have hbyte : (msbBits byte.toBitVec).length =
            (msbBits byte'.toBitVec).length := by simp
        rw [messageBits, List.zipWith_cons_cons, List.flatMap_cons,
          UInt8.toBitVec_xor, msbBits_xor]
        exact (congrArg _ (ih message' (Nat.succ.inj hlen))).trans
          (List.zipWith_append hbyte).symm

theorem messageBits_injective : Function.Injective messageBits := by
  intro message
  induction message with
  | nil =>
      intro message' h
      have hlen := congrArg List.length h
      simp only [length_messageBits, List.length_nil] at hlen
      exact (List.eq_nil_of_length_eq_zero (by omega)).symm
  | cons byte message ih =>
      intro message' h
      obtain _ | ⟨byte', message'⟩ := message'
      · have hlen := congrArg List.length h
        simp at hlen
      · obtain ⟨hbyte, hrest⟩ := List.append_inj h (by simp)
        have hpoly := congrArg messagePoly hbyte
        rw [messagePoly_msbBits, messagePoly_msbBits] at hpoly
        rw [ih hrest, UInt8.toBitVec_inj.mp (poly_injective hpoly)]

end Crc
