import Herak.OpenTherm.Device
import Herak.Support.RationalFloat

/-!
# Fixed-point numbers

`opentherm_cmd_float` sends a float as a signed number of 256ths.  Numbers below
zero are taken away from `0x10000`, which is a float of 17 bits, so that the
difference is rounded to 128ths and the word is that of the positive number.
-/

namespace Herak.OpenTherm

open BinaryFloat CFloat

/-! ## The word of a float -/

theorem ofFrac_nat {n : ℕ} (hn : n < 2 ^ 24) :
    ∃ h, ofFrac binary32 n 1 = .finite (n * 2 ^ 149) h :=
  Value.ofFrac_two_pow (f := binary32) (n := n) (k := 0) hn (by decide) (by decide)

/-- The multiplication by `0x100` is exact. -/
theorem mul_256_eq {units : ℤ} (h : binary32.Representable units.natAbs)
    (hle : units.natAbs ≤ 2 ^ 156) :
    ∃ hrep, (ofFrac binary32 0x100 1).mul (.finite units h) =
      .finite (units * 256) hrep := by
  have hrep : binary32.Representable (units * 256).natAbs := by
    have hpow : (256 : ℤ).natAbs = 2 ^ 8 := rfl
    have hmax : 2 ^ 156 * 2 ^ 8 ≤ binary32.maxUnits := by decide
    rw [Int.natAbs_mul, hpow]
    exact representable_mul_two_pow h
      ((Nat.mul_le_mul_right (2 ^ 8) hle).trans hmax)
  refine ⟨hrep, ?_⟩
  obtain ⟨h256, heq⟩ := ofFrac_nat (n := 0x100) (by decide)
  have hround := Value.round_mul hrep (d := 2 ^ binary32.unitExp) (by positivity)
  change (ofFrac binary32 ((0x100 : ℕ) : ℤ) 1).mul (.finite units h) = _
  rw [heq, Value.mul, ← hround]
  congr 1
  simp only [binary32, Nat.cast_pow, Nat.cast_ofNat]
  ring

/-- The word of a number that is not negative. -/
theorem fixed88_of_nonneg {units : ℤ} (h : binary32.Representable units.natAbs)
    (hpos : 0 ≤ units) (hle : units ≤ 2 ^ 156) :
    fixed88 (.finite units h) = BitVec.ofInt 16 (units / 2 ^ 141) := by
  obtain ⟨hrep, hscaled⟩ := mul_256_eq h (by omega)
  have hle0 : (Value.zero binary32).le (.finite units h) = true := by
    rw [Value.zero, Value.le_finite]
    exact hpos
  have htrunc : (units * 256).tdiv (2 ^ 149) = units * 256 / 2 ^ 149 :=
    Int.tdiv_eq_ediv_of_nonneg (by omega)
  simp only [fixed88, hscaled, hle0, if_true, toInt16, Value.toInt32]
  rw [show binary32.unitExp = 149 from rfl, htrunc]
  congr 1
  omega

/-- The magnitude of a difference to `0x10000`, in 128ths. -/
theorem roundMagnitude_17 {n : ℕ} (hlow : 2 ^ 165 ≤ n) (hhigh : n < 2 ^ 166) :
    roundMagnitude binary32 n 1 = roundEven n (2 ^ 142) * 2 ^ 142 := by
  have hlog : n.log2 = 165 := by
    rw [Nat.log2_eq_iff (by omega)]
    exact ⟨hlow, hhigh⟩
  have hshift : shift binary32 n = 142 := by
    rw [shift, hlog]
    rfl
  rw [roundMagnitude, Nat.div_one, hshift, Nat.one_mul]

/-- The word of a negative number. -/
theorem fixed88_of_neg {m : ℕ}
    (h : binary32.Representable (-(m : ℤ)).natAbs) (hpos : 0 < m)
    (hle : m ≤ 2 ^ 156) :
    fixed88 (.finite (-m) h) =
      BitVec.ofInt 16 (roundEven (2 ^ 165 + 256 * m) (2 ^ 142) / 128 : ℕ) := by
  obtain ⟨hrep, hscaled⟩ := mul_256_eq h (by omega)
  obtain ⟨h17, heq⟩ := ofFrac_nat (n := 0x10000) (by decide)
  have hle0 : ¬(Value.zero binary32).le (.finite (-(m : ℤ)) h) = true := by
    rw [Value.zero, Value.le_finite]
    omega
  have hdiff : (((0x10000 : ℕ) : ℤ) * 2 ^ 149 - -(m : ℤ) * 256).toNat =
      2 ^ 165 + 256 * m := by
    omega
  have hround := roundMagnitude_17 (n := 2 ^ 165 + 256 * m) (by omega) (by omega)
  have hsum : roundEven (2 ^ 165 + 256 * m) (2 ^ 142) ≤ 2 ^ 24 := by
    have := roundEven_le (2 ^ 165 + 256 * m) (2 ^ 142)
    omega
  have hmax : 2 ^ 24 * 2 ^ 142 ≤ binary32.maxUnits := by decide
  obtain ⟨hrep', hsub⟩ := Value.round_of_nonneg (f := binary32)
    (n := ((0x10000 : ℕ) : ℤ) * 2 ^ 149 - -(m : ℤ) * 256) (d := 1) (by omega) (by
      rw [hdiff, hround]
      exact (Nat.mul_le_mul_right (2 ^ 142) hsum).trans hmax)
  have hvalue : (ofFrac binary32 0x10000 1).sub (.finite (-(m : ℤ) * 256) hrep) =
      round binary32 (((0x10000 : ℕ) : ℤ) * 2 ^ 149 - -(m : ℤ) * 256) 1 := by
    change (ofFrac binary32 ((0x10000 : ℕ) : ℤ) 1).sub _ = _
    rw [heq, Value.sub]
  have htrunc : (roundEven (2 ^ 165 + 256 * m) (2 ^ 142) * 2 ^ 142 : ℕ) / 2 ^ 149 =
      roundEven (2 ^ 165 + 256 * m) (2 ^ 142) / 128 := by
    omega
  simp only [fixed88, hscaled, hle0, hvalue, hsub, toInt16, Value.toInt32, hdiff, hround]
  rw [show binary32.unitExp = 149 from rfl,
    Int.tdiv_eq_ediv_of_nonneg (Int.natCast_nonneg _)]
  rw [if_neg Bool.false_ne_true]
  congr 1
  omega

/-- When the word of a negative number reaches that of a positive one. -/
theorem le_negWord_iff {m j : ℕ} (hj : 0 < j) :
    65536 + j ≤ roundEven (2 ^ 165 + 256 * m) (2 ^ 142) / 128 ↔
      (256 * j - 1) * 2 ^ 133 ≤ m := by
  rw [Nat.le_div_iff_mul_le (by decide),
    le_roundEven_iff_of_even (by positivity) (by omega) (by omega)]
  omega

/-- The signed number of a word that is `0x10000` too large. -/
theorem toInt_ofInt_add {j : ℕ} (hj : j ≤ 32768) :
    (BitVec.ofInt 16 (65536 + j : ℕ)).toInt =
      if j = 32768 then -32768 else (j : ℤ) := by
  rw [BitVec.toInt_ofInt, Int.bmod_def]
  split_ifs <;> omega

/-! ## The float of a word -/

theorem toRat_float88 (v : BitVec 16) :
    (float88 v).toRat = (v.toInt : ℚ) / 256 := by
  obtain ⟨h, heq⟩ := float88_eq v
  rw [heq, Value.toRat]
  push_cast
  norm_num [binary32]
  ring

/-- The float of a word that was converted from a number of 16 bits. -/
theorem toRat_float88_ofInt {n : ℤ} (hlow : -2 ^ 15 ≤ n) (hhigh : n < 2 ^ 15) :
    (float88 (BitVec.ofInt 16 n)).toRat = (n : ℚ) / 256 := by
  rw [toRat_float88, BitVec.toInt_ofInt_eq_self (by decide) hlow hhigh]

/-! ## Rounding -/

/-- The float of a rational, as the caller has it. -/
abbrev floatOfRat (q : ℚ) : CFloat32 := Value.ofRat binary32 q

theorem representable_256ths {k : ℕ} (hk : k ≤ 2 ^ 15) :
    binary32.Representable (k * 2 ^ 141) :=
  ⟨k, 141, by simp only [binary32]; omega, by decide, rfl⟩

section

variable {q : ℚ}

theorem ratMagnitude_le_128 (hq : |q| ≤ 128) :
    ratMagnitude binary32 q ≤ 2 ^ 156 := by
  have hle := ratMagnitude_le (f := binary32) (q := q)
    (representable_256ths (k := 2 ^ 15) (Nat.le_refl _)) (by
      simp only [binary32]
      push_cast
      linarith)
  omega

/-- A rational is below the next 256th of its float. -/
theorem abs_lt_256th {k : ℕ} (hk : k ≤ 2 ^ 15)
    (h : ratMagnitude binary32 q < k * 2 ^ 141) : |q| < (k : ℚ) / 256 := by
  have hlt := lt_of_ratMagnitude_lt (representable_256ths hk) h
  simp only [binary32] at hlt
  push_cast at hlt
  linarith

/-- A rational is above the 256th before its float. -/
theorem lt_abs_256th {k : ℕ} (hk : k ≤ 2 ^ 15)
    (h : k * 2 ^ 141 < ratMagnitude binary32 q) : (k : ℚ) / 256 < |q| := by
  have hlt := lt_of_lt_ratMagnitude (representable_256ths hk) h
  simp only [binary32] at hlt
  push_cast at hlt
  linarith

end

/-! ## The condition -/

/-- The numbers that are sent with a word of their own: those that are not
negative, those that come next to zero, and those that come next to -128. -/
def HasWord (x : CFloat32) : Prop :=
  x.toRat < 128 ∧ (-(255 / 65536) < x.toRat ∨ x.toRat ≤ -(128 - 1 / 65536))

theorem hasWord_finite {units : ℤ} (h : binary32.Representable units.natAbs) :
    HasWord (.finite units h) ↔
      units < 2 ^ 156 ∧
        (-(255 * 2 ^ 133) < units ∨ units ≤ -(2 ^ 156 - 2 ^ 133)) := by
  have hpow : (0 : ℚ) < 2 ^ 149 := by positivity
  simp only [HasWord, Value.toRat, binary32]
  rw [div_lt_iff₀ hpow, lt_div_iff₀ hpow, div_le_iff₀ hpow]
  have hhigh : ((units : ℚ) < 128 * 2 ^ 149) ↔ units < 2 ^ 156 := by
    rw [← @Int.cast_lt ℚ]
    push_cast
    norm_num
  have hzero : (-(255 / 65536) * 2 ^ 149 < (units : ℚ)) ↔
      -(255 * 2 ^ 133) < units := by
    rw [← @Int.cast_lt ℚ]
    push_cast
    norm_num
  have hlow : ((units : ℚ) ≤ -(128 - 1 / 65536) * 2 ^ 149) ↔
      units ≤ -(2 ^ 156 - 2 ^ 133) := by
    rw [← @Int.cast_le ℚ]
    push_cast
    norm_num
  rw [hhigh, hzero, hlow]

/-! ## There and back -/

/-- A number that is not negative is kept up to a 256th, unless its float
is 128. -/
theorem fixed88_nonneg_iff {q : ℚ} (hq : 0 ≤ q) (hlt : q < 128) :
    |(float88 (fixed88 (floatOfRat q))).toRat - q| < 1 / 256 ↔
      HasWord (floatOfRat q) := by
  have habs : |q| = q := abs_of_nonneg hq
  have hmag := ratMagnitude_le_128 (q := q) (by rw [habs]; exact hlt.le)
  obtain ⟨hrep, hvalue⟩ := Value.ofRat_of_nonneg (f := binary32) hq
    (hmag.trans (by decide))
  rw [floatOfRat, hvalue, hasWord_finite,
    fixed88_of_nonneg hrep (Int.natCast_nonneg _) (by omega)]
  rcases hmag.lt_or_eq with hsmall | hlarge
  · -- The word is the integer part of the number of 256ths.
    obtain ⟨k, hk⟩ : ∃ k : ℕ, k = ratMagnitude binary32 q / 2 ^ 141 := ⟨_, rfl⟩
    have hword : (ratMagnitude binary32 q : ℤ) / 2 ^ 141 = (k : ℕ) := by omega
    rw [hword, toRat_float88_ofInt (by omega) (by omega)]
    have hnext := abs_lt_256th (q := q) (k := k + 1) (by omega) (by omega)
    have hbefore : ((k : ℚ) - 1) / 256 < q := by
      cases k with
      | zero =>
          push_cast
          linarith
      | succ k =>
          have := lt_abs_256th (q := q) (k := k) (by omega) (by omega)
          rw [habs] at this
          push_cast
          linarith
    rw [habs] at hnext
    push_cast at hnext ⊢
    refine iff_of_true ?_ ⟨by omega, .inl (by omega)⟩
    rw [abs_sub_lt_iff]
    constructor <;> linarith
  · have hword : (ratMagnitude binary32 q : ℤ) / 2 ^ 141 = 32768 := by omega
    have hneg : (BitVec.ofInt 16 32768).toInt = -32768 := by decide
    rw [hword, toRat_float88, hneg]
    refine iff_of_false ?_ fun h => absurd h.1 (by omega)
    push_cast
    rw [abs_sub_lt_iff]
    intro h
    linarith [h.2]

/-- A negative number is kept up to a 256th if it is next to zero or next to
-128. -/
theorem fixed88_neg_iff {q : ℚ} (hq : q < 0) (hge : -128 ≤ q) :
    |(float88 (fixed88 (floatOfRat q))).toRat - q| < 1 / 256 ↔
      HasWord (floatOfRat q) := by
  have habs : |q| = -q := abs_of_neg hq
  have hmag := ratMagnitude_le_128 (q := q) (by rw [habs]; linarith)
  obtain ⟨hrep, hvalue⟩ := Value.ofRat_of_neg (f := binary32) hq
    (hmag.trans (by decide))
  rw [floatOfRat, hvalue, hasWord_finite]
  rcases Nat.eq_zero_or_pos (ratMagnitude binary32 q) with hzero | hpos
  · -- The float is zero.
    have hsmall := abs_lt_256th (q := q) (k := 1) (by decide)
      (by rw [hzero]; positivity)
    have hunits : -(ratMagnitude binary32 q : ℤ) = 0 := by omega
    rw [fixed88_of_nonneg hrep (by omega) (by omega), hunits,
      toRat_float88_ofInt (by decide) (by decide)]
    refine iff_of_true ?_ (by decide)
    rw [habs] at hsmall
    push_cast at hsmall ⊢
    rw [abs_sub_lt_iff]
    constructor <;> linarith
  · rw [fixed88_of_neg hrep hpos hmag]
    have hfirst := le_negWord_iff (m := ratMagnitude binary32 q) (j := 1) (by decide)
    have hlast := le_negWord_iff (m := ratMagnitude binary32 q) (j := 32768)
      (by decide)
    have hlow : 65536 ≤ roundEven (2 ^ 165 + 256 * ratMagnitude binary32 q)
        (2 ^ 142) / 128 := by
      have := le_roundEven (2 ^ 165 + 256 * ratMagnitude binary32 q) (2 ^ 142)
      omega
    have hhigh : ¬65536 + 32769 ≤ roundEven
        (2 ^ 165 + 256 * ratMagnitude binary32 q) (2 ^ 142) / 128 := by
      rw [le_negWord_iff (by decide)]
      omega
    obtain ⟨j, hj⟩ := Nat.exists_eq_add_of_le hlow
    rw [hj] at hfirst hlast hhigh ⊢
    rw [toRat_float88, toInt_ofInt_add (by omega)]
    split
    next hmin =>
      -- The word is that of -128.
      have hnear := lt_abs_256th (q := q) (k := 32767) (by decide) (by omega)
      rw [habs] at hnear
      refine iff_of_true ?_ ⟨by omega, .inr (by omega)⟩
      push_cast at hnear ⊢
      rw [abs_sub_lt_iff]
      constructor <;> linarith
    next hmin =>
      rcases Nat.eq_zero_or_pos j with rfl | hjpos
      · have hsmall := abs_lt_256th (q := q) (k := 1) (by decide) (by omega)
        rw [habs] at hsmall
        refine iff_of_true ?_ ⟨by omega, .inl (by omega)⟩
        push_cast at hsmall ⊢
        rw [abs_sub_lt_iff]
        constructor <;> linarith
      · -- The word is that of a positive number.
        refine iff_of_false ?_ (by omega)
        have hone : (1 : ℚ) ≤ (j : ℤ) := by exact_mod_cast hjpos
        rw [abs_sub_lt_iff]
        intro h
        linarith [h.1]

/-- A word is kept if it is not that of a negative number, or the one of -128. -/
theorem fixed88_float88_iff (v : BitVec 16) :
    fixed88 (float88 v) = v ↔ 0 ≤ v.toInt ∨ v = 0x8000#16 := by
  have hlow := BitVec.le_toInt v
  have hhigh := BitVec.toInt_lt (x := v)
  obtain ⟨h, heq⟩ := float88_eq v
  rw [heq]
  rcases Int.lt_or_le v.toInt 0 with hneg | hpos
  · obtain ⟨k, hk⟩ : ∃ k : ℕ, v.toInt = -(k : ℤ) := ⟨v.toInt.natAbs, by omega⟩
    have hunits : v.toInt * 2 ^ 141 = -((k * 2 ^ 141 : ℕ) : ℤ) := by
      rw [hk]
      push_cast
      ring
    have hexact : roundEven (2 ^ 165 + 256 * (k * 2 ^ 141)) (2 ^ 142) / 128 =
        65536 + k := by
      have hmul : 2 ^ 165 + 256 * (k * 2 ^ 141) = (2 ^ 23 + 128 * k) * 2 ^ 142 := by
        ring
      rw [hmul, roundEven_mul _ (by positivity)]
      omega
    have hmin : v = 0x8000#16 ↔ k = 32768 := by
      rw [← BitVec.toInt_inj, hk, show (0x8000#16).toInt = -32768 from rfl]
      omega
    simp only [hunits]
    rw [fixed88_of_neg _ (by omega) (by omega), hexact, ← BitVec.toInt_inj,
      toInt_ofInt_add (by omega), hmin, hk]
    split_ifs <;> omega
  · refine iff_of_true ?_ (.inl hpos)
    rw [fixed88_of_nonneg h (by omega) (by omega),
      Int.mul_ediv_cancel _ (by positivity), BitVec.ofInt_toInt]

/-- `opentherm_cmd_float` sends the word of its float, and gives back the float
of the word that is answered. -/
theorem openthermCmdFloat_eq (exchange : Exchange) (cmd : ℕ) (out inp : OtData)
    (write : Bool) :
    openthermCmdFloat exchange cmd (some out) inp write =
      ((if write then openthermDevWrite exchange cmd (fixed88 out.f)
        else openthermDevRead exchange cmd (fixed88 out.f)).map
          fun v => inp.setF (float88 v)) := by
  rw [openthermCmdFloat, openthermCmd]
  cases (if write = true then openthermDevWrite exchange cmd (fixed88 out.f)
    else openthermDevRead exchange cmd (fixed88 out.f)) <;> rfl

/-- Of the numbers from -128 to 128 exactly those that are not negative, next to
zero or next to -128 are decoded to less than a 256th beside them, and of the
words exactly those of a number that is not negative, and that of -128, are
encoded again. -/
theorem fixed88_roundTrip_iff (exchange : Exchange) (cmd : ℕ) (out inp : OtData)
    (write : Bool) (q : ℚ) (v : BitVec 16) :
    openthermCmdFloat exchange cmd (some out) inp write =
        ((if write then openthermDevWrite exchange cmd (fixed88 out.f)
          else openthermDevRead exchange cmd (fixed88 out.f)).map
            fun v => inp.setF (float88 v)) ∧
      (-128 ≤ q → q < 128 →
        (|(float88 (fixed88 (floatOfRat q))).toRat - q| < 1 / 256 ↔
          HasWord (floatOfRat q))) ∧
      (fixed88 (float88 v) = v ↔ 0 ≤ v.toInt ∨ v = 0x8000#16) := by
  refine ⟨openthermCmdFloat_eq exchange cmd out inp write, fun hge hlt => ?_,
    fixed88_float88_iff v⟩
  rcases lt_or_ge q 0 with hneg | hpos
  · exact fixed88_neg_iff hneg hge
  · exact fixed88_nonneg_iff hpos hlt

/-- A negative number is sent with the word of the positive one. -/
theorem not_fixed88_roundTrip :
    floatOfRat (-1) = float88 0xFF00#16 ∧
      fixed88 (floatOfRat (-1)) = 0x0100#16 ∧
      float88 0x0100#16 = floatOfRat 1 ∧
      ¬(∀ q : ℚ, -128 ≤ q → q < 128 →
        |(float88 (fixed88 (floatOfRat q))).toRat - q| < 1 / 256) := by
  have hword : fixed88 (floatOfRat (-1)) = 0x0100#16 := by decide +kernel
  refine ⟨by decide +kernel, hword, by decide +kernel, fun h => ?_⟩
  have hone := h (-1) (by norm_num) (by norm_num)
  rw [hword, toRat_float88, show (0x0100#16).toInt = 256 from rfl] at hone
  norm_num at hone

end Herak.OpenTherm
