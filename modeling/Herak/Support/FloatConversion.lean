import Herak.Support.BinaryFloat

/-!
# Conversions of floating point numbers

The bit pattern of a value, as a number, and its conversion to an integer.  The
pattern of a magnitude is its biased exponent in front of its significand, of
which the leading bit is dropped; counted from the least magnitude on, the
patterns have no gaps.
-/

namespace BinaryFloat

/-! ## Magnitudes -/

/-- The pattern of a magnitude. -/
def encodeMagnitude (f : Format) (n : ℕ) : ℕ :=
  n / 2 ^ shift f n + shift f n * 2 ^ (f.precision - 1)

/-- The magnitude with a pattern. -/
def decodeMagnitude (f : Format) (c : ℕ) : ℕ :=
  (c - (c / 2 ^ (f.precision - 1) - 1) * 2 ^ (f.precision - 1)) *
    2 ^ (c / 2 ^ (f.precision - 1) - 1)

/-- The pattern of infinity, the first one behind the magnitudes. -/
def infPattern (f : Format) : ℕ :=
  (f.maxShift + 2) * 2 ^ (f.precision - 1)

/-- The sign bit. -/
def signPattern (f : Format) : ℕ :=
  (f.maxShift + 3) * 2 ^ (f.precision - 1)

variable {f : Format}

theorem two_pow_precision (f : Format) :
    2 ^ f.precision = 2 * 2 ^ (f.precision - 1) := by
  have hprec := f.precision_pos
  rw [← pow_succ', Nat.sub_add_cancel hprec]

/-- The last bit of a magnitude of the format has the weight that its length
gives. -/
theorem Format.Representable.div_mul_shift {n : ℕ} (h : f.Representable n) :
    n / 2 ^ shift f n * 2 ^ shift f n = n := by
  have hexact := roundMagnitude_exact (d := 1) Nat.one_pos h
  simp only [Nat.mul_one, roundMagnitude, Nat.one_mul, Nat.div_one] at hexact
  have hdvd : 2 ^ shift f n ∣ n := by
    conv_rhs => rw [← hexact]
    exact Nat.dvd_mul_left _ _
  exact Nat.div_mul_cancel hdvd

theorem Format.Representable.shift_le {n : ℕ} (h : f.Representable n) :
    shift f n ≤ f.maxShift := by
  obtain ⟨m, s, hm, hs, rfl⟩ := h
  refine (shift_le_of_lt ?_).trans hs
  rw [pow_add]
  exact Nat.mul_lt_mul_of_pos_right hm (by positivity)

theorem div_shift_lt (f : Format) (n : ℕ) :
    n / 2 ^ shift f n < 2 ^ f.precision := by
  rw [Nat.div_lt_iff_lt_mul (by positivity), ← pow_add]
  exact lt_two_pow_shift f n

theorem le_div_shift {n : ℕ} (h : 0 < shift f n) :
    2 ^ (f.precision - 1) ≤ n / 2 ^ shift f n := by
  rw [Nat.le_div_iff_mul_le (by positivity), ← pow_add]
  exact two_pow_shift_le h

/-- The exponent field of a pattern. -/
theorem encodeMagnitude_div (f : Format) (n : ℕ) :
    encodeMagnitude f n / 2 ^ (f.precision - 1) - 1 = shift f n := by
  have hpos : 0 < 2 ^ (f.precision - 1) := by positivity
  have hlt := div_shift_lt f n
  rw [two_pow_precision] at hlt
  rw [encodeMagnitude, Nat.add_mul_div_right _ _ hpos]
  rcases Nat.eq_zero_or_pos (shift f n) with hs | hs
  · have hle : n / 2 ^ shift f n / 2 ^ (f.precision - 1) < 2 :=
      Nat.div_lt_of_lt_mul (by rwa [Nat.mul_comm])
    rw [hs] at hle ⊢
    omega
  · have hone : n / 2 ^ shift f n / 2 ^ (f.precision - 1) = 1 :=
      Nat.div_eq_of_lt_le (by rw [Nat.one_mul]; exact le_div_shift hs)
        (by omega)
    omega

theorem decodeMagnitude_encodeMagnitude {n : ℕ} (h : f.Representable n) :
    decodeMagnitude f (encodeMagnitude f n) = n := by
  rw [decodeMagnitude, encodeMagnitude_div, encodeMagnitude,
    Nat.add_sub_cancel, h.div_mul_shift]

theorem encodeMagnitude_lt {n : ℕ} (h : f.Representable n) :
    encodeMagnitude f n < infPattern f := by
  have hlt := div_shift_lt f n
  rw [two_pow_precision] at hlt
  calc
    encodeMagnitude f n
      < 2 * 2 ^ (f.precision - 1) + shift f n * 2 ^ (f.precision - 1) :=
        Nat.add_lt_add_right hlt _
    _ = (shift f n + 2) * 2 ^ (f.precision - 1) := by ring
    _ ≤ infPattern f :=
        Nat.mul_le_mul_right _ (Nat.add_le_add_right h.shift_le 2)

theorem decodeMagnitude_representable {c : ℕ} (h : c < infPattern f) :
    f.Representable (decodeMagnitude f c) := by
  have hpos : 0 < 2 ^ (f.precision - 1) := by positivity
  have hfield : c / 2 ^ (f.precision - 1) < f.maxShift + 2 :=
    (Nat.div_lt_iff_lt_mul hpos).mpr h
  refine ⟨_, _, ?_, by omega, rfl⟩
  have hlt := Nat.lt_div_mul_add hpos (a := c)
  rw [two_pow_precision, Nat.sub_mul, Nat.one_mul]
  omega

/-! ## Values -/

/-- A magnitude may be scaled by a power of two within the range. -/
theorem representable_mul_two_pow {n k : ℕ}
    (h : f.Representable n) (hle : n * 2 ^ k ≤ f.maxUnits) :
    f.Representable (n * 2 ^ k) := by
  obtain ⟨m, s, hm, -, rfl⟩ := h
  rw [Nat.mul_assoc, ← pow_add] at hle ⊢
  exact representable_of_le hm.le hle

namespace Value

/-- The bit pattern of a value. -/
def toBits : Value f → ℕ
  | .finite units _ =>
      (if units < 0 then signPattern f else 0) + encodeMagnitude f units.natAbs
  | .inf negative => (if negative then signPattern f else 0) + infPattern f
  | .nan => infPattern f + 2 ^ (f.precision - 2)

/-- The value with a bit pattern. -/
def ofBits (f : Format) (b : ℕ) : Value f :=
  let c := b % signPattern f
  if h : c < infPattern f then
    if signPattern f ≤ b then
      .finite (-(decodeMagnitude f c : ℤ)) (by
        rw [Int.natAbs_neg, Int.natAbs_natCast]
        exact decodeMagnitude_representable h)
    else
      .finite (decodeMagnitude f c) (by
        rw [Int.natAbs_natCast]
        exact decodeMagnitude_representable h)
  else if c = infPattern f then .inf (signPattern f ≤ b)
  else .nan

theorem infPattern_lt_signPattern (f : Format) :
    infPattern f < signPattern f :=
  Nat.mul_lt_mul_of_pos_right (by omega) (by positivity)

/-- Every finite value is read back from its pattern. -/
theorem ofBits_toBits {units : ℤ} (h : f.Representable units.natAbs) :
    ofBits f (toBits (.finite units h)) = .finite units h := by
  have hlt := encodeMagnitude_lt h
  have hsign := infPattern_lt_signPattern f
  have hmod : toBits (.finite units h) % signPattern f =
      encodeMagnitude f units.natAbs := by
    simp only [toBits]
    split
    · rw [Nat.add_mod_left, Nat.mod_eq_of_lt (hlt.trans hsign)]
    · rw [Nat.zero_add, Nat.mod_eq_of_lt (hlt.trans hsign)]
  simp only [ofBits, hmod, hlt, ↓reduceDIte,
    decodeMagnitude_encodeMagnitude h]
  by_cases hneg : units < 0
  · rw [if_pos (by simp [toBits, hneg])]
    congr 1
    omega
  · rw [if_neg (by simp only [toBits, hneg, if_false]; omega)]
    congr 1
    omega

theorem toBits_lt {units : ℤ} (h : f.Representable units.natAbs) :
    toBits (.finite units h) < 2 * signPattern f := by
  have hlt := encodeMagnitude_lt h
  have hsign := infPattern_lt_signPattern f
  simp only [toBits]
  split <;> omega

/-! ## Integers -/

/-- A quotient that is a value of the format is not rounded. -/
theorem round_mul {units : ℤ} (h : f.Representable units.natAbs) {d : ℕ}
    (hd : 0 < d) : round f (units * d) d = .finite units h := by
  have hmag : roundMagnitude f (units * d).natAbs d = units.natAbs := by
    rw [Int.natAbs_mul, Int.natAbs_natCast, roundMagnitude_exact hd h]
  have hsign : (units * d).sign = units.sign := by
    rw [Int.sign_mul, Int.sign_natCast_of_ne_zero hd.ne', mul_one]
  rw [round, dif_pos (by rw [hmag]; exact h.le_maxUnits)]
  congr 1
  rw [hmag, hsign, Int.sign_mul_natAbs]

/-- A short number of parts of a power of two is converted exactly. -/
theorem ofFrac_two_pow {n : ℤ} {k : ℕ} (hn : n.natAbs < 2 ^ f.precision)
    (hk : k ≤ f.unitExp) (hs : f.unitExp - k ≤ f.maxShift) :
    ∃ h, ofFrac f n (2 ^ k) = .finite (n * 2 ^ (f.unitExp - k)) h := by
  have hrep : f.Representable (n * 2 ^ (f.unitExp - k)).natAbs := by
    refine ⟨n.natAbs, f.unitExp - k, hn, hs, ?_⟩
    rw [Int.natAbs_mul, Int.natAbs_pow]
    rfl
  refine ⟨hrep, ?_⟩
  have hsplit : n * 2 ^ f.unitExp =
      n * 2 ^ (f.unitExp - k) * ((2 ^ k : ℕ) : ℤ) := by
    rw [Nat.cast_pow, Nat.cast_ofNat, mul_assoc, ← pow_add,
      Nat.sub_add_cancel hk]
  rw [ofFrac, hsplit, round_mul hrep (by positivity)]

/-- The conversion to a signed integer of 32 bits, which drops the fraction;
beyond the range it saturates, and NaN becomes 0. -/
def toInt32 : Value f → ℤ
  | .finite units _ =>
      max (-2 ^ 31) (min (units.tdiv (2 ^ f.unitExp)) (2 ^ 31 - 1))
  | .inf negative => if negative then -2 ^ 31 else 2 ^ 31 - 1
  | .nan => 0

end Value

end BinaryFloat
