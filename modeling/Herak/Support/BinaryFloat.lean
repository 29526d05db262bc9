import Mathlib.Algebra.Order.Ring.Int
import Mathlib.Data.Int.Order.Basic
import Mathlib.Data.Nat.Log
import Mathlib.Order.WithBot
import Mathlib.Tactic.Linarith
import Mathlib.Tactic.Ring

/-!
# Binary floating point

The values of an IEEE 754 binary format, with rounding to nearest and ties to
even.  Every finite value is a multiple of the least positive one, so a finite
value is an integer in that unit.  The two zeros are one value here: no
comparison tells them apart.
-/

namespace BinaryFloat

/-- A binary format: the bits of its significand, the power of two that its
unit divides 1 by, and the shift of its greatest significand. -/
structure Format where
  precision : ℕ
  unitExp : ℕ
  maxShift : ℕ
  precision_pos : 0 < precision

/-- `float` -/
def binary32 : Format := ⟨24, 149, 253, by decide⟩

/-- `double` -/
def binary64 : Format := ⟨53, 1074, 2045, by decide⟩

namespace Format

variable (f : Format)

/-- The magnitudes that have a significand of the format. -/
def Representable (n : ℕ) : Prop :=
  ∃ m s, m < 2 ^ f.precision ∧ s ≤ f.maxShift ∧ n = m * 2 ^ s

/-- The greatest finite magnitude. -/
def maxUnits : ℕ :=
  (2 ^ f.precision - 1) * 2 ^ f.maxShift

end Format

/-! ## Rounding of magnitudes -/

/-- The integer that is nearest to `n / d`; of two, the even one. -/
def roundEven (n d : ℕ) : ℕ :=
  if 2 * (n % d) < d then n / d
  else if d < 2 * (n % d) then n / d + 1
  else if n / d % 2 = 0 then n / d
  else n / d + 1

theorem le_roundEven (n d : ℕ) : n / d ≤ roundEven n d := by
  simp only [roundEven]
  split_ifs <;> omega

theorem roundEven_le (n d : ℕ) : roundEven n d ≤ n / d + 1 := by
  simp only [roundEven]
  split_ifs <;> omega

theorem roundEven_mul (m : ℕ) {d : ℕ} (hd : 0 < d) : roundEven (m * d) d = m := by
  rw [roundEven, Nat.mul_mod_left, Nat.mul_div_cancel m hd, if_pos (by omega)]

theorem roundEven_mono {n n' : ℕ} (d : ℕ) (h : n ≤ n') :
    roundEven n d ≤ roundEven n' d := by
  have hdiv : n / d ≤ n' / d := Nat.div_le_div_right h
  rcases Nat.lt_or_eq_of_le hdiv with hlt | heq
  · exact (roundEven_le n d).trans
      ((Nat.succ_le_of_lt hlt).trans (le_roundEven n' d))
  · -- With one quotient the remainders are ordered.
    have hmod : n % d ≤ n' % d := by
      have hn := Nat.div_add_mod n d
      have hn' := Nat.div_add_mod n' d
      rw [heq] at hn
      omega
    simp only [roundEven, heq]
    split_ifs <;> omega

/-- The position of the last bit of the significand of `k`. -/
def shift (f : Format) (k : ℕ) : ℕ :=
  k.log2 + 1 - f.precision

/-- The magnitude with a significand of the format that is nearest to
`n / d`. -/
def roundMagnitude (f : Format) (n d : ℕ) : ℕ :=
  roundEven n (d * 2 ^ shift f (n / d)) * 2 ^ shift f (n / d)

variable {f : Format}

theorem shift_mono {k k' : ℕ} (h : k ≤ k') : shift f k ≤ shift f k' := by
  have hlog : k.log2 ≤ k'.log2 := by
    rw [Nat.log2_eq_log_two, Nat.log2_eq_log_two]
    exact Nat.log_mono_right h
  simp only [shift]
  omega

theorem lt_two_pow_shift (f : Format) (k : ℕ) :
    k < 2 ^ (f.precision + shift f k) :=
  Nat.lt_of_lt_of_le Nat.lt_log2_self
    (Nat.pow_le_pow_right (by decide) (by simp only [shift]; omega))

theorem two_pow_shift_le {k : ℕ} (h : 0 < shift f k) :
    2 ^ (f.precision - 1 + shift f k) ≤ k := by
  have hk : k ≠ 0 := by
    rintro rfl
    have := f.precision_pos
    simp only [shift, Nat.log2_zero] at h
    omega
  refine (Nat.pow_le_pow_right (by decide) ?_).trans (Nat.log2_self_le hk)
  have := f.precision_pos
  simp only [shift] at h ⊢
  omega

theorem div_mul_two_pow (n d s : ℕ) : n / (d * 2 ^ s) = n / d / 2 ^ s :=
  (Nat.div_div_eq_div_mul n d (2 ^ s)).symm

/-- The significand of a rounded magnitude, which may be the next power of
two. -/
theorem roundEven_le_two_pow (f : Format) (n d : ℕ) :
    roundEven n (d * 2 ^ shift f (n / d)) ≤ 2 ^ f.precision := by
  refine (roundEven_le _ _).trans ?_
  rw [div_mul_two_pow, Nat.succ_le_iff, Nat.div_lt_iff_lt_mul (by positivity),
    ← pow_add]
  exact lt_two_pow_shift f (n / d)

theorem roundMagnitude_mono {n n' : ℕ} (d : ℕ) (h : n ≤ n') :
    roundMagnitude f n d ≤ roundMagnitude f n' d := by
  have hdiv : n / d ≤ n' / d := Nat.div_le_div_right h
  rcases Nat.lt_or_eq_of_le (shift_mono (f := f) hdiv) with hlt | heq
  · -- The powers of two between the two shifts lie between the magnitudes.
    calc
      roundMagnitude f n d
        ≤ 2 ^ f.precision * 2 ^ shift f (n / d) :=
          Nat.mul_le_mul_right _ (roundEven_le_two_pow f n d)
      _ = 2 ^ (f.precision + shift f (n / d)) := (pow_add _ _ _).symm
      _ ≤ 2 ^ (f.precision - 1) * 2 ^ shift f (n' / d) := by
          rw [← pow_add]
          have := f.precision_pos
          exact Nat.pow_le_pow_right (by decide) (by omega)
      _ ≤ roundMagnitude f n' d := by
          refine Nat.mul_le_mul_right _ (Nat.le_trans ?_ (le_roundEven _ _))
          rw [div_mul_two_pow, Nat.le_div_iff_mul_le (by positivity), ← pow_add]
          exact two_pow_shift_le (by omega)
  · rw [roundMagnitude, roundMagnitude, heq]
    exact Nat.mul_le_mul_right _ (roundEven_mono _ h)

theorem shift_le_of_lt {k s : ℕ} (h : k < 2 ^ (f.precision + s)) :
    shift f k ≤ s := by
  by_cases hk : k = 0
  · have := f.precision_pos
    simp only [shift, hk, Nat.log2_zero]
    omega
  · have hlog := (Nat.log2_lt hk).mpr h
    simp only [shift]
    omega

/-- Representable magnitudes are not rounded. -/
theorem roundMagnitude_exact {n d : ℕ} (hd : 0 < d) (h : f.Representable n) :
    roundMagnitude f (n * d) d = n := by
  obtain ⟨m, s, hm, -, rfl⟩ := h
  have hdiv : m * 2 ^ s * d / d = m * 2 ^ s := Nat.mul_div_cancel _ hd
  have hle : shift f (m * 2 ^ s) ≤ s := shift_le_of_lt (by
    rw [pow_add]
    exact Nat.mul_lt_mul_of_pos_right hm (by positivity))
  obtain ⟨c, hc⟩ := Nat.exists_eq_add_of_le hle
  have hsplit : m * 2 ^ s = m * 2 ^ c * 2 ^ shift f (m * 2 ^ s) := by
    conv_lhs => rw [hc, pow_add]
    ring
  rw [roundMagnitude, hdiv]
  have heven : roundEven (m * 2 ^ s * d) (d * 2 ^ shift f (m * 2 ^ s)) =
      m * 2 ^ c := by
    have hnum : m * 2 ^ s * d = m * 2 ^ c * (d * 2 ^ shift f (m * 2 ^ s)) := by
      conv_lhs => rw [hsplit]
      ring
    rw [hnum, roundEven_mul _ (by positivity)]
  rw [heven, ← hsplit]

theorem representable_of_le {m s : ℕ} (hm : m ≤ 2 ^ f.precision)
    (h : m * 2 ^ s ≤ f.maxUnits) : f.Representable (m * 2 ^ s) := by
  have hpow : 0 < 2 ^ f.precision := by positivity
  rcases Nat.lt_or_ge f.maxShift s with hs | hs
  · -- A greater shift leaves a smaller significand.
    obtain ⟨c, rfl⟩ := Nat.exists_eq_add_of_lt hs
    have hsplit : m * 2 ^ (f.maxShift + c + 1) =
        m * 2 ^ (c + 1) * 2 ^ f.maxShift := by
      rw [Nat.add_assoc, pow_add]
      ring
    rw [hsplit] at h ⊢
    have hle := Nat.le_of_mul_le_mul_right h (by positivity)
    exact ⟨_, f.maxShift, by omega, Nat.le_refl _, rfl⟩
  · rcases Nat.lt_or_eq_of_le hm with hlt | heq
    · exact ⟨m, s, hlt, hs, rfl⟩
    · -- The next power of two has a significand of one bit.
      have hprec := f.precision_pos
      refine ⟨2 ^ (f.precision - 1), s + 1, ?_, ?_, ?_⟩
      · exact Nat.pow_lt_pow_right (by decide) (by omega)
      · by_contra hgt
        obtain rfl : s = f.maxShift := by omega
        have := Nat.le_of_mul_le_mul_right h (by positivity)
        omega
      · rw [heq, ← pow_add, ← pow_add]
        congr 1
        omega

theorem Format.Representable.le_maxUnits {n : ℕ} (h : f.Representable n) :
    n ≤ f.maxUnits := by
  obtain ⟨m, s, hm, hs, rfl⟩ := h
  exact Nat.mul_le_mul (by omega) (Nat.pow_le_pow_right (by decide) hs)

theorem Format.representable_zero (f : Format) : f.Representable 0 :=
  ⟨0, 0, by positivity, Nat.zero_le _, by simp⟩

theorem roundMagnitude_representable {n d : ℕ}
    (h : roundMagnitude f n d ≤ f.maxUnits) :
    f.Representable (roundMagnitude f n d) :=
  representable_of_le (roundEven_le_two_pow f n d) h

@[simp] theorem roundMagnitude_zero (f : Format) (d : ℕ) :
    roundMagnitude f 0 d = 0 := by
  have hzero : ∀ k, roundEven 0 k = 0 := fun k => by
    simp only [roundEven, Nat.zero_mod, Nat.zero_div]
    split_ifs <;> omega
  simp [roundMagnitude, hzero]

/-! ## Differences of magnitudes -/

/-- The difference of two magnitudes that are within a factor of two of each
other is representable. -/
theorem representable_sub {a b : ℕ} (ha : f.Representable a)
    (hb : f.Representable b) (hle : b ≤ a) (htwice : a ≤ 2 * b) :
    f.Representable (a - b) := by
  obtain ⟨m, s, hm, hs, rfl⟩ := ha
  obtain ⟨m', s', hm', hs', rfl⟩ := hb
  -- Both are multiples of the smaller of the two last bits.
  rcases Nat.le_total s s' with hss | hss
  · obtain ⟨c, rfl⟩ := Nat.exists_eq_add_of_le hss
    have hsplit : m' * 2 ^ (s + c) = m' * 2 ^ c * 2 ^ s := by
      rw [pow_add]
      ring
    rw [hsplit] at hle htwice ⊢
    rw [← Nat.sub_mul]
    refine ⟨m - m' * 2 ^ c, s, ?_, hs, rfl⟩
    omega
  · obtain ⟨c, rfl⟩ := Nat.exists_eq_add_of_le hss
    have hsplit : m * 2 ^ (s' + c) = m * 2 ^ c * 2 ^ s' := by
      rw [pow_add]
      ring
    rw [hsplit] at hle htwice ⊢
    rw [← Nat.sub_mul]
    refine ⟨m * 2 ^ c - m', s', ?_, hs', rfl⟩
    have hsum : m * 2 ^ c * 2 ^ s' ≤ 2 * m' * 2 ^ s' := by
      rw [Nat.mul_assoc 2]
      exact htwice
    have := Nat.le_of_mul_le_mul_right hsum (by positivity)
    omega

/-- Rounding leaves at least a half of more than a half. -/
theorem half_le_roundMagnitude {t x : ℕ} (ht : f.Representable t)
    (hx : t ≤ 2 * x) (hxt : x ≤ t) : t ≤ 2 * roundMagnitude f x 1 := by
  obtain ⟨m, s, hm, hs, rfl⟩ := ht
  cases s with
  | zero =>
      have hexact := roundMagnitude_exact (n := x) (d := 1) Nat.one_pos
        (f := f) ⟨x, 0, by simp at hxt; omega, Nat.zero_le _, by simp⟩
      rw [Nat.mul_one] at hexact
      rw [hexact]
      exact hx
  | succ s =>
      have hhalf : m * 2 ^ (s + 1) = 2 * (m * 2 ^ s) := by
        rw [pow_succ]
        ring
      rw [hhalf] at hx ⊢
      have hrep : f.Representable (m * 2 ^ s) :=
        ⟨m, s, hm, Nat.le_of_succ_le hs, rfl⟩
      have hexact := roundMagnitude_exact (d := 1) Nat.one_pos hrep
      have hmono := roundMagnitude_mono (f := f) 1 (by omega : m * 2 ^ s ≤ x)
      rw [Nat.mul_one] at hexact
      omega

/-- Taking the rounded `h` from `t` and rounding leaves exactly `h` below `t`
only when nothing is rounded. -/
theorem sub_roundMagnitude_eq_iff {t h : ℕ} (ht : f.Representable t)
    (hle : roundMagnitude f h 1 ≤ t) :
    t - roundMagnitude f (t - roundMagnitude f h 1) 1 = h ↔
      f.Representable h ∧ h ≤ t ∧ f.Representable (t - h) := by
  have hfrep := roundMagnitude_representable (hle.trans ht.le_maxUnits)
  have hround : ∀ {n : ℕ}, f.Representable n → roundMagnitude f n 1 = n :=
    fun hn => by
      have := roundMagnitude_exact (d := 1) Nat.one_pos hn
      rwa [Nat.mul_one] at this
  constructor
  · intro heq
    have hless : roundMagnitude f (t - roundMagnitude f h 1) 1 ≤ t := by
      have := roundMagnitude_mono (f := f) 1
        (Nat.sub_le t (roundMagnitude f h 1))
      rwa [hround ht] at this
    have hrest := roundMagnitude_representable (hless.trans ht.le_maxUnits)
    -- One of the two differences is of values within a factor of two.
    have hrep : f.Representable h := by
      rcases Nat.le_total t (2 * roundMagnitude f h 1) with htwice | hfar
      · have hexact := hround (representable_sub ht hfrep hle htwice)
        rw [hexact, Nat.sub_sub_self hle] at heq
        rw [← heq]
        exact hfrep
      · rw [← heq]
        exact representable_sub ht hrest hless
          (half_le_roundMagnitude ht (by omega) (Nat.sub_le _ _))
    rw [hround hrep] at heq hle hrest
    refine ⟨hrep, hle, ?_⟩
    have hsame : roundMagnitude f (t - h) 1 = t - h := by
      rw [hround hrep] at hless
      omega
    rwa [hsame] at hrest
  · rintro ⟨hrep, hht, hdiff⟩
    rw [hround hrep, hround hdiff]
    omega

/-- Rounding does not pass a representable magnitude. -/
theorem roundMagnitude_le {n m d : ℕ} (hd : 0 < d) (hm : f.Representable m)
    (h : n ≤ m * d) : roundMagnitude f n d ≤ m :=
  (roundMagnitude_mono d h).trans (Nat.le_of_eq (roundMagnitude_exact hd hm))

theorem le_roundMagnitude {n m d : ℕ} (hd : 0 < d) (hm : f.Representable m)
    (h : m * d ≤ n) : m ≤ roundMagnitude f n d :=
  (Nat.le_of_eq (roundMagnitude_exact hd hm).symm).trans
    (roundMagnitude_mono d h)

/-! ## Values -/

inductive Value (f : Format)
  | finite (units : ℤ) (h : f.Representable units.natAbs)
  | inf (negative : Bool)
  | nan
  deriving DecidableEq

/-- The nearest value of the format to `n / d` units; beyond the greatest
finite one, an infinity. -/
def round (f : Format) (n : ℤ) (d : ℕ) : Value f :=
  if h : roundMagnitude f n.natAbs d ≤ f.maxUnits then
    .finite (n.sign * roundMagnitude f n.natAbs d) (by
      rw [Int.natAbs_mul, Int.natAbs_natCast]
      rcases Int.sign_trichotomy n with hn | hn | hn
      · rw [hn, Int.natAbs_one, Nat.one_mul]
        exact roundMagnitude_representable h
      · rw [hn, Int.natAbs_zero, Nat.zero_mul]
        exact f.representable_zero
      · rw [hn, Int.natAbs_neg, Int.natAbs_one, Nat.one_mul]
        exact roundMagnitude_representable h)
  else .inf (n < 0)

/-- The conversion of the number `n / d`. -/
def ofFrac (f : Format) (n : ℤ) (d : ℕ) : Value f :=
  round f (n * 2 ^ f.unitExp) d

namespace Value

/-- The order of the integers with two ends, by the order of the integers. -/
instance extendedPreorder : Preorder (WithBot (WithTop ℤ)) :=
  @WithBot.instPreorder _
    (@WithTop.instPreorder _ Int.instLinearOrder.toPartialOrder.toPreorder)

/-- The place of a value in the order of the format; NaN has none. -/
def key : Value f → Option (WithBot (WithTop ℤ))
  | .finite units _ => some (units : WithTop ℤ)
  | .inf negative => some (if negative then ⊥ else ((⊤ : WithTop ℤ) : WithBot _))
  | .nan => none

/-- The operator `<=`, which is false of NaN. -/
def le (x y : Value f) : Bool :=
  match x.key, y.key with
  | some a, some b => a ≤ b
  | _, _ => false

/-- The operator `<`. -/
def lt (x y : Value f) : Bool :=
  match x.key, y.key with
  | some a, some b => a < b
  | _, _ => false

/-- The operator `==`. -/
def eq (x y : Value f) : Bool :=
  match x.key, y.key with
  | some a, some b => a = b
  | _, _ => false

/-- The operator `-`. -/
def sub : Value f → Value f → Value f
  | .finite a _, .finite b _ => round f (a - b) 1
  | .nan, _ => .nan
  | _, .nan => .nan
  | .inf s, .inf t => if s = t then .nan else .inf s
  | .inf s, .finite _ _ => .inf s
  | .finite _ _, .inf t => .inf (!t)

/-- The operator `*`. -/
def mul : Value f → Value f → Value f
  | .finite a _, .finite b _ => round f (a * b) (2 ^ f.unitExp)
  | .nan, _ => .nan
  | _, .nan => .nan
  | .inf s, .inf t => .inf (s != t)
  | .inf s, .finite b _ => if b = 0 then .nan else .inf (s != decide (b < 0))
  | .finite a _, .inf t => if a = 0 then .nan else .inf (t != decide (a < 0))

def zero (f : Format) : Value f :=
  .finite 0 f.representable_zero

@[simp] theorem le_finite {a b : ℤ} (ha : f.Representable a.natAbs)
    (hb : f.Representable b.natAbs) :
    (finite a ha).le (finite b hb) = true ↔ a ≤ b := by
  simp [le, key]

@[simp] theorem lt_finite {a b : ℤ} (ha : f.Representable a.natAbs)
    (hb : f.Representable b.natAbs) :
    (finite a ha).lt (finite b hb) = true ↔ a < b := by
  simp [lt, key]

/-- The order is total on what is not NaN. -/
theorem lt_of_not_le {x y : Value f} (hx : x ≠ nan) (hy : y ≠ nan)
    (h : ¬x.le y = true) : y.lt x = true := by
  obtain ⟨a, ha⟩ : ∃ a, x.key = some a := by
    cases x <;> simp_all [key]
  obtain ⟨b, hb⟩ : ∃ b, y.key = some b := by
    cases y <;> simp_all [key]
  simp only [le, lt, ha, hb, decide_eq_true_eq] at h ⊢
  exact not_le.mp h

theorem ne_nan_of_le {x y : Value f} (h : x.le y = true) :
    x ≠ nan ∧ y ≠ nan := by
  constructor
  · rintro rfl
    simp [le, key] at h
  · rintro rfl
    cases x <;> simp [le, key] at h

/-- Rounding of a number that is not negative. -/
theorem round_of_nonneg {n : ℤ} {d : ℕ} (hn : 0 ≤ n)
    (h : roundMagnitude f n.toNat d ≤ f.maxUnits) :
    ∃ hrep, round f n d = finite (roundMagnitude f n.toNat d : ℕ) hrep := by
  obtain ⟨k, rfl⟩ := Int.eq_ofNat_of_zero_le hn
  rw [Int.toNat_natCast] at h ⊢
  refine ⟨roundMagnitude_representable h, ?_⟩
  have hfits : roundMagnitude f (k : ℤ).natAbs d ≤ f.maxUnits := h
  rw [round, dif_pos hfits]
  congr 1
  rcases Nat.eq_zero_or_pos k with rfl | hk
  · simp
  · rw [Int.sign_natCast_of_ne_zero hk.ne', one_mul, Int.natAbs_natCast]

/-- A rounded number that is not negative is compared through its
magnitude. -/
theorem round_lt_iff {n b : ℤ} {d : ℕ} (hn : 0 ≤ n)
    (hb : f.Representable b.natAbs) :
    (round f n d).lt (finite b hb) = true ↔
      (roundMagnitude f n.toNat d : ℤ) < b := by
  rcases Nat.lt_or_ge f.maxUnits (roundMagnitude f n.toNat d) with h | h
  · have hb' := hb.le_maxUnits
    have hnat : n.natAbs = n.toNat := by omega
    rw [round, dif_neg (by rw [hnat]; omega)]
    have hsign : ¬n < 0 := Int.not_lt.mpr hn
    simp only [lt, key, hsign, decide_false, Bool.false_eq_true, if_false,
      decide_eq_true_eq]
    constructor
    · exact fun hlt => absurd hlt (by simp)
    · exact fun hlt => by omega
  · obtain ⟨hrep, hround⟩ := round_of_nonneg hn h
    rw [hround, lt_finite]

/-- The conversion of a small natural number is exact. -/
theorem ofFrac_natCast {n : ℕ} (hn : n < 2 ^ f.precision)
    (hunit : f.unitExp ≤ f.maxShift) :
    ∃ hrep, ofFrac f n 1 = finite (n * 2 ^ f.unitExp : ℕ) hrep := by
  have hrep : f.Representable (n * 2 ^ f.unitExp) := ⟨n, _, hn, hunit, rfl⟩
  have hcast : (n : ℤ) * 2 ^ f.unitExp = (n * 2 ^ f.unitExp : ℕ) := by
    push_cast
    rfl
  have hexact := roundMagnitude_exact (d := 1) Nat.one_pos hrep
  rw [Nat.mul_one] at hexact
  have h := round_of_nonneg (f := f) (n := (n * 2 ^ f.unitExp : ℕ)) (d := 1)
    (Int.natCast_nonneg _) (by
      rw [Int.toNat_natCast, hexact]
      exact hrep.le_maxUnits)
  rw [Int.toNat_natCast, hexact] at h
  rw [ofFrac, hcast]
  exact h

theorem units_nonneg_of_round {n u : ℤ} {d : ℕ} {hrep} (hn : 0 ≤ n)
    (h : round f n d = finite u hrep) : 0 ≤ u := by
  rw [round] at h
  split at h
  · rw [← finite.inj h]
    exact Int.mul_nonneg (Int.sign_nonneg_iff.mpr hn) (Int.natCast_nonneg _)
  · cases h

theorem round_of_overflow {n : ℤ} {d : ℕ}
    (h : f.maxUnits < roundMagnitude f n.natAbs d) :
    round f n d = inf (n < 0) := by
  rw [round, dif_neg (Nat.not_le.mpr h)]

/-- The difference of ordered values that are not negative is one of them. -/
theorem sub_of_le {a b : ℤ} (ha : f.Representable a.natAbs)
    (hb : f.Representable b.natAbs) (hpos : 0 ≤ b) (hle : b ≤ a) :
    roundMagnitude f (a - b).toNat 1 ≤ a.toNat ∧
      ∃ hrep, (finite a ha).sub (finite b hb) =
        finite (roundMagnitude f (a - b).toNat 1 : ℕ) hrep := by
  have hbound : roundMagnitude f (a - b).toNat 1 ≤ a.toNat := by
    have hmono := roundMagnitude_mono (f := f) 1
      (by omega : (a - b).toNat ≤ a.natAbs)
    have hexact := roundMagnitude_exact (d := 1) Nat.one_pos ha
    rw [Nat.mul_one] at hexact
    omega
  refine ⟨hbound, round_of_nonneg (by omega) ?_⟩
  have := ha.le_maxUnits
  omega

/-- Taking a negative value away does not make a value less. -/
theorem sub_le_iff_of_neg {a b : ℤ} (ha : f.Representable a.natAbs)
    (hb : f.Representable b.natAbs) (hpos : 0 ≤ a) (hneg : b < 0) :
    ((finite a ha).sub (finite b hb)).le (finite a ha) = true ↔
      (finite a ha).sub (finite b hb) = finite a ha := by
  have hexact := roundMagnitude_exact (d := 1) Nat.one_pos ha
  rw [Nat.mul_one] at hexact
  have hmono := roundMagnitude_mono (f := f) 1
    (by omega : a.natAbs ≤ (a - b).toNat)
  rw [hexact] at hmono
  rcases Nat.lt_or_ge f.maxUnits (roundMagnitude f (a - b).toNat 1) with h | h
  · have hover : (finite a ha).sub (finite b hb) = inf (a - b < 0) :=
      round_of_overflow (by rwa [show (a - b).natAbs = (a - b).toNat by omega])
    rw [hover]
    have hsign : ¬a - b < 0 := by omega
    simp [le, key, hsign]
  · obtain ⟨hrep, hround⟩ := round_of_nonneg (by omega : 0 ≤ a - b) h
    have hsub : (finite a ha).sub (finite b hb) = _ := hround
    rw [hsub, le_finite]
    constructor
    · intro hle
      congr 1
      omega
    · intro heq
      have := (finite.inj heq)
      omega

end Value

end BinaryFloat
