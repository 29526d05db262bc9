import Mathlib.Algebra.Order.Field.Rat
import Mathlib.Algebra.Order.Ring.Abs
import Mathlib.Data.Rat.Lemmas
import Mathlib.Tactic.NormNum
import Mathlib.Tactic.Positivity
import Herak.Support.FloatConversion

/-!
# Rationals in a binary format

The rational that a finite value stands for, and the value that a rational is
rounded to.  Rounding is known through the representable magnitudes that it
does not pass.
-/

namespace BinaryFloat

variable {f : Format}

/-! ## Ties -/

/-- A tie goes to the even integer, so that this one is reached from a half
below it. -/
theorem le_roundEven_iff_of_even {n d m : ℕ} (hd : 0 < d) (hpos : 0 < m)
    (heven : m % 2 = 0) : m ≤ roundEven n d ↔ (2 * m - 1) * d ≤ 2 * n := by
  have hdiv := Nat.div_add_mod n d
  have hmod := Nat.mod_lt n hd
  rcases Nat.lt_trichotomy m (n / d + 1) with hlt | heq | hgt
  · have hle : m ≤ n / d := by omega
    refine iff_of_true (hle.trans (le_roundEven n d)) ?_
    calc
      (2 * m - 1) * d ≤ 2 * (n / d) * d := Nat.mul_le_mul_right d (by omega)
      _ = 2 * (d * (n / d)) := by ring
      _ ≤ 2 * n := by omega
  · have hodd : n / d % 2 = 1 := by omega
    have hhalf : (2 * m - 1) * d = 2 * (d * (n / d)) + d := by
      rw [heq, show 2 * (n / d + 1) - 1 = 2 * (n / d) + 1 by omega]
      ring
    rw [hhalf, heq, roundEven]
    split_ifs <;> omega
  · refine iff_of_false ?_ ?_
    · have := roundEven_le n d
      omega
    · have hfar : 2 * (n / d + 1) * d < (2 * m - 1) * d :=
        Nat.mul_lt_mul_of_pos_right (by omega) hd
      have hnext : 2 * (n / d + 1) * d = 2 * (d * (n / d)) + 2 * d := by ring
      omega

/-! ## Magnitudes of rationals -/

/-- The magnitude that a rational is rounded to. -/
def ratMagnitude (f : Format) (q : ℚ) : ℕ :=
  roundMagnitude f (q.num.natAbs * 2 ^ f.unitExp) q.den

theorem abs_mul_den (q : ℚ) : |q| * q.den = q.num.natAbs := by
  have hden : (0 : ℚ) ≤ q.den := Nat.cast_nonneg _
  rw [Nat.cast_natAbs, Int.cast_abs, ← Rat.mul_den_eq_num, abs_mul,
    abs_of_nonneg hden]

/-- The numerator of a rational that is measured in units. -/
theorem units_mul_den (f : Format) (q : ℚ) :
    |q| * 2 ^ f.unitExp * q.den = (q.num.natAbs * 2 ^ f.unitExp : ℕ) := by
  rw [mul_right_comm, abs_mul_den]
  push_cast
  rfl

theorem ratMagnitude_le {q : ℚ} {m : ℕ} (hm : f.Representable m)
    (h : |q| * 2 ^ f.unitExp ≤ m) : ratMagnitude f q ≤ m := by
  refine roundMagnitude_le q.den_pos hm ?_
  have hscaled := mul_le_mul_of_nonneg_right h (Nat.cast_nonneg (α := ℚ) q.den)
  rw [units_mul_den] at hscaled
  exact_mod_cast hscaled

theorem le_ratMagnitude {q : ℚ} {m : ℕ} (hm : f.Representable m)
    (h : m ≤ |q| * 2 ^ f.unitExp) : m ≤ ratMagnitude f q := by
  refine le_roundMagnitude q.den_pos hm ?_
  have hscaled := mul_le_mul_of_nonneg_right h (Nat.cast_nonneg (α := ℚ) q.den)
  rw [units_mul_den] at hscaled
  exact_mod_cast hscaled

theorem lt_of_ratMagnitude_lt {q : ℚ} {m : ℕ} (hm : f.Representable m)
    (h : ratMagnitude f q < m) : |q| * 2 ^ f.unitExp < m := by
  by_contra hge
  exact absurd (le_ratMagnitude hm (not_lt.mp hge)) (Nat.not_le.mpr h)

theorem lt_of_lt_ratMagnitude {q : ℚ} {m : ℕ} (hm : f.Representable m)
    (h : m < ratMagnitude f q) : m < |q| * 2 ^ f.unitExp := by
  by_contra hge
  exact absurd (ratMagnitude_le hm (not_lt.mp hge)) (Nat.not_le.mpr h)

/-! ## Values of rationals -/

namespace Value

/-- The value of the format that is nearest to a rational. -/
def ofRat (f : Format) (q : ℚ) : Value f :=
  ofFrac f q.num q.den

/-- The rational that a value is, 0 for those that are not finite. -/
def toRat : Value f → ℚ
  | .finite units _ => units / 2 ^ f.unitExp
  | _ => 0

theorem round_of_le {n : ℤ} {d : ℕ}
    (h : roundMagnitude f n.natAbs d ≤ f.maxUnits) :
    ∃ hrep, round f n d = finite (n.sign * roundMagnitude f n.natAbs d) hrep := by
  rw [round, dif_pos h]
  exact ⟨_, rfl⟩

theorem ofRat_eq {q : ℚ} (h : ratMagnitude f q ≤ f.maxUnits) :
    ∃ hrep, ofRat f q = finite (q.num.sign * ratMagnitude f q) hrep := by
  have hpow : ((2 : ℤ) ^ f.unitExp).natAbs = 2 ^ f.unitExp := by
    rw [Int.natAbs_pow]
    rfl
  have hmag : roundMagnitude f (q.num * 2 ^ f.unitExp).natAbs q.den =
      ratMagnitude f q := by
    rw [Int.natAbs_mul, hpow, ratMagnitude]
  have hone : ((2 : ℤ) ^ f.unitExp).sign = 1 :=
    Int.sign_eq_one_of_pos (by positivity)
  have hsign : (q.num * 2 ^ f.unitExp).sign = q.num.sign := by
    rw [Int.sign_mul, hone, mul_one]
  have hfits : roundMagnitude f (q.num * 2 ^ f.unitExp).natAbs q.den ≤
      f.maxUnits := by
    rw [hmag]
    exact h
  have hvalue := round_of_le (f := f) hfits
  simp only [hmag, hsign] at hvalue
  exact hvalue

theorem ofRat_of_nonneg {q : ℚ} (hq : 0 ≤ q)
    (h : ratMagnitude f q ≤ f.maxUnits) :
    ∃ hrep, ofRat f q = finite (ratMagnitude f q : ℤ) hrep := by
  have hvalue := ofRat_eq h
  have hunits : q.num.sign * (ratMagnitude f q : ℤ) = ratMagnitude f q := by
    rcases (Rat.num_nonneg.mpr hq).eq_or_lt with hzero | hpos
    · have hnone : ratMagnitude f q = 0 := by
        rw [ratMagnitude, ← hzero, Int.natAbs_zero, Nat.zero_mul,
          roundMagnitude_zero]
      rw [hnone, Nat.cast_zero, mul_zero]
    · rw [Int.sign_eq_one_of_pos hpos, one_mul]
  rwa [hunits] at hvalue

theorem ofRat_of_neg {q : ℚ} (hq : q < 0)
    (h : ratMagnitude f q ≤ f.maxUnits) :
    ∃ hrep, ofRat f q = finite (-(ratMagnitude f q : ℤ)) hrep := by
  have hvalue := ofRat_eq h
  rwa [Int.sign_eq_neg_one_of_neg (Rat.num_neg.mpr hq), neg_one_mul] at hvalue

end Value

end BinaryFloat
