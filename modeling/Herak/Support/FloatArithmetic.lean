import Herak.Support.FloatConversion

/-!
# More operators on floating point numbers

Negation, sum, quotient and the conversion to an unsigned integer, and what
the operator `==` tells of two values.
-/

namespace BinaryFloat

namespace Value

variable {f : Format}

/-- The test `isnan`. -/
def isNan : Value f → Bool
  | .nan => true
  | _ => false

/-- The test `isinf`. -/
def isInf : Value f → Bool
  | .inf _ => true
  | _ => false

/-- The unary operator `-`. -/
def neg : Value f → Value f
  | .finite units h => .finite (-units) (by rwa [Int.natAbs_neg])
  | .inf negative => .inf (!negative)
  | .nan => .nan

/-- The operator `+`. -/
def add : Value f → Value f → Value f
  | .finite a _, .finite b _ => round f (a + b) 1
  | .nan, _ => .nan
  | _, .nan => .nan
  | .inf s, .inf t => if s = t then .inf s else .nan
  | .inf s, .finite _ _ => .inf s
  | .finite _ _, .inf t => .inf t

/-- The operator `/`, of which a zero divisor counts as positive. -/
def div : Value f → Value f → Value f
  | .finite a _, .finite b _ =>
      if b = 0 then (if a = 0 then .nan else .inf (a < 0))
      else ofFrac f (a * b.sign) b.natAbs
  | .nan, _ => .nan
  | _, .nan => .nan
  | .inf _, .inf _ => .nan
  | .inf s, .finite b _ => .inf (s != decide (b < 0))
  | .finite _ _, .inf _ => zero f

/-- The conversion to an unsigned integer of 32 bits, which drops the fraction;
beyond the range it saturates, and NaN becomes 0. -/
def toUInt32 : Value f → ℕ
  | .finite units _ =>
      min (units.tdiv (2 ^ f.unitExp)).toNat (2 ^ 32 - 1)
  | .inf negative => if negative then 0 else 2 ^ 32 - 1
  | .nan => 0

/-- No two values have one place, and only NaN has none. -/
theorem key_injective : Function.Injective (key (f := f)) := by
  intro x y h
  cases x with
  | finite a ha =>
      cases y with
      | finite b hb =>
          have hab : a = b := by simpa [key] using h
          subst hab
          rfl
      | inf t => cases t <;> simp [key] at h
      | nan => simp [key] at h
  | inf s =>
      cases y with
      | finite b hb => cases s <;> simp [key] at h
      | inf t => cases s <;> cases t <;> simp [key] at h ⊢
      | nan => simp [key] at h
  | nan => cases y <;> simp [key] at h ⊢

/-- Equal values are the same value, of which there is only one zero. -/
theorem eq_of_eq {x y : Value f} (h : x.eq y = true) : x = y := by
  rw [eq] at h
  split at h
  next a b ha hb =>
    obtain rfl := of_decide_eq_true h
    exact key_injective (ha.trans hb.symm)
  · cases h

end Value

end BinaryFloat
