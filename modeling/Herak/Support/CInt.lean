import Mathlib.Algebra.Order.Ring.Int
import Mathlib.Tactic.NormNum

/-!
# Machine integers

Conversions of a 32-bit machine with two's complement.  Values stay ordinary
integers; each C conversion or operation that may leave its type is an explicit
reduction into the type's range.
-/

namespace CInt

/-- Conversion to a signed 32-bit `int`. -/
def toInt32 (x : ℤ) : ℤ :=
  x.bmod (2 ^ 32)

/-- Conversion to `uint32_t`. -/
def toUInt32 (x : ℤ) : ℕ :=
  (x % 2 ^ 32).toNat

/-- Conversion to `uint8_t`. -/
def toUInt8 (x : ℤ) : ℕ :=
  (x % 2 ^ 8).toNat

/-- Conversion to `uint16_t`. -/
def toUInt16 (x : ℤ) : ℕ :=
  (x % 2 ^ 16).toNat

/-- Conversion to `uint64_t`. -/
def toUInt64 (x : ℤ) : ℕ :=
  (x % 2 ^ 64).toNat

/-- Difference of two `uint64_t`. -/
def subU64 (a b : ℕ) : ℕ :=
  (a + 2 ^ 64 - b) % 2 ^ 64

theorem subU64_of_le {a b : ℕ} (hle : b ≤ a) (ha : a < 2 ^ 64) :
    subU64 a b = a - b := by
  rw [subU64]
  omega

theorem toInt32_of_range {x : ℤ} (hlo : -2 ^ 31 ≤ x) (hhi : x < 2 ^ 31) :
    toInt32 x = x := by
  unfold toInt32
  rw [Int.bmod_eq_of_le] <;> omega

theorem toUInt32_of_range {x : ℤ} (hlo : 0 ≤ x) (hhi : x < 2 ^ 32) :
    (toUInt32 x : ℤ) = x := by
  unfold toUInt32
  omega

theorem toUInt32_lt (x : ℤ) : toUInt32 x < 2 ^ 32 := by
  unfold toUInt32
  omega

theorem toInt32_lt (x : ℤ) : toInt32 x < 2 ^ 31 := by
  have h := Int.bmod_lt (x := x) (m := 2 ^ 32) (by decide)
  unfold toInt32
  omega

/-- Truncating an operand first does not change a truncated difference. -/
theorem toInt32_sub_toInt32 (x y : ℤ) :
    toInt32 (x - toInt32 y) = toInt32 (x - y) := by
  unfold toInt32
  exact Int.sub_bmod_bmod

end CInt
