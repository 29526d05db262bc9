import Mathlib.Algebra.Order.Ring.Int
import Herak.Support.Memory

/-!
# Little-endian numbers

The bytes of a number in memory, the lowest one first, and the number that the
first bytes of an array stand for.
-/

namespace LittleEndian

open Memory

/-- The `size` bytes of a number. -/
def toBytes : (size : ℕ) → ℕ → List UInt8
  | 0, _ => []
  | size + 1, n => UInt8.ofNat n :: toBytes size (n / 256)

/-- The number with these bytes. -/
def ofBytes : List UInt8 → ℕ
  | [] => 0
  | b :: bytes => b.toNat + 256 * ofBytes bytes

@[simp] theorem length_toBytes (size n : ℕ) : (toBytes size n).length = size := by
  induction size generalizing n with
  | zero => rfl
  | succ size ih => rw [toBytes, List.length_cons, ih]

/-- A number that fits is read back. -/
theorem ofBytes_toBytes {size n : ℕ} (h : n < 256 ^ size) :
    ofBytes (toBytes size n) = n := by
  induction size generalizing n with
  | zero => exact (Nat.lt_one_iff.mp h).symm
  | succ size ih =>
      have hdiv : n / 256 < 256 ^ size := by
        rw [Nat.pow_succ] at h
        exact Nat.div_lt_of_lt_mul (by rwa [Nat.mul_comm])
      have hbyte : (UInt8.ofNat n).toNat = n % 256 := UInt8.toNat_ofNat
      rw [toBytes, ofBytes, ih hdiv, hbyte]
      exact Nat.mod_add_div n 256

/-- What is written at the start of an array is read there. -/
theorem ofBytes_take_memcpy {size n : ℕ} (h : n < 256 ^ size)
    (buf : List UInt8) :
    ofBytes ((memcpy buf 0 (toBytes size n)).take size) = n := by
  have htake : (memcpy buf 0 (toBytes size n)).take
      (0 + (toBytes size n).length) = buf.take 0 ++ toBytes size n :=
    take_memcpy (Nat.zero_le buf.length)
  rw [length_toBytes, Nat.zero_add, List.take_zero, List.nil_append] at htake
  rw [htake, ofBytes_toBytes h]

end LittleEndian
