import Mathlib.Tactic.IntervalCases
import Herak.Support.CString

/-!
# Hexadecimal numbers

What `%X` prints, digit by digit, and that the functions which detect the base
of a number read it back behind `0x`.
-/

namespace CString

/-- The character of a digit. -/
def hexDigit (d : ℕ) : UInt8 :=
  if d < 10 then UInt8.ofNat (48 + d) else UInt8.ofNat (55 + d)

/-- `%X` of an unsigned number. -/
def hexUpper (n : ℕ) : CStr :=
  (Nat.toDigits 16 n).map fun c => c.toUpper.toUInt8

theorem toUpper_digitChar {d : ℕ} (hd : d < 16) :
    (Nat.digitChar d).toUpper.toUInt8 = hexDigit d := by
  interval_cases d <;> rfl

theorem hexUpper_of_lt {n : ℕ} (hn : n < 16) : hexUpper n = [hexDigit n] := by
  rw [hexUpper, Nat.toDigits_of_lt_base hn, List.map_singleton,
    toUpper_digitChar hn]

/-- The last digit comes behind the others. -/
theorem hexUpper_of_le {n : ℕ} (hn : 16 ≤ n) :
    hexUpper n = hexUpper (n / 16) ++ [hexDigit (n % 16)] := by
  rw [hexUpper, Nat.toDigits_of_base_le (by decide) hn, List.map_append,
    List.map_singleton, toUpper_digitChar (Nat.mod_lt n (by decide))]
  rfl

theorem hexDigit_toNat {d : ℕ} (hd : d < 16) :
    (hexDigit d).toNat = if d < 10 then 48 + d else 55 + d := by
  interval_cases d <;> rfl

theorem digitValue_hexDigit {d : ℕ} (hd : d < 16) :
    digitValue (hexDigit d) = d := by
  interval_cases d <;> rfl

theorem mem_hexUpper {n : ℕ} {c : UInt8} (hc : c ∈ hexUpper n) :
    ∃ d < 16, c = hexDigit d := by
  induction n using Nat.strong_induction_on with
  | _ n ih =>
      by_cases hn : n < 16
      · rw [hexUpper_of_lt hn, List.mem_singleton] at hc
        exact ⟨n, hn, hc⟩
      · rw [hexUpper_of_le (Nat.le_of_not_lt hn), List.mem_append,
          List.mem_singleton] at hc
        rcases hc with hc | hc
        · exact ih (n / 16) (by omega) hc
        · exact ⟨n % 16, Nat.mod_lt n (by decide), hc⟩

theorem hexUpper_length_le {k n : ℕ} (hn : n < 16 ^ (k + 1)) :
    (hexUpper n).length ≤ k + 1 := by
  induction k generalizing n with
  | zero => rw [hexUpper_of_lt (by simpa using hn), List.length_singleton]
  | succ k ih =>
      by_cases hsmall : n < 16
      · rw [hexUpper_of_lt hsmall, List.length_singleton]
        omega
      · have hdiv : n / 16 < 16 ^ (k + 1) := by
          rw [pow_succ] at hn
          exact Nat.div_lt_of_lt_mul (by omega)
        have hlen := ih hdiv
        rw [hexUpper_of_le (Nat.le_of_not_lt hsmall), List.length_append,
          List.length_singleton]
        omega

theorem readDigits_append_of_digits {base : ℕ} {s : CStr}
    (hs : ∀ c ∈ s, digitValue c < base) (s' : CStr) (acc : ℕ) :
    readDigits base (s ++ s') acc = readDigits base s' (readDigits base s acc) := by
  induction s generalizing acc with
  | nil => rfl
  | cons c s ih =>
      have hc := hs c List.mem_cons_self
      rw [List.cons_append, readDigits, readDigits, if_pos hc, if_pos hc]
      exact ih (fun c hc => hs c (List.mem_cons_of_mem _ hc)) _

theorem readDigits_hexUpper (n : ℕ) : readDigits 16 (hexUpper n) 0 = n := by
  induction n using Nat.strong_induction_on with
  | _ n ih =>
      by_cases hn : n < 16
      · rw [hexUpper_of_lt hn]
        simp [readDigits, digitValue_hexDigit hn, hn]
      · have hdigits : ∀ c ∈ hexUpper (n / 16), digitValue c < 16 := by
          intro c hc
          obtain ⟨d, hd, rfl⟩ := mem_hexUpper hc
          rwa [digitValue_hexDigit hd]
        have hlast := Nat.mod_lt n (show 0 < 16 by decide)
        rw [hexUpper_of_le (Nat.le_of_not_lt hn),
          readDigits_append_of_digits hdigits, ih (n / 16) (by omega)]
        simp only [readDigits, digitValue_hexDigit hlast, if_pos hlast]
        omega

/-! ## Numbers of 64 bits -/

def longLongMax : ℤ := 9223372036854775807
def longLongMin : ℤ := -9223372036854775808

/-- `strtoll(s, NULL, base)`: as `strtol`, for 64 bits. -/
def strtoll (s : CStr) (base : ℕ) : ℤ :=
  match s.dropWhile isspace with
  | 45 :: s => max longLongMin (-magnitude base s)
  | 43 :: s => min longLongMax (magnitude base s)
  | s => min longLongMax (magnitude base s)

/-- A number behind `0x` is read in the base 16, up to the largest `long
long`. -/
theorem strtoll_hexUpper (n : ℕ) :
    strtoll (lit "0x" ++ hexUpper n) 0 = min longLongMax n := by
  have hmagnitude : magnitude 0 (lit "0x" ++ hexUpper n) = n :=
    readDigits_hexUpper n
  have hplain : strtoll (lit "0x" ++ hexUpper n) 0 =
      min longLongMax (magnitude 0 (lit "0x" ++ hexUpper n)) := rfl
  rw [hplain, hmagnitude]

end CString
