import Mathlib.Tactic.IntervalCases
import Herak.Support.CString

/-!
# Decimal numbers

What `%u` prints, digit by digit, and that `strtol` reads it back.
-/

namespace CString

/-- The character of a digit. -/
def digit (d : ℕ) : UInt8 :=
  UInt8.ofNat (48 + d)

theorem digit_toNat {d : ℕ} (hd : d < 10) : (digit d).toNat = 48 + d :=
  UInt8.toNat_ofNat_of_lt' (by
    have hsize : UInt8.size = 256 := rfl
    omega)

theorem digit_inj {d e : ℕ} (hd : d < 10) (he : e < 10)
    (h : digit d = digit e) : d = e := by
  have hnat := congrArg UInt8.toNat h
  rw [digit_toNat hd, digit_toNat he] at hnat
  omega

theorem toUInt8_digitChar {d : ℕ} (hd : d < 10) :
    (Nat.digitChar d).toUInt8 = digit d := by
  interval_cases d <;> rfl

/-- The last digit comes behind the others. -/
theorem decimal_eq (n : ℕ) :
    decimal n = (if n < 10 then [] else decimal (n / 10)) ++
      [digit (n % 10)] := by
  have hdigits : ∀ m, decimal m = (Nat.toDigits 10 m).map Char.toUInt8 := by
    intro m
    rw [decimal, lit, Nat.toList_repr]
  rw [hdigits n, Nat.toDigits_eq_if (by decide)]
  by_cases hn : n < 10
  · simp [hn, Nat.mod_eq_of_lt hn, toUInt8_digitChar hn]
  · simp [hn, hdigits, toUInt8_digitChar (Nat.mod_lt n (by decide : 0 < 10))]

theorem decimal_length (n : ℕ) : (decimal n).length = (Nat.repr n).length := by
  rw [decimal, lit, List.length_map, String.length_toList]

theorem decimal_length_le_iff {n k : ℕ} (hk : 0 < k) :
    (decimal n).length ≤ k ↔ n < 10 ^ k := by
  rw [decimal_length, Nat.length_repr_le_iff hk]

theorem decimalInt_length_le {n : ℤ} {k : ℕ} (hk : 0 < k) (h0 : 0 ≤ n)
    (h : n < 10 ^ k) : (decimalInt n).length ≤ k := by
  have hnat : n.natAbs < 10 ^ k := by
    have hcast : ((n.natAbs : ℕ) : ℤ) < ((10 ^ k : ℕ) : ℤ) := by
      rw [Int.natAbs_of_nonneg h0]
      exact_mod_cast h
    exact_mod_cast hcast
  rw [decimalInt, if_neg (by omega)]
  exact (decimal_length_le_iff hk).mpr hnat

theorem decimal_of_lt {n : ℕ} (hn : n < 10) : decimal n = [digit n] := by
  rw [decimal_eq, if_pos hn, Nat.mod_eq_of_lt hn, List.nil_append]

/-- A number begins with a digit that is 0 for the number 0 only. -/
theorem decimal_head (n : ℕ) :
    ∃ d rest, d < 10 ∧ (0 < n → 0 < d) ∧ decimal n = digit d :: rest := by
  induction n using Nat.strong_induction_on with
  | _ n ih =>
      by_cases hn : n < 10
      · exact ⟨n, [], hn, id, decimal_of_lt hn⟩
      · obtain ⟨d, rest, hd, hpos, hrest⟩ := ih (n / 10) (by omega)
        refine ⟨d, rest ++ [digit (n % 10)], hd, fun _ => hpos (by omega), ?_⟩
        rw [decimal_eq, if_neg hn, hrest, List.cons_append]

theorem digitValue_digit {d : ℕ} (hd : d < 10) : digitValue (digit d) = d := by
  interval_cases d <;> rfl

theorem mem_decimal {n : ℕ} {c : UInt8} (hc : c ∈ decimal n) :
    ∃ d < 10, c = digit d := by
  induction n using Nat.strong_induction_on with
  | _ n ih =>
      rw [decimal_eq, List.mem_append, List.mem_singleton] at hc
      rcases hc with hc | rfl
      · by_cases hn : n < 10
        · rw [if_pos hn] at hc
          exact (List.not_mem_nil hc).elim
        · rw [if_neg hn] at hc
          exact ih (n / 10) (by omega) hc
      · exact ⟨n % 10, Nat.mod_lt n (by decide), rfl⟩

theorem decimal_ne_nil (n : ℕ) : decimal n ≠ [] := by
  obtain ⟨d, rest, -, -, hrest⟩ := decimal_head n
  rw [hrest]
  exact List.cons_ne_nil _ _

/-- A character above the digits is in no number. -/
theorem not_mem_decimal {c : UInt8} (hc : 58 ≤ c.toNat) (n : ℕ) :
    c ∉ decimal n := by
  intro hmem
  obtain ⟨d, hd, rfl⟩ := mem_decimal hmem
  rw [digit_toNat hd] at hc
  omega

theorem readDigits_append_digit {s : CStr} (hs : ∀ c ∈ s, digitValue c < 10)
    {d : ℕ} (hd : d < 10) (acc : ℕ) :
    readDigits 10 (s ++ [digit d]) acc = readDigits 10 s acc * 10 + d := by
  induction s generalizing acc with
  | nil => simp [readDigits, digitValue_digit hd, hd]
  | cons c s ih =>
      have hc := hs c List.mem_cons_self
      rw [List.cons_append, readDigits, readDigits, if_pos hc, if_pos hc]
      exact ih (fun c hc => hs c (List.mem_cons_of_mem _ hc)) _

theorem readDigits_decimal (n : ℕ) : readDigits 10 (decimal n) 0 = n := by
  induction n using Nat.strong_induction_on with
  | _ n ih =>
      rw [decimal_eq]
      by_cases hn : n < 10
      · rw [if_pos hn, Nat.mod_eq_of_lt hn]
        simp [readDigits, digitValue_digit hn, hn]
      · have hdigits : ∀ c ∈ decimal (n / 10), digitValue c < 10 := by
          intro c hc
          obtain ⟨d, hd, rfl⟩ := mem_decimal hc
          rw [digitValue_digit hd]
          exact hd
        rw [if_neg hn,
          readDigits_append_digit hdigits (Nat.mod_lt n (by decide)),
          ih (n / 10) (by omega)]
        omega

/-- `strtol` reads back what `%u` prints, with the base that it detects. -/
theorem strtol_decimal {n : ℕ} (hpos : 0 < n) (hn : (n : ℤ) ≤ longMax) :
    strtol (decimal n) 0 = n := by
  obtain ⟨d, rest, hd, hhead, hrest⟩ := decimal_head n
  have hdpos := hhead hpos
  have hspace : (decimal n).dropWhile isspace = decimal n := by
    rw [hrest, List.dropWhile_cons_of_neg]
    interval_cases d <;> decide
  have hbase : detectBase 0 (decimal n) = (10, decimal n) := by
    rw [hrest]
    interval_cases d <;> rfl
  have hvalue : magnitude 0 (decimal n) = n := by
    rw [magnitude, hbase]
    exact readDigits_decimal n
  have hplain : strtol (decimal n) 0 = min longMax (magnitude 0 (decimal n)) := by
    rw [strtol, hspace]
    rw [hrest]
    interval_cases d <;> rfl
  rw [hplain, hvalue]
  exact min_eq_right hn

/-- Also 0, whose only digit is no prefix of a base. -/
theorem strtol_decimal_detect {n : ℕ} (hn : (n : ℤ) ≤ longMax) :
    strtol (decimal n) 0 = n := by
  obtain rfl | hpos := Nat.eq_zero_or_pos n
  · rfl
  · exact strtol_decimal hpos hn

theorem detectBase_ten (s : CStr) : detectBase 10 s = (10, s) := by
  unfold detectBase
  split
  · simp
  · rfl

/-- With the base 10 every number is read back, up to the largest one. -/
theorem strtol_decimal_ten (n : ℕ) :
    strtol (decimal n) 10 = min longMax n := by
  obtain ⟨d, rest, hd, -, hrest⟩ := decimal_head n
  have hspace : (decimal n).dropWhile isspace = decimal n := by
    rw [hrest, List.dropWhile_cons_of_neg]
    interval_cases d <;> decide
  have hvalue : magnitude 10 (decimal n) = n := by
    rw [magnitude, detectBase_ten]
    exact readDigits_decimal n
  have hplain : strtol (decimal n) 10 =
      min longMax (magnitude 10 (decimal n)) := by
    rw [strtol, hspace]
    rw [hrest]
    interval_cases d <;> rfl
  rw [hplain, hvalue]

/-! ## Leading zeros -/

theorem readDigits_zeros {base : ℕ} (hbase : 0 < base) (k : ℕ) (s : CStr) :
    readDigits base (List.replicate k 48 ++ s) 0 = readDigits base s 0 := by
  induction k with
  | zero => rfl
  | succ k ih =>
      have hzero : digitValue 48 = 0 := rfl
      rw [List.replicate_succ, List.cons_append, readDigits, hzero,
        if_pos hbase, Nat.zero_mul]
      exact ih

theorem readDigits_octal_append_le {s : CStr} {d : ℕ} (hd : d < 10) (acc : ℕ) :
    readDigits 8 (s ++ [digit d]) acc ≤ readDigits 8 s acc * 8 + d := by
  induction s generalizing acc with
  | nil =>
      rw [List.nil_append, readDigits, readDigits, digitValue_digit hd]
      split
      · exact le_rfl
      · omega
  | cons c s ih =>
      rw [List.cons_append, readDigits, readDigits]
      split
      · exact ih _
      · omega

/-- Read as an octal number, a decimal one of two digits is too small. -/
theorem readDigits_octal_le (n : ℕ) :
    readDigits 8 (decimal n) 0 ≤ n ∧
      (10 ≤ n → readDigits 8 (decimal n) 0 < n) := by
  induction n using Nat.strong_induction_on with
  | _ n ih =>
      by_cases hn : n < 10
      · have hone := readDigits_octal_append_le (s := []) hn 0
        rw [List.nil_append] at hone
        rw [decimal_of_lt hn]
        exact ⟨by simpa [readDigits] using hone, fun h => by omega⟩
      · have hhead := (ih (n / 10) (by omega)).1
        have hlast := readDigits_octal_append_le (s := decimal (n / 10))
          (Nat.mod_lt n (by decide : 0 < 10)) 0
        rw [decimal_eq, if_neg hn]
        omega

theorem readDigits_octal_eq_iff (n : ℕ) :
    readDigits 8 (decimal n) 0 = n ↔ n < 8 := by
  by_cases hn : n < 10
  · rw [decimal_of_lt hn]
    interval_cases n <;> decide
  · have hlt := (readDigits_octal_le n).2 (by omega)
    constructor
    · intro h
      omega
    · intro h
      omega

/-- Zeros before a number make it an octal one. -/
theorem strtol_zeros_decimal_iff {n k : ℕ} (hpos : 0 < n)
    (hn : (n : ℤ) ≤ longMax) :
    strtol (List.replicate k 48 ++ decimal n) 0 = n ↔ k = 0 ∨ n < 8 := by
  cases k with
  | zero =>
      simp only [List.replicate_zero, List.nil_append, strtol_decimal hpos hn,
        true_or]
  | succ k =>
      have hvalue : strtol (List.replicate (k + 1) 48 ++ decimal n) 0 =
          min longMax (readDigits 8 (decimal n) 0) := by
        obtain ⟨c, rest, hc, htext⟩ : ∃ c rest, ¬(c = 120 ∨ c = 88) ∧
            List.replicate (k + 1) 48 ++ decimal n = 48 :: c :: rest := by
          cases k with
          | zero =>
              obtain ⟨d, rest, hd, -, hrest⟩ := decimal_head n
              refine ⟨digit d, rest, ?_, by rw [hrest]; rfl⟩
              interval_cases d <;> decide
          | succ k => exact ⟨48, _, by decide, rfl⟩
        have hbase : detectBase 0 (48 :: c :: rest) = (8, 48 :: c :: rest) := by
          simp only [detectBase, if_neg hc, if_true]
        have hmagnitude : magnitude 0 (48 :: c :: rest) =
            readDigits 8 (decimal n) 0 := by
          rw [magnitude, hbase, ← htext]
          exact readDigits_zeros (by decide : 0 < 8) (k + 1) (decimal n)
        rw [htext, ← hmagnitude]
        rfl
      have hle := (readDigits_octal_le n).1
      rw [hvalue, min_eq_right (by omega), Nat.cast_inj,
        readDigits_octal_eq_iff]
      simp

/-! ## The number that a text writes -/

/-- The number of the digits that a text begins with, if there are any. -/
def leadingDigits (s : CStr) : Option ℕ :=
  match s with
  | [] => none
  | c :: _ => if digitValue c < 10 then some (readDigits 10 s 0) else none

/-- The decimal number, of any size, that a text begins with. -/
def writtenNumber (s : CStr) : Option ℤ :=
  match s.dropWhile isspace with
  | 45 :: s => (leadingDigits s).map fun n : ℕ => -(n : ℤ)
  | 43 :: s => (leadingDigits s).map fun n : ℕ => (n : ℤ)
  | s => (leadingDigits s).map fun n : ℕ => (n : ℤ)

/-- A `long` reads the number that is written, within its range, and 0 where no
number is. -/
def clampLong (n : Option ℤ) : ℤ :=
  max longMin (min longMax (n.getD 0))

theorem readDigits_ten (s : CStr) :
    readDigits 10 s 0 = (leadingDigits s).getD 0 := by
  obtain _ | ⟨c, s⟩ := s
  · rfl
  · rw [leadingDigits]
    split
    · rfl
    next hc => simp [readDigits, hc]

/-- A number without a sign. -/
theorem writtenNumber_plain {s t : CStr} (ht : s.dropWhile isspace = t)
    (hminus : ∀ u, t = 45 :: u → False) (hplus : ∀ u, t = 43 :: u → False) :
    writtenNumber s = (leadingDigits t).map fun n : ℕ => (n : ℤ) := by
  rw [writtenNumber, ht]
  split
  next u => exact absurd rfl (hminus u)
  next u => exact absurd rfl (hplus u)
  · rfl

theorem strtol_ten (s : CStr) : strtol s 10 = clampLong (writtenNumber s) := by
  have hpos : ∀ n : Option ℕ,
      min longMax ((n.getD 0 : ℕ) : ℤ) =
        clampLong (n.map fun n : ℕ => (n : ℤ)) := by
    intro n
    cases n <;> simp only [clampLong, longMin, longMax, Option.map_none,
      Option.map_some, Option.getD_none, Option.getD_some] <;> omega
  have hneg : ∀ n : Option ℕ,
      max longMin (-((n.getD 0 : ℕ) : ℤ)) =
        clampLong (n.map fun n : ℕ => -(n : ℤ)) := by
    intro n
    cases n <;> simp only [clampLong, longMin, longMax, Option.map_none,
      Option.map_some, Option.getD_none, Option.getD_some] <;> omega
  unfold strtol
  simp only [magnitude, detectBase_ten, readDigits_ten]
  generalize ht : s.dropWhile isspace = t
  split
  next u =>
    rw [writtenNumber, ht]
    exact hneg _
  next u =>
    rw [writtenNumber, ht]
    exact hpos _
  next hminus hplus =>
    rw [writtenNumber_plain ht hminus hplus]
    exact hpos _

end CString
