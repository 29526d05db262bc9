import Herak.Support.Tokens

/-!
# Forms of numbers

A form is a rule for the whole of a text, while the functions of the C library
read as far as they can.  They read a text that has its form as the form says.
-/

namespace CString

/-- A whole number in decimal digits. -/
def wholeNumber (s : CStr) : Option ℕ :=
  if s ≠ [] ∧ s.all (digitValue · < 10) then some (readDigits 10 s 0) else none

/-- A number with at most one point: its digits as one number, and how many of
them stand behind the point. -/
def decimalFraction (s : CStr) : Option (ℕ × ℕ) :=
  match s.splitOn 46 with
  | [whole] => (wholeNumber whole).map fun n => (n, 0)
  | [whole, frac] =>
      if whole = [] ∨ frac = [] then none
      else (wholeNumber (whole ++ frac)).map fun n => (n, frac.length)
  | _ => none

/-- A byte in two hexadecimal digits. -/
def hexByte : CStr → Option UInt8
  | [high, low] =>
      if digitValue high < 16 ∧ digitValue low < 16 then
        some (UInt8.ofNat (16 * digitValue high + digitValue low))
      else none
  | _ => none

/-- Bytes in hexadecimal digits with a delimiter between them. -/
def hexBytes (d : UInt8) (s : CStr) : Option (List UInt8) :=
  if ∀ byte ∈ s.splitOn d, (hexByte byte).isSome then
    some ((s.splitOn d).filterMap hexByte)
  else none

/-! ## How the library reads them -/

/-- Neither a blank nor a sign is a digit. -/
theorem not_blank_or_sign {c : UInt8} (h : digitValue c < 36) :
    isspace c = false ∧ c ≠ 45 ∧ c ≠ 43 := by
  refine ⟨?_, ?_, ?_⟩
  · rw [Bool.eq_false_iff]
    intro hc
    have hlow : c.toNat ≤ 32 := by
      simp only [isspace, Bool.or_eq_true, decide_eq_true_eq, Bool.and_eq_true,
        UInt8.le_iff_toNat_le] at hc
      rcases hc with rfl | ⟨-, hc⟩
      · decide
      · exact hc.trans (by decide)
    have hdigit : digitValue c = 36 := by
      simp only [digitValue, Bool.and_eq_true, decide_eq_true_eq,
        UInt8.le_iff_toNat_le]
      grind
    omega
  · rintro rfl
    revert h
    decide
  · rintro rfl
    revert h
    decide

theorem strtol_hexByte {s : CStr} {byte : UInt8} (h : hexByte s = some byte) :
    strtol s 16 = byte.toNat := by
  unfold hexByte at h
  split at h
  next high low =>
    split at h
    next hdigits =>
      obtain ⟨hhigh, hlow⟩ := hdigits
      obtain rfl := Option.some.inj h
      obtain ⟨hspace, hminus, hplus⟩ := not_blank_or_sign (c := high) (by omega)
      -- The digits are not those of a prefix.
      have hprefix : ¬(low = 120 ∨ low = 88) := by
        rintro (rfl | rfl) <;> revert hlow <;> decide
      have hbase : detectBase 16 [high, low] = (16, [high, low]) := by
        by_cases hzero : high = 48
        · rw [hzero, detectBase, if_neg hprefix]
          rfl
        · simp [detectBase, hzero]
      have hvalue : magnitude 16 [high, low] =
          16 * digitValue high + digitValue low := by
        rw [magnitude, hbase]
        simp only [readDigits, if_pos hhigh, if_pos hlow]
        omega
      have hsize : 16 * digitValue high + digitValue low < 256 := by omega
      have hplain : strtol [high, low] 16 =
          min longMax (magnitude 16 [high, low] : ℤ) := by
        rw [strtol, List.dropWhile_cons_of_neg (by simp [hspace])]
        split
        next heq => exact absurd (List.cons.inj heq).1 hminus
        next heq => exact absurd (List.cons.inj heq).1 hplus
        · rfl
      rw [hplain, hvalue, UInt8.toNat_ofNat_of_lt' hsize, longMax]
      omega
    · cases h
  · cases h

/-- The bytes are the tokens of the text. -/
theorem hexBytes_tokens {d : UInt8} {s : CStr} {bytes : List UInt8}
    (h : hexBytes d s = some bytes) :
    (tokens (some s) [d]).map (fun tok => strtol tok 16) =
      bytes.map fun byte => (byte.toNat : ℤ) := by
  rw [hexBytes, Option.ite_none_right_eq_some] at h
  obtain ⟨hall, hbytes⟩ := h
  obtain rfl := Option.some.inj hbytes
  have hne : ∀ byte ∈ s.splitOn d, decide (byte ≠ []) = true := by
    intro byte hbyte
    rw [decide_eq_true_eq]
    rintro rfl
    exact Bool.false_ne_true (hall [] hbyte)
  rw [tokens_eq, List.filter_eq_self.mpr hne]
  generalize s.splitOn d = words at hall
  induction words with
  | nil => rfl
  | cons word words ih =>
      obtain ⟨byte, hbyte⟩ := Option.isSome_iff_exists.mp (hall word List.mem_cons_self)
      rw [List.map_cons, List.filterMap_cons_some hbyte, List.map_cons,
        strtol_hexByte hbyte,
        ih fun word hword => hall word (List.mem_cons_of_mem _ hword)]

end CString
