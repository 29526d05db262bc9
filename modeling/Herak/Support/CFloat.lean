import Herak.Support.BinaryFloat
import Herak.Support.CString

/-!
# Floating point numbers in C strings

`strtof` reads blanks, a sign and a number, which is decimal, hexadecimal, or a
name for an infinity or for NaN, and rounds it once.
-/

namespace CFloat

open BinaryFloat CString

abbrev CFloat32 := Value binary32

/-- The leading digits of a string, and the rest. -/
def splitDigits (base : ℕ) (s : CStr) : CStr × CStr :=
  s.span fun c => digitValue c < base

def digitsValue (base : ℕ) (digits : CStr) : ℕ :=
  digits.foldl (fun acc c => acc * base + digitValue c) 0

/-- Digits with at most one point among them: all the digits, the number of
those behind the point, and the rest; `none` without any digit. -/
def mantissa (base : ℕ) (s : CStr) : Option (CStr × ℕ × CStr) :=
  let whole := splitDigits base s
  match whole.2 with
  | 46 :: rest =>
      let frac := splitDigits base rest
      if whole.1 ++ frac.1 = [] then none
      else some (whole.1 ++ frac.1, frac.1.length, frac.2)
  | rest => if whole.1 = [] then none else some (whole.1, 0, rest)

/-- The exponent behind a letter in one of its two cases, and the rest; 0 when
no digit follows. -/
def exponentPart (lower upper : UInt8) (s : CStr) : ℤ × CStr :=
  match s with
  | [] => (0, s)
  | c :: rest =>
      if c = lower ∨ c = upper then
        let signed : Bool × CStr :=
          match rest with
          | 45 :: rest => (true, rest)
          | 43 :: rest => (false, rest)
          | rest => (false, rest)
        let digits := splitDigits 10 signed.2
        if digits.1 = [] then (0, s)
        else
          (if signed.1 then -digitsValue 10 digits.1
            else digitsValue 10 digits.1, digits.2)
      else (0, s)

/-- The value of `n * base ^ e`. -/
def scaled (n : ℤ) (base : ℕ) (e : ℤ) : CFloat32 :=
  if 0 ≤ e then ofFrac binary32 (n * base ^ e.toNat) 1
  else ofFrac binary32 n (base ^ (-e).toNat)

/-- The test for a name in any case, and the rest behind it. -/
def stripName (name s : CStr) : Option CStr :=
  if (s.take name.length).map (fun c => if 65 ≤ c ∧ c ≤ 90 then c + 32 else c) =
      name then some (s.drop name.length)
  else none

/-- The number of a text without blanks and sign; `negative` is its sign. -/
def unsignedFloat (negative : Bool) (s : CStr) : Option (CFloat32 × CStr) :=
  let sign : ℤ := if negative then -1 else 1
  let decimal : Option (CFloat32 × CStr) :=
    match mantissa 10 s with
    | none => none
    | some (digits, places, rest) =>
        let e := exponentPart 101 69 rest
        some (scaled (sign * digitsValue 10 digits) 10 (e.1 - places), e.2)
  match stripName (lit "infinity") s with
  | some rest => some (.inf negative, rest)
  | none =>
      match stripName (lit "inf") s with
      | some rest => some (.inf negative, rest)
      | none =>
          match stripName (lit "nan") s with
          | some rest => some (.nan, rest)
          | none =>
              match s with
              | 48 :: c :: rest =>
                  if c = 120 ∨ c = 88 then
                    match mantissa 16 rest with
                    | none => decimal
                    | some (digits, places, rest) =>
                        let e := exponentPart 112 80 rest
                        some (scaled (sign * digitsValue 16 digits) 2
                          (e.1 - 4 * places), e.2)
                  else decimal
              | _ => decimal

/-- `strtof(s, &rest)`; without a number it is 0, and the rest is the text
itself. -/
def strtof (s : CStr) : CFloat32 × CStr :=
  let number :=
    match s.dropWhile isspace with
    | 45 :: rest => unsignedFloat true rest
    | 43 :: rest => unsignedFloat false rest
    | rest => unsignedFloat false rest
  number.getD (Value.zero binary32, s)

/-! ## The sign of a number -/

/-- The value is not a negative number. -/
def Unsigned (x : CFloat32) : Prop :=
  ∀ units h, x = .finite units h → 0 ≤ units

theorem scaled_unsigned {n : ℤ} (hn : 0 ≤ n) (base : ℕ) (e : ℤ) :
    Unsigned (scaled n base e) := by
  intro units h hvalue
  simp only [scaled, ofFrac] at hvalue
  split at hvalue
  · exact Value.units_nonneg_of_round (by positivity) hvalue
  · exact Value.units_nonneg_of_round (by positivity) hvalue

theorem unsignedFloat_unsigned {s rest : CStr} {x : CFloat32}
    (h : unsignedFloat false s = some (x, rest)) : Unsigned x := by
  have hinf : Unsigned (.inf false) := fun _ _ h => nomatch h
  have hnan : Unsigned .nan := fun _ _ h => nomatch h
  have hdecimal : ∀ {r : CFloat32 × CStr},
      (match mantissa 10 s with
        | none => none
        | some (digits, places, rest) =>
            let e := exponentPart 101 69 rest
            some (scaled ((1 : ℤ) * digitsValue 10 digits) 10 (e.1 - places),
              e.2)) = some r → Unsigned r.1 := by
    intro r hr
    split at hr
    · cases hr
    · obtain rfl := Option.some.inj hr
      exact scaled_unsigned (by positivity) _ _
  simp only [unsignedFloat, Bool.false_eq_true, if_false] at h
  split at h
  · obtain ⟨rfl, -⟩ := Prod.mk.inj (Option.some.inj h)
    exact hinf
  · split at h
    · obtain ⟨rfl, -⟩ := Prod.mk.inj (Option.some.inj h)
      exact hinf
    · split at h
      · obtain ⟨rfl, -⟩ := Prod.mk.inj (Option.some.inj h)
        exact hnan
      · split at h
        · split at h
          · split at h
            · exact hdecimal h
            · obtain ⟨rfl, -⟩ := Prod.mk.inj (Option.some.inj h)
              exact scaled_unsigned (by positivity) _ _
          · exact hdecimal h
        · exact hdecimal h

/-- Without a minus sign no negative number is read. -/
theorem strtof_unsigned {s : CStr} (h : 45 ∉ s) : Unsigned (strtof s).1 := by
  have hzero : Unsigned (Value.zero binary32) := by
    intro units hrep hvalue
    exact Int.le_of_eq (Value.finite.inj hvalue)
  have hnumber : ∀ rest, Unsigned
      ((unsignedFloat false rest).getD (Value.zero binary32, s)).1 := by
    intro rest
    cases hread : unsignedFloat false rest with
    | none => exact hzero
    | some r => exact unsignedFloat_unsigned hread
  simp only [strtof]
  split
  next rest hrest =>
    have hmem : 45 ∈ s.dropWhile isspace := by
      rw [hrest]
      exact List.mem_cons_self
    exact (h (List.dropWhile_sublist _ |>.mem hmem)).elim
  · exact hnumber _
  · exact hnumber _

end CFloat
