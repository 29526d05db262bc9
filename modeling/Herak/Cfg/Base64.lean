import Mathlib.Data.List.Basic
import Mathlib.Tactic.IntervalCases
import Herak.Support.CString

/-!
# Base64

`base64.c`: the encoder takes bytes in groups of three, the decoder characters
in groups of four.
-/

namespace Herak.Cfg

open CString

/-- `base46_map` -/
def base46Map : CStr :=
  lit "ABCDEFGHIJKLMNOPQRSTUVWXYZabcdefghijklmnopqrstuvwxyz0123456789+/"

/-- `base46_map[k]` -/
def base46Char (k : ℕ) : UInt8 :=
  base46Map.getD k 0

/-- The character `=`. -/
def padding : UInt8 := 61

/-- `base64_encode` -/
def base64Encode : List UInt8 → CStr
  | [] => []
  | [a] =>
      [base46Char (a.toNat / 4), base46Char (a.toNat % 4 * 16), padding,
        padding]
  | [a, b] =>
      [base46Char (a.toNat / 4),
        base46Char (a.toNat % 4 * 16 + b.toNat / 16),
        base46Char (b.toNat % 16 * 4), padding]
  | a :: b :: c :: plain =>
      [base46Char (a.toNat / 4),
        base46Char (a.toNat % 4 * 16 + b.toNat / 16),
        base46Char (b.toNat % 16 * 4 + c.toNat / 64),
        base46Char (c.toNat % 64)] ++ base64Encode plain

/-- The place of a character in the map, 64 if it is not there. -/
def base46Index (c : UInt8) : ℕ :=
  base46Map.findIdx (· == c)

/-- The bytes that a group of four characters stands for. -/
def base64Group (k l m n : ℕ) : List UInt8 :=
  [UInt8.ofNat (k * 4 + l / 16)] ++
    (if m = 64 then [] else [UInt8.ofNat (l * 16 + m / 4)]) ++
    (if n = 64 then [] else [UInt8.ofNat (m * 64 + n)])

/-- The loop of `base64_decode`, which leaves characters out at the end that are
fewer than four. -/
def base64Bytes : CStr → List UInt8
  | c₀ :: c₁ :: c₂ :: c₃ :: cipher =>
      base64Group (base46Index c₀) (base46Index c₁) (base46Index c₂)
        (base46Index c₃) ++ base64Bytes cipher
  | _ => []

/-- `base64_decode` -/
def base64Decode (cipher : CStr) : Option (List UInt8) :=
  if cipher.length < 1 then none else some (base64Bytes cipher)

/-! ## The round trip -/

theorem base46Index_char {k : ℕ} (hk : k < 64) :
    base46Index (base46Char k) = k := by
  have hall : ∀ k < 64, base46Index (base46Char k) = k := by decide +kernel
  exact hall k hk

theorem base46Index_padding : base46Index padding = 64 := by
  decide +kernel

/-- A byte is put together from its bits, whatever is above them. -/
theorem ofNat_toNat_eq {n : ℕ} {a : UInt8} (h : n % 256 = a.toNat) :
    UInt8.ofNat n = a := by
  apply UInt8.toNat_inj.mp
  rw [UInt8.toNat_ofNat', h]

theorem base64Bytes_encode (plain : List UInt8) :
    base64Bytes (base64Encode plain) = plain := by
  induction plain using base64Encode.induct with
  | case1 => rfl
  | case2 a =>
      have ha := a.toNat_lt
      rw [base64Encode, base64Bytes, base46Index_char (by omega),
        base46Index_char (by omega), base46Index_padding, base64Group,
        if_pos rfl, if_pos rfl, ofNat_toNat_eq (a := a) (by omega)]
      rfl
  | case3 a b =>
      have ha := a.toNat_lt
      have hb := b.toNat_lt
      rw [base64Encode, base64Bytes, base46Index_char (by omega),
        base46Index_char (by omega), base46Index_char (by omega),
        base46Index_padding, base64Group, if_neg (by omega), if_pos rfl,
        ofNat_toNat_eq (a := a) (by omega), ofNat_toNat_eq (a := b) (by omega)]
      rfl
  | case4 a b c plain ih =>
      have ha := a.toNat_lt
      have hb := b.toNat_lt
      have hc := c.toNat_lt
      rw [base64Encode, List.cons_append, List.cons_append, List.cons_append,
        List.cons_append, List.nil_append, base64Bytes,
        base46Index_char (by omega), base46Index_char (by omega),
        base46Index_char (by omega), base46Index_char (by omega), ih,
        base64Group, if_neg (by omega), if_neg (by omega),
        ofNat_toNat_eq (a := a) (by omega), ofNat_toNat_eq (a := b) (by omega),
        ofNat_toNat_eq (a := c) (by omega)]
      rfl

/-- Four characters for each three bytes, or fewer at the end. -/
theorem base64Encode_length (plain : List UInt8) :
    (base64Encode plain).length = (plain.length + 2) / 3 * 4 := by
  induction plain using base64Encode.induct with
  | case1 => rfl
  | case2 a => simp [base64Encode]
  | case3 a b => simp [base64Encode]
  | case4 a b c plain ih =>
      rw [base64Encode, List.length_append, ih]
      simp only [List.length_cons, List.length_nil]
      omega

/-- The first groups of a text are those of the first bytes. -/
theorem base64Encode_take (k : ℕ) :
    ∀ plain : List UInt8, 3 * k ≤ plain.length →
      (base64Encode plain).take (4 * k) = base64Encode (plain.take (3 * k)) := by
  induction k with
  | zero =>
      intro plain _
      simp [base64Encode]
  | succ k ih =>
      intro plain hlen
      match plain with
      | a :: b :: c :: plain =>
          have hrest : 3 * k ≤ plain.length := by
            simp only [List.length_cons] at hlen
            omega
          have hfour : 4 * (k + 1) = 4 * k + 1 + 1 + 1 + 1 := by omega
          have hthree : 3 * (k + 1) = 3 * k + 1 + 1 + 1 := by omega
          rw [hfour, hthree, base64Encode]
          simp only [List.cons_append, List.nil_append, List.take_succ_cons,
            base64Encode, ih plain hrest]
      | [] | [_] | [_, _] =>
          simp only [List.length_cons, List.length_nil] at hlen
          omega

end Herak.Cfg
