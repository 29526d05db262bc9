import Herak.Support.Decimal

/-!
# Objects of texts

An object is written as names and values in quotes, with no quote inside them.
The pieces between its quotes are taken in turns of four: what is in front of a
name, the name, what is in front of its value, and the value.
-/

namespace CString

/-- `"` -/
def quote : UInt8 := 34

/-- The value of the first member with this name; its quotes are closed. -/
def valueAmong (name : CStr) : List CStr → Option CStr
  | _ :: key :: _ :: value :: behind :: rest =>
      if key = name then some value else valueAmong name (behind :: rest)
  | _ => none

def textOf (name text : CStr) : Option CStr :=
  valueAmong name (text.splitOn quote)

/-- A member with the texts that are in front of its name and of its value. -/
def memberText (before key between value : CStr) : CStr :=
  before ++ quote :: (key ++ quote :: (between ++ quote :: (value ++ [quote])))

/-- None of the texts of a member has a quote. -/
def PlainMember (before key between value : CStr) : Prop :=
  quote ∉ before ∧ quote ∉ key ∧ quote ∉ between ∧ quote ∉ value

theorem splitOn_memberText {before key between value : CStr}
    (h : PlainMember before key between value) (rest : CStr) :
    (memberText before key between value ++ rest).splitOn quote =
      before :: key :: between :: value :: rest.splitOn quote := by
  obtain ⟨hbefore, hkey, hbetween, hvalue⟩ := h
  have hmember : memberText before key between value ++ rest =
      before ++ quote :: (key ++ quote :: (between ++ quote ::
        (value ++ quote :: rest))) := by
    simp [memberText]
  rw [hmember, List.splitOn_append_cons_self_of_not_mem hbefore,
    List.splitOn_append_cons_self_of_not_mem hkey,
    List.splitOn_append_cons_self_of_not_mem hbetween,
    List.splitOn_append_cons_self_of_not_mem hvalue]

theorem textOf_memberText {before key between value : CStr}
    (h : PlainMember before key between value) (rest : CStr) :
    textOf key (memberText before key between value ++ rest) = some value := by
  rw [textOf, splitOn_memberText h]
  cases hrest : rest.splitOn quote with
  | nil => exact (List.splitOn_ne_nil quote rest hrest).elim
  | cons behind rest => rw [valueAmong, if_pos rfl]

theorem textOf_skip {name before key between value : CStr}
    (h : PlainMember before key between value) (hname : key ≠ name)
    (rest : CStr) :
    textOf name (memberText before key between value ++ rest) =
      textOf name rest := by
  rw [textOf, textOf, splitOn_memberText h]
  cases hrest : rest.splitOn quote with
  | nil => exact (List.splitOn_ne_nil quote rest hrest).elim
  | cons behind rest => rw [valueAmong, if_neg hname]

/-! ## Hundredths -/

/-- The hundredths of a number with two digits behind its point. -/
def readHundredths (s : CStr) : Option ℕ :=
  match s.splitOn 46 with
  | [whole, frac] =>
      if whole ≠ [] ∧ frac.length = 2 ∧ (whole ++ frac).all (digitValue · < 10)
      then some (readDigits 10 (whole ++ frac) 0)
      else none
  | _ => none

theorem digitValue_of_mem_decimal {n : ℕ} {c : UInt8} (hc : c ∈ decimal n) :
    digitValue c < 10 := by
  obtain ⟨d, hd, rfl⟩ := mem_decimal hc
  rw [digitValue_digit hd]
  exact hd

theorem point_not_mem {s : CStr} (hs : ∀ c ∈ s, digitValue c < 10) : 46 ∉ s :=
  fun hmem => absurd (hs 46 hmem) (by decide)

theorem readHundredths_digits (n : ℕ) {a b : ℕ} (ha : a < 10) (hb : b < 10) :
    readHundredths (decimal n ++ 46 :: (decimal a ++ decimal b)) =
      some (100 * n + 10 * a + b) := by
  have hwhole : ∀ c ∈ decimal n, digitValue c < 10 :=
    fun c hc => digitValue_of_mem_decimal hc
  have hfirst : ∀ c ∈ decimal n ++ [digit a], digitValue c < 10 := by
    intro c hc
    rcases List.mem_append.mp hc with hc | hc
    · exact hwhole c hc
    · rw [List.mem_singleton.mp hc, digitValue_digit ha]
      exact ha
  have hfrac : ∀ c ∈ [digit a, digit b], digitValue c < 10 := by
    simp [digitValue_digit ha, digitValue_digit hb, ha, hb]
  have hall : ∀ c ∈ decimal n ++ [digit a, digit b], digitValue c < 10 := by
    intro c hc
    rcases List.mem_append.mp hc with hc | hc
    · exact hwhole c hc
    · exact hfrac c hc
  have hvalue : readDigits 10 (decimal n ++ [digit a, digit b]) 0 =
      100 * n + 10 * a + b := by
    have hsplit : decimal n ++ [digit a, digit b] =
        (decimal n ++ [digit a]) ++ [digit b] := by
      simp
    rw [hsplit, readDigits_append_digit hfirst hb,
      readDigits_append_digit hwhole ha, readDigits_decimal]
    omega
  have hpieces : (decimal n ++ 46 :: [digit a, digit b]).splitOn 46 =
      [decimal n, [digit a, digit b]] := by
    rw [List.splitOn_append_cons_self_of_not_mem (point_not_mem hwhole),
      List.splitOn_eq_singleton (point_not_mem hfrac)]
  have hfits : decimal n ≠ [] ∧ ([digit a, digit b] : CStr).length = 2 ∧
      (decimal n ++ [digit a, digit b]).all (digitValue · < 10) = true :=
    ⟨decimal_ne_nil n, rfl, List.all_eq_true.mpr fun c hc =>
      decide_eq_true (hall c hc)⟩
  rw [decimal_of_lt ha, decimal_of_lt hb, List.singleton_append, readHundredths,
    hpieces]
  simp only [if_pos hfits, hvalue]

end CString
