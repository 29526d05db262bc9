import Herak.Support.Decimal
import Herak.Support.Tokens

/-!
# Lists of pairs

A configuration is often a list `<id>:<pin>;<id>:<pin>;...` of two numbers,
which is taken apart by two loops of `strtok_r`.
-/

namespace CString

/-- `<id>:<pin>` -/
def pairText (pair : ℕ × ℕ) : CStr :=
  decimal pair.1 ++ 58 :: decimal pair.2

/-- `<id>:<pin>;<id>:<pin>;...` -/
def pairListText (pairs : List (ℕ × ℕ)) : CStr :=
  [59].intercalate (pairs.map pairText)

/-- The tokens of a list are its pairs. -/
theorem tokens_pairListText (pairs : List (ℕ × ℕ)) :
    tokens (some (pairListText pairs)) (lit ";") = pairs.map pairText := by
  refine tokens_intercalate ?_ ?_
  · intro hnil
    obtain ⟨pair, -, hpair⟩ := List.mem_map.mp hnil
    exact List.append_ne_nil_of_right_ne_nil _ (List.cons_ne_nil _ _) hpair
  · intro word hword
    obtain ⟨pair, -, rfl⟩ := List.mem_map.mp hword
    have hsemi : 58 ≤ (59 : UInt8).toNat := by decide
    simp [pairText, not_mem_decimal hsemi]

/-- The first number of a pair. -/
theorem strtokR_pairText (pair : ℕ × ℕ) :
    strtokR (some (pairText pair)) (lit ":") =
      (some (decimal pair.1), some (decimal pair.2)) :=
  strtokR_word (List.forall_mem_nil _) (decimal_ne_nil pair.1)
    (not_mem_decimal (by decide) pair.1) (decimal pair.2)

/-- The second one. -/
theorem strtokR_decimal (n : ℕ) :
    strtokR (some (decimal n)) (lit ":") = (some (decimal n), none) :=
  strtokR_last (List.forall_mem_nil _) (decimal_ne_nil n)
    (not_mem_decimal (by decide) n)

theorem pairListText_ne_nil {pairs : List (ℕ × ℕ)} (h : pairs ≠ []) :
    pairListText pairs ≠ [] := by
  intro hnil
  have htokens := tokens_pairListText pairs
  rw [hnil] at htokens
  exact h (List.map_eq_nil_iff.mp htokens.symm)

end CString
