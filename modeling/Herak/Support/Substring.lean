import Herak.Support.CString

/-!
# The first occurrence of a text

`strstr` over a text that is put together from pieces.  Where no occurrence
starts in the first piece, the search is the search in the rest, shifted by the
length of the piece.
-/

namespace CString

theorem strstr_eq_none_iff {s needle : CStr} :
    strstr s needle = none ↔ ∀ k, ¬needle <+: s.drop k := by
  induction s with
  | nil =>
      by_cases hneedle : needle = [] <;> simp [strstr, hneedle]
  | cons c s ih =>
      simp only [strstr]
      split
      next hprefix =>
        simp only [reduceCtorEq, false_iff, not_forall, not_not]
        exact ⟨0, List.isPrefixOf_iff_prefix.mp hprefix⟩
      next hnot =>
        rw [Option.map_eq_none_iff, ih]
        constructor
        · intro h k
          cases k with
          | zero =>
              rw [List.drop_zero, ← List.isPrefixOf_iff_prefix]
              exact hnot
          | succ k => exact h k
        · exact fun h k => h (k + 1)

/-- A text that starts with the needle has it at offset 0. -/
theorem strstr_self_append (needle t : CStr) :
    strstr (needle ++ t) needle = some 0 := by
  cases needle with
  | nil => cases t <;> simp [strstr]
  | cons c needle =>
      simp only [List.cons_append, strstr]
      rw [if_pos]
      exact List.isPrefixOf_iff_prefix.mpr (List.prefix_append _ _)

/-! ## Pieces without an occurrence -/

theorem strstr_append_right {s t needle : CStr}
    (h : ∀ k < s.length, ¬needle <+: s.drop k ++ t) :
    strstr (s ++ t) needle = (strstr t needle).map (s.length + ·) := by
  induction s with
  | nil => simp
  | cons c s ih =>
      have hfirst : ¬needle.isPrefixOf (c :: (s ++ t)) = true := by
        rw [List.isPrefixOf_iff_prefix]
        exact h 0 (Nat.succ_pos _)
      have hrest := ih fun k hk => h (k + 1) (Nat.succ_lt_succ hk)
      rw [List.cons_append, strstr, if_neg hfirst, hrest, Option.map_map]
      refine congrArg (fun f => (strstr t needle).map f) (funext fun o => ?_)
      simp only [Function.comp_apply, List.length_cons]
      omega

/-- No occurrence starts at a character other than its first. -/
theorem strstr_append_of_head {s t needle : CStr} (hneedle : needle ≠ [])
    (h : ∀ ch ∈ s, needle.head? ≠ some ch) :
    strstr (s ++ t) needle = (strstr t needle).map (s.length + ·) := by
  refine strstr_append_right fun k hk hprefix => ?_
  obtain ⟨c, needle, rfl⟩ := List.exists_cons_of_ne_nil hneedle
  rw [List.drop_eq_getElem_cons hk, List.cons_append,
    List.cons_prefix_cons] at hprefix
  exact h _ (List.getElem_mem hk) (congrArg some hprefix.1)

/-- A piece without the needle, and behind it a character that is not in the
needle. -/
theorem strstr_append_of_none {s t needle : CStr}
    (h : strstr s needle = none) (hstop : ∀ ch ∈ t.head?, ch ∉ needle) :
    strstr (s ++ t) needle = (strstr t needle).map (s.length + ·) := by
  refine strstr_append_right fun k _ hprefix => ?_
  refine strstr_eq_none_iff.mp h k ?_
  by_cases hlen : needle.length ≤ (s.drop k).length
  · exact List.prefix_of_prefix_length_le hprefix (List.prefix_append _ _) hlen
  · cases t with
    | nil => simpa using hprefix
    | cons ch t =>
        have hmore : s.drop k ++ [ch] <+: s.drop k ++ ch :: t := by simp
        obtain ⟨u, hu⟩ := List.prefix_of_prefix_length_le hmore hprefix
          (by rw [List.length_append, List.length_singleton]; omega)
        exact absurd (hu ▸ by simp) (hstop ch rfl)

end CString
