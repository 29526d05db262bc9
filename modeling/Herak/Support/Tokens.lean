import Herak.Support.CString

/-!
# Lists in a string

A list is written with a delimiter between its entries.  A loop of `strtok_r`
calls finds the entries that are not empty, in their order: an empty entry has
no token, so that the entries behind it move up by one.
-/

namespace CString

variable {d : UInt8}

theorem filter_splitOn_delim {pre : CStr} (hpre : ∀ c ∈ pre, c = d) (s : CStr) :
    ((pre ++ s).splitOn d).filter (· ≠ []) =
      (s.splitOn d).filter (· ≠ []) := by
  induction pre with
  | nil => rfl
  | cons c pre ih =>
      obtain rfl := hpre c List.mem_cons_self
      have hhead := List.splitOn_append_cons_self_of_not_mem
        (List.not_mem_nil (a := c)) (pre ++ s)
      rw [List.nil_append] at hhead
      rw [List.cons_append, hhead, List.filter_cons_of_neg (by simp)]
      exact ih fun b hb => hpre b (List.mem_cons_of_mem c hb)

/-- A string without a token is made of delimiters. -/
theorem eq_delim_of_strtokR_none {s : CStr} {rest : Option CStr}
    (h : strtokR (some s) [d] = (none, rest)) : ∀ c ∈ s, c = d := by
  rw [strtokR] at h
  split at h
  next hdrop =>
    rw [List.dropWhile_eq_nil_iff] at hdrop
    intro c hc
    simpa using hdrop c hc
  · split at h
    · cases h
    · cases h

/-- Without a token there is no rest. -/
theorem strtokR_rest_of_none {s : Option CStr} {delim : CStr}
    {rest : Option CStr} (h : strtokR s delim = (none, rest)) : rest = none := by
  unfold strtokR at h
  split at h
  · exact (Prod.mk.inj h).2.symm
  · split at h
    · exact (Prod.mk.inj h).2.symm
    · split at h
      · cases h
      · cases h

theorem tokensIn_none (delim : CStr) (fuel : ℕ) :
    tokensIn delim fuel none = [] := by
  cases fuel with
  | zero => rfl
  | succ fuel => rfl

theorem tokensIn_eq {fuel : ℕ} {s : CStr} (hfuel : s.length < fuel) :
    tokensIn [d] fuel (some s) = (s.splitOn d).filter (· ≠ []) := by
  induction fuel generalizing s with
  | zero => exact absurd hfuel (Nat.not_lt_zero _)
  | succ fuel ih =>
      rw [tokensIn]
      split
      next rest hnone =>
        have hblank := filter_splitOn_delim (eq_delim_of_strtokR_none hnone) []
        rw [List.append_nil, List.splitOn_nil, List.filter_cons_of_neg (by simp),
          List.filter_nil] at hblank
        exact hblank.symm
      next tok rest htok =>
        obtain ⟨pre, hpre, hne, hnot, hend | ⟨r, hrest, hs⟩⟩ :=
          strtokR_some_cases htok
        · obtain ⟨rfl, rfl⟩ := hend
          rw [tokensIn_none, filter_splitOn_delim hpre,
            List.splitOn_eq_singleton hnot,
            List.filter_cons_of_pos (by simpa using hne), List.filter_nil]
        · subst hrest hs
          have hlen : r.length < fuel := by
            simp only [List.length_append, List.length_cons] at hfuel
            omega
          rw [List.append_assoc, filter_splitOn_delim hpre,
            List.splitOn_append_cons_self_of_not_mem hnot,
            List.filter_cons_of_pos (by simpa using hne), ih hlen]

/-- The tokens are the entries that are not empty. -/
theorem tokens_eq (s : CStr) :
    tokens (some s) [d] = (s.splitOn d).filter (· ≠ []) :=
  tokensIn_eq (Nat.lt_succ_self s.length)

/-- A list of words without the delimiter is read as it is written. -/
theorem tokens_intercalate {words : List CStr} (hne : [] ∉ words)
    (hd : ∀ word ∈ words, d ∉ word) :
    tokens (some ([d].intercalate words)) [d] = words := by
  obtain rfl | hwords := eq_or_ne words []
  · rfl
  · rw [tokens_eq, List.splitOn_intercalate d hd hwords, List.filter_eq_self]
    intro word hword
    have hword' : word ≠ [] := fun h => hne (h ▸ hword)
    simpa using hword'

/-- So is a list with the delimiter behind each word. -/
theorem tokens_flatten {words : List CStr} (hne : [] ∉ words)
    (hd : ∀ word ∈ words, d ∉ word) :
    tokens (some (words.map (· ++ [d])).flatten) [d] = words := by
  rw [tokens_eq]
  induction words with
  | nil => simp
  | cons word words ih =>
      rw [List.mem_cons, not_or] at hne
      have hword : d ∉ word := hd word List.mem_cons_self
      have hrest := ih hne.2 fun w hw => hd w (List.mem_cons_of_mem word hw)
      rw [List.map_cons, List.flatten_cons, List.append_assoc,
        List.singleton_append, List.splitOn_append_cons_self_of_not_mem hword,
        List.filter_cons_of_pos (by simpa using Ne.symm hne.1), hrest]

end CString
