import Mathlib.Data.List.Nodup
import Herak.Support.Tokens

/-!
# The places of tokens

A list in a string has an entry at each place, maybe an empty one.  The tokens
of the list are its entries that are not empty; here they are put together with
the places where they stand.
-/

namespace CString

variable {s : Option CStr} {d : UInt8}

/-- The entry at a place; it is empty behind the end of the list. -/
def entryAt (s : Option CStr) (d : UInt8) (i : ℕ) : CStr :=
  (((s.getD []).splitOn d)[i]?).getD []

/-- The entries that are not empty. -/
def placedEntries (s : Option CStr) (d : UInt8) : List (CStr × ℕ) :=
  ((s.getD []).splitOn d).zipIdx.filter fun x => x.1 ≠ []

/-- What a loop of `strtok_r` finds, and where it stands. -/
def placedTokens (s : Option CStr) (d : UInt8) : List (CStr × ℕ) :=
  (tokens s [d]).zip ((placedEntries s d).map Prod.snd)

theorem map_fst_placedEntries (s : Option CStr) (d : UInt8) :
    (placedEntries s d).map Prod.fst = tokens s [d] := by
  have htokens : tokens s [d] = ((s.getD []).splitOn d).filter (· ≠ []) := by
    cases s with
    | none => rfl
    | some s => exact tokens_eq s
  have hfilter : (((s.getD []).splitOn d).zipIdx.filter fun x => x.1 ≠ []).map
        Prod.fst =
      (((s.getD []).splitOn d).zipIdx.map Prod.fst).filter (· ≠ []) := by
    rw [List.filter_map]
    rfl
  rw [placedEntries, hfilter, List.zipIdx_map_fst, htokens]

/-- The tokens are the entries that are not empty, each at its place. -/
theorem placedTokens_eq (s : Option CStr) (d : UInt8) :
    placedTokens s d = placedEntries s d := by
  rw [placedTokens, ← map_fst_placedEntries, List.zip_map']
  simp

theorem mem_placedTokens {x : CStr × ℕ} :
    x ∈ placedTokens s d ↔ entryAt s d x.2 = x.1 ∧ x.1 ≠ [] := by
  obtain ⟨tok, i⟩ := x
  rw [placedTokens_eq, placedEntries, List.mem_filter,
    List.mem_zipIdx_iff_getElem?, entryAt]
  simp only [decide_eq_true_eq, and_congr_left_iff]
  intro hne
  constructor
  · intro h
    rw [h, Option.getD_some]
  · intro h
    cases hi : ((s.getD []).splitOn d)[i]? with
    | none =>
        rw [hi, Option.getD_none] at h
        exact absurd h.symm hne
    | some entry =>
        rw [hi, Option.getD_some] at h
        rw [h]

theorem nodup_places (s : Option CStr) (d : UInt8) :
    ((placedTokens s d).map Prod.snd).Nodup := by
  rw [placedTokens_eq]
  refine List.Nodup.sublist (List.filter_sublist.map Prod.snd) ?_
  rw [List.zipIdx_map_snd]
  exact List.nodup_range'

/-- Without a text there are no tokens. -/
theorem placedTokens_eq_nil (hs : s.getD [] = []) : placedTokens s d = [] := by
  rw [placedTokens_eq, placedEntries, hs]
  rfl

end CString
