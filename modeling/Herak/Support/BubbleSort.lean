import Mathlib.Algebra.BigOperators.Group.List.Basic
import Mathlib.Algebra.Order.Ring.Int
import Mathlib.Data.List.Sort

/-!
# Bubble sort through a narrow variable

A bubble sort exchanges neighbours, and keeps the larger one in a variable in
the meantime.  `store` is what the variable makes of a value: the identity, if
it is wide enough.  Such a sort does its work exactly on the lists in which
every value that has a smaller one behind it fits into the variable.
-/

namespace BubbleSort

open List

variable {α : Type*} [LinearOrder α] (store : α → α)

/-- Put the values at `j` and `j + 1` in order. -/
def exchange (a : List α) (j : ℕ) : List α :=
  match a[j]?, a[j + 1]? with
  | some x, some y =>
      if y < x then (a.set j y).set (j + 1) (store x) else a
  | _, _ => a

/-- The indices of the exchanges, pass by pass. -/
def schedule (n : ℕ) : List ℕ :=
  (List.range (n - 1)).flatMap fun i => List.range (n - i - 1)

/-- The first `n` passes over a list of length `m`. -/
def passes (m n : ℕ) (a : List α) : List α :=
  (List.range n).foldl (fun b i =>
    (List.range (m - i - 1)).foldl (exchange store) b) a

def sort (a : List α) : List α :=
  passes store a.length (a.length - 1) a

theorem sort_eq (a : List α) :
    sort store a = (schedule a.length).foldl (exchange store) a := by
  rw [schedule, List.foldl_flatMap]
  rfl

theorem exchange_append (p s : List α) (x y : α) :
    exchange store (p ++ x :: y :: s) p.length =
      p ++ if y < x then y :: store x :: s else x :: y :: s := by
  have hx : (p ++ x :: y :: s)[p.length]? = some x := by simp
  have hy : (p ++ x :: y :: s)[p.length + 1]? = some y := by simp
  rw [exchange, hx, hy]
  dsimp only
  split
  · simp
  · rfl

/-- An exchange is outside of the list, or puts two neighbours in order. -/
theorem exchange_cases (a : List α) (j : ℕ) :
    (∀ store : α → α, exchange store a j = a) ∨
      ∃ p x y s, a = p ++ x :: y :: s ∧ p.length = j := by
  by_cases hj : j + 1 < a.length
  · right
    refine ⟨a.take j, a[j], a[j + 1], a.drop (j + 2), ?_, ?_⟩
    · rw [← List.drop_eq_getElem_cons hj, ← List.drop_eq_getElem_cons,
        List.take_append_drop]
    · exact List.length_take_of_le (by omega)
  · left
    intro store
    have hnone : a[j + 1]? = none := List.getElem?_eq_none (by omega)
    rw [exchange, hnone]
    cases a[j]? <;> rfl

/-! ## A variable that is wide enough -/

theorem exchange_id_perm (a : List α) (j : ℕ) : exchange id a j ~ a := by
  obtain h | ⟨p, x, y, s, rfl, rfl⟩ := exchange_cases a j
  · rw [h]
  · rw [exchange_append]
    apply Perm.append_left
    split
    · exact Perm.swap x y s
    · exact Perm.refl _

theorem foldl_exchange_id_perm (js : List ℕ) (a : List α) :
    js.foldl (exchange id) a ~ a := by
  induction js generalizing a with
  | nil => exact Perm.refl a
  | cons j js ih => exact (ih _).trans (exchange_id_perm a j)

/-- One pass over `x` and the values behind it. -/
def bubble : α → List α → List α
  | x, [] => [x]
  | x, y :: f => if y < x then y :: bubble x f else x :: bubble y f

theorem foldl_exchange_id (p f s : List α) (x : α) :
    (List.range' p.length f.length).foldl (exchange id) (p ++ x :: (f ++ s)) =
      p ++ bubble x f ++ s := by
  induction f generalizing p x with
  | nil => simp [bubble]
  | cons y f ih =>
      rw [List.length_cons, List.range'_succ, List.foldl_cons, List.cons_append,
        exchange_append, bubble]
      split
      · have h := ih (p ++ [y]) x
        simpa using h
      · have h := ih (p ++ [x]) y
        simpa using h

/-- A pass carries a largest value to the end. -/
theorem bubble_spec (x : α) (f : List α) :
    ∃ front last, bubble x f = front ++ [last] ∧
      front ++ [last] ~ x :: f ∧ ∀ z ∈ x :: f, z ≤ last := by
  induction f generalizing x with
  | nil => exact ⟨[], x, rfl, Perm.refl _, by simp⟩
  | cons y f ih =>
      rw [bubble]
      by_cases hyx : y < x
      · obtain ⟨front, last, hbubble, hperm, hmax⟩ := ih x
        refine ⟨y :: front, last, ?_, ?_, ?_⟩
        · rw [if_pos hyx, hbubble]
          rfl
        · exact (hperm.cons y).trans (Perm.swap x y f)
        · intro z hz
          have hx : x ≤ last := hmax x mem_cons_self
          rcases mem_cons.mp hz with rfl | hz
          · exact hx
          · rcases mem_cons.mp hz with rfl | hz
            · exact hyx.le.trans hx
            · exact hmax z (mem_cons_of_mem x hz)
      · obtain ⟨front, last, hbubble, hperm, hmax⟩ := ih y
        refine ⟨x :: front, last, ?_, hperm.cons x, ?_⟩
        · rw [if_neg hyx, hbubble]
          rfl
        · intro z hz
          rcases mem_cons.mp hz with rfl | hz
          · exact (not_lt.mp hyx).trans (hmax y mem_cons_self)
          · exact hmax z hz

/-- The last `i` values are in order, and none of the others is larger. -/
def Settled (a : List α) (i : ℕ) : Prop :=
  ∃ front suffix, a = front ++ suffix ∧ suffix.length = i ∧
    suffix.Pairwise (· ≤ ·) ∧ ∀ x ∈ front, ∀ y ∈ suffix, x ≤ y

/-- A pass settles one more value. -/
theorem Settled.pass {a : List α} {i : ℕ} (h : Settled a i)
    (hi : i < a.length) :
    Settled ((List.range (a.length - i - 1)).foldl (exchange id) a) (i + 1) := by
  obtain ⟨front, suffix, rfl, rfl, hsorted, hcross⟩ := h
  cases front with
  | nil => simp at hi
  | cons x f =>
      obtain ⟨front, last, hbubble, hperm, hmax⟩ := bubble_spec x f
      have hrange : (x :: f ++ suffix).length - suffix.length - 1 = f.length := by
        rw [List.length_append, Nat.add_sub_cancel]
        rfl
      have hpass := foldl_exchange_id [] f suffix x
      rw [List.length_nil, List.nil_append, List.nil_append, hbubble,
        List.append_assoc] at hpass
      rw [hrange, List.range_eq_range', List.cons_append, hpass]
      have hmem : ∀ z ∈ front ++ [last], z ∈ x :: f := fun z => hperm.mem_iff.mp
      have hlast : last ∈ x :: f := hmem last (by simp)
      refine ⟨front, last :: suffix, rfl, rfl, ?_, ?_⟩
      · exact List.pairwise_cons.mpr ⟨hcross last hlast, hsorted⟩
      · intro z hz y hy
        have hzmem : z ∈ x :: f := hmem z (mem_append_left _ hz)
        rcases mem_cons.mp hy with rfl | hy
        · exact hmax z hzmem
        · exact hcross z hzmem y hy

theorem passes_succ (m n : ℕ) (a : List α) :
    passes store m (n + 1) a =
      (List.range (m - n - 1)).foldl (exchange store) (passes store m n a) := by
  rw [passes, List.range_succ, List.foldl_append]
  rfl

theorem passes_id_perm (m n : ℕ) (a : List α) : passes id m n a ~ a := by
  induction n with
  | zero => exact Perm.refl a
  | succ n ih =>
      rw [passes_succ]
      exact (foldl_exchange_id_perm _ _).trans ih

theorem settled_passes (a : List α) {n : ℕ} (hn : n ≤ a.length) :
    Settled (passes id a.length n a) n := by
  induction n with
  | zero => exact ⟨a, [], by simp [passes], rfl, Pairwise.nil, by simp⟩
  | succ n ih =>
      have hlen := (passes_id_perm a.length n a).length_eq
      have h := (ih (Nat.le_of_succ_le hn)).pass (hlen.symm ▸ hn)
      rwa [hlen, ← passes_succ] at h

theorem sort_id_sorted (a : List α) : (sort id a).Pairwise (· ≤ ·) := by
  obtain ⟨front, suffix, heq, hlen, hsorted, hcross⟩ :=
    settled_passes a (Nat.sub_le a.length 1)
  have hfront : front.length ≤ 1 := by
    have htotal := (passes_id_perm a.length (a.length - 1) a).length_eq
    rw [heq, List.length_append] at htotal
    omega
  rw [sort, heq, List.pairwise_append]
  refine ⟨?_, hsorted, hcross⟩
  cases front with
  | nil => exact Pairwise.nil
  | cons x front =>
      have hnil : front = [] := by simpa using hfront
      rw [hnil]
      exact pairwise_singleton _ x

/-! ## A variable that is too narrow -/

/-- Every value that has a smaller one behind it fits into the variable. -/
def Kept (a : List α) : Prop :=
  a.Pairwise fun x y => y < x → store x = x

variable {store}

/-- Neighbours in order, and the others as before. -/
theorem kept_swap_iff {p s : List α} {x y : α} (hyx : y < x)
    (hx : store x = x) :
    Kept store (p ++ y :: x :: s) ↔ Kept store (p ++ x :: y :: s) := by
  have hxy : ¬x < y := hyx.asymm
  simp only [Kept, List.pairwise_append, List.pairwise_cons, mem_cons,
    forall_eq_or_imp, hxy, hx, implies_true, false_implies, true_and]
  refine and_congr_right fun _ => and_congr_right fun _ => ?_
  exact forall₂_congr fun _ _ => and_left_comm

theorem exchange_of_kept {a : List α} (h : Kept store a) (j : ℕ) :
    exchange store a j = exchange id a j ∧ Kept store (exchange store a j) := by
  obtain hout | ⟨p, x, y, s, rfl, rfl⟩ := exchange_cases a j
  · rw [hout, hout]
    exact ⟨rfl, h⟩
  · rw [exchange_append, exchange_append]
    by_cases hyx : y < x
    · have hx : store x = x := by
        have hcons := List.pairwise_cons.mp (List.pairwise_append.mp h).2.1
        exact hcons.1 y mem_cons_self hyx
      rw [if_pos hyx, if_pos hyx, hx]
      exact ⟨rfl, (kept_swap_iff hyx hx).mpr h⟩
    · rw [if_neg hyx, if_neg hyx]
      exact ⟨rfl, h⟩

/-- Where every value is kept, the variable does no harm. -/
theorem foldl_exchange_of_kept {a : List α} (h : Kept store a)
    (js : List ℕ) :
    js.foldl (exchange store) a = js.foldl (exchange id) a := by
  induction js generalizing a with
  | nil => rfl
  | cons j js ih =>
      obtain ⟨heq, hkept⟩ := exchange_of_kept h j
      rw [List.foldl_cons, ih hkept, heq, List.foldl_cons]

section Weight

/-! A value that does not fit loses weight, and no exchange gives it back. -/

variable {w : α → ℕ} (hle : ∀ x, w (store x) ≤ w x)
  (heq : ∀ x, w (store x) = w x → store x = x)

include hle in
theorem weight_exchange_le (a : List α) (j : ℕ) :
    ((exchange store a j).map w).sum ≤ (a.map w).sum := by
  obtain hout | ⟨p, x, y, s, rfl, rfl⟩ := exchange_cases a j
  · rw [hout]
  · rw [exchange_append]
    split
    · have hx := hle x
      simp only [List.map_append, List.map_cons, List.sum_append, List.sum_cons]
      omega
    · exact le_rfl

include hle in
theorem weight_foldl_le (js : List ℕ) (a : List α) :
    ((js.foldl (exchange store) a).map w).sum ≤ (a.map w).sum := by
  induction js generalizing a with
  | nil => exact le_rfl
  | cons j js ih => exact (ih _).trans (weight_exchange_le hle a j)

include heq in
theorem kept_of_weight_exchange {a : List α} {j : ℕ}
    (hw : ((exchange store a j).map w).sum = (a.map w).sum)
    (hkept : Kept store (exchange store a j)) : Kept store a := by
  obtain hout | ⟨p, x, y, s, rfl, rfl⟩ := exchange_cases a j
  · rwa [hout] at hkept
  · rw [exchange_append] at hw hkept
    by_cases hyx : y < x
    · rw [if_pos hyx] at hw hkept
      have hx : store x = x := by
        apply heq
        simp only [List.map_append, List.map_cons, List.sum_append,
          List.sum_cons] at hw
        omega
      rw [hx] at hkept
      exact (kept_swap_iff hyx hx).mp hkept
    · rwa [if_neg hyx] at hkept

include hle heq in
/-- If nothing has been lost in the end and the values are kept there, they
have been kept from the start. -/
theorem kept_of_weight_foldl {js : List ℕ} {a : List α}
    (hw : ((js.foldl (exchange store) a).map w).sum = (a.map w).sum)
    (hkept : Kept store (js.foldl (exchange store) a)) : Kept store a := by
  induction js generalizing a with
  | nil => exact hkept
  | cons j js ih =>
      have hrest := weight_foldl_le hle js (exchange store a j)
      have hfirst := weight_exchange_le hle a j
      rw [List.foldl_cons] at hw hkept
      have hnext := ih (le_antisymm hrest (hw ▸ hfirst)) hkept
      exact kept_of_weight_exchange heq
        (le_antisymm hfirst (hw ▸ hrest)) hnext

include hle heq in
/-- The sort leaves a sorted permutation exactly if every value is kept. -/
theorem sort_iff (a : List α) :
    ((sort store a).Pairwise (· ≤ ·) ∧ sort store a ~ a) ↔ Kept store a := by
  constructor
  · rintro ⟨hsorted, hperm⟩
    have hkept : Kept store (sort store a) :=
      hsorted.imp fun hxy hyx => (not_lt.mpr hxy hyx).elim
    rw [sort_eq] at hkept hperm
    exact kept_of_weight_foldl hle heq (hperm.map w).sum_eq hkept
  · intro hkept
    have hid : sort store a = sort id a := by
      rw [sort_eq, sort_eq, foldl_exchange_of_kept hkept]
    rw [hid]
    exact ⟨sort_id_sorted a, passes_id_perm _ _ a⟩

end Weight

end BubbleSort
