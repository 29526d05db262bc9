import Herak.Support.BubbleSort
import Mathlib.Data.Int.Notation
import Mathlib.Algebra.Order.BigOperators.Group.List
import Mathlib.Tactic.NormNum

/-!
# The filter of the samples

`samples_filter` of `sys_utils.c` sorts the samples of a sensor and returns the
mean of those in the middle.  The samples have 32 bits, and the variable
through which two of them are exchanged has 16: a larger sample that is
exchanged loses its upper half.
-/

namespace Herak.Utils

open List

/-- The two samples at `j` and `j + 1`; `sw` is a `uint16_t`. -/
def swapSamples (samples : List UInt32) (j : ℕ) : List UInt32 :=
  match samples[j]?, samples[j + 1]? with
  | some x, some y =>
      if y < x then
        let sw : UInt16 := x.toUInt16
        (samples.set j y).set (j + 1) sw.toUInt32
      else samples
  | _, _ => samples

/-- The bubble sort of `samples_filter`. -/
def sortSamples (samples : List UInt32) (totalCount : ℕ) : List UInt32 :=
  (List.range (totalCount - 1)).foldl (fun samples i =>
    (List.range (totalCount - i - 1)).foldl swapSamples samples) samples

/-- The sum of the samples between the smallest and the biggest ones. -/
def sumSamples (samples : List UInt32) (totalCount filterCount : ℕ) : UInt32 :=
  (List.range' filterCount (totalCount - filterCount - filterCount)).foldl
    (fun all i => all + samples.getD i 0) 0

/-- `samples_filter`: the samples as it leaves them, and what it returns; a
division by zero returns nothing. -/
def samplesFilter (samples : List UInt32) (totalCount filterCount : ℕ) :
    List UInt32 × Option UInt32 :=
  let samples := sortSamples samples totalCount
  let all := sumSamples samples totalCount filterCount
  let count := UInt32.ofInt (totalCount - 2 * filterCount)
  (samples, if count = 0 then none else some (all / count))

/-! ## The property and the condition -/

/-- The values that are neither among the `filterCount` smallest nor among the
`filterCount` biggest ones. -/
def middleValues (samples : List UInt32) (filterCount : ℕ) : List ℕ :=
  (((samples.insertionSort (· ≤ ·)).drop filterCount).take
    (samples.length - 2 * filterCount)).map UInt32.toNat

/-- The samples are sorted, and the result is the mean of those in the
middle. -/
structure Filtered (samples : List UInt32) (filterCount : ℕ)
    (result : List UInt32 × Option UInt32) : Prop where
  sorted : result.1.Pairwise (· ≤ ·)
  perm : result.1 ~ samples
  mean : result.2.map UInt32.toNat =
    some ((middleValues samples filterCount).sum /
      (samples.length - 2 * filterCount))

/-- A sample that has a smaller one behind it has 16 bits. -/
def ExchangedFit (samples : List UInt32) : Prop :=
  samples.Pairwise fun x y => y < x → x.toNat < 2 ^ 16

/-! ## The order of the samples -/

local instance uint32LinearOrder : LinearOrder UInt32 where
  le_refl := UInt32.le_refl
  le_trans _ _ _ := UInt32.le_trans
  lt_iff_le_not_ge _ _ := Std.LawfulOrderLT.lt_iff _ _
  le_antisymm _ _ := UInt32.le_antisymm
  le_total := UInt32.le_total
  toDecidableLE := inferInstance
  toDecidableLT := inferInstance

/-- What is left of a sample in `sw`. -/
def narrow (x : UInt32) : UInt32 := x.toUInt16.toUInt32

theorem narrow_toNat (x : UInt32) : (narrow x).toNat = x.toNat % 2 ^ 16 := by
  rw [narrow, UInt16.toNat_toUInt32, UInt32.toNat_toUInt16]

theorem narrow_eq_iff (x : UInt32) : narrow x = x ↔ x.toNat < 2 ^ 16 := by
  rw [← UInt32.toNat_inj, narrow_toNat]
  exact Nat.mod_eq_iff_lt (by norm_num)

theorem swapSamples_eq : swapSamples = BubbleSort.exchange narrow := by
  funext samples j
  rw [swapSamples, BubbleSort.exchange]
  cases samples[j]? with
  | none => rfl
  | some x =>
      cases samples[j + 1]? with
      | none => rfl
      | some y => rfl

theorem sortSamples_eq (samples : List UInt32) :
    sortSamples samples samples.length = BubbleSort.sort narrow samples := by
  rw [sortSamples, swapSamples_eq]
  rfl

theorem exchangedFit_iff (samples : List UInt32) :
    ExchangedFit samples ↔ BubbleSort.Kept narrow samples := by
  simp only [ExchangedFit, BubbleSort.Kept, narrow_eq_iff]

theorem sortSamples_iff (samples : List UInt32) :
    ((sortSamples samples samples.length).Pairwise (· ≤ ·) ∧
        sortSamples samples samples.length ~ samples) ↔
      ExchangedFit samples := by
  rw [exchangedFit_iff, sortSamples_eq]
  apply BubbleSort.sort_iff (w := UInt32.toNat)
  · intro x
    rw [narrow_toNat]
    exact Nat.mod_le _ _
  · intro x hx
    exact UInt32.toNat_inj.mp hx

/-! ## The mean -/

theorem toNat_foldl_add (f : ℕ → UInt32) (is : List ℕ) (all : UInt32) :
    (is.foldl (fun all i => all + f i) all).toNat =
      (all.toNat + (is.map fun i => (f i).toNat).sum) % 2 ^ 32 := by
  induction is generalizing all with
  | nil => exact (Nat.mod_eq_of_lt (by simpa using all.toNat_lt)).symm
  | cons i is ih =>
      rw [List.foldl_cons, ih, UInt32.toNat_add, List.map_cons, List.sum_cons,
        Nat.mod_add_mod, Nat.add_assoc]

theorem map_range'_getD (a : List UInt32) {k m : ℕ} (h : k + m ≤ a.length) :
    (List.range' k m).map (fun i => a.getD i 0) = (a.drop k).take m := by
  apply List.ext_getElem
  · simp
    omega
  · intro i hi hi'
    have him : i < m := by simpa using hi
    have hget : k + i < a.length := by omega
    simp [List.getD_eq_getElem?_getD, hget]

theorem sumSamples_toNat {a : List UInt32} {k : ℕ} (hk : 2 * k < a.length)
    (hsum : (a.map UInt32.toNat).sum < 2 ^ 32) :
    (sumSamples a a.length k).toNat =
      (((a.drop k).take (a.length - 2 * k)).map UInt32.toNat).sum := by
  have hcount : a.length - k - k = a.length - 2 * k := by omega
  have hpart : ((a.drop k).take (a.length - 2 * k)).map UInt32.toNat <+
      a.map UInt32.toNat :=
    ((List.take_sublist _ _).trans (List.drop_sublist _ _)).map _
  have hmap : ((List.range' k (a.length - 2 * k)).map fun i =>
      (a.getD i 0).toNat) =
        ((a.drop k).take (a.length - 2 * k)).map UInt32.toNat := by
    rw [← map_range'_getD a (by omega), List.map_map]
    rfl
  have hbound : (((a.drop k).take (a.length - 2 * k)).map UInt32.toNat).sum <
      2 ^ 32 :=
    (hpart.sum_le_sum fun _ _ => Nat.zero_le _).trans_lt hsum
  rw [sumSamples, toNat_foldl_add, hcount, hmap, UInt32.toNat_zero, Nat.zero_add]
  exact Nat.mod_eq_of_lt hbound

theorem count_toNat {n k : ℕ} (hn : n < 2 ^ 31) (hk : 2 * k < n) :
    (UInt32.ofInt ((n : ℤ) - 2 * k)).toNat = n - 2 * k := by
  have hcast : ((n : ℤ) - 2 * k) % 2 ^ 32 = ((n - 2 * k : ℕ) : ℤ) := by
    omega
  rw [UInt32.ofInt, hcast, Int.toNat_natCast]
  exact Nat.mod_eq_of_lt (by omega)

theorem samplesFilter_mean {samples : List UInt32} {k : ℕ}
    (hlen : samples.length < 2 ^ 31) (hk : 2 * k < samples.length)
    (hsum : (samples.map UInt32.toNat).sum < 2 ^ 32)
    (hsorted : (sortSamples samples samples.length).Pairwise (· ≤ ·))
    (hperm : sortSamples samples samples.length ~ samples) :
    (samplesFilter samples samples.length k).2.map UInt32.toNat =
      some ((middleValues samples k).sum / (samples.length - 2 * k)) := by
  have hcount := count_toNat hlen hk
  have hne : UInt32.ofInt ((samples.length : ℤ) - 2 * k) ≠ 0 := by
    intro hzero
    rw [hzero] at hcount
    exact (Nat.sub_pos_of_lt hk).ne hcount
  have hmiddle : sortSamples samples samples.length =
      samples.insertionSort (· ≤ ·) :=
    (hperm.trans (perm_insertionSort _ _).symm).eq_of_pairwise'
      hsorted (pairwise_insertionSort _ _)
  have hlength := hperm.length_eq
  have hall := sumSamples_toNat (a := sortSamples samples samples.length)
    (k := k) (hlength.symm ▸ hk) ((hperm.map UInt32.toNat).sum_eq.symm ▸ hsum)
  rw [hlength, hmiddle] at hall
  rw [samplesFilter]
  dsimp only
  rw [if_neg hne, Option.map_some, UInt32.toNat_div, hcount, hmiddle, hall]
  rfl

/-- `samples_filter` sorts the samples and returns the mean of those in the
middle, if and only if every sample it exchanges has 16 bits. -/
theorem samples_filter_iff (samples : List UInt32) (filterCount : ℕ)
    (hlen : samples.length < 2 ^ 31) (hk : 2 * filterCount < samples.length)
    (hsum : (samples.map UInt32.toNat).sum < 2 ^ 32) :
    Filtered samples filterCount
        (samplesFilter samples samples.length filterCount) ↔
      ExchangedFit samples := by
  rw [← sortSamples_iff]
  constructor
  · intro h
    exact ⟨h.sorted, h.perm⟩
  · rintro ⟨hsorted, hperm⟩
    exact ⟨hsorted, hperm, samplesFilter_mean hlen hk hsum hsorted hperm⟩

/-- Five samples of a sensor, one of them the largest that fits. -/
theorem samples_filter_iff_five :
    Filtered [9, 65535, 70, 4, 70] 1 (samplesFilter [9, 65535, 70, 4, 70] 5 1) ↔
      ExchangedFit [9, 65535, 70, 4, 70] :=
  samples_filter_iff [9, 65535, 70, 4, 70] 1 (by decide) (by decide) (by decide)

/-- The first sample needs 17 bits: the array is `0, 1, 2` afterwards. -/
theorem not_samples_filter :
    ¬∀ (samples : List UInt32) (filterCount : ℕ), samples.length < 2 ^ 31 →
      2 * filterCount < samples.length →
      (samples.map UInt32.toNat).sum < 2 ^ 32 →
      Filtered samples filterCount
        (samplesFilter samples samples.length filterCount) := by
  intro h
  have hfiltered := h [65536, 1, 2] 1 (by decide) (by decide) (by decide)
  have hmem : (65536 : UInt32) ∈ (samplesFilter [65536, 1, 2] 3 1).1 :=
    hfiltered.perm.mem_iff.mpr mem_cons_self
  revert hmem
  decide +kernel

end Herak.Utils
