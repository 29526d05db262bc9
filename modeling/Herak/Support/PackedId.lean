import Mathlib.Algebra.Order.Ring.Int
import Mathlib.Data.List.Nodup
import Mathlib.Data.List.Range

/-!
# Identifiers that are packed positions

An object in nested arrays is named by the positions on the way to it, one byte
for each level and each position plus one.  A byte of zero stands for a level
that the object does not reach.  Names of different objects differ, since each
level has a byte that tells its positions apart.
-/

namespace PackedId

/-- The byte of an identifier at a level; the last level has the lowest byte. -/
def byte (level id : ℕ) : ℕ := (id >>> (8 * level)) &&& 0xFF

/-- The position that a byte stands for. -/
def index (level id : ℕ) : ℤ := (byte level id : ℤ) - 1

/-- An identifier of three levels. -/
def pack (a b c : ℕ) : ℕ := a <<< 16 ||| b <<< 8 ||| c

theorem byte_eq (level id : ℕ) : byte level id = id / 2 ^ (8 * level) % 256 := by
  rw [byte, Nat.shiftRight_eq_div_pow]
  exact Nat.and_two_pow_sub_one_eq_mod _ 8

theorem pack_eq {a b c : ℕ} (hb : b < 256) (hc : c < 256) :
    pack a b c = a * 65536 + b * 256 + c := by
  have hlow : b <<< 8 ||| c = b * 256 + c := by
    rw [← Nat.shiftLeft_add_eq_or_of_lt hc, Nat.shiftLeft_eq]
  have hlt : b * 256 + c < 2 ^ 16 := by omega
  rw [pack, Nat.or_assoc, hlow, ← Nat.shiftLeft_add_eq_or_of_lt hlt,
    Nat.shiftLeft_eq, Nat.add_assoc]

section

variable {a b c : ℕ} (ha : a < 256) (hb : b < 256) (hc : c < 256)

include ha hb hc in
theorem byte_two_pack : byte 2 (pack a b c) = a := by
  rw [byte_eq, pack_eq hb hc]
  omega

include hb hc in
theorem byte_one_pack : byte 1 (pack a b c) = b := by
  rw [byte_eq, pack_eq hb hc]
  omega

include hb hc in
theorem byte_zero_pack : byte 0 (pack a b c) = c := by
  rw [byte_eq, pack_eq hb hc]
  omega

end

/-- The byte that belongs to a position. -/
theorem index_eq_iff {level id i : ℕ} :
    index level id = i ↔ byte level id = i + 1 := by
  rw [index]
  omega

/-! ## Arrays -/

variable {α β : Type*}

/-- The entry of an array at an index, if it is one of the first `count`. -/
def entry (l : List α) (count : ℕ) (i : ℤ) : Option α :=
  if i < 0 ∨ count ≤ i then none else l[i.toNat]?

theorem entry_eq_some_iff {l : List α} {count : ℕ} {i : ℤ} {a : α} :
    entry l count i = some a ↔ ∃ k < count, i = k ∧ l[k]? = some a := by
  rw [entry]
  constructor
  · intro h
    split at h
    · exact (Option.some_ne_none a h.symm).elim
    · exact ⟨i.toNat, by omega, by omega, h⟩
  · rintro ⟨k, hk, rfl, hget⟩
    rwa [if_neg (by omega)]

/-! ## Lists of identifiers -/

/-- Members whose tags tell their positions apart. -/
theorem nodup_of_tag {l : List β} (tag : β → ℕ) (n : ℕ)
    (h : ∀ i y, l[i]? = some y → tag y = i + n) : l.Nodup := by
  apply List.nodup_iff_getElem?_ne_getElem?.mpr
  intro i j hij hj heq
  have hi := List.getElem?_eq_getElem (hij.trans hj)
  have hj' := List.getElem?_eq_getElem hj
  have htag : i + n = j + n := by
    rw [← h i _ (heq ▸ hj'), ← h j _ hj']
  exact hij.ne (Nat.add_right_cancel htag)

/-- Lists whose members have tags that tell the positions of the lists
apart. -/
theorem nodup_flatMap_of_tag {l : List α} {f : α → List β} (tag : β → ℕ)
    (n : ℕ) (hnodup : ∀ x ∈ l, (f x).Nodup)
    (h : ∀ i x, l[i]? = some x → ∀ y ∈ f x, tag y = i + n) :
    (l.flatMap f).Nodup := by
  refine List.nodup_flatMap.mpr ⟨hnodup, ?_⟩
  apply List.pairwise_iff_getElem.mpr
  intro i j hi hj hij y hyi hyj
  have htag : i + n = j + n := by
    rw [← h i _ (List.getElem?_eq_getElem hi) y hyi,
      ← h j _ (List.getElem?_eq_getElem hj) y hyj]
  exact hij.ne (Nat.add_right_cancel htag)

end PackedId
