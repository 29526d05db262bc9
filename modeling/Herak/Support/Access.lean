import Mathlib.Data.List.Basic
import Mathlib.Data.UInt

/-!
# Recorded accesses

A decoder reads a byte buffer and writes the fields of a record.  Each read is
recorded, and an access outside its array is `none`, so that a decoder that
ends stays inside all arrays.
-/

namespace Access

variable {σ α β γ : Type} {n : ℕ}

/-- The record and the offsets that have been read. -/
structure Run (σ : Type) where
  reads : List ℕ
  data : σ

/-- A computation that reads bytes and updates the record. -/
abbrev Decoder (σ : Type) := StateT (Run σ) Option

/-- An array that is a field of the record. -/
structure ArrayField (σ α : Type) (n : ℕ) where
  get : σ → Vector α n
  put : σ → Vector α n → σ
  get_put : ∀ s v, get (put s v) = v
  put_put : ∀ s v w, put (put s v) w = put s w
  put_get : ∀ s, put s (get s) = s

def readByte (buf : List UInt8) (i : ℕ) : Decoder σ UInt8 :=
  fun r => buf[i]?.map fun b => (b, { r with reads := r.reads ++ [i] })

def update (f : σ → σ) : Decoder σ Unit :=
  fun r => some ((), { r with data := f r.data })

def store (field : ArrayField σ α n) (i : ℕ) (x : α) : Decoder σ Unit :=
  fun r =>
    if h : i < n then
      some ((), { r with
        data := field.put r.data ((field.get r.data).set i x h) })
    else none

/-- `for (k = i; k < i + count; k++) field[base + k] = f(buf[ofs + k])` -/
def copyLoop (field : ArrayField σ α n) (base : ℕ) (f : UInt8 → α)
    (buf : List UInt8) (ofs : ℕ) : ℕ → ℕ → Decoder σ Unit
  | 0, _ => pure ()
  | count + 1, i => do
      let raw ← readByte buf (ofs + i)
      store field (base + i) (f raw)
      copyLoop field base f buf ofs count (i + 1)

/-! ## Steps -/

theorem bind_apply (x : Decoder σ β) (f : β → Decoder σ γ) (r : Run σ) :
    (x >>= f) r = (x r).bind fun p => f p.1 p.2 := rfl

@[simp] theorem pure_apply (a : β) (r : Run σ) :
    (pure a : Decoder σ β) r = some (a, r) := rfl

theorem readByte_apply {buf : List UInt8} {i : ℕ} (h : i < buf.length)
    (r : Run σ) :
    readByte buf i r =
      some (buf.getD i 0, { r with reads := r.reads ++ [i] }) := by
  rw [readByte, List.getElem?_eq_getElem h, List.getD_eq_getElem?_getD,
    List.getElem?_eq_getElem h]
  rfl

@[simp] theorem update_apply (f : σ → σ) (r : Run σ) :
    update f r = some ((), { r with data := f r.data }) := rfl

theorem store_apply {field : ArrayField σ α n} {i : ℕ} (h : i < n) (x : α)
    (r : Run σ) :
    store field i x r = some ((), { r with
      data := field.put r.data ((field.get r.data).set i x h) }) :=
  dif_pos h

theorem store_none {field : ArrayField σ α n} {i : ℕ} (h : n ≤ i) (x : α)
    (r : Run σ) : store field i x r = none :=
  dif_neg (Nat.not_lt.mpr h)

/-! ## The copy loop -/

/-- The array after `count` elements from `i` on are copied. -/
def copied (v : Vector α n) (base : ℕ) (f : UInt8 → α) (buf : List UInt8)
    (ofs count i : ℕ) : Vector α n :=
  Vector.ofFn fun j =>
    if base + i ≤ j.val ∧ j.val < base + i + count then
      f (buf.getD (ofs + (j.val - base)) 0)
    else v[j.val]

/-- A loop that stays inside its arrays reads and writes one range. -/
theorem copyLoop_apply (field : ArrayField σ α n) {base : ℕ} (f : UInt8 → α)
    {buf : List UInt8} {ofs count i : ℕ} (hbuf : ofs + i + count ≤ buf.length)
    (hfield : base + i + count ≤ n) (r : Run σ) :
    copyLoop field base f buf ofs count i r = some ((),
      { reads := r.reads ++ (List.range count).map (ofs + i + ·)
        data := field.put r.data
          (copied (field.get r.data) base f buf ofs count i) }) := by
  induction count generalizing i r with
  | zero =>
      have hsame : copied (field.get r.data) base f buf ofs 0 i =
          field.get r.data := by
        ext j hj
        have hnone : ¬(base + i ≤ j ∧ j < base + i + 0) := by omega
        simp only [copied, Vector.getElem_ofFn, if_neg hnone]
      simp [copyLoop, hsame, field.put_get]
  | succ count ih =>
      have hread : ofs + i < buf.length := by omega
      have hstore : base + i < n := by omega
      simp only [copyLoop, bind_apply, readByte_apply hread, Option.bind_some,
        store_apply hstore]
      rw [ih (by omega) (by omega)]
      simp only [field.put_put, field.get_put, Option.some.injEq, Prod.mk.injEq,
        Run.mk.injEq, true_and]
      constructor
      · rw [List.range_succ_eq_map, List.map_cons, List.map_map,
          List.append_assoc]
        refine congrArg _ (List.cons_eq_cons.mpr ⟨rfl, ?_⟩)
        refine List.map_congr_left fun k _ => ?_
        simp only [Function.comp_apply]
        omega
      · refine congrArg _ ?_
        ext j hj
        simp only [copied, Vector.getElem_ofFn, Vector.getElem_set]
        by_cases hij : base + i = j
        · subst hij
          rw [if_neg (by omega), if_pos rfl, if_pos (by omega),
            Nat.add_sub_cancel_left]
        · rw [if_neg hij]
          by_cases hin : base + (i + 1) ≤ j ∧ j < base + (i + 1) + count
          · rw [if_pos hin, if_pos (by omega)]
          · rw [if_neg hin, if_neg (by omega)]

/-- A loop that leaves its array does not end. -/
theorem copyLoop_none (field : ArrayField σ α n) {base : ℕ} (f : UInt8 → α)
    (buf : List UInt8) (ofs : ℕ) {count i : ℕ} (hcount : 0 < count)
    (hfield : n < base + i + count) (r : Run σ) :
    copyLoop field base f buf ofs count i r = none := by
  induction count generalizing i r with
  | zero => omega
  | succ count ih =>
      simp only [copyLoop, bind_apply]
      cases hread : readByte buf (ofs + i) r with
      | none => rfl
      | some p =>
          simp only [Option.bind_some]
          by_cases hstore : base + i < n
          · rw [store_apply hstore]
            simp only [Option.bind_some]
            exact ih (by omega) (by omega) _
          · rw [store_none (Nat.not_lt.mp hstore)]
            rfl

end Access
