import Mathlib.Data.Nat.Bitwise
import Herak.Scripts.CronDays
import Herak.Scripts.CronParse

/-!
# Sets of an accepted expression

The bits that the parser sets.  An expression that it accepts has a value in each
field and no bit out of range.
-/

namespace Herak.Scripts

open CString CInt

/-! ## Bits -/

theorem byte_lt (byte : UInt8) : byte.toNat < 2 ^ 8 :=
  UInt8.toNat_lt_size byte

theorem cronGetBit_modify (rbyte : List UInt8) (idx j : ℕ) (f : UInt8 → UInt8) :
    cronGetBit (rbyte.modify idx f) j =
      if idx = j / 8 ∧ idx < rbyte.length then
        (f (rbyte.getD idx 0)).toNat.testBit (j % 8)
      else cronGetBit rbyte j := by
  rw [cronGetBit, cronGetBit, List.getD_eq_getElem?_getD,
    List.getD_eq_getElem?_getD, List.getElem?_modify]
  by_cases hidx : idx = j / 8
  · by_cases hlt : idx < rbyte.length
    · rw [if_pos ⟨hidx, hlt⟩, ← hidx, List.getElem?_eq_getElem hlt]
      simp
    · rw [if_neg fun h => hlt h.2, ← hidx,
        List.getElem?_eq_none (not_lt.mp hlt), List.getD_eq_default _ _
          (not_lt.mp hlt)]
      rfl
  · rw [if_neg fun h => hidx h.1, List.getD_eq_getElem?_getD]
    simp [hidx]

theorem rem_eq_iff {i j : ℕ} (h : i / 8 = j / 8) : i % 8 = j % 8 ↔ i = j := by
  omega

theorem cronGetBit_setBit {rbyte : List UInt8} {idx : ℕ}
    (hidx : idx < 8 * rbyte.length) (j : ℕ) :
    cronGetBit (cronSetBit rbyte idx) j = true ↔
      idx = j ∨ cronGetBit rbyte j = true := by
  have hpow : 2 ^ (idx % 8) < 2 ^ 8 :=
    Nat.pow_lt_pow_right (by decide) (Nat.mod_lt idx (by decide))
  have hbyte := Nat.or_lt_two_pow (byte_lt (rbyte.getD (idx / 8) 0)) hpow
  rw [cronSetBit, cronGetBit_modify]
  by_cases hsame : idx / 8 = j / 8
  · rw [if_pos ⟨hsame, by omega⟩, UInt8.toNat_ofNat_of_lt' hbyte,
      Nat.testBit_or, Nat.testBit_two_pow, Bool.or_eq_true, decide_eq_true_iff,
      rem_eq_iff hsame, cronGetBit, hsame]
    exact or_comm
  · rw [if_neg fun h => hsame h.1]
    exact (or_iff_right fun h => hsame (by rw [h])).symm

theorem cronGetBit_delBit {rbyte : List UInt8} {idx : ℕ}
    (hidx : idx < 8 * rbyte.length) (j : ℕ) :
    cronGetBit (cronDelBit rbyte idx) j = true ↔
      idx ≠ j ∧ cronGetBit rbyte j = true := by
  have hpow : 2 ^ (idx % 8) < 2 ^ 8 :=
    Nat.pow_lt_pow_right (by decide) (Nat.mod_lt idx (by decide))
  have hand : (rbyte.getD (idx / 8) 0).toNat &&& (255 - 2 ^ (idx % 8)) < 2 ^ 8 :=
    Nat.and_le_left.trans_lt (byte_lt _)
  rw [cronDelBit, cronGetBit_modify]
  by_cases hsame : idx / 8 = j / 8
  · have hmask : (255 - 2 ^ (idx % 8)).testBit (j % 8) =
        !decide (idx % 8 = j % 8) := by
      have hlt : j % 8 < 8 := Nat.mod_lt j (by decide)
      rw [show 255 - 2 ^ (idx % 8) = 2 ^ 8 - (2 ^ (idx % 8) + 1) by omega,
        Nat.testBit_two_pow_sub_succ hpow, Nat.testBit_two_pow,
        decide_eq_true hlt, Bool.true_and]
    rw [if_pos ⟨hsame, by omega⟩, UInt8.toNat_ofNat_of_lt' hand,
      Nat.testBit_and, hmask, Bool.and_eq_true, Bool.not_eq_true',
      decide_eq_false_iff_not, rem_eq_iff hsame, cronGetBit, hsame]
    exact and_comm
  · rw [if_neg fun h => hsame h.1]
    exact (and_iff_right fun h => hsame (by rw [h])).symm

@[simp] theorem length_cronSetBit (rbyte : List UInt8) (idx : ℕ) :
    (cronSetBit rbyte idx).length = rbyte.length :=
  List.length_modify _ _ _

@[simp] theorem length_cronDelBit (rbyte : List UInt8) (idx : ℕ) :
    (cronDelBit rbyte idx).length = rbyte.length :=
  List.length_modify _ _ _

theorem cronGetBit_clear (n i : ℕ) : cronGetBit (List.replicate n 0) i = false := by
  rw [cronGetBit, List.getD_eq_getElem?_getD, List.getElem?_replicate]
  split
  · simp
  · simp

/-- The values that a loop of the parser sets. -/
def IsHit (first last delta i : ℕ) : Prop :=
  first ≤ i ∧ i ≤ last ∧ (i - first) % delta = 0

instance (first last delta i : ℕ) : Decidable (IsHit first last delta i) :=
  inferInstanceAs (Decidable (_ ∧ _ ∧ _))

theorem length_foldl_setBit (is : List ℕ) (target : List UInt8) :
    (is.foldl cronSetBit target).length = target.length := by
  induction is generalizing target with
  | nil => rfl
  | cons i is ih => rw [List.foldl_cons, ih, length_cronSetBit]

theorem cronGetBit_foldl {is : List ℕ} {target : List UInt8}
    (his : ∀ i ∈ is, i < 8 * target.length) (j : ℕ) :
    cronGetBit (is.foldl cronSetBit target) j = true ↔
      j ∈ is ∨ cronGetBit target j = true := by
  induction is generalizing target with
  | nil => simp
  | cons i is ih =>
      have hi := his i List.mem_cons_self
      have hrest : ∀ k ∈ is, k < 8 * (cronSetBit target i).length := by
        intro k hk
        rw [length_cronSetBit]
        exact his k (List.mem_cons_of_mem _ hk)
      rw [List.foldl_cons, ih hrest, cronGetBit_setBit hi, List.mem_cons]
      tauto

theorem mem_hits {first last delta i : ℕ} (hdelta : 0 < delta) :
    i ∈ List.range' first ((last + delta - first) / delta) delta ↔
      IsHit first last delta i := by
  rw [List.mem_range', IsHit]
  constructor
  · rintro ⟨k, hk, rfl⟩
    have hmul := Nat.mul_le_of_le_div delta (k + 1) _ hk
    rw [Nat.add_mul, Nat.one_mul, Nat.mul_comm] at hmul
    refine ⟨by omega, by omega, ?_⟩
    rw [Nat.add_sub_cancel_left, Nat.mul_mod_right]
  · rintro ⟨hle, hlast, hmod⟩
    obtain ⟨k, hk⟩ := Nat.dvd_of_mod_eq_zero hmod
    refine ⟨k, ?_, by omega⟩
    rw [Nat.lt_iff_add_one_le, Nat.le_div_iff_mul_le hdelta, Nat.add_mul,
      Nat.one_mul, Nat.mul_comm, ← hk]
    omega

theorem cronGetBit_setHits {target : List UInt8} {first last delta : ℕ}
    (hdelta : 0 < delta) (hlast : last < 8 * target.length) (j : ℕ) :
    cronGetBit (setHits target first last delta) j = true ↔
      IsHit first last delta j ∨ cronGetBit target j = true := by
  rw [setHits, cronGetBit_foldl, mem_hits hdelta]
  intro i hi
  have hle := ((mem_hits hdelta).mp hi).2.1
  omega

@[simp] theorem length_setHits (target : List UInt8) (first last delta : ℕ) :
    (setHits target first last delta).length = target.length :=
  length_foldl_setBit _ _

/-! ## Fields -/

/-- What an accepted field sets: at least one value, and none out of range. -/
structure Filled (bits : List UInt8) (n least max : ℕ) : Prop where
  length_eq : bits.length = n
  some : HasBit bits least max
  only : ∀ i, cronGetBit bits i = true → least ≤ i ∧ i < max

theorem checkRange_ok {min max : ℕ} {res range : ℕ × ℕ}
    (h : checkRange min max res = .ok range) :
    range = res ∧ min ≤ res.1 ∧ res.1 ≤ res.2 ∧ res.2 < max := by
  rw [checkRange] at h
  by_cases hmax : max ≤ res.1 ∨ max ≤ res.2
  · rw [if_pos hmax] at h
    cases h
  · rw [if_neg hmax] at h
    by_cases hmin : res.1 < min ∨ res.2 < min
    · rw [if_pos hmin] at h
      cases h
    · rw [if_neg hmin] at h
      by_cases horder : res.2 < res.1
      · rw [if_pos horder] at h
        cases h
      · rw [if_neg horder] at h
        cases h
        exact ⟨rfl, by omega⟩

theorem getRange_ok {field : CStr} {min max : ℕ} {range : ℕ × ℕ}
    (h : getRange field min max = .ok range) :
    min ≤ range.1 ∧ range.1 ≤ range.2 ∧ range.2 < max := by
  rw [getRange] at h
  cases hread : readRange field min max with
  | error error =>
      rw [hread] at h
      cases h
  | ok res =>
      rw [hread] at h
      obtain ⟨rfl, hrange⟩ := checkRange_ok h
      exact hrange

theorem getHits_ok {field : CStr} {min max first last delta : ℕ}
    (h : getHits field min max = .ok (first, last, delta)) :
    0 < delta ∧ min ≤ first ∧ first ≤ last ∧ last < max := by
  rw [getHits] at h
  by_cases hstep : 47 ∉ field
  · rw [if_pos hstep] at h
    cases hrange : getRange field min max with
    | error error =>
        rw [hrange] at h
        cases h
    | ok range =>
        rw [hrange] at h
        cases h
        obtain ⟨hmin, hle, hmax⟩ := getRange_ok hrange
        exact ⟨Nat.one_pos, hmin, hle, hmax⟩
  · rw [if_neg hstep] at h
    split at h
    next base second _ =>
      cases hrange : getRange base min max with
      | error error =>
          rw [hrange] at h
          cases h
      | ok range =>
          obtain ⟨hmin, hle, hmax⟩ := getRange_ok hrange
          rw [hrange] at h
          cases hdelta : parseUint second with
          | none =>
              simp only [hdelta] at h
              cases h
          | some delta' =>
              simp only [hdelta] at h
              cases delta' with
              | zero => cases h
              | succ delta' =>
                  cases h
                  refine ⟨Nat.succ_pos delta', hmin, ?_, ?_⟩
                  · split
                    · omega
                    · exact hle
                  · split
                    · omega
                    · exact hmax
    · cases h

/-- The fields of an accepted value, one by one. -/
theorem setFields_ok {min max : ℕ} {fields : List CStr} {target bits : List UInt8}
    (hmax : max ≤ 8 * target.length)
    (h : setFields min max fields target = (bits, none)) :
    bits.length = target.length ∧
      (∀ i, cronGetBit target i = true → cronGetBit bits i = true) ∧
        (∀ i, cronGetBit bits i = true →
          cronGetBit target i = true ∨ min ≤ i ∧ i < max) ∧
          (fields ≠ [] → HasBit bits min max) := by
  induction fields generalizing target with
  | nil =>
      cases h
      exact ⟨rfl, fun _ => id, fun _ => Or.inl, fun h => (h rfl).elim⟩
  | cons field fields ih =>
      rw [setFields] at h
      cases hhits : getHits field min max with
      | error error =>
          rw [hhits] at h
          cases h
      | ok hits =>
          obtain ⟨first, last, delta⟩ := hits
          rw [hhits] at h
          obtain ⟨hdelta, hmin, hle, hlast⟩ := getHits_ok hhits
          have hset : ∀ j, cronGetBit (setHits target first last delta) j = true ↔
              IsHit first last delta j ∨ cronGetBit target j = true :=
            cronGetBit_setHits hdelta (by omega)
          obtain ⟨hlength, hkept, honly, -⟩ := ih
            (by rw [length_setHits]; exact hmax) h
          refine ⟨by rw [hlength, length_setHits],
            fun i hi => hkept i ((hset i).mpr (Or.inr hi)), fun i hi => ?_,
            fun _ => ⟨first, hmin, by omega,
              hkept first ((hset first).mpr (Or.inl ⟨le_rfl, hle, by simp⟩))⟩⟩
          rcases honly i hi with hbit | hrange
          · rcases (hset i).mp hbit with ⟨hge, hile, -⟩ | hbit
            · exact Or.inr (by omega)
            · exact Or.inl hbit
          · exact Or.inr hrange

theorem setNumberHits_ok {value : CStr} {n min max : ℕ} (hmax : max ≤ 8 * n)
    (h : (setNumberHits value (List.replicate n 0) min max).2 = none) :
    Filled (setNumberHits value (List.replicate n 0) min max).1 n min max := by
  rw [setNumberHits] at h ⊢
  generalize hfields : splitStr value 44 = fields at h ⊢
  cases fields with
  | nil => cases h
  | cons field fields =>
      obtain ⟨hlength, -, honly, hsome⟩ := setFields_ok
        (by rw [List.length_replicate]; exact hmax) (Prod.ext rfl h)
      refine ⟨hlength.trans List.length_replicate, hsome (List.cons_ne_nil _ _),
        fun i hi => ?_⟩
      rcases honly i hi with hbit | hrange
      · rw [cronGetBit_clear] at hbit
        exact (Bool.false_ne_true hbit).elim
      · exact hrange

/-! ## Months and days of the week -/

theorem cronGetBit_moveBit {targ : List UInt8} {i j : ℕ}
    (hi : i < 8 * targ.length) (hj : j < 8 * targ.length) (k : ℕ) :
    cronGetBit (moveBit targ i j) k = true ↔
      i ≠ k ∧ (j = k ∧ cronGetBit targ i = true ∨ cronGetBit targ k = true) := by
  rw [moveBit]
  by_cases hbit : cronGetBit targ i = true
  · rw [if_pos hbit, cronGetBit_delBit (by rwa [length_cronSetBit]),
      cronGetBit_setBit hj]
    simp only [hbit, and_true]
  · rw [if_neg hbit]
    constructor
    · intro hk
      exact ⟨fun heq => hbit (heq ▸ hk), Or.inr hk⟩
    · rintro ⟨-, ⟨-, hk⟩ | hk⟩
      · exact (hbit hk).elim
      · exact hk

@[simp] theorem length_moveBit (targ : List UInt8) (i j : ℕ) :
    (moveBit targ i j).length = targ.length := by
  rw [moveBit]
  split
  · rw [length_cronDelBit, length_cronSetBit]
  · rfl

theorem shiftMonths_succ (targ : List UInt8) (n : ℕ) :
    shiftMonths targ (n + 1) = moveBit (shiftMonths targ n) (n + 1) n := by
  rw [shiftMonths, List.range'_1_concat, List.foldl_append, List.foldl_cons,
    List.foldl_nil, Nat.add_comm 1 n, Nat.add_sub_cancel, shiftMonths]

@[simp] theorem length_shiftMonths (targ : List UInt8) (n : ℕ) :
    (shiftMonths targ n).length = targ.length := by
  induction n with
  | zero => rfl
  | succ n ih => rw [shiftMonths_succ, length_moveBit, ih]

/-- Without a month 0 the first months have moved, and the others stay. -/
theorem cronGetBit_shiftMonths {targ : List UInt8} {n : ℕ}
    (hn : n < 8 * targ.length) (hzero : cronGetBit targ 0 = false) (k : ℕ) :
    cronGetBit (shiftMonths targ n) k = true ↔
      k < n ∧ cronGetBit targ (k + 1) = true ∨
        n < k ∧ cronGetBit targ k = true := by
  induction n generalizing k with
  | zero =>
      rcases Nat.eq_zero_or_pos k with rfl | hpos
      · simp [shiftMonths, hzero]
      · simp [shiftMonths, hpos]
  | succ n ih =>
      have ih := fun k => ih (by omega) k
      rw [shiftMonths_succ, cronGetBit_moveBit (by rwa [length_shiftMonths])
        (by rw [length_shiftMonths]; omega), ih, ih]
      rcases lt_trichotomy k n with hlt | rfl | hlt
      · have hne : n + 1 ≠ k ∧ n ≠ k ∧ ¬n < k ∧ ¬n + 1 < k ∧ k < n + 1 := by omega
        simp [hne, hlt]
      · simp
      · by_cases heq : n + 1 = k
        · subst heq
          simp
        · have hne : n ≠ k ∧ ¬k < n ∧ n + 1 < k ∧ ¬k < n + 1 := by omega
          simp [hne, heq, hlt]

theorem setMonths_clear (value : CStr) :
    setMonths value clearExpr.months =
      (shiftMonths (setNumberHits (replaceOrdinals (toUpper value) monthsArr)
        (List.replicate 2 0) 1 13).1 12,
        (setNumberHits (replaceOrdinals (toUpper value) monthsArr)
          (List.replicate 2 0) 1 13).2) :=
  rfl

theorem setMonths_ok {value : CStr}
    (h : (setMonths value clearExpr.months).2 = none) :
    Filled (setMonths value clearExpr.months).1 2 0 12 := by
  rw [setMonths_clear] at h ⊢
  dsimp only at h ⊢
  obtain ⟨hlength, ⟨i, hone, hi, hbit⟩, honly⟩ :=
    setNumberHits_ok (n := 2) (by decide) h
  generalize (setNumberHits (replaceOrdinals (toUpper value) monthsArr)
    (List.replicate 2 0) 1 13).1 = bits at hlength hbit honly ⊢
  have hzero : cronGetBit bits 0 = false := by
    by_contra hset
    have := (honly 0 (Bool.eq_true_of_not_eq_false hset)).1
    omega
  have hlong : 12 < 8 * bits.length := by omega
  have hshift := cronGetBit_shiftMonths hlong hzero
  refine ⟨by rw [length_shiftMonths, hlength], ⟨i - 1, Nat.zero_le _, by omega,
    (hshift _).mpr (Or.inl ⟨by omega, by rwa [Nat.sub_add_cancel hone]⟩)⟩,
    fun k hk => ⟨Nat.zero_le _, ?_⟩⟩
  rcases (hshift k).mp hk with ⟨hlt, -⟩ | ⟨hlt, hset⟩
  · exact hlt
  · have := (honly k hset).2
    omega

theorem setDaysOfWeek_clear (field : CStr) :
    setDaysOfWeek field clearExpr.daysOfWeek =
      (moveBit (setNumberHits (replaceOrdinals (toUpper (everyDay field)) daysArr)
        (List.replicate 1 0) 0 8).1 7 0,
        (setNumberHits (replaceOrdinals (toUpper (everyDay field)) daysArr)
          (List.replicate 1 0) 0 8).2) :=
  rfl

theorem setDaysOfWeek_ok {field : CStr}
    (h : (setDaysOfWeek field clearExpr.daysOfWeek).2 = none) :
    Filled (setDaysOfWeek field clearExpr.daysOfWeek).1 1 0 7 := by
  rw [setDaysOfWeek_clear] at h ⊢
  dsimp only at h ⊢
  obtain ⟨hlength, ⟨i, -, hi, hbit⟩, honly⟩ :=
    setNumberHits_ok (n := 1) (by decide) h
  generalize (setNumberHits (replaceOrdinals (toUpper (everyDay field)) daysArr)
    (List.replicate 1 0) 0 8).1 = bits at hlength hbit honly ⊢
  have hlong : 7 < 8 * bits.length := by omega
  have hmove := cronGetBit_moveBit hlong (Nat.zero_lt_of_lt hlong)
  refine ⟨by rw [length_moveBit, hlength], ?_, fun k hk => ⟨Nat.zero_le _, ?_⟩⟩
  · by_cases hsunday : i = 7
    · subst hsunday
      exact ⟨0, le_rfl, by decide,
        (hmove 0).mpr ⟨by decide, Or.inl ⟨rfl, hbit⟩⟩⟩
    · exact ⟨i, Nat.zero_le _, by omega,
        (hmove i).mpr ⟨fun heq => hsunday heq.symm, Or.inr hbit⟩⟩
  · obtain ⟨hne, ⟨rfl, -⟩ | hset⟩ := (hmove k).mp hk
    · decide
    · have := (honly k hset).2
      omega

/-! ## Expressions -/

/-- What the parser accepts: each field has its size, a value, and no other bit
than those of its range. -/
structure CronExpr.Accepted (e : CronExpr) : Prop where
  seconds : Filled e.seconds 8 0 60
  minutes : Filled e.minutes 8 0 60
  hours : Filled e.hours 3 0 24
  daysOfMonth : Filled e.daysOfMonth 4 1 32
  months : Filled e.months 2 0 12
  daysOfWeek : Filled e.daysOfWeek 1 0 7

theorem nextField_ok {put : CronExpr → List UInt8 → CronExpr}
    {hits : List UInt8 × Option CStr} {result : CronExpr × Option CStr}
    (h : (nextField put hits result).2 = none) :
    result.2 = none ∧ hits.2 = none ∧
      (nextField put hits result).1 = put result.1 hits.1 := by
  rw [nextField] at h ⊢
  cases hresult : result.2 with
  | some error =>
      rw [hresult] at h
      rw [hresult] at h
      cases h
  | none =>
      rw [hresult] at h
      exact ⟨rfl, h, rfl⟩

theorem CronExpr.Accepted.of_parse {expression : Option CStr}
    {target e : CronExpr} (h : cronParseExpr expression target = (e, none)) :
    e.Accepted := by
  cases expression with
  | none => cases h
  | some text =>
      simp only [cronParseExpr] at h
      split at h
      next second minute hour dayOfMonth month dayOfWeek _ =>
        obtain ⟨herror, hdayOfWeek, hdone⟩ :=
          nextField_ok (by rw [h])
        obtain ⟨herror, hmonth, hsixth⟩ := nextField_ok herror
        obtain ⟨herror, hdayOfMonth, hfifth⟩ := nextField_ok herror
        obtain ⟨herror, hhour, hfourth⟩ := nextField_ok herror
        obtain ⟨herror, hminute, hthird⟩ := nextField_ok herror
        obtain ⟨-, hsecond, hfirst⟩ := nextField_ok herror
        rw [h, hsixth, hfifth, hfourth, hthird, hfirst] at hdone
        subst hdone
        exact ⟨setNumberHits_ok (by decide) hsecond,
          setNumberHits_ok (by decide) hminute,
          setNumberHits_ok (by decide) hhour,
          setNumberHits_ok (by decide) hdayOfMonth, setMonths_ok hmonth,
          setDaysOfWeek_ok hdayOfWeek⟩
      next => cases h

/-- An expression that the parser accepts has a value in each field and none out
of range, and nothing of the expression that was there before. -/
theorem cronParseExpr_accepted {expression : Option CStr} {target e : CronExpr}
    (h : cronParseExpr expression target = (e, none)) :
    e.Accepted ∧ ∀ target', cronParseExpr expression target' = (e, none) := by
  refine ⟨CronExpr.Accepted.of_parse h, fun target' => ?_⟩
  cases expression with
  | none => cases h
  | some text =>
      simp only [cronParseExpr] at h ⊢
      split at h
      next => exact h
      next => cases h

theorem cronGetBit_eq_iff {bits bits' : List UInt8}
    (hlength : bits.length = bits'.length) :
    (∀ i, cronGetBit bits i = true ↔ cronGetBit bits' i = true) ↔
      bits = bits' := by
  refine ⟨fun h => List.ext_getElem hlength fun j hj hj' => ?_,
    fun h i => by rw [h]⟩
  refine UInt8.toNat.inj (Nat.eq_of_testBit_eq fun k => ?_)
  by_cases hk : k < 8
  · have hbit := Bool.eq_iff_iff.mpr (h (8 * j + k))
    have hquot : (8 * j + k) / 8 = j := by omega
    have hrem : (8 * j + k) % 8 = k := by omega
    rwa [cronGetBit, cronGetBit, hquot, hrem, List.getD_eq_getElem _ _ hj,
      List.getD_eq_getElem _ _ hj'] at hbit
  · have hpow : 2 ^ 8 ≤ 2 ^ k := Nat.pow_le_pow_right (by decide) (not_lt.mp hk)
    rw [Nat.testBit_lt_two_pow ((byte_lt _).trans_le hpow),
      Nat.testBit_lt_two_pow ((byte_lt _).trans_le hpow)]

end Herak.Scripts
