import Herak.Scripts.CronSets

/-!
# Texts of cron expressions

A field of an expression is a list of values, of ranges or of asterisks, each
with a step or without one.  Without names for its numbers, the parser sets
exactly the values that the text of a field names.
-/

namespace Herak.Scripts

open CString CInt

/-! ## Splitting -/

/-- A text that `split_str` does not split. -/
def IsWord (del : UInt8) (word : CStr) : Prop :=
  word ≠ [] ∧ ∀ c ∈ word, c ≠ del ∧ isspace c = false

/-- The fields, with the last one. -/
def splitDone (state : List CStr × CStr) : List CStr :=
  if state.2 = [] then state.1 else state.1 ++ [state.2]

theorem foldl_splitStep_word {del : UInt8} {word : CStr}
    (h : ∀ c ∈ word, c ≠ del ∧ isspace c = false) (fields : List CStr) (buf : CStr) :
    word.foldl (splitStep del) (fields, buf) = (fields, buf ++ word) := by
  induction word generalizing buf with
  | nil => rw [List.foldl_nil, List.append_nil]
  | cons c word ih =>
      obtain ⟨hne, hspace⟩ := h c List.mem_cons_self
      have hstep : splitStep del (fields, buf) c = (fields, buf ++ [c]) := by
        simp only [splitStep, if_neg hne, hspace, Bool.false_eq_true, if_false]
      rw [List.foldl_cons, hstep,
        ih (fun c hc => h c (List.mem_cons_of_mem _ hc)), List.append_assoc]
      rfl

theorem splitDone_join {del : UInt8} {words : List CStr}
    (h : ∀ word ∈ words, IsWord del word) (fields : List CStr) :
    splitDone (([del].intercalate words).foldl (splitStep del) (fields, [])) =
      fields ++ words := by
  induction words generalizing fields with
  | nil => simp [splitDone]
  | cons word words ih =>
      obtain ⟨hne, hword⟩ := h word List.mem_cons_self
      have hrest := ih fun w hw => h w (List.mem_cons_of_mem _ hw)
      cases words with
      | nil =>
          rw [List.intercalate_singleton, foldl_splitStep_word hword,
            List.nil_append, splitDone, if_neg hne]
      | cons word' words =>
          rw [List.intercalate_cons_cons, List.foldl_append, List.foldl_append,
            foldl_splitStep_word hword, List.nil_append]
          have hdel : splitStep del (fields, word) del = (fields ++ [word], []) := by
            simp only [splitStep, if_true, if_neg hne]
          rw [List.foldl_cons, List.foldl_nil, hdel, hrest, List.append_assoc]
          rfl

/-- `split_str` takes a text apart that is put together from words. -/
theorem splitStr_join {del : UInt8} {words : List CStr}
    (h : ∀ word ∈ words, IsWord del word)
    (hlength : ([del].intercalate words).length < cronMaxStrLenToSplit) :
    splitStr ([del].intercalate words) del = words := by
  rw [splitStr, if_neg (not_le.mpr hlength)]
  exact (splitDone_join h []).trans (List.nil_append _)

/-! ## Numbers -/

theorem decimal_dropWhile_isspace (n : ℕ) :
    (decimal n).dropWhile isspace = decimal n := by
  obtain ⟨d, rest, hd, -, hrest⟩ := decimal_head n
  rw [hrest, List.dropWhile_cons_of_neg]
  interval_cases d <;> decide

theorem unsignedPart_decimal (n : ℕ) : unsignedPart (decimal n) = decimal n := by
  obtain ⟨d, rest, hd, -, hrest⟩ := decimal_head n
  rw [unsignedPart, decimal_dropWhile_isspace, hrest]
  interval_cases d <;> rfl

theorem magnitude_decimal (n : ℕ) : magnitude 10 (decimal n) = n := by
  rw [magnitude, detectBase_ten]
  exact readDigits_decimal n

theorem strtolEnd_decimal (n : ℕ) : strtolEnd (decimal n) = [] := by
  have hdigits : (decimal n).dropWhile (digitValue · < 10) = [] := by
    rw [List.dropWhile_eq_nil_iff]
    intro c hc
    obtain ⟨d, hd, rfl⟩ := mem_decimal hc
    rw [digitValue_digit hd]
    exact decide_eq_true hd
  rw [strtolEnd, unsignedPart_decimal, hdigits,
    if_neg (decimal_ne_nil n).symm]

theorem strtolOverflows_decimal {n : ℕ} (hn : (n : ℤ) ≤ intMax) :
    strtolOverflows (decimal n) = false := by
  have hplain : strtolOverflows (decimal n) =
      decide (longMax < (magnitude 10 (unsignedPart (decimal n)) : ℤ)) := by
    obtain ⟨d, rest, hd, -, hrest⟩ := decimal_head n
    rw [strtolOverflows, decimal_dropWhile_isspace, hrest]
    interval_cases d <;> rfl
  rw [hplain, unsignedPart_decimal, magnitude_decimal, decide_eq_false_iff_not]
  exact not_lt.mpr hn

theorem parseUint_decimal {n : ℕ} (hn : (n : ℤ) ≤ intMax) :
    parseUint (decimal n) = some n := by
  have hl : strtol (decimal n) 10 = n := by
    rw [strtol_decimal_ten]
    exact min_eq_right hn
  simp only [parseUint, hl, strtolOverflows_decimal hn, strtolEnd_decimal]
  rw [if_neg (by simp [hn])]
  rfl

/-! ## The texts of a field -/

/-- A number, or a name for it. -/
structure CronNumber where
  value : ℕ
  name : Option CStr

/-- A value, a range of values, or an asterisk. -/
inductive CronRange
  | every
  | value (a : CronNumber)
  | range (a b : CronNumber)

/-- A range, and a step. -/
structure CronItem where
  range : CronRange
  step : Option ℕ

section Render

variable {α β : Type} (num : CronNumber → List α) (char : UInt8 → α)

def CronRange.render : CronRange → List α
  | .every => [char 42]
  | .value a => num a
  | .range a b => num a ++ char 45 :: num b

def CronItem.render (item : CronItem) : List α :=
  item.range.render num char ++
    match item.step with
    | none => []
    | some n => char 47 :: (decimal n).map char

/-- What is written of the items of a field. -/
def renderField (items : List CronItem) : List α :=
  [char 44].intercalate (items.map (CronItem.render num char))

variable {num char} {f : α → List β} {char' : UInt8 → β}

theorem flatMap_map_char (char' : UInt8 → β)
    (hchar : ∀ c, f (char c) = [char' c]) (s : CStr) :
    (s.map char).flatMap f = s.map char' := by
  induction s with
  | nil => rfl
  | cons c s ih => rw [List.map_cons, List.flatMap_cons, hchar, ih]; rfl

theorem CronRange.flatMap_render (hchar : ∀ c, f (char c) = [char' c])
    (r : CronRange) :
    (r.render num char).flatMap f =
      r.render (fun n => (num n).flatMap f) char' := by
  cases r with
  | every => simp [CronRange.render, hchar]
  | value a => rfl
  | range a b => simp [CronRange.render, hchar]

theorem CronItem.flatMap_render (hchar : ∀ c, f (char c) = [char' c])
    (item : CronItem) :
    (item.render num char).flatMap f =
      item.render (fun n => (num n).flatMap f) char' := by
  rw [CronItem.render, CronItem.render, List.flatMap_append,
    CronRange.flatMap_render hchar]
  cases item.step with
  | none => rfl
  | some n => simp [hchar, flatMap_map_char _ hchar]

theorem flatMap_renderField (char' : UInt8 → β)
    (hchar : ∀ c, f (char c) = [char' c])
    (items : List CronItem) :
    (renderField num char items).flatMap f =
      renderField (fun n => (num n).flatMap f) char' items := by
  induction items with
  | nil => rfl
  | cons item items ih =>
      cases items with
      | nil => simp [renderField, CronItem.flatMap_render hchar]
      | cons item' items =>
          simp only [renderField, List.map_cons, List.intercalate_cons_cons,
            List.flatMap_append, CronItem.flatMap_render hchar] at ih ⊢
          rw [ih]
          simp [hchar]

end Render

/-- The digits of a number, or its name. -/
def CronNumber.text (n : CronNumber) : CStr :=
  n.name.getD (decimal n.value)

/-- The digits of a number, also of one with a name. -/
def CronNumber.plain (n : CronNumber) : CStr :=
  decimal n.value

/-- The text of a field. -/
def fieldText (items : List CronItem) : CStr :=
  renderField CronNumber.text id items

/-- The text of a field without names. -/
def plainText (items : List CronItem) : CStr :=
  renderField CronNumber.plain id items

namespace CronRange

/-- The first and the last value of a range. -/
def bounds (min max : ℕ) : CronRange → ℕ × ℕ
  | every => (min, max - 1)
  | value a => (a.value, a.value)
  | range a b => (a.value, b.value)

/-- The numbers of a range. -/
def numbers : CronRange → List CronNumber
  | every => []
  | value a => [a]
  | range a b => [a, b]

/-- A range in the limits of a field. -/
structure Valid (min max : ℕ) (r : CronRange) : Prop where
  ge : min ≤ (r.bounds min max).1
  le : (r.bounds min max).1 ≤ (r.bounds min max).2
  lt : (r.bounds min max).2 < max

end CronRange

namespace CronItem

/-- The last value of an item: behind a step a single value goes on to the end. -/
def last (min max : ℕ) (item : CronItem) : ℕ :=
  match item.step, item.range with
  | none, _ => (item.range.bounds min max).2
  | some _, .range _ b => b.value
  | some _, _ => max - 1

/-- A value that an item names. -/
def Names (min max : ℕ) (item : CronItem) (i : ℕ) : Prop :=
  IsHit (item.range.bounds min max).1 (item.last min max) (item.step.getD 1) i

structure Valid (min max : ℕ) (item : CronItem) : Prop where
  range : item.range.Valid min max
  step_pos : ∀ n ∈ item.step, 0 < n
  step_le : ∀ n ∈ item.step, (n : ℤ) ≤ intMax

end CronItem

/-! ## Reading a field without names -/

theorem not_mem_decimal_of {c : UInt8} (hc : c.toNat < 48) (n : ℕ) :
    c ∉ decimal n := by
  intro hmem
  obtain ⟨d, hd, rfl⟩ := mem_decimal hmem
  rw [digit_toNat hd] at hc
  omega

theorem decimal_isWord {del : UInt8} (hdel : del.toNat < 48) (n : ℕ) :
    IsWord del (decimal n) := by
  refine ⟨decimal_ne_nil n, fun c hc => ⟨?_, ?_⟩⟩
  · rintro rfl
    exact not_mem_decimal_of hdel n hc
  · obtain ⟨d, hd, rfl⟩ := mem_decimal hc
    interval_cases d <;> decide

/-- The characters of a field, but for the letters of its names. -/
inductive IsMark : UInt8 → Prop
  | digit (d : ℕ) : d < 10 → IsMark (digit d)
  | star : IsMark 42
  | comma : IsMark 44
  | dash : IsMark 45
  | slash : IsMark 47

theorem isMark_decimal {n : ℕ} {c : UInt8} (hc : c ∈ decimal n) : IsMark c := by
  obtain ⟨d, hd, rfl⟩ := mem_decimal hc
  exact IsMark.digit d hd

theorem IsMark.isspace_eq {c : UInt8} (h : IsMark c) : isspace c = false := by
  cases h with
  | digit d hd => interval_cases d <;> rfl
  | star => rfl
  | comma => rfl
  | dash => rfl
  | slash => rfl

section Members

variable {α : Type} {num : CronNumber → List α} {char : UInt8 → α} {P : α → Prop}

theorem CronRange.forall_render {r : CronRange}
    (hchar : ∀ c, c ≠ 44 → c ≠ 47 → IsMark c → P (char c))
    (hnum : ∀ n ∈ r.numbers, ∀ c ∈ num n, P c) : ∀ c ∈ r.render num char, P c := by
  intro c hc
  cases r with
  | every =>
      obtain rfl := List.mem_singleton.mp hc
      exact hchar 42 (by decide) (by decide) IsMark.star
  | value a => exact hnum a List.mem_cons_self c hc
  | range a b =>
      rcases List.mem_append.mp hc with ha | hb
      · exact hnum a List.mem_cons_self c ha
      · rcases List.mem_cons.mp hb with rfl | hb
        · exact hchar 45 (by decide) (by decide) IsMark.dash
        · exact hnum b (List.mem_cons_of_mem _ List.mem_cons_self) c hb

theorem digit_ne {d : ℕ} (hd : d < 10) {c : UInt8} (hc : c.toNat < 48) :
    digit d ≠ c := by
  rintro rfl
  rw [digit_toNat hd] at hc
  omega

theorem CronItem.forall_render {item : CronItem}
    (hchar : ∀ c, c ≠ 44 → IsMark c → P (char c))
    (hnum : ∀ n ∈ item.range.numbers, ∀ c ∈ num n, P c) :
    ∀ c ∈ item.render num char, P c := by
  intro c hc
  rcases List.mem_append.mp hc with hrange | hstep
  · exact CronRange.forall_render (fun c hcomma _ => hchar c hcomma) hnum c hrange
  · cases hitem : item.step with
    | none =>
        rw [hitem] at hstep
        exact (List.not_mem_nil hstep).elim
    | some n =>
        rw [hitem] at hstep
        rcases List.mem_cons.mp hstep with rfl | hstep
        · exact hchar 47 (by decide) IsMark.slash
        · obtain ⟨ch, hmem, rfl⟩ := List.mem_map.mp hstep
          obtain ⟨d, hd, rfl⟩ := mem_decimal hmem
          exact hchar _ (digit_ne hd (by decide)) (IsMark.digit d hd)

theorem forall_renderField {items : List CronItem}
    (hchar : ∀ c, IsMark c → P (char c))
    (hnum : ∀ item ∈ items, ∀ n ∈ item.range.numbers, ∀ c ∈ num n, P c) :
    ∀ c ∈ renderField num char items, P c := by
  induction items with
  | nil => exact fun _ hc => (List.not_mem_nil hc).elim
  | cons item items ih =>
      have hfirst := CronItem.forall_render (fun c _ => hchar c)
        (hnum item List.mem_cons_self)
      have hrest := ih fun item hitem => hnum item (List.mem_cons_of_mem _ hitem)
      cases items with
      | nil => simpa [renderField] using hfirst
      | cons item' items =>
          intro c hc
          rw [renderField, List.map_cons, List.map_cons,
            List.intercalate_cons_cons] at hc
          rcases List.mem_append.mp hc with hc | hc
          · rcases List.mem_append.mp hc with hc | hc
            · exact hfirst c hc
            · obtain rfl := List.mem_singleton.mp hc
              exact hchar 44 IsMark.comma
          · exact hrest c hc

end Members

theorem CronRange.render_ne_nil {α : Type} {num : CronNumber → List α}
    (hnum : ∀ n, num n ≠ []) (char : UInt8 → α) (r : CronRange) :
    r.render num char ≠ [] := by
  cases r with
  | every => exact List.cons_ne_nil _ _
  | value a => exact hnum a
  | range a b =>
      intro heq
      exact List.cons_ne_nil _ _ (List.append_eq_nil_iff.mp heq).2

theorem checkRange_valid {min max : ℕ} {r : CronRange} (h : r.Valid min max) :
    checkRange min max (r.bounds min max) = .ok (r.bounds min max) := by
  obtain ⟨hge, hle, hlt⟩ := h
  rw [checkRange, if_neg (by omega), if_neg (by omega), if_neg (by omega)]

theorem CronRange.length_le (num : CronNumber → CStr) (item : CronItem) :
    (item.range.render num id).length ≤ (item.render num id).length := by
  rw [CronItem.render, List.length_append]
  omega

/-- `get_range` reads the text of a range. -/
theorem getRange_render {min max : ℕ} {r : CronRange} (h : r.Valid min max)
    (hmax : (max : ℤ) ≤ intMax)
    (hlength : (r.render CronNumber.plain id).length < cronMaxStrLenToSplit) :
    getRange (r.render CronNumber.plain id) min max =
      .ok (r.bounds min max) := by
  have hread : readRange (r.render CronNumber.plain id) min max =
      .ok (r.bounds min max) := by
    obtain ⟨hge, hle, hlt⟩ := h
    cases r with
    | every => rfl
    | value a =>
        simp only [CronRange.bounds] at hlt
        have hstar : decimal a.value ≠ [42] := by
          intro heq
          exact not_mem_decimal_of (c := 42) (by decide) a.value
            (by rw [heq]; exact List.mem_cons_self)
        simp only [CronRange.render, CronNumber.plain, readRange, if_neg hstar,
          if_pos (not_mem_decimal_of (c := 45) (by decide) a.value),
          parseUint_decimal (show (a.value : ℤ) ≤ intMax by omega)]
        rfl
    | range a b =>
        simp only [CronRange.bounds] at hle hlt
        have hstar : decimal a.value ++ 45 :: decimal b.value ≠ [42] := by
          intro heq
          have hmem : (45 : UInt8) ∈ [(42 : UInt8)] := by
            rw [← heq]
            exact List.mem_append_right _ List.mem_cons_self
          exact absurd hmem (by decide)
        have hjoin : decimal a.value ++ 45 :: decimal b.value =
            [45].intercalate [decimal a.value, decimal b.value] := by
          simp [List.intercalate_cons_cons]
        have hsplit : splitStr (decimal a.value ++ 45 :: decimal b.value) 45 =
            [decimal a.value, decimal b.value] := by
          rw [hjoin]
          refine splitStr_join (fun word hword => ?_) ?_
          · rcases List.mem_pair.mp hword with rfl | rfl
            · exact decimal_isWord (by decide) _
            · exact decimal_isWord (by decide) _
          · rw [← hjoin]
            exact hlength
        have hdash : ¬(45 : UInt8) ∉ decimal a.value ++ 45 :: decimal b.value :=
          not_not.mpr (List.mem_append_right _ List.mem_cons_self)
        simp only [CronRange.render, CronNumber.plain, id, readRange,
          if_neg hstar, if_neg hdash, hsplit,
          parseUint_decimal (show (a.value : ℤ) ≤ intMax by omega),
          parseUint_decimal (show (b.value : ℤ) ≤ intMax by omega)]
        rfl
  rw [getRange, hread]
  exact checkRange_valid h

theorem CronRange.plain_isWord (r : CronRange) :
    IsWord 47 (r.render CronNumber.plain id) := by
  refine ⟨CronRange.render_ne_nil (fun n => decimal_ne_nil n.value) id r,
    CronRange.forall_render (fun c _ hslash hc => ⟨hslash, hc.isspace_eq⟩)
      fun n _ c hc => ?_⟩
  exact (decimal_isWord (by decide) n.value).2 c hc

theorem CronItem.plain_isWord (item : CronItem) :
    IsWord 44 (item.render CronNumber.plain id) := by
  refine ⟨fun heq => ?_,
    CronItem.forall_render (fun c hcomma hc => ⟨hcomma, hc.isspace_eq⟩)
      fun n _ c hc => ?_⟩
  · exact CronRange.render_ne_nil (fun n => decimal_ne_nil n.value) id item.range
      (List.append_eq_nil_iff.mp heq).1
  · exact (decimal_isWord (by decide) n.value).2 c hc

/-- `set_number_hits` reads the text of an item. -/
theorem getHits_render {min max : ℕ} {item : CronItem} (h : item.Valid min max)
    (hmax : (max : ℤ) ≤ intMax)
    (hlength : (item.render CronNumber.plain id).length < cronMaxStrLenToSplit) :
    getHits (item.render CronNumber.plain id) min max =
      .ok ((item.range.bounds min max).1, item.last min max,
        item.step.getD 1) := by
  have hrange := getRange_render h.range hmax
    ((CronRange.length_le CronNumber.plain item).trans_lt hlength)
  cases hstep : item.step with
  | none =>
      have htext : item.render CronNumber.plain id =
          item.range.render CronNumber.plain id := by
        rw [CronItem.render, hstep, List.append_nil]
      have hslash : (47 : UInt8) ∉ item.range.render CronNumber.plain id :=
        fun hmem => (item.range.plain_isWord.2 47 hmem).1 rfl
      rw [htext, getHits, if_pos hslash, hrange]
      simp only [CronItem.last, hstep]
      rfl
  | some n =>
      have hjoin : item.render CronNumber.plain id =
          [47].intercalate [item.range.render CronNumber.plain id, decimal n] := by
        simp [CronItem.render, hstep, List.intercalate_cons_cons]
      have hsplit : splitStr (item.render CronNumber.plain id) 47 =
          [item.range.render CronNumber.plain id, decimal n] := by
        rw [hjoin] at hlength ⊢
        refine splitStr_join (fun word hword => ?_) hlength
        rcases List.mem_pair.mp hword with rfl | rfl
        · exact item.range.plain_isWord
        · exact decimal_isWord (by decide) n
      have hslash : ¬(47 : UInt8) ∉ item.render CronNumber.plain id := by
        rw [hjoin]
        simp [List.intercalate_cons_cons]
      have hn := parseUint_decimal (h.step_le n hstep)
      have hpos := h.step_pos n hstep
      obtain ⟨k, rfl⟩ : ∃ k, n = k + 1 := ⟨n - 1, by omega⟩
      have hlast : (if 45 ∉ item.range.render CronNumber.plain id then max - 1
          else (item.range.bounds min max).2) = item.last min max := by
        rw [CronItem.last, hstep]
        cases item.range with
        | every => rfl
        | value a =>
            exact if_pos (not_mem_decimal_of (c := 45) (by decide) a.value)
        | range a b =>
            exact if_neg (not_not.mpr
              (List.mem_append_right _ List.mem_cons_self))
      rw [getHits, if_neg hslash, hsplit]
      change (getRange (item.range.render CronNumber.plain id) min max).bind _ = _
      rw [hrange]
      simp only [Except.bind, hn, hlast]
      rfl

theorem CronItem.Valid.last_lt {min max : ℕ} {item : CronItem}
    (h : item.Valid min max) : item.last min max < max := by
  have hlt := h.range.lt
  have hle := h.range.le
  rw [CronItem.last]
  split
  · exact hlt
  next hrange =>
    rw [hrange] at hlt
    exact hlt
  · omega

theorem CronItem.Valid.delta_pos {min max : ℕ} {item : CronItem}
    (h : item.Valid min max) : 0 < item.step.getD 1 := by
  cases hstep : item.step with
  | none => exact Nat.one_pos
  | some n => exact h.step_pos n hstep

/-- The items of a field, one by one. -/
theorem setFields_render {min max : ℕ} {items : List CronItem}
    (hmax : (max : ℤ) ≤ intMax) (hvalid : ∀ item ∈ items, item.Valid min max)
    (hlength : ∀ item ∈ items,
      (item.render CronNumber.plain id).length < cronMaxStrLenToSplit)
    {target : List UInt8} (hsize : max ≤ 8 * target.length) :
    ∃ bits, setFields min max (items.map (CronItem.render CronNumber.plain id))
        target = (bits, none) ∧ bits.length = target.length ∧
      ∀ i, cronGetBit bits i = true ↔
        (∃ item ∈ items, item.Names min max i) ∨ cronGetBit target i = true := by
  induction items generalizing target with
  | nil => exact ⟨target, rfl, rfl, fun i => by simp⟩
  | cons item items ih =>
      have hitem := hvalid item List.mem_cons_self
      have hhits := getHits_render hitem hmax (hlength item List.mem_cons_self)
      have hlast := hitem.last_lt
      obtain ⟨bits, hset, hsame, hbits⟩ := ih
        (fun item hmem => hvalid item (List.mem_cons_of_mem _ hmem))
        (fun item hmem => hlength item (List.mem_cons_of_mem _ hmem))
        (hsize.trans_eq (congrArg (8 * ·) (length_setHits target
          (item.range.bounds min max).1 (item.last min max)
          (item.step.getD 1)).symm))
      refine ⟨bits, ?_, by rw [hsame, length_setHits], fun i => ?_⟩
      · rw [List.map_cons, setFields, hhits]
        exact hset
      · rw [hbits, cronGetBit_setHits hitem.delta_pos (by omega)]
        simp only [List.mem_cons, exists_eq_or_imp, CronItem.Names]
        exact or_left_comm.trans or_assoc.symm

theorem length_le_intercalate {del : UInt8} {word : CStr} {words : List CStr}
    (h : word ∈ words) : word.length ≤ ([del].intercalate words).length := by
  induction words with
  | nil => exact (List.not_mem_nil h).elim
  | cons word' words ih =>
      cases words with
      | nil =>
          obtain rfl := List.mem_singleton.mp h
          rw [List.intercalate_singleton]
      | cons word'' words =>
          rw [List.intercalate_cons_cons, List.length_append, List.length_append]
          rcases List.mem_cons.mp h with rfl | h
          · omega
          · have := ih h
            omega

/-- `set_number_hits` reads the text of a field without names. -/
theorem setNumberHits_plain {min max n : ℕ} {items : List CronItem}
    (hne : items ≠ []) (hmax : (max : ℤ) ≤ intMax)
    (hvalid : ∀ item ∈ items, item.Valid min max)
    (hlength : (plainText items).length < cronMaxStrLenToSplit)
    (hsize : max ≤ 8 * n) :
    ∃ bits, setNumberHits (plainText items) (List.replicate n 0) min max =
        (bits, none) ∧ bits.length = n ∧
      ∀ i, cronGetBit bits i = true ↔ ∃ item ∈ items, item.Names min max i := by
  have hsplit : splitStr (plainText items) 44 =
      items.map (CronItem.render CronNumber.plain id) := by
    refine splitStr_join (fun word hword => ?_) hlength
    obtain ⟨item, -, rfl⟩ := List.mem_map.mp hword
    exact item.plain_isWord
  have htarget : max ≤ 8 * (List.replicate n (0 : UInt8)).length := by
    rwa [List.length_replicate]
  obtain ⟨bits, hset, hsame, hbits⟩ := setFields_render hmax hvalid
    (fun item hitem =>
      (length_le_intercalate (List.mem_map_of_mem hitem)).trans_lt hlength)
    htarget
  refine ⟨bits, ?_, hsame.trans List.length_replicate, fun i => ?_⟩
  · obtain ⟨item, items, rfl⟩ := List.exists_cons_of_ne_nil hne
    rw [setNumberHits, hsplit]
    exact hset
  · rw [hbits, cronGetBit_clear]
    simp

end Herak.Scripts
