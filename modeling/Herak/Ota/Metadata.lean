import Herak.Ota.Check

/-!
# What a metadata file says

The parser of the check half searches a string for the names of the fields and
ends each value at the end of its line.  Its result is a function of the
string in the buffer: the first text behind each name, up to the end of the
line.  Text behind the string changes nothing once every value has its end of
line.
-/

namespace Herak.Ota

open CString

/-- Where the value of a field starts, if it has one. -/
def fieldOffset (s : CStr) (i : MetaId) : Option ℕ :=
  if (findValue s i.name).2 then (findValue s i.name).1 else none

/-- The text from an offset to the end of the line. -/
def lineText (s : List UInt8) (o : ℕ) : CStr :=
  (s.drop o).takeWhile fun ch => !isLineEnd ch

/-- The value of each field, if the file has all of them. -/
def metaFields (s : CStr) : Option (MetaId → CStr) :=
  if ∀ i ∈ MetaId.all, (fieldOffset s i).isSome then
    some fun i => lineText s ((fieldOffset s i).getD 0)
  else none

/-- What the validation wants of the fields. -/
def Acceptable (fw : Firmware) (fields : MetaId → CStr) : Prop :=
  fields .darch = fw.devArch ∧ fields .image = fw.imageName

instance (fw : Firmware) (fields : MetaId → CStr) :
    Decidable (Acceptable fw fields) :=
  inferInstanceAs (Decidable (_ ∧ _))

theorem MetaId.mem_all (i : MetaId) : i ∈ MetaId.all := by
  cases i <;> decide

/-! ## Finding the values -/

/-- A field that is found starts inside the string. -/
theorem fieldOffset_lt {s : CStr} {i : MetaId} {o : ℕ}
    (h : fieldOffset s i = some o) : o < s.length := by
  unfold fieldOffset findValue at h
  cases hstr : strstr s i.name with
  | none => simp [hstr] at h
  | some n =>
      simp only [hstr] at h
      split at h
      next hvalue =>
        obtain rfl := Option.some_inj.mp h
        by_contra hge
        refine of_decide_eq_true hvalue ?_
        exact List.drop_eq_nil_of_le (Nat.le_of_not_lt hge)
      · contradiction

/-- Text behind the string does not move a field that is found. -/
theorem fieldOffset_append {s : CStr} {i : MetaId} {o : ℕ} (t : CStr)
    (h : fieldOffset s i = some o) : fieldOffset (s ++ t) i = some o := by
  have hlt := fieldOffset_lt h
  unfold fieldOffset findValue at h ⊢
  cases hstr : strstr s i.name with
  | none => simp [hstr] at h
  | some n =>
      have hfits := strstr_length_le hstr
      rw [strstr_append t hstr]
      simp only [hstr] at h ⊢
      have ho : n + i.name.length +
          ((s.drop (n + i.name.length)).takeWhile isBlank).length = o := by
        split at h
        · exact Option.some_inj.mp h
        · contradiction
      have hblank : ((s ++ t).drop (n + i.name.length)).takeWhile isBlank =
          (s.drop (n + i.name.length)).takeWhile isBlank := by
        rw [List.drop_append_of_le_length hfits, List.takeWhile_append,
          if_neg]
        rw [List.length_drop]
        omega
      simp only [strlen_eq, hblank, ho]
      rw [if_pos]
      simp only [ne_eq, List.drop_eq_nil_iff, List.length_append,
        decide_eq_true_eq]
      omega

theorem findValues_eq (s : CStr) (is : List MetaId) (m : MetaValues) :
    (findValues s is m).1 = true ↔
      ∀ i ∈ is, (fieldOffset s i).isSome = true := by
  induction is generalizing m with
  | nil => simp [findValues]
  | cons i is ih =>
      simp only [findValues, List.forall_mem_cons, fieldOffset]
      split
      next hvalue =>
        have hsome : (findValue s i.name).1.isSome = true := by
          unfold findValue at hvalue ⊢
          split <;> simp_all
        rw [ih]
        simp [hsome, fieldOffset]
      · simp

/-- A parse that finds every field sets every value pointer. -/
theorem findValues_apply {s : CStr} {is : List MetaId} {m : MetaValues}
    (h : ∀ i ∈ is, (fieldOffset s i).isSome = true) {i : MetaId}
    (hi : i ∈ is ∨ m i = fieldOffset s i) :
    (findValues s is m).2 i = fieldOffset s i := by
  induction is generalizing m with
  | nil => simpa [findValues] using hi
  | cons j is ih =>
      rw [List.forall_mem_cons] at h
      obtain ⟨hj, his⟩ := h
      have hvalue : (findValue s j.name).2 = true := by
        by_contra hnot
        simp [fieldOffset, hnot] at hj
      simp only [findValues, hvalue, if_true]
      refine ih his ?_
      by_cases hij : i = j
      · subst hij
        exact Or.inr (by simp [fieldOffset, hvalue])
      · rw [Function.update_of_ne hij]
        simpa [hij] using hi

theorem metaFields_eq_some_iff {s : CStr} {fields : MetaId → CStr} :
    metaFields s = some fields ↔
      ∀ i, ∃ o, fieldOffset s i = some o ∧ fields i = lineText s o := by
  unfold metaFields
  constructor
  · intro h i
    split at h
    next hall =>
      obtain ⟨o, ho⟩ := Option.isSome_iff_exists.mp (hall i i.mem_all)
      refine ⟨o, ho, ?_⟩
      simp only [← Option.some_inj.mp h, ho, Option.getD_some]
    · contradiction
  · intro h
    rw [if_pos]
    · refine congrArg some (funext fun i => ?_)
      obtain ⟨o, ho, hfield⟩ := h i
      rw [ho, Option.getD_some, hfield]
    · intro i _
      obtain ⟨o, ho, -⟩ := h i
      simp [ho]

/-- A text without an end of line is one line. -/
theorem lineText_eq_drop {s : List UInt8} {o : ℕ}
    (h : ∀ ch ∈ s.drop o, isLineEnd ch = false) : lineText s o = s.drop o :=
  List.takeWhile_eq_self_iff.mpr fun ch hch => by simp [h ch hch]

/-- Text behind an end of line does not belong to the line. -/
theorem lineText_append {s : List UInt8} {o : ℕ} (t : List UInt8)
    (h : ∃ ch ∈ s.drop o, isLineEnd ch = true) :
    lineText (s ++ t) o = lineText s o := by
  obtain ⟨ch, hch, hend⟩ := h
  have ho : o ≤ s.length := by
    by_contra hge
    rw [List.drop_eq_nil_of_le (by omega)] at hch
    simp at hch
  rw [lineText, lineText, List.drop_append_of_le_length ho,
    List.takeWhile_append, if_neg]
  intro hlen
  have hmem : ch ∈ (s.drop o).takeWhile fun ch => !isLineEnd ch := by
    rw [(List.takeWhile_prefix _).eq_of_length hlen]
    exact hch
  have hnot := List.mem_takeWhile_imp hmem
  simp [hend] at hnot

/-! ## Ending the values -/

theorem isLineEnd_zero : isLineEnd 0 = true := rfl

/-- Overwriting the end of a line by NUL moves no end of line. -/
theorem takeWhile_set_zero {l : List UInt8} {k : ℕ}
    (h : ∀ ch ∈ l[k]?, isLineEnd ch = true) :
    ((l.set k 0).takeWhile fun ch => !isLineEnd ch) =
      l.takeWhile fun ch => !isLineEnd ch := by
  induction l generalizing k with
  | nil => rfl
  | cons c l ih =>
      cases k with
      | zero =>
          have hc : isLineEnd c = true := h c rfl
          simp [hc, isLineEnd_zero]
      | succ k =>
          simp only [List.set_cons_succ, List.takeWhile_cons]
          rw [ih fun ch hch => h ch (by simpa using hch)]

theorem isLineEnd_of_mem_getElem?_takeWhile (l : List UInt8) :
    ∀ ch ∈ l[(l.takeWhile fun ch => !isLineEnd ch).length]?,
      isLineEnd ch = true := by
  induction l with
  | nil => simp
  | cons c l ih =>
      by_cases hc : isLineEnd c = true
      · simp [hc]
      · simpa [hc] using ih

theorem lineText_terminateValue (buff : List UInt8) (o o' : ℕ) :
    lineText (terminateValue buff o) o' = lineText buff o' := by
  have hend := isLineEnd_of_mem_getElem?_takeWhile (buff.drop o)
  rw [List.getElem?_drop] at hend
  unfold lineText terminateValue
  rw [List.drop_set]
  split
  · rfl
  next hge =>
    refine takeWhile_set_zero ?_
    rw [List.getElem?_drop, Nat.add_sub_cancel' (not_lt.mp hge)]
    exact hend

theorem terminateValue_getElem?_zero {buff : List UInt8} {o k : ℕ}
    (h : buff[k]? = some 0) : (terminateValue buff o)[k]? = some 0 := by
  obtain ⟨hk, -⟩ := List.getElem?_eq_some_iff.mp h
  unfold terminateValue
  rw [List.getElem?_set]
  split
  next heq => rw [if_pos (heq ▸ hk)]
  · exact h

/-- The byte behind the text is NUL once the value is ended. -/
theorem terminateValue_getElem?_end {buff : List UInt8} {o : ℕ}
    (h : 0 ∈ buff.drop o) :
    (terminateValue buff o)[o + (lineText buff o).length]? = some 0 := by
  have hlt : (lineText buff o).length < (buff.drop o).length := by
    by_contra hge
    have hall : lineText buff o = buff.drop o :=
      (List.takeWhile_prefix _).eq_of_length
        (le_antisymm (List.takeWhile_prefix _).length_le (not_lt.mp hge))
    have hmem := List.mem_takeWhile_imp (hall ▸ h : (0 : UInt8) ∈ lineText buff o)
    simp [isLineEnd_zero] at hmem
  rw [List.length_drop] at hlt
  have hset : terminateValue buff o =
      buff.set (o + (lineText buff o).length) 0 := rfl
  rw [hset, List.getElem?_set_self (by omega)]

theorem terminateFields_spec (m : MetaValues) (is : List MetaId)
    (buff : List UInt8) :
    (∀ o, lineText (is.foldl (terminateField m) buff) o = lineText buff o) ∧
      (∀ k : ℕ, buff[k]? = some 0 →
        (is.foldl (terminateField m) buff)[k]? = some 0) ∧
      ∀ i ∈ is, ∀ o, m i = some o → 0 ∈ buff.drop o →
        (is.foldl (terminateField m) buff)[o + (lineText buff o).length]? =
          some 0 := by
  induction is generalizing buff with
  | nil => simp
  | cons j is ih =>
      obtain ⟨htext, hzero, hend⟩ := ih (terminateField m buff j)
      have hline : ∀ o, lineText (terminateField m buff j) o =
          lineText buff o := by
        intro o
        unfold terminateField
        split
        · rfl
        · exact lineText_terminateValue buff _ o
      have hkeep : ∀ k : ℕ, buff[k]? = some 0 →
          (terminateField m buff j)[k]? = some 0 := by
        intro k hk
        unfold terminateField
        split
        · exact hk
        · exact terminateValue_getElem?_zero hk
      refine ⟨fun o => (htext o).trans (hline o),
        fun k hk => hzero k (hkeep k hk), ?_⟩
      intro i hi o hio hmem
      rcases List.mem_cons.mp hi with rfl | hi
      · refine hzero _ ?_
        simp only [terminateField, hio]
        exact terminateValue_getElem?_end hmem
      · rw [← hline o]
        refine hend i hi o hio ?_
        obtain ⟨k, hk⟩ := List.mem_iff_getElem?.mp hmem
        rw [List.getElem?_drop] at hk
        refine List.mem_iff_getElem?.mpr ⟨k, ?_⟩
        rw [List.getElem?_drop]
        exact hkeep _ hk

/-- The C string at an offset whose line ends by NUL. -/
theorem cstrAt_eq_lineText {buff : List UInt8} {o : ℕ}
    (h : buff[o + (lineText buff o).length]? = some 0) :
    cstrAt buff o = lineText buff o := by
  rw [← List.getElem?_drop] at h
  unfold cstrAt
  unfold lineText at h ⊢
  generalize buff.drop o = l at h ⊢
  induction l with
  | nil => rfl
  | cons c l ih =>
      by_cases hc : isLineEnd c = true
      · simp only [List.takeWhile_cons, hc] at h ⊢
        obtain rfl : c = 0 := by simpa using h
        rfl
      · have hne : c ≠ 0 := by
          rintro rfl
          exact hc isLineEnd_zero
        simp only [List.takeWhile_cons, hc, Bool.not_false, if_true,
          List.length_cons, List.getElem?_cons_succ] at h ⊢
        rw [← ih h, if_pos (by simpa using hne)]

/-! ## The parser -/

/-- A buffer that holds a string is the string, its NUL and the rest. -/
theorem eq_cstr_append {buff : List UInt8} (h : 0 ∈ buff) :
    ∃ rest, buff = cstrAt buff 0 ++ 0 :: rest := by
  induction buff with
  | nil => simp at h
  | cons c buff ih =>
      by_cases hc : c = 0
      · exact ⟨buff, by simp [cstrAt, hc]⟩
      · obtain ⟨rest, hrest⟩ := ih (by simpa [Ne.symm hc] using h)
        refine ⟨rest, ?_⟩
        simpa [cstrAt, hc] using hrest

theorem lineText_cstr {buff : List UInt8} (h : 0 ∈ buff) {o : ℕ}
    (ho : o ≤ (cstrAt buff 0).length) :
    lineText buff o = lineText (cstrAt buff 0) o := by
  obtain ⟨rest, hrest⟩ := eq_cstr_append h
  unfold lineText
  conv_lhs => rw [hrest]
  rw [List.drop_append_of_le_length ho, List.takeWhile_append]
  split
  next hall =>
    rw [List.takeWhile_cons, if_neg (by simp [isLineEnd_zero]),
      List.append_nil]
    exact ((List.takeWhile_prefix _).eq_of_length hall).symm
  · rfl

/-- A parse of a string with all fields yields their values. -/
theorem otaMetaParse_of_metaFields {c : OtaCheck} (m : MetaValues)
    {fields : MetaId → CStr} (h : 0 ∈ c.buff) (hlen : ¬c.buffP < 1)
    (hfields : metaFields (cstrAt c.buff 0) = some fields) :
    (otaMetaParse c m).1 = 0 ∧
      ∀ i, metaValue (otaMetaParse c m).2.1.buff (otaMetaParse c m).2.2 i =
        some (fields i) := by
  rw [metaFields_eq_some_iff] at hfields
  have hall : ∀ i ∈ MetaId.all,
      (fieldOffset (cstrAt c.buff 0) i).isSome = true := by
    intro i _
    obtain ⟨o, ho, -⟩ := hfields i
    simp [ho]
  have hfound := (findValues_eq (cstrAt c.buff 0) MetaId.all m).mpr hall
  have hoff : ∀ i, (findValues (cstrAt c.buff 0) MetaId.all m).2 i =
      fieldOffset (cstrAt c.buff 0) i :=
    fun i => findValues_apply hall (Or.inl i.mem_all)
  simp only [otaMetaParse, hlen, if_false, hfound, if_true, true_and]
  generalize (findValues (cstrAt c.buff 0) MetaId.all m).2 = m' at hoff
  obtain ⟨htext, -, hend⟩ := terminateFields_spec m' MetaId.all c.buff
  intro i
  obtain ⟨o, ho, hvalue⟩ := hfields i
  have hlt := fieldOffset_lt ho
  obtain ⟨rest, hrest⟩ := eq_cstr_append h
  have hmem : 0 ∈ c.buff.drop o := by
    rw [hrest, List.drop_append_of_le_length hlt.le]
    simp
  have hnul := hend i i.mem_all o ((hoff i).trans ho) hmem
  rw [← htext o] at hnul
  rw [metaValue, hoff, ho, Option.map_some, hvalue,
    ← lineText_cstr h hlt.le, ← htext o]
  exact congrArg some (cstrAt_eq_lineText hnul)

/-- A parse fails where a field is missing. -/
theorem otaMetaParse_of_none {c : OtaCheck} (m : MetaValues)
    (hfields : metaFields (cstrAt c.buff 0) = none) :
    (otaMetaParse c m).1 ≠ 0 := by
  have hfound : (findValues (cstrAt c.buff 0) MetaId.all m).1 = false := by
    rw [← Bool.not_eq_true, findValues_eq]
    intro hall
    rw [metaFields, if_pos hall] at hfields
    contradiction
  unfold otaMetaParse
  split <;> simp [hfound]

/-- The result of `ota_meta_parse` and of the validation, with the values that
are then read. -/
def metaResult (fw : Firmware) (c : OtaCheck) (m : MetaValues) :
    Option (ℤ × (MetaId → Option CStr)) :=
  let parsed := otaMetaParse c m
  if parsed.1 ≠ 0 then none
  else
    some (otaMetaValidate fw parsed.2.1 parsed.2.2,
      metaValue parsed.2.1.buff parsed.2.2)

theorem metaCheck_eq_true_iff {fw : Firmware} {buff : List UInt8}
    {m : MetaValues} {i : MetaId} {current value : CStr}
    (hcurrent : i.current fw = some current)
    (hvalue : metaValue buff m i = some value) :
    metaCheck fw buff m i = true ↔ value = current := by
  simp only [metaCheck, hcurrent, hvalue, strcmp_eq_zero_iff,
    decide_eq_true_eq]
  constructor
  · exact fun h => h.2.symm
  · rintro rfl
    exact ⟨rfl, rfl⟩

theorem otaMetaValidate_eq {fw : Firmware} {c : OtaCheck} {m : MetaValues}
    {fields : MetaId → CStr}
    (h : ∀ i, metaValue c.buff m i = some (fields i)) :
    otaMetaValidate fw c m = if Acceptable fw fields then 0 else -1 := by
  have hdarch := metaCheck_eq_true_iff (rfl : MetaId.current fw .darch = _)
    (h .darch)
  have himage := metaCheck_eq_true_iff (rfl : MetaId.current fw .image = _)
    (h .image)
  unfold otaMetaValidate Acceptable
  cases hd : metaCheck fw c.buff m .darch with
  | false =>
      have hne : fields .darch ≠ fw.devArch := fun heq =>
        Bool.false_ne_true (hd.symm.trans (hdarch.mpr heq))
      simp [hne]
  | true =>
      cases hi : metaCheck fw c.buff m .image with
      | false =>
          have hne : fields .image ≠ fw.imageName := fun heq =>
            Bool.false_ne_true (hi.symm.trans (himage.mpr heq))
          simp [hne]
      | true => simp [hdarch.mp hd, himage.mp hi]

/-- The parser and the validation compute what the string in the buffer
says. -/
theorem metaResult_eq (fw : Firmware) (c : OtaCheck) (m : MetaValues)
    (h : 0 ∈ c.buff) :
    metaResult fw c m =
      if c.buffP < 1 then none
      else (metaFields (cstrAt c.buff 0)).map fun fields =>
        (if Acceptable fw fields then 0 else -1, fun i => some (fields i)) := by
  unfold metaResult
  by_cases hlen : c.buffP < 1
  · simp [otaMetaParse, hlen]
  rw [if_neg hlen]
  cases hfields : metaFields (cstrAt c.buff 0) with
  | none => simp [otaMetaParse_of_none m hfields]
  | some fields =>
      obtain ⟨hok, hvalue⟩ := otaMetaParse_of_metaFields m h hlen hfields
      simp only [hok, ne_eq, not_true_eq_false, if_false, Option.map_some]
      exact congrArg some
        (Prod.ext (otaMetaValidate_eq hvalue) (funext hvalue))

end Herak.Ota
