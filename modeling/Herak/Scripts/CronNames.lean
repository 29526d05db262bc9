import Mathlib.Data.List.Nodup
import Herak.Scripts.CronText
import Herak.Support.Substring

/-!
# Names in cron expressions

Months and days of the week may have names, in letters of either case.  The
parser replaces the names by their numbers, and of an expression it sets exactly
the values that its text names.
-/

namespace Herak.Scripts

open CString CInt

/-! ## Names -/

/-- A character, or a name. -/
inductive Piece
  | char (c : UInt8)
  | name (i : ℕ)

/-- The pieces of a number. -/
def CronNumber.pieces (n : CronNumber) : List Piece :=
  match n.name with
  | none => (decimal n.value).map .char
  | some _ => [.name n.value]

/-- The text of a piece, when the first `k` names are replaced. -/
def Piece.text (arr : List CStr) (k : ℕ) : Piece → CStr
  | .char c => [c]
  | .name i => if i < k then decimal i else arr.getD i []

/-- A capital letter. -/
def IsCapital (c : UInt8) : Prop :=
  65 ≤ c.toNat ∧ c.toNat ≤ 90

/-- Names of three different capital letters. -/
structure Names (arr : List CStr) : Prop where
  nodup : arr.Nodup
  length : ∀ name ∈ arr, name.length = 3
  capital : ∀ name ∈ arr, ∀ c ∈ name, IsCapital c

/-- Behind a name there is another character, or nothing. -/
def Separated (n : ℕ) : List Piece → Prop
  | [] => True
  | .char c :: pieces => IsMark c ∧ Separated n pieces
  | .name i :: pieces =>
      i < n ∧ (∀ p ∈ pieces.head?, ∃ c, p = .char c) ∧ Separated n pieces

theorem IsMark.not_isCapital {c : UInt8} (h : IsMark c) : ¬IsCapital c := by
  rw [IsCapital]
  cases h with
  | digit d hd =>
      rw [digit_toNat hd]
      omega
  | star => decide
  | comma => decide
  | dash => decide
  | slash => decide

instance (c : UInt8) : Decidable (IsCapital c) :=
  inferInstanceAs (Decidable (_ ∧ _))

theorem names_days : Names daysArr :=
  ⟨by decide, by decide, by decide +kernel⟩

theorem names_months : Names monthsArr :=
  ⟨by decide, by decide, by decide +kernel⟩

/-- A replacement does not touch a begin that no occurrence starts in. -/
theorem strReplaceFrom_append {rep with' s t : CStr}
    (h : strstr (s ++ t) rep = (strstr t rep).map (s.length + ·)) (left : ℕ) :
    strReplaceFrom rep with' left (s ++ t) =
      s ++ strReplaceFrom rep with' left t := by
  cases left with
  | zero => rfl
  | succ left =>
      rw [strReplaceFrom, strReplaceFrom, h]
      cases strstr t rep with
      | none => rfl
      | some front =>
          simp only [Option.map_some]
          rw [List.take_length_add_append, Nat.add_assoc,
            List.drop_length_add_append, List.append_assoc, List.append_assoc,
            List.append_assoc]

theorem strstr_of_same_length {s rep : CStr} (hlength : s.length = rep.length)
    (hne : s ≠ rep) : strstr s rep = none := by
  rw [strstr_eq_none_iff]
  intro k hprefix
  have hle := hprefix.length_le
  rw [List.length_drop] at hle
  rcases Nat.eq_zero_or_pos k with rfl | hpos
  · have heq : rep = s := hprefix.eq_of_length hlength.symm
    exact hne heq.symm
  · have hnil : rep = [] := List.length_eq_zero_iff.mp (by omega)
    rw [hnil] at hlength hne
    exact hne (List.length_eq_zero_iff.mp hlength)

/-- The text of pieces, when the first `k` names are replaced. -/
def textAt (arr : List CStr) (k : ℕ) (pieces : List Piece) : CStr :=
  pieces.flatMap (Piece.text arr k)

section Replace

variable {arr : List CStr} {k : ℕ} {pieces : List Piece}

theorem Names.ne_nil (h : Names arr) {name : CStr} (hname : name ∈ arr) :
    name ≠ [] := by
  intro hnil
  have hlength := h.length name hname
  rw [hnil] at hlength
  exact absurd hlength (by decide)

theorem Names.getD_mem {i : ℕ} (hi : i < arr.length) : arr.getD i [] ∈ arr := by
  rw [List.getD_eq_getElem _ _ hi]
  exact List.getElem_mem hi

theorem Names.head_ne (h : Names arr) {name s : CStr} (hname : name ∈ arr)
    (hs : ∀ c ∈ s, IsMark c) : ∀ c ∈ s, name.head? ≠ some c := by
  intro c hc hhead
  exact (hs c hc).not_isCapital
    (h.capital name hname c (List.mem_of_mem_head? hhead))

/-- The text behind a name does not begin with a letter. -/
theorem head_textAt {n : ℕ} (hpieces : Separated n pieces)
    (hhead : ∀ p ∈ pieces.head?, ∃ c, p = .char c) :
    ∀ c ∈ (textAt arr k pieces).head?, IsMark c := by
  cases pieces with
  | nil => exact nofun
  | cons p pieces =>
      obtain ⟨c, rfl⟩ := hhead p rfl
      intro c' hc
      obtain rfl : c = c' := Option.some.inj hc
      exact hpieces.1

/-- A replacement of a name replaces it everywhere, and nothing else. -/
theorem strReplaceFrom_textAt (h : Names arr) (hk : k < arr.length) {left : ℕ}
    (hpieces : Separated arr.length pieces) (hleft : pieces.length ≤ left) :
    strReplaceFrom (arr.getD k []) (decimal k) left (textAt arr k pieces) =
      textAt arr (k + 1) pieces := by
  have hname := Names.getD_mem hk
  induction pieces generalizing left with
  | nil =>
      cases left with
      | zero => rfl
      | succ left =>
          rw [strReplaceFrom, textAt, List.flatMap_nil, strstr,
            if_neg (h.ne_nil hname)]
          rfl
  | cons p pieces ih =>
      cases p with
      | char c =>
          have hstr := strstr_append_of_head (t := textAt arr k pieces)
            (h.ne_nil hname) (h.head_ne hname (s := [c])
              fun c' hc => List.mem_singleton.mp hc ▸ hpieces.1)
          have hrest := ih hpieces.2 (Nat.le_of_succ_le hleft)
          exact (strReplaceFrom_append hstr left).trans
            (congrArg ([c] ++ ·) hrest)
      | name i =>
          obtain ⟨hi, hhead, hrest⟩ := hpieces
          have hcons : ∀ n, textAt arr n (.name i :: pieces) =
              (if i < n then decimal i else arr.getD i []) ++
                textAt arr n pieces := fun _ => rfl
          rw [hcons, hcons]
          rcases lt_trichotomy i k with hlt | rfl | hlt
          · have hstr := strstr_append_of_head (t := textAt arr k pieces)
              (h.ne_nil hname) (h.head_ne hname (s := decimal i)
                fun c hc => isMark_decimal hc)
            rw [if_pos hlt, if_pos (by omega), strReplaceFrom_append hstr,
              ih hrest (Nat.le_of_succ_le hleft)]
          · obtain ⟨left, rfl⟩ : ∃ n, left = n + 1 :=
              ⟨left - 1, by rw [List.length_cons] at hleft; omega⟩
            rw [if_neg (lt_irrefl i), if_pos (Nat.lt_succ_self i), strReplaceFrom,
              strstr_self_append]
            dsimp only
            rw [List.take_zero, List.nil_append, Nat.zero_add, List.drop_left,
              ih hrest (Nat.succ_le_succ_iff.mp hleft)]
          · have hother : arr.getD i [] ≠ arr.getD k [] := by
              intro heq
              rw [List.getD_eq_getElem _ _ hi, List.getD_eq_getElem _ _ hk,
                h.nodup.getElem_inj_iff] at heq
              omega
            have hnone := strstr_of_same_length ((h.length _
              (Names.getD_mem hi)).trans (h.length _ hname).symm) hother
            have hstr := strstr_append_of_none (t := textAt arr k pieces) hnone
              fun c hc hmem => (head_textAt hrest hhead c hc).not_isCapital
                (h.capital _ hname c hmem)
            rw [if_neg (by omega), if_neg (by omega), strReplaceFrom_append hstr,
              ih hrest (Nat.le_of_succ_le hleft)]

theorem length_le_textAt (h : Names arr) {n : ℕ} (hn : n ≤ arr.length)
    (hpieces : Separated n pieces) : pieces.length ≤ (textAt arr k pieces).length := by
  induction pieces with
  | nil => exact Nat.zero_le _
  | cons p pieces ih =>
      rw [textAt, List.flatMap_cons, List.length_append, List.length_cons]
      cases p with
      | char c =>
          have hrest := ih hpieces.2
          rw [textAt] at hrest
          simp only [Piece.text, List.length_singleton]
          omega
      | name i =>
          have hrest := ih hpieces.2.2
          rw [textAt] at hrest
          have hpos : 0 < (Piece.text arr k (.name i)).length := by
            rw [Piece.text]
            split
            · exact List.length_pos_of_ne_nil (decimal_ne_nil i)
            · exact List.length_pos_of_ne_nil
                (h.ne_nil (Names.getD_mem (hpieces.1.trans_le hn)))
          omega

/-- `replace_ordinals` replaces the names one after another. -/
theorem replaceOrdinals_textAt (h : Names arr)
    (hpieces : Separated arr.length pieces) :
    replaceOrdinals (textAt arr 0 pieces) arr = textAt arr arr.length pieces := by
  have hsuffix : ∀ pre suffix, arr = pre ++ suffix →
      (suffix.zipIdx pre.length).foldl
        (fun cur name => strReplace cur name.1 (decimal name.2))
        (textAt arr pre.length pieces) = textAt arr arr.length pieces := by
    intro pre suffix
    induction suffix generalizing pre with
    | nil =>
        intro harr
        rw [List.append_nil] at harr
        rw [← harr]
        rfl
    | cons name suffix ih =>
        intro harr
        have hk : pre.length < arr.length := by
          rw [harr, List.length_append, List.length_cons]
          omega
        have hget : arr.getD pre.length [] = name := by
          rw [List.getD_eq_getElem _ _ hk]
          simp [harr]
        have hstep := strReplaceFrom_textAt h hk hpieces
          (length_le_textAt (k := pre.length) h le_rfl hpieces)
        have hrest := ih (pre ++ [name]) (by rw [harr, List.append_assoc]; rfl)
        rw [List.length_append, List.length_singleton] at hrest
        rw [hget] at hstep
        rw [List.zipIdx_cons, List.foldl_cons, strReplace, hstep]
        exact hrest
  exact hsuffix [] arr rfl

end Replace

/-! ## Texts with names -/

/-- A name stands for its index, in letters of either case. -/
def CronNumber.Named (arr : List CStr) (n : CronNumber) : Prop :=
  ∀ s ∈ n.name, arr[n.value]? = some (toUpper s)

/-- The names of a field are those of its numbers. -/
def FieldNamed (arr : List CStr) (items : List CronItem) : Prop :=
  ∀ item ∈ items, ∀ n ∈ item.range.numbers, n.Named arr

section Congr

variable {α : Type} {num num' : CronNumber → List α} {char char' : UInt8 → α}

theorem CronRange.render_congr (hchar : ∀ c, IsMark c → char c = char' c)
    {r : CronRange} (hnum : ∀ n ∈ r.numbers, num n = num' n) :
    r.render num char = r.render num' char' := by
  cases r with
  | every => rw [render, render, hchar 42 IsMark.star]
  | value a => exact hnum a List.mem_cons_self
  | range a b =>
      rw [render, render, hchar 45 IsMark.dash, hnum a List.mem_cons_self,
        hnum b (List.mem_cons_of_mem _ List.mem_cons_self)]

theorem CronItem.render_congr (hchar : ∀ c, IsMark c → char c = char' c)
    {item : CronItem} (hnum : ∀ n ∈ item.range.numbers, num n = num' n) :
    item.render num char = item.render num' char' := by
  rw [render, render, CronRange.render_congr hchar hnum]
  cases item.step with
  | none => rfl
  | some n =>
      have hdigits : (decimal n).map char = (decimal n).map char' :=
        List.map_congr_left fun c hc => hchar c (isMark_decimal hc)
      simp only [hdigits, hchar 47 IsMark.slash]

theorem renderField_congr (hchar : ∀ c, IsMark c → char c = char' c)
    {items : List CronItem}
    (hnum : ∀ item ∈ items, ∀ n ∈ item.range.numbers, num n = num' n) :
    renderField num char items = renderField num' char' items := by
  have hitems : items.map (CronItem.render num char) =
      items.map (CronItem.render num' char') :=
    List.map_congr_left fun item hitem =>
      CronItem.render_congr hchar (hnum item hitem)
  rw [renderField, renderField, hitems, hchar 44 IsMark.comma]

end Congr

theorem toupper_mark {c : UInt8} (h : IsMark c) : toupper c = c := by
  cases h with
  | digit d hd => interval_cases d <;> rfl
  | star => rfl
  | comma => rfl
  | dash => rfl
  | slash => rfl

theorem toUpper_decimal (n : ℕ) : toUpper (decimal n) = decimal n := by
  rw [toUpper]
  exact (List.map_congr_left fun c hc => toupper_mark (isMark_decimal hc)).trans
    (List.map_id _)

theorem CronNumber.textAt_pieces (arr : List CStr) (k : ℕ) (n : CronNumber) :
    n.pieces.flatMap (Piece.text arr k) =
      if n.name = none then decimal n.value
      else Piece.text arr k (.name n.value) := by
  rw [pieces]
  cases n.name with
  | none =>
      rw [if_pos rfl, flatMap_map_char id fun _ => rfl, List.map_id]
  | some s =>
      rw [if_neg (Option.some_ne_none s), List.flatMap_cons, List.flatMap_nil,
        List.append_nil]

theorem toUpper_fieldText {arr : List CStr} {items : List CronItem}
    (h : FieldNamed arr items) :
    toUpper (fieldText items) =
      textAt arr 0 (renderField CronNumber.pieces .char items) := by
  rw [toUpper, List.map_eq_flatMap, fieldText,
    flatMap_renderField toupper fun _ => rfl, textAt,
    flatMap_renderField id fun _ => rfl]
  refine renderField_congr (fun c hc => toupper_mark hc) fun item hitem n hn => ?_
  have hnamed := h item hitem n hn
  rw [CronNumber.textAt_pieces, ← List.map_eq_flatMap, CronNumber.text]
  cases hname : n.name with
  | none =>
      rw [if_pos rfl]
      exact toUpper_decimal n.value
  | some s =>
      rw [if_neg (Option.some_ne_none s), Piece.text, if_neg (Nat.not_lt_zero _),
        List.getD_eq_getElem?_getD, hnamed s hname]
      rfl

theorem plainText_eq {arr : List CStr} {items : List CronItem}
    (h : FieldNamed arr items) :
    plainText items =
      textAt arr arr.length (renderField CronNumber.pieces .char items) := by
  rw [plainText, textAt, flatMap_renderField id fun _ => rfl]
  refine renderField_congr (fun _ _ => rfl) fun item hitem n hn => ?_
  have hnamed := h item hitem n hn
  rw [CronNumber.textAt_pieces, CronNumber.plain]
  cases hname : n.name with
  | none => rw [if_pos rfl]
  | some s =>
      have hlt : n.value < arr.length :=
        (List.getElem?_eq_some_iff.mp (hnamed s hname)).1
      rw [if_neg (Option.some_ne_none s), Piece.text, if_pos hlt]

/-! ## Pieces of a field -/

theorem Separated.append {n : ℕ} {a b : List Piece} (ha : Separated n a)
    (hb : Separated n b) (hhead : ∀ p ∈ b.head?, ∃ c, p = .char c) :
    Separated n (a ++ b) := by
  induction a with
  | nil => exact hb
  | cons p a ih =>
      cases p with
      | char c => exact ⟨ha.1, ih ha.2⟩
      | name i =>
          refine ⟨ha.1, ?_, ih ha.2.2⟩
          cases a with
          | nil => exact hhead
          | cons p a => exact ha.2.1

theorem separated_decimal (n k : ℕ) : Separated n ((decimal k).map .char) := by
  have hmarks : ∀ s : CStr, (∀ c ∈ s, IsMark c) → Separated n (s.map .char) := by
    intro s hs
    induction s with
    | nil => trivial
    | cons c s ih =>
        exact ⟨hs c List.mem_cons_self,
          ih fun c hc => hs c (List.mem_cons_of_mem _ hc)⟩
  exact hmarks _ fun c hc => isMark_decimal hc

theorem CronNumber.separated {arr : List CStr} {n : CronNumber}
    (h : n.Named arr) : Separated arr.length n.pieces := by
  rw [pieces]
  cases hname : n.name with
  | none => exact separated_decimal _ _
  | some s =>
      exact ⟨(List.getElem?_eq_some_iff.mp (h s hname)).1, nofun, trivial⟩

theorem head_char {c : UInt8} {pieces : List Piece} :
    ∀ p ∈ (Piece.char c :: pieces).head?, ∃ c, p = .char c :=
  fun _ hp => ⟨c, (Option.some.inj hp).symm⟩

theorem CronItem.separated {arr : List CStr} {item : CronItem}
    (h : ∀ n ∈ item.range.numbers, n.Named arr) :
    Separated arr.length (item.render CronNumber.pieces .char) := by
  have hrange : Separated arr.length
      (item.range.render CronNumber.pieces .char) := by
    cases hitem : item.range with
    | every => exact ⟨IsMark.star, trivial⟩
    | value a =>
        rw [hitem] at h
        exact CronNumber.separated (h a List.mem_cons_self)
    | range a b =>
        rw [hitem] at h
        have hb := CronNumber.separated
          (h b (List.mem_cons_of_mem _ List.mem_cons_self))
        exact (CronNumber.separated (h a List.mem_cons_self)).append
          ⟨IsMark.dash, hb⟩ head_char
  rw [render]
  cases item.step with
  | none =>
      exact hrange.append trivial fun p hp => absurd hp (Option.not_mem_none p)
  | some n => exact hrange.append ⟨IsMark.slash, separated_decimal _ n⟩ head_char

theorem separated_field {arr : List CStr} {items : List CronItem}
    (h : FieldNamed arr items) :
    Separated arr.length (renderField CronNumber.pieces .char items) := by
  induction items with
  | nil => trivial
  | cons item items ih =>
      have hfirst := CronItem.separated (h item List.mem_cons_self)
      have hrest := ih fun item hitem => h item (List.mem_cons_of_mem _ hitem)
      cases items with
      | nil =>
          rw [renderField, List.map_cons, List.map_nil, List.intercalate_singleton]
          exact hfirst
      | cons item' items =>
          rw [renderField, List.map_cons, List.map_cons,
            List.intercalate_cons_cons, List.append_assoc]
          exact hfirst.append ⟨IsMark.comma, hrest⟩ head_char

/-- `replace_ordinals` takes the names out of a field. -/
theorem replaceOrdinals_fieldText {arr : List CStr} (hnames : Names arr)
    {items : List CronItem} (h : FieldNamed arr items) :
    replaceOrdinals (toUpper (fieldText items)) arr = plainText items := by
  rw [toUpper_fieldText h, replaceOrdinals_textAt hnames (separated_field h),
    plainText_eq h]

/-! ## Lengths and characters -/

/-- A number is no longer than its name. -/
theorem length_textAt_le {arr : List CStr} (hnames : Names arr)
    (harr : arr.length ≤ 100) {pieces : List Piece}
    (h : Separated arr.length pieces) :
    (textAt arr arr.length pieces).length ≤ (textAt arr 0 pieces).length := by
  induction pieces with
  | nil => exact le_rfl
  | cons p pieces ih =>
      rw [textAt, textAt, List.flatMap_cons, List.flatMap_cons,
        List.length_append, List.length_append]
      cases p with
      | char c => exact Nat.add_le_add le_rfl (ih h.2)
      | name i =>
          refine Nat.add_le_add ?_ (ih h.2.2)
          have hthree := hnames.length _ (Names.getD_mem h.1)
          have htwo := (decimal_length_le_iff (n := i) (k := 2) (by decide)).mpr
            (by have := h.1; omega)
          rw [Piece.text, Piece.text, if_pos h.1, if_neg (Nat.not_lt_zero i)]
          omega

theorem length_plainText_le {arr : List CStr} (hnames : Names arr)
    (harr : arr.length ≤ 100) {items : List CronItem} (h : FieldNamed arr items) :
    (plainText items).length ≤ (fieldText items).length := by
  have hupper := congrArg List.length (toUpper_fieldText h)
  rw [toUpper, List.length_map] at hupper
  rw [plainText_eq h, hupper]
  exact length_textAt_le hnames harr (separated_field h)

theorem plainText_of_nil {items : List CronItem} (h : FieldNamed [] items) :
    plainText items = fieldText items := by
  refine renderField_congr (fun _ _ => rfl) fun item hitem n hn => ?_
  have hnone : n.name = none := by
    rw [Option.eq_none_iff_forall_not_mem]
    exact fun s hs => (by cases h item hitem n hn s hs)
  rw [CronNumber.plain, CronNumber.text, hnone]
  rfl

theorem not_isspace_of_capital {c : UInt8} (h : IsCapital (toupper c)) :
    c ≠ 63 ∧ isspace c = false := by
  refine ⟨fun heq => ?_, ?_⟩
  · rw [heq] at h
    exact absurd h (by decide)
  · by_contra hspace
    have hblank : c = 32 ∨ 9 ≤ c ∧ c ≤ 13 := by
      simpa only [isspace, Bool.not_eq_false, Bool.or_eq_true, Bool.and_eq_true,
        decide_eq_true_eq] using hspace
    have hle : c.toNat ≤ 32 := by
      rcases hblank with rfl | ⟨-, hle⟩
      · decide
      · exact (UInt8.le_iff_toNat_le.mp hle).trans (by decide)
    have hlow : toupper c = c := by
      have hnot : ¬97 ≤ c := fun hge =>
        absurd (UInt8.le_iff_toNat_le.mp hge) (by
          rw [show (97 : UInt8).toNat = 97 from rfl]
          omega)
      simp [toupper, hnot]
    rw [hlow, IsCapital] at h
    omega

/-- The characters of a field are neither blanks nor question marks. -/
theorem fieldText_char {arr : List CStr} (hnames : Names arr)
    {items : List CronItem} (h : FieldNamed arr items) :
    ∀ c ∈ fieldText items, c ≠ 63 ∧ isspace c = false := by
  have hmark : ∀ c, IsMark c → c ≠ 63 ∧ isspace c = false := by
    refine fun c hc => ⟨?_, hc.isspace_eq⟩
    rintro rfl
    generalize hvalue : (63 : UInt8) = c at hc
    cases hc with
    | digit d hd => interval_cases d <;> exact absurd hvalue (by decide)
    | star => exact absurd hvalue (by decide)
    | comma => exact absurd hvalue (by decide)
    | dash => exact absurd hvalue (by decide)
    | slash => exact absurd hvalue (by decide)
  refine forall_renderField hmark fun item hitem n hn c hc => ?_
  have hnamed := h item hitem n hn
  rw [CronNumber.text] at hc
  cases hname : n.name with
  | none =>
      rw [hname] at hc
      exact hmark c (isMark_decimal hc)
  | some s =>
      rw [hname] at hc
      have hmem := List.mem_of_getElem? (hnamed s hname)
      exact not_isspace_of_capital
        (hnames.capital _ hmem _ (List.mem_map_of_mem hc))

/-! ## Fields -/

/-- The items of a field, with the names and the limits of the field. -/
structure FieldValid (arr : List CStr) (min max : ℕ) (items : List CronItem) :
    Prop where
  ne_nil : items ≠ []
  valid : ∀ item ∈ items, item.Valid min max
  named : FieldNamed arr items

/-- A value that a field names. -/
def NamesValue (min max : ℕ) (items : List CronItem) (i : ℕ) : Prop :=
  ∃ item ∈ items, item.Names min max i

section Fields

variable {items : List CronItem} {min max n : ℕ}

theorem names_nil : Names [] := ⟨List.nodup_nil, nofun, nofun⟩

theorem fieldText_ne_nil {arr : List CStr} (hnames : Names arr)
    (harr : arr.length ≤ 100) (h : FieldValid arr min max items) :
    fieldText items ≠ [] := by
  have hle := length_plainText_le hnames harr h.named
  obtain ⟨item, items, rfl⟩ := List.exists_cons_of_ne_nil h.ne_nil
  have hitem : (item.render CronNumber.plain id).length ≤
      (plainText (item :: items)).length :=
    length_le_intercalate (List.mem_map_of_mem List.mem_cons_self)
  have hpos := List.length_pos_of_ne_nil item.plain_isWord.1
  exact List.ne_nil_of_length_pos (by omega)

theorem fieldText_isWord {arr : List CStr} (hnames : Names arr)
    (harr : arr.length ≤ 100) (h : FieldValid arr min max items) :
    IsWord 32 (fieldText items) := by
  refine ⟨fieldText_ne_nil hnames harr h, fun c hc => ?_⟩
  obtain ⟨-, hspace⟩ := fieldText_char hnames h.named c hc
  refine ⟨?_, hspace⟩
  rintro rfl
  exact absurd hspace (by decide)

theorem everyDay_fieldText {arr : List CStr} (hnames : Names arr)
    (h : FieldNamed arr items) : everyDay (fieldText items) = fieldText items := by
  refine if_neg fun heq => ?_
  exact (fieldText_char hnames h 63 (by rw [heq]; exact List.mem_cons_self)).1 rfl

/-- `set_number_hits` reads a field without names. -/
theorem setNumberHits_text (h : FieldValid [] min max items)
    (hmax : (max : ℤ) ≤ intMax)
    (hlength : (fieldText items).length < cronMaxStrLenToSplit)
    (hsize : max ≤ 8 * n) :
    ∃ bits, setNumberHits (fieldText items) (List.replicate n 0) min max =
        (bits, none) ∧ bits.length = n ∧
      ∀ i, cronGetBit bits i = true ↔ NamesValue min max items i := by
  rw [← plainText_of_nil h.named] at hlength ⊢
  exact setNumberHits_plain h.ne_nil hmax h.valid hlength hsize

/-- `set_number_hits` reads a field whose names are replaced. -/
theorem setNumberHits_named {arr : List CStr} (hnames : Names arr)
    (harr : arr.length ≤ 100) (h : FieldValid arr min max items)
    (hmax : (max : ℤ) ≤ intMax)
    (hlength : (fieldText items).length < cronMaxStrLenToSplit)
    (hsize : max ≤ 8 * n) :
    ∃ bits, setNumberHits (replaceOrdinals (toUpper (fieldText items)) arr)
        (List.replicate n 0) min max = (bits, none) ∧ bits.length = n ∧
      ∀ i, cronGetBit bits i = true ↔ NamesValue min max items i := by
  rw [replaceOrdinals_fieldText hnames h.named]
  exact setNumberHits_plain h.ne_nil hmax h.valid
    ((length_plainText_le hnames harr h.named).trans_lt hlength) hsize

end Fields

/-! ## Expressions -/

/-- The fields of an expression. -/
structure CronSchedule where
  seconds : List CronItem
  minutes : List CronItem
  hours : List CronItem
  daysOfMonth : List CronItem
  months : List CronItem
  daysOfWeek : List CronItem

namespace CronSchedule

def text (s : CronSchedule) : CStr :=
  [32].intercalate [fieldText s.seconds, fieldText s.minutes, fieldText s.hours,
    fieldText s.daysOfMonth, fieldText s.months, fieldText s.daysOfWeek]

/-- An expression that the parser takes: the fields are in their limits, and the
text is not too long. -/
structure Valid (s : CronSchedule) : Prop where
  seconds : FieldValid [] 0 60 s.seconds
  minutes : FieldValid [] 0 60 s.minutes
  hours : FieldValid [] 0 24 s.hours
  daysOfMonth : FieldValid [] 1 32 s.daysOfMonth
  months : FieldValid monthsArr 1 13 s.months
  daysOfWeek : FieldValid daysArr 0 8 s.daysOfWeek
  length : s.text.length < cronMaxStrLenToSplit

/-- The sets of an expression are the values that its text names.  The months
count from 0 in the sets, and 7 is a Sunday, too. -/
structure Denotes (s : CronSchedule) (e : CronExpr) : Prop where
  seconds : ∀ i, cronGetBit e.seconds i = true ↔ NamesValue 0 60 s.seconds i
  minutes : ∀ i, cronGetBit e.minutes i = true ↔ NamesValue 0 60 s.minutes i
  hours : ∀ i, cronGetBit e.hours i = true ↔ NamesValue 0 24 s.hours i
  daysOfMonth : ∀ i, cronGetBit e.daysOfMonth i = true ↔
    NamesValue 1 32 s.daysOfMonth i
  months : ∀ i, cronGetBit e.months i = true ↔ NamesValue 1 13 s.months (i + 1)
  daysOfWeek : ∀ i, cronGetBit e.daysOfWeek i = true ↔
    i < 7 ∧ (NamesValue 0 8 s.daysOfWeek i ∨
      i = 0 ∧ NamesValue 0 8 s.daysOfWeek 7)

theorem fields_length {s : CronSchedule} (h : s.Valid) :
    ∀ field ∈ [fieldText s.seconds, fieldText s.minutes, fieldText s.hours,
      fieldText s.daysOfMonth, fieldText s.months, fieldText s.daysOfWeek],
      field.length < cronMaxStrLenToSplit :=
  fun _ hfield => (length_le_intercalate hfield).trans_lt h.length

theorem split_text {s : CronSchedule} (h : s.Valid) :
    splitStr s.text 32 =
      [fieldText s.seconds, fieldText s.minutes, fieldText s.hours,
        fieldText s.daysOfMonth, fieldText s.months, fieldText s.daysOfWeek] := by
  refine splitStr_join (fun word hword => ?_) h.length
  simp only [List.mem_cons, List.not_mem_nil, or_false] at hword
  rcases hword with rfl | rfl | rfl | rfl | rfl | rfl
  · exact fieldText_isWord names_nil (Nat.zero_le _) h.seconds
  · exact fieldText_isWord names_nil (Nat.zero_le _) h.minutes
  · exact fieldText_isWord names_nil (Nat.zero_le _) h.hours
  · exact fieldText_isWord names_nil (Nat.zero_le _) h.daysOfMonth
  · exact fieldText_isWord names_months (by decide) h.months
  · exact fieldText_isWord names_days (by decide) h.daysOfWeek

end CronSchedule

theorem namesValue_lt {min max i : ℕ} {items : List CronItem}
    (hvalid : ∀ item ∈ items, item.Valid min max)
    (h : NamesValue min max items i) : min ≤ i ∧ i < max := by
  obtain ⟨item, hitem, hge, hle, -⟩ := h
  have hmin := (hvalid item hitem).range.ge
  have hmax := (hvalid item hitem).last_lt
  omega

theorem setMonths_text {items : List CronItem}
    (h : FieldValid monthsArr 1 13 items)
    (hlength : (fieldText items).length < cronMaxStrLenToSplit) :
    ∃ bits, setMonths (fieldText items) clearExpr.months = (bits, none) ∧
      ∀ i, cronGetBit bits i = true ↔ NamesValue 1 13 items (i + 1) := by
  obtain ⟨bits, hset, hsize, hbits⟩ := setNumberHits_named (n := 2) names_months
    (by decide) h (by decide) hlength (by decide)
  have hzero : cronGetBit bits 0 = false := by
    by_contra hbit
    have := namesValue_lt h.valid
      ((hbits 0).mp (Bool.eq_true_of_not_eq_false hbit))
    omega
  refine ⟨shiftMonths bits 12, by rw [setMonths_clear, hset], fun i => ?_⟩
  rw [cronGetBit_shiftMonths (by omega) hzero, hbits, hbits]
  constructor
  · rintro (⟨-, hi⟩ | ⟨hlt, hi⟩)
    · exact hi
    · have := namesValue_lt h.valid hi
      omega
  · intro hi
    have := namesValue_lt h.valid hi
    exact Or.inl ⟨by omega, hi⟩

theorem setDaysOfWeek_text {items : List CronItem}
    (h : FieldValid daysArr 0 8 items)
    (hlength : (fieldText items).length < cronMaxStrLenToSplit) :
    ∃ bits, setDaysOfWeek (fieldText items) clearExpr.daysOfWeek = (bits, none) ∧
      ∀ i, cronGetBit bits i = true ↔
        i < 7 ∧ (NamesValue 0 8 items i ∨ i = 0 ∧ NamesValue 0 8 items 7) := by
  obtain ⟨bits, hset, hsize, hbits⟩ := setNumberHits_named (n := 1) names_days
    (by decide) h (by decide) hlength (by decide)
  refine ⟨moveBit bits 7 0, ?_, fun i => ?_⟩
  · rw [setDaysOfWeek_clear, everyDay_fieldText names_days h.named, hset]
  · rw [cronGetBit_moveBit (by omega) (by omega), hbits, hbits]
    constructor
    · rintro ⟨hne, ⟨rfl, hseven⟩ | hi⟩
      · exact ⟨by decide, Or.inr ⟨rfl, hseven⟩⟩
      · have := namesValue_lt h.valid hi
        exact ⟨by omega, Or.inl hi⟩
    · rintro ⟨hlt, hi | ⟨rfl, hseven⟩⟩
      · exact ⟨by omega, Or.inr hi⟩
      · exact ⟨by decide, Or.inl ⟨rfl, hseven⟩⟩

/-- The parser reads the text of an expression: it reports no error, and sets
what the text names. -/
theorem cronParseExpr_denotes (s : CronSchedule) (h : s.Valid) (target : CronExpr) :
    ∃ e, cronParseExpr (some s.text) target = (e, none) ∧ s.Denotes e := by
  have hlength := CronSchedule.fields_length h
  simp only [List.mem_cons, List.not_mem_nil, or_false, forall_eq_or_imp,
    forall_eq] at hlength
  obtain ⟨hseconds, hminutes, hhours, hdays, hmonths, hweek⟩ := hlength
  obtain ⟨seconds, hseconds, -, hsecond⟩ := setNumberHits_text (n := 8) h.seconds
    (by decide) hseconds (by decide)
  obtain ⟨minutes, hminutes, -, hminute⟩ := setNumberHits_text (n := 8) h.minutes
    (by decide) hminutes (by decide)
  obtain ⟨hours, hhours, -, hhour⟩ := setNumberHits_text (n := 3) h.hours
    (by decide) hhours (by decide)
  obtain ⟨days, hdays, -, hday⟩ := setNumberHits_text (n := 4) h.daysOfMonth
    (by decide) hdays (by decide)
  obtain ⟨months, hmonths, hmonth⟩ := setMonths_text h.months hmonths
  obtain ⟨week, hweek, hweekday⟩ := setDaysOfWeek_text h.daysOfWeek hweek
  have hdays' : setDaysOfMonth (fieldText s.daysOfMonth) clearExpr.daysOfMonth =
      (days, none) := by
    rw [setDaysOfMonth, everyDay_fieldText names_nil h.daysOfMonth.named]
    exact hdays
  refine ⟨⟨seconds, minutes, hours, week, days, months⟩, ?_,
    ⟨hsecond, hminute, hhour, hday, hmonth, hweekday⟩⟩
  simp only [cronParseExpr, CronSchedule.split_text h]
  rw [show clearExpr.seconds = List.replicate 8 0 from rfl,
    show clearExpr.minutes = List.replicate 8 0 from rfl,
    show clearExpr.hours = List.replicate 3 0 from rfl, hseconds, hminutes,
    hhours, hdays', hmonths, hweek]
  rfl

end Herak.Scripts
