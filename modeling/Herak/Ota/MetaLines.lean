import Herak.Ota.MetaIsolation
import Herak.Support.Substring

/-!
# Metadata line by line

A metadata file has one line for each field: the name, blanks, the value and
the end of the line.  The parser does not read lines.  It takes the first place
in the whole text where the name stands, so that a value of an earlier line
that has another field's name in it is read for that field, and it cannot tell
the blanks of a value from those before it.  On every other file each field is
read from its own line.
-/

namespace Herak.Ota

open CString

/-! ## The text behind a name -/

/-- The value at a place of the text, if there is one. -/
def valueText (s : CStr) : Option CStr :=
  if s.dropWhile isBlank = [] then none
  else some ((s.dropWhile isBlank).takeWhile fun ch => !isLineEnd ch)

/-- The value the parser takes for a field. -/
def reading (s : CStr) (i : MetaId) : Option CStr :=
  (strstr s i.name).bind fun o => valueText (s.drop (o + i.name.length))

theorem fieldOffset_map_lineText (s : CStr) (i : MetaId) :
    (fieldOffset s i).map (lineText s) = reading s i := by
  unfold fieldOffset findValue reading
  cases strstr s i.name with
  | none => rfl
  | some o =>
      have hdrop : s.drop (o + i.name.length +
          ((s.drop (o + i.name.length)).takeWhile isBlank).length) =
          (s.drop (o + i.name.length)).dropWhile isBlank := by
        rw [← List.drop_drop]
        conv_lhs =>
          rw [← List.takeWhile_append_dropWhile (p := isBlank)
            (l := s.drop (o + i.name.length))]
        rw [List.drop_left' (by simp)]
      simp only [strlen_eq, hdrop, Option.bind_some, valueText]
      split
      next h => simp [lineText, hdrop, of_decide_eq_true h]
      next h => simp [of_not_not fun hne => h (decide_eq_true hne)]

theorem metaFields_eq_some_iff_reading {s : CStr} {fields : MetaId → CStr} :
    metaFields s = some fields ↔ ∀ i, reading s i = some (fields i) := by
  rw [metaFields_eq_some_iff]
  refine forall_congr' fun i => ?_
  rw [← fieldOffset_map_lineText, Option.map_eq_some_iff]
  simp only [eq_comm]

/-- A value that is read does not start with a blank. -/
theorem isBlank_head_reading {s v : CStr} {i : MetaId}
    (h : reading s i = some v) : ∀ ch ∈ v.head?, isBlank ch = false := by
  obtain ⟨o, -, hvalue⟩ := Option.bind_eq_some_iff.mp h
  unfold valueText at hvalue
  split at hvalue
  · contradiction
  next hne =>
    obtain rfl := Option.some_inj.mp hvalue
    intro ch hch
    have hfirst := List.head?_dropWhile_not isBlank
      (s.drop (o + i.name.length))
    cases htail : (s.drop (o + i.name.length)).dropWhile isBlank with
    | nil => exact absurd htail hne
    | cons c tail =>
        simp only [htail, List.head?_cons, List.takeWhile_cons] at hfirst hch
        split at hch
        · simp only [List.head?_cons, Option.mem_def,
            Option.some.injEq] at hch
          rw [← hch, hfirst]
        · simp at hch

/-- The characters before a piece do not matter where no name starts in it. -/
theorem reading_append {s t : CStr} {i : MetaId}
    (h : strstr (s ++ t) i.name = (strstr t i.name).map (s.length + ·)) :
    reading (s ++ t) i = reading t i := by
  unfold reading
  rw [h, Option.bind_map]
  refine congrArg (Option.bind _) (funext fun o => ?_)
  rw [Function.comp_apply, Nat.add_assoc, List.drop_append,
    List.drop_eq_nil_of_le (by omega), List.nil_append,
    Nat.add_sub_cancel_left]

theorem dropWhile_isBlank_append {v t : CStr}
    (ht : ∀ ch ∈ t.head?, isLineEnd ch = true) :
    (v ++ t).dropWhile isBlank = v.dropWhile isBlank ++ t := by
  rw [List.dropWhile_append]
  split
  next hnil =>
    rw [List.isEmpty_iff] at hnil
    rw [hnil, List.nil_append]
    cases t with
    | nil => rfl
    | cons ch t =>
        refine List.dropWhile_cons_of_neg fun hblank => ?_
        have hend := ht ch rfl
        simp only [isBlank, isLineEnd, Bool.or_eq_true,
          decide_eq_true_eq] at hblank hend
        rcases hblank with rfl | rfl <;> simp at hend
  · rfl

theorem takeWhile_line_eq_nil_iff {t : CStr} :
    (t.takeWhile fun ch => !isLineEnd ch) = [] ↔
      ∀ ch ∈ t.head?, isLineEnd ch = true := by
  cases t with
  | nil => simp
  | cons ch t => by_cases hch : isLineEnd ch = true <;> simp [hch]

/-- The value at a place is the rest of the line. -/
theorem valueText_append {v t : CStr}
    (hplain : ∀ ch ∈ v, isLineEnd ch = false)
    (ht : ∀ ch ∈ t.head?, isLineEnd ch = true)
    (hne : v.dropWhile isBlank ++ t ≠ []) :
    valueText (v ++ t) = some (v.dropWhile isBlank) := by
  have hrest : ∀ ch ∈ v.dropWhile isBlank, (!isLineEnd ch) = true := by
    intro ch hch
    simp [hplain ch (List.dropWhile_subset isBlank hch)]
  rw [valueText, dropWhile_isBlank_append ht, if_neg hne,
    List.takeWhile_append_of_pos hrest, takeWhile_line_eq_nil_iff.mpr ht,
    List.append_nil]

/-! ## The names -/

theorem MetaId.name_ne_nil (i : MetaId) : i.name ≠ [] := by
  cases i <;> decide

theorem MetaId.name_eq (i : MetaId) : i.name = i.name.dropLast ++ [58] := by
  cases i <;> decide

theorem MetaId.colon_not_mem (i : MetaId) : 58 ∉ i.name.dropLast := by
  cases i <;> decide

theorem MetaId.isLineEnd_name (i : MetaId) :
    ∀ ch ∈ i.name, isLineEnd ch = false := by
  cases i <;> decide +kernel

theorem MetaId.isBlank_head_name (i : MetaId) :
    ∀ ch ∈ i.name.head?, isBlank ch = false := by
  cases i <;> decide +kernel

/-- No name is the end of another one. -/
theorem MetaId.eq_of_suffix {i j : MetaId} (h : i.name <:+ j.name) :
    i = j := by
  revert h
  cases i <;> cases j <;> decide

/-- No name starts inside another one: it would have to end at the same
colon. -/
theorem MetaId.strstr_name_append {i j : MetaId} (hne : j ≠ i) (t : CStr) :
    strstr (j.name ++ t) i.name =
      (strstr t i.name).map (j.name.length + ·) := by
  refine strstr_append_right fun k hk hprefix => ?_
  obtain ⟨u, hu⟩ := hprefix
  have hstem : k ≤ j.name.dropLast.length := by
    rw [List.length_dropLast]
    omega
  have hdrop : j.name.drop k = j.name.dropLast.drop k ++ [58] := by
    conv_lhs => rw [j.name_eq, List.drop_append_of_le_length hstem]
  have hsplit : i.name.dropLast ++ 58 :: u =
      j.name.dropLast.drop k ++ 58 :: t := by
    rw [i.name_eq, hdrop] at hu
    simpa using hu
  have hsame := (append_delim_inj i.colon_not_mem
    (fun hmem => j.colon_not_mem (List.mem_of_mem_drop hmem)) hsplit).1
  refine hne (MetaId.eq_of_suffix ?_).symm
  rw [i.name_eq, hsame, ← hdrop]
  exact List.drop_suffix k _

/-! ## Files of lines -/

/-- A line of a metadata file. -/
structure MetaLine where
  id : MetaId
  blanks : CStr
  value : CStr
  ending : CStr
  blank : ∀ ch ∈ blanks, isBlank ch = true
  valued : value ≠ []
  plain : ∀ ch ∈ value, isLineEnd ch = false
  ends : ∀ ch ∈ ending, ch = 10 ∨ ch = 13

def MetaLine.text (l : MetaLine) : CStr :=
  l.id.name ++ l.blanks ++ l.value ++ l.ending

/-- The text of lines one below the other. -/
def linesText (ls : List MetaLine) : CStr :=
  ls.flatMap MetaLine.text

/-- A metadata file: one line for each field in any order, where only the last
line may lack its line break. -/
structure MetaFile where
  lines : List MetaLine
  keys : (lines.map MetaLine.id).Perm MetaId.all
  ended : ∀ l ∈ lines.dropLast, l.ending ≠ []

def MetaFile.text (file : MetaFile) : CStr :=
  linesText file.lines

/-- The text behind the name of a field inside a value. -/
def behind (i : MetaId) (value : CStr) : Option CStr :=
  (strstr value i.name).map fun o =>
    (value.drop (o + i.name.length)).dropWhile isBlank

/-- No value starts with a blank, the first value above the line of a field
that has the name of the field in it has the same value behind it, and a last
line without a line break that is read itself is not continued by what the
buffer has behind the file. -/
structure MetaFile.Readable (file : MetaFile) (rest : CStr) : Prop where
  unblanked : ∀ l ∈ file.lines, ∀ ch ∈ l.value.head?, isBlank ch = false
  undisturbed : ∀ before l after, file.lines = before ++ l :: after →
    ∀ text ∈ before.findSome? fun above => behind l.id above.value,
      text = l.value
  closed : ∀ before l, file.lines = before ++ [l] → l.ending = [] →
    (before.findSome? fun above => behind l.id above.value) = none →
      ∀ ch ∈ rest.head?, isLineEnd ch = true

/-! ## Reading a line -/

theorem MetaLine.isLineEnd_ending (l : MetaLine) :
    ∀ ch ∈ l.ending, isLineEnd ch = true := by
  intro ch hch
  rcases l.ends ch hch with rfl | rfl <;> rfl

theorem MetaLine.isLineEnd_head {l : MetaLine} (hending : l.ending ≠ [])
    (t : CStr) : ∀ ch ∈ (l.ending ++ t).head?, isLineEnd ch = true := by
  intro ch hch
  rw [List.head?_append_of_ne_nil _ hending] at hch
  exact l.isLineEnd_ending ch (List.mem_of_mem_head? hch)

/-- A line of another field: the parser takes what is behind the name in the
value, if the name is there, and looks below else. -/
theorem MetaLine.reading_of_ne {l : MetaLine} {i : MetaId} (hne : l.id ≠ i)
    (hending : l.ending ≠ []) (t : CStr) :
    reading (l.text ++ t) i = (behind i l.value).or (reading t i) := by
  have hhead := MetaLine.isLineEnd_head hending t
  have hskip : reading (l.text ++ t) i =
      reading (l.value ++ (l.ending ++ t)) i := by
    rw [MetaLine.text, List.append_assoc, List.append_assoc,
      List.append_assoc, reading_append (MetaId.strstr_name_append hne _)]
    refine reading_append (strstr_append_of_head i.name_ne_nil ?_)
    intro ch hch hfirst
    have hnot := i.isBlank_head_name ch hfirst
    rw [l.blank ch hch] at hnot
    contradiction
  rw [hskip, behind]
  cases hstr : strstr l.value i.name with
  | none =>
      rw [Option.map_none, Option.none_or, reading_append, reading_append]
      · refine strstr_append_of_head i.name_ne_nil fun ch hch hfirst => ?_
        have hnot := i.isLineEnd_name ch (List.mem_of_mem_head? hfirst)
        rw [l.isLineEnd_ending ch hch] at hnot
        contradiction
      · refine strstr_append_of_none hstr fun ch hch hmem => ?_
        have hnot := i.isLineEnd_name ch hmem
        rw [hhead ch hch] at hnot
        contradiction
  | some o =>
      have hfits := strstr_length_le hstr
      rw [Option.map_some, Option.some_or, reading,
        strstr_append _ hstr, Option.bind_some,
        List.drop_append_of_le_length hfits]
      refine valueText_append ?_ hhead (by simp [hending])
      exact fun ch hch => l.plain ch (List.mem_of_mem_drop hch)

/-- The own line of a field: the parser takes the rest of the line. -/
theorem MetaLine.reading_self {l : MetaLine} (t : CStr)
    (hvalue : ∀ ch ∈ l.value.head?, isBlank ch = false) :
    reading (l.text ++ t) l.id =
      some (l.value ++ (l.ending ++ t).takeWhile fun ch => !isLineEnd ch) := by
  have hself : (l.blanks ++ (l.value ++ (l.ending ++ t))).dropWhile isBlank =
      l.value ++ (l.ending ++ t) := by
    rw [List.dropWhile_append_of_pos l.blank]
    cases hv : l.value with
    | nil => exact absurd hv l.valued
    | cons ch v =>
        refine List.dropWhile_cons_of_neg ?_
        rw [hvalue ch (by simp [hv])]
        exact Bool.false_ne_true
  have hvalued : l.value ++ (l.ending ++ t) ≠ [] := by simp [l.valued]
  rw [MetaLine.text, List.append_assoc, List.append_assoc,
    List.append_assoc, reading, strstr_self_append, Option.bind_some,
    Nat.zero_add, List.drop_left, valueText, hself, if_neg hvalued,
    List.takeWhile_append_of_pos fun ch hch => by simp [l.plain ch hch]]

theorem MetaLine.reading_self_eq_value_iff {l : MetaLine} {t : CStr}
    (hvalue : ∀ ch ∈ l.value.head?, isBlank ch = false) :
    reading (l.text ++ t) l.id = some l.value ↔
      (l.ending = [] → ∀ ch ∈ t.head?, isLineEnd ch = true) := by
  rw [l.reading_self t hvalue, Option.some_inj, List.append_right_eq_self,
    takeWhile_line_eq_nil_iff]
  by_cases hending : l.ending = []
  · simp [hending]
  · simpa [hending] using MetaLine.isLineEnd_head hending t

/-- Lines of other fields above a text. -/
theorem reading_linesText {above : List MetaLine} {i : MetaId}
    (hne : ∀ l ∈ above, l.id ≠ i) (hending : ∀ l ∈ above, l.ending ≠ [])
    (t : CStr) :
    reading (linesText above ++ t) i =
      (above.findSome? fun l => behind i l.value).or (reading t i) := by
  induction above with
  | nil => simp [linesText]
  | cons l above ih =>
      rw [List.forall_mem_cons] at hne hending
      rw [linesText, List.flatMap_cons, List.append_assoc,
        MetaLine.reading_of_ne hne.1 hending.1]
      rw [linesText] at ih
      rw [ih hne.2 hending.2, List.findSome?_cons]
      cases behind i l.value <;> rfl

/-! ## Reading a file -/

theorem linesText_append (ls ls' : List MetaLine) :
    linesText (ls ++ ls') = linesText ls ++ linesText ls' :=
  List.flatMap_append

theorem linesText_cons (l : MetaLine) (ls : List MetaLine) :
    linesText (l :: ls) = l.text ++ linesText ls :=
  List.flatMap_cons

/-- Every line of the file has its line break. -/
def MetaFile.Ended (file : MetaFile) : Prop :=
  ∀ l ∈ file.lines, l.ending ≠ []

variable {file : MetaFile}

/-- The lines above a line end by a line break, and so does the line itself
unless it is the last one. -/
theorem MetaFile.ended_split {before after : List MetaLine} {l : MetaLine}
    (h : file.lines = before ++ l :: after) :
    (∀ above ∈ before, above.ending ≠ []) ∧
      (l.ending = [] → after = []) := by
  have hended := file.ended
  rw [h, List.dropLast_append_of_ne_nil (List.cons_ne_nil l after)] at hended
  constructor
  · exact fun above habove => hended above (List.mem_append_left _ habove)
  · intro hnil
    by_contra hafter
    rw [List.dropLast_cons_of_ne_nil hafter] at hended
    exact hended l (by simp) hnil

/-- The lines above a line are lines of other fields. -/
theorem MetaFile.id_ne_of_split {before after : List MetaLine} {l : MetaLine}
    (h : file.lines = before ++ l :: after) :
    ∀ above ∈ before, above.id ≠ l.id := by
  have hnodup : (file.lines.map MetaLine.id).Nodup :=
    file.keys.nodup_iff.mpr (by decide)
  rw [h, List.map_append, List.nodup_append] at hnodup
  exact fun above habove => hnodup.2.2 _ (List.mem_map_of_mem habove) _
    (by simp)

/-- What the parser takes for the field of a line. -/
theorem MetaFile.reading_split {before after : List MetaLine} {l : MetaLine}
    (h : file.lines = before ++ l :: after) (t : CStr) :
    reading (file.text ++ t) l.id =
      (before.findSome? fun above => behind l.id above.value).or
        (reading (l.text ++ (linesText after ++ t)) l.id) := by
  rw [MetaFile.text, h, linesText_append, linesText_cons, List.append_assoc,
    List.append_assoc,
    reading_linesText (file.id_ne_of_split h) (file.ended_split h).1]

/-- A file is read line by line exactly if it is readable. -/
theorem MetaFile.reading_iff (rest : CStr) :
    (∀ l ∈ file.lines, reading (file.text ++ rest) l.id = some l.value) ↔
      file.Readable rest := by
  constructor
  · intro h
    have hunblanked : ∀ l ∈ file.lines, ∀ ch ∈ l.value.head?,
        isBlank ch = false := fun l hl => isBlank_head_reading (h l hl)
    refine ⟨hunblanked, ?_, ?_⟩
    · intro before l after hsplit text htext
      have hread := h l (by simp [hsplit])
      rw [file.reading_split hsplit, Option.mem_def.mp htext,
        Option.some_or] at hread
      exact Option.some_inj.mp hread
    · intro before l hsplit hending hnone
      have hl : l ∈ file.lines := by simp [hsplit]
      have hread := h l hl
      rw [file.reading_split hsplit, hnone, Option.none_or] at hread
      exact (MetaLine.reading_self_eq_value_iff
        (hunblanked l hl)).mp hread hending
  · intro h l hl
    obtain ⟨before, after, hsplit⟩ := List.append_of_mem hl
    rw [file.reading_split hsplit]
    cases hfirst : before.findSome? fun above => behind l.id above.value with
    | some text =>
        rw [Option.some_or, h.undisturbed before l after hsplit text hfirst]
    | none =>
        rw [Option.none_or,
          MetaLine.reading_self_eq_value_iff (h.unblanked l hl)]
        intro hending
        obtain rfl := (file.ended_split hsplit).2 hending
        exact h.closed before l hsplit hending hfirst

theorem MetaFile.exists_line (file : MetaFile) (i : MetaId) :
    ∃ l ∈ file.lines, l.id = i :=
  List.mem_map.mp (file.keys.mem_iff.mpr i.mem_all)

theorem MetaLine.nul_not_mem_text (l : MetaLine) : 0 ∉ l.text := by
  have hname : 0 ∉ l.id.name := fun h => by
    simpa [isLineEnd_zero] using l.id.isLineEnd_name 0 h
  have hblanks : 0 ∉ l.blanks := fun h => by
    simpa [isBlank] using l.blank 0 h
  have hvalue : 0 ∉ l.value := fun h => by
    simpa [isLineEnd_zero] using l.plain 0 h
  have hending : 0 ∉ l.ending := fun h => by simpa using l.ends 0 h
  simp [MetaLine.text, hname, hblanks, hvalue, hending]

theorem MetaFile.nul_not_mem_text (file : MetaFile) : 0 ∉ file.text := by
  intro h
  obtain ⟨l, -, hl⟩ := List.mem_flatMap.mp h
  exact l.nul_not_mem_text hl

theorem MetaFile.text_ne_nil (file : MetaFile) : file.text ≠ [] := by
  obtain ⟨l, hl, -⟩ := file.exists_line .image
  intro hnil
  have htext := List.flatMap_eq_nil_iff.mp hnil l hl
  simp [MetaLine.text, MetaId.name_ne_nil] at htext

/-! ## The parser on a file -/

/-- `ota_meta_parse` succeeds, and the value of each field is the one of its
own line. -/
def ReadsLines (c : OtaCheck) (m : MetaValues) (file : MetaFile) : Prop :=
  (otaMetaParse c m).1 = 0 ∧
    ∀ l ∈ file.lines,
      metaValue (otaMetaParse c m).2.1.buff (otaMetaParse c m).2.2 l.id =
        some l.value

/-- A parse reads the lines exactly if the first place of each name is the one
in its line. -/
theorem readsLines_iff_reading {c : OtaCheck} (m : MetaValues)
    {rest : List UInt8} (hbuff : c.buff = file.text ++ rest)
    (hrest : 0 ∈ rest) (hlen : c.buffP = file.text.length) :
    ReadsLines c m file ↔ ∀ l ∈ file.lines,
      reading (file.text ++ cstrAt rest 0) l.id = some l.value := by
  have hnul : 0 ∈ c.buff := hbuff ▸ List.mem_append_right _ hrest
  have hcount : ¬c.buffP < 1 := by
    have := List.length_pos_iff.mpr file.text_ne_nil
    omega
  have hstring : cstrAt c.buff 0 = file.text ++ cstrAt rest 0 := by
    rw [hbuff, cstrAt_append_of_not_mem file.nul_not_mem_text]
  rw [← hstring]
  cases hfields : metaFields (cstrAt c.buff 0) with
  | none =>
      constructor
      · exact fun hreads => absurd hreads.1 (otaMetaParse_of_none m hfields)
      · intro hread
        have hall : ∀ i, ∃ v, reading (cstrAt c.buff 0) i = some v := by
          intro i
          obtain ⟨l, hl, rfl⟩ := file.exists_line i
          exact ⟨l.value, hread l hl⟩
        choose fields hvalues using hall
        rw [metaFields_eq_some_iff_reading.mpr hvalues] at hfields
        contradiction
  | some fields =>
      obtain ⟨hok, hvalue⟩ := otaMetaParse_of_metaFields m hnul hcount hfields
      rw [metaFields_eq_some_iff_reading] at hfields
      simp only [ReadsLines, hok, hvalue, hfields, true_and]

/-- The parser takes the value of each field from its own line exactly if the
file is readable before the string that follows it in the buffer. -/
theorem otaMetaParse_readsLines_iff {c : OtaCheck} (m : MetaValues)
    {rest : List UInt8} (hbuff : c.buff = file.text ++ rest)
    (hrest : 0 ∈ rest) (hlen : c.buffP = file.text.length) :
    ReadsLines c m file ↔ file.Readable (cstrAt rest 0) := by
  rw [readsLines_iff_reading m hbuff hrest hlen]
  exact MetaFile.reading_iff _

/-- Values with no name in them that do not start with a blank are read. -/
theorem MetaFile.readable_of_names
    (hblank : ∀ l ∈ file.lines, ∀ ch ∈ l.value.head?, isBlank ch = false)
    (hname : ∀ l ∈ file.lines, ∀ i : MetaId, strstr l.value i.name = none)
    {rest : CStr} (hclosed : file.Ended ∨ rest = []) :
    file.Readable rest := by
  refine ⟨hblank, ?_, ?_⟩
  · intro before l after hsplit text htext
    obtain ⟨above, habove, hbehind⟩ := List.exists_of_findSome?_eq_some htext
    have hmem : above ∈ file.lines := by
      rw [hsplit]
      exact List.mem_append_left _ habove
    rw [behind, hname above hmem] at hbehind
    contradiction
  · intro before l hsplit hending _
    rcases hclosed with hended | rfl
    · exact absurd hending (hended l (by simp [hsplit]))
    · simp

/-! ## The files of the build -/

/-- A value that a line can have. -/
def IsLineValue (value : CStr) : Prop :=
  value ≠ [] ∧ ∀ ch ∈ value, isLineEnd ch = false

instance (value : CStr) : Decidable (IsLineValue value) :=
  inferInstanceAs (Decidable (_ ∧ _))

/-- One `echo` of `generate_meta.sh`. -/
def echoLine (i : MetaId) (value : {v : CStr // IsLineValue v}) :
    MetaLine where
  id := i
  blanks := lit " "
  value := value.1
  ending := [10]
  blank := by decide +kernel
  valued := value.2.1
  plain := value.2.2
  ends := by decide +kernel

/-- `generate_meta.sh` -/
def generateMeta (values : MetaId → {v : CStr // IsLineValue v}) :
    MetaFile where
  lines := MetaId.all.map fun i => echoLine i (values i)
  keys := by
    rw [List.map_map]
    exact List.Perm.of_eq (List.map_id _)
  ended := by
    intro l hl
    obtain ⟨i, -, rfl⟩ := List.mem_map.mp (List.mem_of_mem_dropLast hl)
    exact List.cons_ne_nil _ _

/-- The texts of a release. -/
def releaseText : MetaId → CStr
  | .image => lit "relay"
  | .file => lit "relay_fota_image.bin"
  | .sha => lit "5f70bf18"
  | .ver => lit "2.3.5"
  | .commit => lit "8c7a52c"
  | .bdate => lit "24.06.2025"
  | .btime => lit "12:30:00"
  | .darch => lit "rp2040"

theorem isLineValue_releaseText (i : MetaId) : IsLineValue (releaseText i) := by
  cases i <;> decide +kernel

/-- The values of a release, with the given version. -/
def releaseValues (ver : {v : CStr // IsLineValue v}) (i : MetaId) :
    {v : CStr // IsLineValue v} :=
  if i = .ver then ver else ⟨releaseText i, isLineValue_releaseText i⟩

/-- The parser before a file that is in its buffer. -/
def checkOf (file : MetaFile) : OtaCheck :=
  { OtaCheck.init (lit "relay.meta") with
    buff := file.text ++ [0]
    buffP := file.text.length }

theorem otaMetaParse_readsLines_release :
    ReadsLines
      (checkOf (generateMeta (releaseValues ⟨lit "2.3.5", by decide +kernel⟩)))
      MetaValues.init
      (generateMeta (releaseValues ⟨lit "2.3.5", by decide +kernel⟩)) := by
  refine (otaMetaParse_readsLines_iff MetaValues.init rfl (by simp) rfl).mpr ?_
  have hname : ∀ l ∈ (generateMeta
      (releaseValues ⟨lit "2.3.5", by decide +kernel⟩)).lines,
      ∀ i ∈ MetaId.all, strstr l.value i.name = none := by
    decide +kernel
  exact MetaFile.readable_of_names (by decide +kernel)
    (fun l hl i => hname l hl i i.mem_all) (Or.inr rfl)

/-- A version with the name of the next field in it. -/
theorem not_otaMetaParse_readsLines :
    ¬∀ (c : OtaCheck) (m : MetaValues) (file : MetaFile)
      (rest : List UInt8), c.buff = file.text ++ 0 :: rest →
        c.buffP = file.text.length → file.text.length < metaCapacity →
          ReadsLines c m file := by
  intro h
  have hreads := h
    (checkOf (generateMeta (releaseValues ⟨lit "2.3.5 commit:7", by decide +kernel⟩)))
    MetaValues.init _ [] rfl rfl (by decide +kernel)
  have hcommit := hreads.2 (echoLine .commit
    (releaseValues ⟨lit "2.3.5 commit:7", by decide +kernel⟩ .commit))
    (List.mem_map_of_mem MetaId.commit.mem_all)
  revert hcommit
  decide +kernel

end Herak.Ota
