import Mathlib.Data.List.Basic
import Mathlib.Data.List.TakeWhile

/-!
# C strings

A C string is the list of its characters before the terminating NUL, and a
char array is the list of all its bytes.  The functions keep the names and the
argument order of the C library; pointers into a string become the rest of the
string, and a NULL pointer becomes `none`.
-/

/-- The characters of a C string before its terminator. -/
abbrev CStr := List UInt8

namespace CString

/-- The C string of a literal. -/
def lit (s : String) : CStr :=
  s.toList.map Char.toUInt8

def strlen (s : CStr) : ℕ :=
  s.length

@[simp] theorem strlen_eq (s : CStr) : strlen s = s.length := rfl

/-- Only the sign of the result is specified; the terminator compares below
every character. -/
def strncmp : CStr → CStr → ℕ → ℤ
  | _, _, 0 => 0
  | [], [], _ + 1 => 0
  | [], _ :: _, _ + 1 => -1
  | _ :: _, [], _ + 1 => 1
  | a :: as, b :: bs, n + 1 =>
      if a = b then strncmp as bs n else if a < b then -1 else 1

def strcmp (a b : CStr) : ℤ :=
  strncmp a b (max a.length b.length + 1)

/-- `strncmp` compares at most `n` characters. -/
theorem strncmp_eq_zero_iff (a b : CStr) (n : ℕ) :
    strncmp a b n = 0 ↔ a.take n = b.take n := by
  induction n generalizing a b with
  | zero => simp [strncmp]
  | succ n ih =>
      cases a with
      | nil => cases b <;> simp [strncmp]
      | cons x a =>
          cases b with
          | nil => simp [strncmp]
          | cons y b =>
              by_cases hxy : x = y
              · simp [strncmp, hxy, ih]
              · have hne : (if x < y then (-1 : ℤ) else 1) ≠ 0 := by
                  split <;> decide
                simp [strncmp, hxy, hne]

theorem strcmp_eq_zero_iff (a b : CStr) : strcmp a b = 0 ↔ a = b := by
  rw [strcmp, strncmp_eq_zero_iff, List.take_of_length_le (by omega),
    List.take_of_length_le (by omega)]

/-- The length-and-prefix test used for looking names up is equality. -/
theorem strlen_strncmp_eq_iff (a b : CStr) :
    strlen a = strlen b ∧ strncmp a b (strlen a) = 0 ↔ a = b := by
  rw [strncmp_eq_zero_iff]
  constructor
  · rintro ⟨hlen, htake⟩
    simp only [strlen_eq] at hlen htake
    rw [List.take_length] at htake
    rwa [hlen, List.take_length] at htake
  · rintro rfl
    exact ⟨rfl, rfl⟩

/-- The length-and-prefix test used for splitting a name off is the prefix
order. -/
theorem strlen_strncmp_prefix_iff (a s : CStr) :
    strlen a ≤ strlen s ∧ strncmp a s (strlen a) = 0 ↔ a <+: s := by
  rw [strncmp_eq_zero_iff, strlen_eq, strlen_eq, List.take_length,
    List.prefix_iff_eq_take]
  constructor
  · exact fun h => h.2
  · refine fun h => ⟨?_, h⟩
    have hlen := congrArg List.length h
    rw [List.length_take] at hlen
    omega

/-- A text is split in one way at the first occurrence of a character. -/
theorem append_delim_inj {d : UInt8} {a b x y : CStr} (ha : d ∉ a)
    (hb : d ∉ b) (h : a ++ d :: x = b ++ d :: y) : a = b ∧ x = y := by
  induction a generalizing b with
  | nil =>
      cases b with
      | nil => simpa using h
      | cons c b =>
          simp only [List.nil_append, List.cons_append, List.cons.injEq] at h
          simp [h.1] at hb
  | cons c a ih =>
      cases b with
      | nil =>
          simp only [List.nil_append, List.cons_append, List.cons.injEq] at h
          simp [h.1] at ha
      | cons c' b =>
          simp only [List.cons_append, List.cons.injEq] at h
          simp only [List.mem_cons, not_or] at ha hb
          obtain ⟨rfl, rfl⟩ := ih ha.2 hb.2 h.2
          exact ⟨by rw [h.1], rfl⟩

/-- Offset of the first occurrence of `needle`. -/
def strstr : CStr → CStr → Option ℕ
  | [], needle => if needle = [] then some 0 else none
  | c :: s, needle =>
      if needle.isPrefixOf (c :: s) then some 0
      else (strstr s needle).map (· + 1)

theorem strstr_length_le {s needle : CStr} {o : ℕ}
    (h : strstr s needle = some o) : o + needle.length ≤ s.length := by
  induction s generalizing o with
  | nil =>
      by_cases hneedle : needle = []
      · obtain rfl : 0 = o := by simpa [strstr, hneedle] using h
        simp [hneedle]
      · simp [strstr, hneedle] at h
  | cons c s ih =>
      simp only [strstr] at h
      split at h
      next hprefix =>
        obtain rfl : 0 = o := by simpa using h
        simpa using (List.isPrefixOf_iff_prefix.mp hprefix).length_le
      · obtain ⟨o', ho', rfl⟩ := Option.map_eq_some_iff.mp h
        have := ih ho'
        simp only [List.length_cons]
        omega

/-- Text behind a string does not move the first occurrence in it. -/
theorem strstr_append {s needle : CStr} {o : ℕ} (t : CStr)
    (h : strstr s needle = some o) : strstr (s ++ t) needle = some o := by
  induction s generalizing o with
  | nil =>
      by_cases hneedle : needle = []
      · subst hneedle
        cases t <;> simpa [strstr] using h
      · simp [strstr, hneedle] at h
  | cons c s ih =>
      simp only [strstr, List.cons_append] at h ⊢
      split at h
      next hprefix =>
        have hmore : needle <+: c :: (s ++ t) :=
          (List.isPrefixOf_iff_prefix.mp hprefix).trans
            (List.prefix_append (c :: s) t)
        rw [if_pos (List.isPrefixOf_iff_prefix.mpr hmore), h]
      next hnot =>
        obtain ⟨o', ho', rfl⟩ := Option.map_eq_some_iff.mp h
        have hfits := strstr_length_le ho'
        have hstill : ¬needle.isPrefixOf (c :: (s ++ t)) = true := by
          intro hprefix
          refine hnot (List.isPrefixOf_iff_prefix.mpr ?_)
          refine List.prefix_of_prefix_length_le
            (List.isPrefixOf_iff_prefix.mp hprefix)
            (List.prefix_append (c :: s) t) ?_
          simp only [List.length_cons]
          omega
        rw [if_neg hstill, ih ho', Option.map_some]

/-- What `snprintf` leaves in a buffer of `size` bytes. -/
def snprintf (size : ℕ) (text : CStr) : CStr :=
  text.take (size - 1)

theorem snprintf_of_lt {size : ℕ} {text : CStr} (h : text.length < size) :
    snprintf size text = text :=
  List.take_of_length_le (Nat.le_sub_one_of_lt h)

/-- `%u` -/
def decimal (n : ℕ) : CStr :=
  lit (Nat.repr n)

/-- `%d` -/
def decimalInt (n : ℤ) : CStr :=
  if n < 0 then lit "-" ++ decimal n.natAbs else decimal n.natAbs

/-- The C string that a pointer `off` bytes into a char array stands for. -/
def cstrAt (buf : List UInt8) (off : ℕ) : CStr :=
  (buf.drop off).takeWhile (· ≠ 0)

/-- The string left in an uninitialised array of `n + 1` bytes by
`strncpy(dst, src, n)`: from `n` characters on no terminator is written, and
the text runs into whatever the array and the stack hold behind them. -/
def strncpy (src : CStr) (n : ℕ) (junk : CStr) : CStr :=
  if src.length < n then src else src.take n ++ junk

theorem strncpy_of_lt {src : CStr} {n : ℕ} (h : src.length < n) (junk : CStr) :
    strncpy src n junk = src := by
  simp [strncpy, h]

/-! ## Tokens -/

/-- `strtok_r(s, delim, &rest)`: the token and the new `rest`.  A `NULL`
string has no token, and the rest after the last token is `NULL`. -/
def strtokR (s : Option CStr) (delim : CStr) : Option CStr × Option CStr :=
  match s with
  | none => (none, none)
  | some s =>
      match s.dropWhile (delim.contains ·) with
      | [] => (none, none)
      | c :: s =>
          let tok := (c :: s).takeWhile (!delim.contains ·)
          match (c :: s).dropWhile (!delim.contains ·) with
          | [] => (some tok, none)
          | _ :: rest => (some tok, some rest)

/-- The tokens that a loop of `strtok_r` calls finds in `fuel` rounds. -/
def tokensIn (delim : CStr) : ℕ → Option CStr → List CStr
  | 0, _ => []
  | fuel + 1, s =>
      match strtokR s delim with
      | (none, _) => []
      | (some tok, rest) => tok :: tokensIn delim fuel rest

/-- The tokens of a loop of `strtok_r` calls.  Each takes a character of the
string, so that one round more than characters is enough. -/
def tokens (s : Option CStr) (delim : CStr) : List CStr :=
  tokensIn delim ((s.getD []).length + 1) s

/-- A token has no delimiter in it. -/
theorem strtokR_token {s : Option CStr} {delim tok : CStr}
    {rest : Option CStr} (h : strtokR s delim = (some tok, rest)) :
    ∀ c ∈ tok, c ∉ delim := by
  simp only [strtokR] at h
  split at h
  · cases h
  · split at h
    · cases h
    next c s _ =>
      have htok : tok = (c :: s).takeWhile (!delim.contains ·) := by
        split at h <;> exact (Option.some.inj (Prod.mk.inj h).1).symm
      intro c hc
      have hnot := List.mem_takeWhile_imp (htok ▸ hc)
      simpa using hnot

theorem not_delim {d : UInt8} {word : CStr} (h : d ∉ word) :
    ∀ c ∈ word, (! [d].contains c) = true := by
  intro c hc
  have hne : c ≠ d := fun hcd => h (hcd ▸ hc)
  simpa using hne

/-- The delimiters before a word are skipped. -/
theorem dropWhile_delim {d : UInt8} {pre word : CStr}
    (hpre : ∀ c ∈ pre, c = d) (hne : word ≠ []) (hword : d ∉ word) (s : CStr) :
    (pre ++ (word ++ s)).dropWhile ([d].contains ·) = word ++ s := by
  obtain ⟨c, word, rfl⟩ := List.exists_cons_of_ne_nil hne
  have hc : c ≠ d := fun hcd => hword (hcd ▸ List.mem_cons_self)
  rw [List.dropWhile_append_of_pos (by simpa using hpre), List.cons_append,
    List.dropWhile_cons_of_neg (by simpa using hc)]

/-- The first word of a string that goes on behind it. -/
theorem strtokR_word {d : UInt8} {pre word : CStr}
    (hpre : ∀ c ∈ pre, c = d) (hne : word ≠ []) (hword : d ∉ word)
    (rest : CStr) :
    strtokR (some (pre ++ word ++ d :: rest)) [d] = (some word, some rest) := by
  have hnot := not_delim hword
  have htake : (word ++ d :: rest).takeWhile (! [d].contains ·) = word := by
    rw [List.takeWhile_append_of_pos hnot]
    simp
  have hdrop : (word ++ d :: rest).dropWhile (! [d].contains ·) = d :: rest := by
    rw [List.dropWhile_append_of_pos hnot]
    simp
  have hskip := dropWhile_delim hpre hne hword (d :: rest)
  obtain ⟨c, word, rfl⟩ := List.exists_cons_of_ne_nil hne
  rw [List.cons_append] at htake hdrop hskip
  rw [strtokR, List.append_assoc, List.cons_append, hskip]
  simp only [htake, hdrop]

/-- The last word of a string. -/
theorem strtokR_last {d : UInt8} {pre word : CStr}
    (hpre : ∀ c ∈ pre, c = d) (hne : word ≠ []) (hword : d ∉ word) :
    strtokR (some (pre ++ word)) [d] = (some word, none) := by
  have hnot := not_delim hword
  have hskip := dropWhile_delim hpre hne hword []
  rw [List.append_nil] at hskip
  obtain ⟨c, word, rfl⟩ := List.exists_cons_of_ne_nil hne
  rw [strtokR, hskip]
  simp only [List.takeWhile_eq_self_iff.mpr hnot,
    List.dropWhile_eq_nil_iff.mpr hnot]

theorem strtokR_blanks {d : UInt8} {pre : CStr} (hpre : ∀ c ∈ pre, c = d) :
    strtokR (some pre) [d] = (none, none) := by
  have hskip : pre.dropWhile ([d].contains ·) = [] :=
    List.dropWhile_eq_nil_iff.mpr (by simpa using hpre)
  rw [strtokR, hskip]

/-- Where a token has been found. -/
theorem strtokR_some_cases {d : UInt8} {s tok : CStr} {rest : Option CStr}
    (h : strtokR (some s) [d] = (some tok, rest)) :
    ∃ pre, (∀ c ∈ pre, c = d) ∧ tok ≠ [] ∧ d ∉ tok ∧
      (rest = none ∧ s = pre ++ tok ∨
        ∃ r, rest = some r ∧ s = pre ++ tok ++ d :: r) := by
  have htok : d ∉ tok :=
    fun hd => strtokR_token h d hd (List.mem_singleton.mpr rfl)
  have hsplit := List.takeWhile_append_dropWhile (p := ([d].contains ·)) (l := s)
  have hpre : ∀ c ∈ s.takeWhile ([d].contains ·), c = d := by
    intro c hc
    simpa using List.mem_takeWhile_imp hc
  simp only [strtokR] at h
  split at h
  · exact nomatch h
  next c s' hdrop =>
    have hc : ¬c = d := by
      have hhead := List.head_dropWhile_not ([d].contains ·)
        (by rw [hdrop]; exact List.cons_ne_nil _ _)
      simp only [hdrop, List.head_cons] at hhead
      simpa using hhead
    have hword := List.takeWhile_append_dropWhile (p := (! [d].contains ·))
      (l := c :: s')
    have hne : (c :: s').takeWhile (! [d].contains ·) ≠ [] := by
      simp [hc]
    split at h
    next hend =>
      obtain ⟨htok', rfl⟩ := Prod.mk.inj h
      obtain rfl := Option.some.inj htok'
      refine ⟨_, hpre, hne, htok, .inl ⟨rfl, ?_⟩⟩
      rw [hend, List.append_nil] at hword
      rw [hword, ← hdrop, hsplit]
    next c' r hend =>
      obtain ⟨htok', rfl⟩ := Prod.mk.inj h
      obtain rfl := Option.some.inj htok'
      refine ⟨_, hpre, hne, htok, .inr ⟨r, rfl, ?_⟩⟩
      have hd : c' = d := by
        have hhead := List.head_dropWhile_not (! [d].contains ·)
          (by rw [hend]; exact List.cons_ne_nil _ _)
        simp only [hend, List.head_cons] at hhead
        simpa using hhead
      subst hd
      rw [List.append_assoc, ← hend, hword, ← hdrop, hsplit]

/-- A token begins with the first character that is no delimiter. -/
theorem strtokR_cons {d c : UInt8} {pre : CStr} (hpre : ∀ b ∈ pre, b = d)
    (hc : c ≠ d) (s : CStr) :
    ∃ tok rest, strtokR (some (pre ++ c :: s)) [d] = (some (c :: tok), rest) := by
  by_cases hd : d ∈ s
  · obtain ⟨tok, rest, rfl, htok⟩ := List.eq_append_cons_of_mem hd
    have hword : d ∉ c :: tok := by
      simpa [htok] using Ne.symm hc
    refine ⟨tok, some rest, ?_⟩
    rw [← strtokR_word hpre (List.cons_ne_nil c tok) hword rest]
    simp
  · have hword : d ∉ c :: s := by
      simpa [hd] using Ne.symm hc
    exact ⟨s, none, strtokR_last hpre (List.cons_ne_nil c s) hword⟩

/-! ## Numbers -/

/-- A blank within a line. -/
def isBlank (c : UInt8) : Bool :=
  c = 32 || c = 9

def isspace (c : UInt8) : Bool :=
  c = 32 || (9 ≤ c && c ≤ 13)

/-- Value of a digit or letter, and 36 for anything else. -/
def digitValue (c : UInt8) : ℕ :=
  if 48 ≤ c && c ≤ 57 then c.toNat - 48
  else if 97 ≤ c && c ≤ 122 then c.toNat - 87
  else if 65 ≤ c && c ≤ 90 then c.toNat - 55
  else 36

/-- The number that the leading digits of a string write. -/
def readDigits (base : ℕ) : CStr → ℕ → ℕ
  | [], acc => acc
  | c :: s, acc =>
      if digitValue c < base then readDigits base s (acc * base + digitValue c)
      else acc

def longMax : ℤ := 2147483647
def longMin : ℤ := -2147483648

/-- Base 0 reads the base from the prefix of the number. -/
def detectBase (base : ℕ) (s : CStr) : ℕ × CStr :=
  match s with
  | 48 :: c :: rest =>
      if c = 120 ∨ c = 88 then
        if base = 0 ∨ base = 16 then (16, rest) else (base, s)
      else if base = 0 then (8, s) else (base, s)
  | _ => if base = 0 then (10, s) else (base, s)

/-- The unsigned number that a text starts with. -/
def magnitude (base : ℕ) (s : CStr) : ℕ :=
  readDigits (detectBase base s).1 (detectBase base s).2 0

/-- `strtol(s, NULL, base)` for a 32-bit `long`: blanks, a sign, digits, and
saturation at the ends of the type. -/
def strtol (s : CStr) (base : ℕ) : ℤ :=
  match s.dropWhile isspace with
  | 45 :: s => max longMin (-magnitude base s)
  | 43 :: s => min longMax (magnitude base s)
  | s => min longMax (magnitude base s)

theorem strtol_mem_long (s : CStr) (base : ℕ) :
    longMin ≤ strtol s base ∧ strtol s base ≤ longMax := by
  unfold strtol longMin longMax
  split <;> omega

end CString
