import Herak.Ota.Commands

/-!
# The strategy command

`ota_udate_strategy_cmd` reads three fields with a separator between them.
After the last separator `strtok_r` leaves no rest, but the command looks for a
separator at the rest of each field.
-/

namespace Herak.Ota

open CString Tftp

/-! ## The code -/

/-- A field of the policy, with the access to `rest[0]` before it: `none` when
`rest` is NULL. -/
def policyFieldAccess (rest : Option CStr) (word : CStr) :
    Option (Bool × Option CStr) :=
  rest.map fun text => policyField (some text) word

/-- `ota_udate_strategy_cmd` with its accesses to `rest`: `none` when it
dereferences NULL. -/
def otaUdateStrategyAccess (s : OtaSystem) (params : Option CStr) :
    Option (ℤ × OtaSystem) :=
  if hasParams params = false then some (-1, s)
  else do
    let newer ← policyFieldAccess (some ((params.getD []).drop 1)) (lit "new")
    let ver ← policyFieldAccess newer.2 (lit "version")
    let time ← policyFieldAccess ver.2 (lit "time")
    some (0, { s with check := otaCheckSetStrategy s.check newer.1 ver.1 time.1 })

/-- A run without an access to NULL is that of the command. -/
theorem otaUdateStrategyAccess_eq {s : OtaSystem} {params : Option CStr}
    {result : ℤ × OtaSystem}
    (h : otaUdateStrategyAccess s params = some result) :
    otaUdateStrategyCmd s params = result := by
  have hfield : ∀ {rest : Option CStr} {word : CStr} {x : Bool × Option CStr},
      policyFieldAccess rest word = some x → policyField rest word = x := by
    intro rest word x hx
    obtain ⟨text, rfl, rfl⟩ := Option.map_eq_some_iff.mp hx
    rfl
  unfold otaUdateStrategyAccess at h
  unfold otaUdateStrategyCmd
  split at h
  next hnone =>
    rw [if_pos hnone]
    exact Option.some.inj h
  next hsome =>
    rw [if_neg hsome]
    obtain ⟨newer, hnewer, h⟩ := Option.bind_eq_some_iff.mp h
    obtain ⟨ver, hver, h⟩ := Option.bind_eq_some_iff.mp h
    obtain ⟨time, htime, h⟩ := Option.bind_eq_some_iff.mp h
    simp only [hfield hnewer, hfield hver, hfield htime]
    exact Option.some.inj h

/-! ## A field -/

theorem decide_word (tok word : CStr) :
    decide (strlen tok = strlen word ∧ strcmp tok word = 0) =
      decide (tok = word) := by
  refine decide_eq_decide.mpr ?_
  rw [strcmp_eq_zero_iff]
  constructor
  · exact fun h => h.2
  · rintro rfl
    exact ⟨rfl, rfl⟩

/-- A field that is not empty is the first token. -/
theorem policyField_token {c : UInt8} {text field word : CStr}
    {rest : Option CStr} (hc : c ≠ 58)
    (htoken : strtokR (some (c :: text)) [58] = (some field, rest)) :
    policyField (some (c :: text)) word = (decide (field = word), rest) := by
  unfold policyField
  split
  next rest' heq =>
    rw [Option.some.injEq, List.cons.injEq] at heq
    exact (hc heq.1).elim
  · simp only [lit_colon, htoken, decide_word]

/-- A field with a separator behind it. -/
theorem policyField_word {field word : CStr} (hword : word ≠ [])
    (hfield : (58 : UInt8) ∉ field) (rest : CStr) :
    policyField (some (field ++ 58 :: rest)) word =
      (decide (field = word), some rest) := by
  cases field with
  | nil =>
      rw [decide_eq_false hword.symm]
      rfl
  | cons c field =>
      have hc : c ≠ 58 := fun h => hfield (h ▸ List.mem_cons_self)
      have hpre : ∀ b ∈ ([] : CStr), b = 58 := List.forall_mem_nil _
      exact policyField_token hc
        (strtokR_word hpre (List.cons_ne_nil c field) hfield rest)

/-- The last field. -/
theorem policyField_last {field word : CStr} (hword : word ≠ [])
    (hfield : (58 : UInt8) ∉ field) :
    policyField (some field) word = (decide (field = word), none) := by
  cases field with
  | nil =>
      rw [decide_eq_false hword.symm]
      rfl
  | cons c field =>
      have hc : c ≠ 58 := fun h => hfield (h ▸ List.mem_cons_self)
      have hpre : ∀ b ∈ ([] : CStr), b = 58 := List.forall_mem_nil _
      exact policyField_token hc
        (strtokR_last hpre (List.cons_ne_nil c field) hfield)

/-! ## The command -/

theorem words_ne_nil :
    lit "new" ≠ [] ∧ lit "version" ≠ [] ∧ lit "time" ≠ [] := by
  decide +kernel

/-- Parameters with one field. -/
theorem strategyAccess_one (s : OtaSystem) {first : CStr}
    (hfirst : (58 : UInt8) ∉ first) :
    otaUdateStrategyAccess s (some (58 :: first)) = none := by
  obtain ⟨hnew, -, -⟩ := words_ne_nil
  have hfield := policyField_last hnew hfirst
  simp [otaUdateStrategyAccess, hasParams, policyFieldAccess, hfield]

/-- Parameters with two fields. -/
theorem strategyAccess_two (s : OtaSystem) {first second : CStr}
    (hfirst : (58 : UInt8) ∉ first) (hsecond : (58 : UInt8) ∉ second) :
    otaUdateStrategyAccess s (some (58 :: (first ++ 58 :: second))) = none := by
  obtain ⟨hnew, hversion, -⟩ := words_ne_nil
  have hfield := policyField_word hnew hfirst second
  have hfield' := policyField_last hversion hsecond
  simp [otaUdateStrategyAccess, hasParams, policyFieldAccess, hfield, hfield']

/-- Parameters with two fields that end, and whatever follows. -/
theorem strategyAccess_three (s : OtaSystem) {first second : CStr}
    (hfirst : (58 : UInt8) ∉ first) (hsecond : (58 : UInt8) ∉ second)
    (rest : CStr) :
    otaUdateStrategyAccess s
        (some (58 :: (first ++ 58 :: (second ++ 58 :: rest)))) =
      some (0, { s with
        check := otaCheckSetStrategy s.check (decide (first = lit "new"))
          (decide (second = lit "version"))
          (policyField (some rest) (lit "time")).1 }) := by
  obtain ⟨hnew, hversion, -⟩ := words_ne_nil
  have hfield := policyField_word hnew hfirst (second ++ 58 :: rest)
  have hfield' := policyField_word hversion hsecond rest
  simp [otaUdateStrategyAccess, hasParams, policyFieldAccess, hfield, hfield']

/-- The command stays away from NULL exactly if two fields end. -/
theorem strategyAccess_isSome_iff (s : OtaSystem) (body : CStr) :
    (otaUdateStrategyAccess s (some (58 :: body))).isSome ↔
      2 ≤ body.count 58 := by
  by_cases hbody : (58 : UInt8) ∈ body
  · obtain ⟨first, rest, rfl, hfirst⟩ := List.eq_append_cons_of_mem hbody
    have hcount : (first ++ 58 :: rest).count 58 = rest.count 58 + 1 := by
      rw [List.count_append, List.count_eq_zero_of_not_mem hfirst, Nat.zero_add,
        List.count_cons_self]
    rw [hcount]
    by_cases hrest : (58 : UInt8) ∈ rest
    · obtain ⟨second, last, rfl, hsecond⟩ := List.eq_append_cons_of_mem hrest
      rw [strategyAccess_three s hfirst hsecond]
      refine iff_of_true rfl ?_
      have hpos := List.count_pos_iff.mpr hrest
      omega
    · rw [strategyAccess_two s hfirst hrest, List.count_eq_zero_of_not_mem hrest]
      exact iff_of_false Bool.false_ne_true (by decide)
  · rw [strategyAccess_one s hbody, List.count_eq_zero_of_not_mem hbody]
    exact iff_of_false Bool.false_ne_true (by decide)

/-! ## The documented form -/

/-- `:[new]:[version]:[time]`, with the fields that are written: a field may be
empty, and the last ones may be omitted. -/
inductive StrategyForm
  | one (newer : Bool)
  | two (newer ver : Bool)
  | three (newer ver time : Bool)

namespace StrategyForm

/-- A field of the form. -/
def field (present : Bool) (word : CStr) : CStr :=
  if present then word else []

def text : StrategyForm → CStr
  | one newer => 58 :: field newer (lit "new")
  | two newer ver => 58 :: (field newer (lit "new") ++
      58 :: field ver (lit "version"))
  | three newer ver time => 58 :: (field newer (lit "new") ++
      58 :: (field ver (lit "version") ++ 58 :: field time (lit "time")))

def newer : StrategyForm → Bool
  | one newer | two newer _ | three newer _ _ => newer

def ver : StrategyForm → Bool
  | one _ => false
  | two _ ver | three _ ver _ => ver

def time : StrategyForm → Bool
  | one _ | two _ _ => false
  | three _ _ time => time

/-- The separators of a form. -/
def separators : StrategyForm → ℕ
  | one _ => 1
  | two _ _ => 2
  | three _ _ _ => 3

theorem field_plain (present : Bool) {word : CStr} (hword : (58 : UInt8) ∉ word) :
    (58 : UInt8) ∉ field present word := by
  cases present with
  | true => exact hword
  | false => exact List.not_mem_nil

theorem decide_field (present : Bool) {word : CStr} (hword : word ≠ []) :
    decide (field present word = word) = present := by
  cases present with
  | true => exact decide_eq_true rfl
  | false => exact decide_eq_false hword.symm

theorem words_plain : (58 : UInt8) ∉ lit "new" ∧ (58 : UInt8) ∉ lit "version" ∧
    (58 : UInt8) ∉ lit "time" := by
  decide +kernel

theorem count_text (form : StrategyForm) :
    form.text.count 58 = form.separators := by
  obtain ⟨hnew, hversion, htime⟩ := words_plain
  have hplain : ∀ (present : Bool) {word : CStr}, (58 : UInt8) ∉ word →
      (field present word).count 58 = 0 := fun present _ hword =>
    List.count_eq_zero_of_not_mem (field_plain present hword)
  cases form <;>
    simp [text, separators, hplain _ hnew, hplain _ hversion, hplain _ htime]

/-- A form with all its separators sets each flag exactly when its field is
written. -/
theorem strategyAccess_text (s : OtaSystem) (newer ver time : Bool) :
    otaUdateStrategyAccess s (some (three newer ver time).text) =
      some (0, { s with
        check := otaCheckSetStrategy s.check newer ver time }) := by
  obtain ⟨hnew, hversion, htime⟩ := words_plain
  obtain ⟨hnew', hversion', htime'⟩ := words_ne_nil
  rw [text, strategyAccess_three s (field_plain _ hnew) (field_plain _ hversion),
    policyField_last htime' (field_plain _ htime), decide_field newer hnew',
    decide_field ver hversion', decide_field time htime']

end StrategyForm

/-- The command stays away from NULL, and sets the flags of the documented form,
exactly if the separators behind both of the first fields are written. -/
theorem otaUdateStrategyCmd_iff (s : OtaSystem) :
    (∀ body : CStr, (otaUdateStrategyAccess s (some (58 :: body))).isSome ↔
      3 ≤ (58 :: body : CStr).count 58) ∧
    ∀ form : StrategyForm,
      otaUdateStrategyAccess s (some form.text) =
          some (0, { s with
            check := otaCheckSetStrategy s.check form.newer form.ver
              form.time }) ↔
        3 ≤ form.text.count 58 := by
  constructor
  · intro body
    rw [strategyAccess_isSome_iff, List.count_cons_self]
    omega
  · intro form
    obtain ⟨hnew, hversion, -⟩ := StrategyForm.words_plain
    rw [form.count_text]
    cases form with
    | one newer =>
        rw [StrategyForm.text,
          strategyAccess_one s (StrategyForm.field_plain newer hnew)]
        exact iff_of_false (Option.some_ne_none _).symm (by simp [StrategyForm.separators])
    | two newer ver =>
        rw [StrategyForm.text,
          strategyAccess_two s (StrategyForm.field_plain newer hnew)
            (StrategyForm.field_plain ver hversion)]
        exact iff_of_false (Option.some_ne_none _).symm (by simp [StrategyForm.separators])
    | three newer ver time =>
        exact iff_of_true (StrategyForm.strategyAccess_text s newer ver time)
          (Nat.le_refl 3)

/-- The default strategy, as it is documented, dereferences NULL. -/
theorem not_otaUdateStrategyCmd :
    otaUdateStrategyAccess
        (sysOtaInit ⟨[], [], [], [], [], [], []⟩ ⟨Slot.clear, 0, false⟩)
        (some (lit ":new:version")) = none := by
  decide +kernel

end Herak.Ota
