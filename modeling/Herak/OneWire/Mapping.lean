import Herak.OneWire.Device
import Herak.Support.Decimal
import Herak.Support.Hex
import Herak.Support.Tokens

/-!
# The saved mapping of a line

`map_save` stores the addresses of a line as `<index>:<0xaddress>;...`, and the
next start of the device loads them.  The addresses are printed as unsigned
numbers of 64 bits, but read as signed ones.
-/

namespace Herak.OneWire

open CInt CString

variable {Rom : Type*}

/-! ## The code -/

/-- `PNAME_SIZE` -/
def pnameSize : ℕ := 32

/-- `PVAL_SIZE` -/
def pvalSize : ℕ := 512

/-- `PTMP_SIZE` -/
def ptmpSize : ℕ := 32

/-- `ONE_WIRE_LINEMAP_PARAM_TEMPLATE` of a pin. -/
def paramName (pin : ℤ) : CStr :=
  snprintf pnameSize (lit "one_wire_line_" ++ decimalInt pin)

/-- `%d:0x%llX;` -/
def slotText (j : SlotIdx) (address : UInt64) : CStr :=
  decimal j ++ lit ":0x" ++ hexUpper address.toNat ++ lit ";"

/-- The inner loop of `cmd_one_wire_map_save`: `strncat` takes at most `size`
characters, and the loop ends once there is no room left. -/
def mapValueLoop (line : OneWireLine Rom) : List SlotIdx → CStr → ℤ → CStr
  | [], paramVal, _ => paramVal
  | j :: js, paramVal, size =>
      let address := (line.sensors j).address
      if address = 0 then mapValueLoop line js paramVal size
      else
        let val := snprintf ptmpSize (slotText j address)
        let paramVal := paramVal ++ val.take size.toNat
        let size := size - strlen val
        if size ≤ 0 then paramVal else mapValueLoop line js paramVal size

/-- The string that is stored for a line. -/
def mapValue (line : OneWireLine Rom) : CStr :=
  mapValueLoop line (List.finRange onewireSenorsMax) [] pvalSize

/-- A round of `cmd_one_wire_map_save`, over the stored parameters. -/
def mapSaveLine (params : CStr → Option CStr) (line : OneWireLine Rom) :
    CStr → Option CStr :=
  if 0 < strlen (mapValue line) then
    Function.update params (paramName line.pin) (some (mapValue line))
  else params

/-- `cmd_one_wire_map_save` -/
def cmdOneWireMapSave (params : CStr → Option CStr)
    (lines : List (OneWireLine Rom)) : CStr → Option CStr :=
  lines.foldl mapSaveLine params

/-- A round of the loop of `one_wire_config_load_mapping`; a write outside
`saved_mapping` is `none`. -/
def loadEntry (mapping : SlotIdx → UInt64) (tok : CStr) :
    Option (SlotIdx → UInt64) :=
  match strtokR (some tok) (lit ":") with
  | (some strId, some strAddress) =>
      let id := strtol strId 0
      let addr := UInt64.ofNat (toUInt64 (strtoll strAddress 0))
      if (onewireSenorsMax : ℤ) ≤ id then some mapping
      else if h : 0 ≤ id ∧ id.toNat < onewireSenorsMax then
        some (Function.update mapping ⟨id.toNat, h.2⟩ addr)
      else none
  | _ => some mapping

def loadEntries (mapping : SlotIdx → UInt64) (toks : List CStr) :
    Option (SlotIdx → UInt64) :=
  toks.foldlM loadEntry mapping

/-- `one_wire_config_load_mapping` for a line with a pin and a mapping. -/
def oneWireConfigLoadMapping (params : CStr → Option CStr) (pin : ℤ)
    (mapping : SlotIdx → UInt64) : Option (SlotIdx → UInt64) :=
  match params (paramName pin) with
  | none => some mapping
  | some config =>
      if strlen config < 1 then some mapping
      else loadEntries mapping (tokens (some config) (lit ";"))

/-! ## The string of a line -/

/-- The text of an entry in front of its delimiter. -/
def entryText (j : SlotIdx) (address : UInt64) : CStr :=
  decimal j ++ 58 :: (lit "0x" ++ hexUpper address.toNat)

theorem slotText_eq (j : SlotIdx) (address : UInt64) :
    slotText j address = entryText j address ++ [59] := by
  have hcolon : lit ":0x" = 58 :: lit "0x" := by decide
  have hsemi : lit ";" = [59] := by decide
  simp only [slotText, entryText, hcolon, hsemi, List.append_assoc,
    List.cons_append]

/-- The used entries of a table. -/
def usedSlots (line : OneWireLine Rom) (js : List SlotIdx) : List SlotIdx :=
  js.filter fun j => (line.sensors j).address ≠ 0

theorem slotText_length_le (j : SlotIdx) (address : UInt64) :
    (slotText j address).length ≤ 21 := by
  have hj : (decimal j).length ≤ 1 := by
    have hlt : (j : ℕ) < 5 := j.isLt
    rw [decimal_of_lt (by omega), List.length_singleton]
  have haddress : (hexUpper address.toNat).length ≤ 16 :=
    hexUpper_length_le (k := 15) (UInt64.toNat_lt address)
  have hcolon : (lit ":0x").length = 3 := by decide
  have hsemi : (lit ";").length = 1 := by decide
  simp only [slotText, List.length_append, hcolon, hsemi]
  omega

/-- There is room for all the entries. -/
theorem mapValueLoop_eq (line : OneWireLine Rom) (js : List SlotIdx)
    (paramVal : CStr) (size : ℤ) (hsize : 21 * (js.length : ℤ) < size) :
    mapValueLoop line js paramVal size =
      paramVal ++ ((usedSlots line js).map fun j =>
        slotText j (line.sensors j).address).flatten := by
  induction js generalizing paramVal size with
  | nil => simp [mapValueLoop, usedSlots]
  | cons j js ih =>
      rw [List.length_cons] at hsize
      have hrest : 21 * (js.length : ℤ) < size := by omega
      by_cases haddress : (line.sensors j).address = 0
      · have hused : usedSlots line (j :: js) = usedSlots line js :=
          List.filter_cons_of_neg (by simpa using haddress)
        rw [mapValueLoop, if_pos haddress, hused]
        exact ih paramVal size hrest
      · have hused : usedSlots line (j :: js) = j :: usedSlots line js :=
          List.filter_cons_of_pos (by simpa using haddress)
        have hlen := slotText_length_le j (line.sensors j).address
        have hval : snprintf ptmpSize (slotText j (line.sensors j).address) =
            slotText j (line.sensors j).address :=
          snprintf_of_lt (by rw [ptmpSize]; omega)
        have htake : (slotText j (line.sensors j).address).take size.toNat =
            slotText j (line.sensors j).address :=
          List.take_of_length_le (by omega)
        have hroom : ¬ size - (slotText j (line.sensors j).address).length ≤ 0 := by
          omega
        simp only [mapValueLoop, if_neg haddress, hval, htake, strlen, if_neg hroom]
        rw [ih _ _ (by omega), hused, List.map_cons, List.flatten_cons,
          List.append_assoc]

/-- The entries of a line, in the order of their numbers. -/
def entries (line : OneWireLine Rom) : List SlotIdx :=
  usedSlots line (List.finRange onewireSenorsMax)

theorem mem_entries {line : OneWireLine Rom} {j : SlotIdx} :
    j ∈ entries line ↔ (line.sensors j).address ≠ 0 := by
  simp [entries, usedSlots]

theorem mapValue_eq (line : OneWireLine Rom) :
    mapValue line =
      (((entries line).map fun j => entryText j (line.sensors j).address).map
        (· ++ [59])).flatten := by
  rw [mapValue, mapValueLoop_eq line _ [] pvalSize (by decide), List.nil_append,
    List.map_map]
  refine congrArg List.flatten (List.map_congr_left fun j _ => ?_)
  exact slotText_eq j _

theorem not_mem_entryText {c : UInt8} (hc : 58 < c.toNat) (hlow : c.toNat < 65)
    (j : SlotIdx) (address : UInt64) : c ∉ entryText j address := by
  intro hmem
  rw [entryText, List.mem_append, List.mem_cons, List.mem_append] at hmem
  rcases hmem with hj | rfl | hx | haddress
  · exact not_mem_decimal hc.le j hj
  · exact absurd hc (by decide)
  · have hlit : lit "0x" = [48, 120] := by decide
    rw [hlit] at hx
    simp only [List.mem_cons, List.not_mem_nil, or_false] at hx
    rcases hx with rfl | rfl
    · exact absurd hc (by decide)
    · exact absurd hlow (by decide)
  · obtain ⟨d, hd, rfl⟩ := mem_hexUpper haddress
    rw [hexDigit_toNat hd] at hc hlow
    split at hc
    · omega
    next hd10 =>
      rw [if_neg hd10] at hlow
      omega

theorem tokens_mapValue (line : OneWireLine Rom) :
    tokens (some (mapValue line)) (lit ";") =
      (entries line).map fun j => entryText j (line.sensors j).address := by
  rw [mapValue_eq]
  refine tokens_flatten ?_ ?_
  · intro hnil
    obtain ⟨j, -, hj⟩ := List.mem_map.mp hnil
    exact List.append_ne_nil_of_right_ne_nil _ (List.cons_ne_nil _ _) hj
  · intro word hword
    obtain ⟨j, -, rfl⟩ := List.mem_map.mp hword
    exact not_mem_entryText (by decide) (by decide) j _

/-! ## What is loaded -/

/-- The address that `strtoll` makes of one: the numbers from `2 ^ 63` on are
too large for it. -/
def loadedAddress (address : UInt64) : UInt64 :=
  UInt64.ofNat (toUInt64 (min longLongMax address.toNat))

theorem loadedAddress_toNat (address : UInt64) :
    (loadedAddress address).toNat = min (2 ^ 63 - 1) address.toNat := by
  have hlt := UInt64.toNat_lt address
  have hread : toUInt64 (min longLongMax address.toNat) =
      min (2 ^ 63 - 1) address.toNat := by
    rw [toUInt64, longLongMax]
    omega
  rw [loadedAddress, hread]
  exact UInt64.toNat_ofNat_of_lt' (by rw [UInt64.size]; omega)

theorem loadedAddress_eq_iff (address : UInt64) :
    loadedAddress address = address ↔ address.toNat < 2 ^ 63 := by
  rw [← UInt64.toNat_inj, loadedAddress_toNat]
  omega

theorem loadEntry_entryText (mapping : SlotIdx → UInt64) (j : SlotIdx)
    (address : UInt64) :
    loadEntry mapping (entryText j address) =
      some (Function.update mapping j (loadedAddress address)) := by
  have hlt : (j : ℕ) < 5 := j.isLt
  have htok : strtokR (some (entryText j address)) (lit ":") =
      (some (decimal j), some (lit "0x" ++ hexUpper address.toNat)) :=
    strtokR_word (List.forall_mem_nil _) (decimal_ne_nil j)
      (not_mem_decimal (by decide) j) _
  have hid : strtol (decimal j) 0 = ((j : ℕ) : ℤ) :=
    strtol_decimal_detect (by rw [longMax]; omega)
  have hsmall : ¬ ((onewireSenorsMax : ℕ) : ℤ) ≤ ((j : ℕ) : ℤ) := by
    have hmax : onewireSenorsMax = 5 := rfl
    omega
  have hinside : 0 ≤ ((j : ℕ) : ℤ) ∧ ((j : ℕ) : ℤ).toNat < onewireSenorsMax :=
    ⟨Int.natCast_nonneg _, j.isLt⟩
  simp only [loadEntry, htok, hid, if_neg hsmall, strtoll_hexUpper]
  rw [dif_pos hinside]
  rfl

theorem loadEntries_map (line : OneWireLine Rom) (js : List SlotIdx)
    (mapping : SlotIdx → UInt64) :
    loadEntries mapping (js.map fun j =>
        entryText j (line.sensors j).address) =
      some fun j =>
        if j ∈ js then loadedAddress (line.sensors j).address
        else mapping j := by
  induction js generalizing mapping with
  | nil => simp [loadEntries]
  | cons i js ih =>
      rw [loadEntries, List.map_cons, List.foldlM_cons, loadEntry_entryText]
      refine (ih _).trans (congrArg some ?_)
      funext j
      by_cases hj : j ∈ js
      · simp [hj]
      · by_cases hji : j = i
        · simp [hji]
        · simp [hj, hji]

/-! ## The stored parameter -/

theorem mapSaveLine_of_ne (params : CStr → Option CStr) (line : OneWireLine Rom)
    {name : CStr} (h : paramName line.pin ≠ name) :
    mapSaveLine params line name = params name := by
  rw [mapSaveLine]
  split
  · exact Function.update_of_ne h.symm _ _
  · rfl

theorem mapSaveLine_self (params : CStr → Option CStr) (line : OneWireLine Rom)
    (h : mapValue line ≠ []) :
    mapSaveLine params line (paramName line.pin) = some (mapValue line) := by
  have hpos : 0 < strlen (mapValue line) := List.length_pos_iff.mpr h
  rw [mapSaveLine, if_pos hpos]
  exact Function.update_self _ _ _

/-- The parameter of a line is not written by the lines of other pins. -/
theorem cmdOneWireMapSave_of_ne (params : CStr → Option CStr)
    (lines : List (OneWireLine Rom)) {name : CStr}
    (h : ∀ line ∈ lines, paramName line.pin ≠ name) :
    cmdOneWireMapSave params lines name = params name := by
  induction lines generalizing params with
  | nil => rfl
  | cons line lines ih =>
      rw [cmdOneWireMapSave, List.foldl_cons]
      exact (ih _ fun l hl => h l (List.mem_cons_of_mem line hl)).trans
        (mapSaveLine_of_ne params line (h line List.mem_cons_self))

theorem mapValue_ne_nil {line : OneWireLine Rom} {j : SlotIdx}
    (h : (line.sensors j).address ≠ 0) : mapValue line ≠ [] := by
  intro hnil
  have htokens := tokens_mapValue line
  have hempty : tokens (some []) (lit ";") = [] := rfl
  rw [hnil, hempty] at htokens
  have hmem := mem_entries.mpr h
  rw [List.map_eq_nil_iff.mp htokens.symm] at hmem
  exact List.not_mem_nil hmem

theorem cmdOneWireMapSave_line (params : CStr → Option CStr)
    (before after : List (OneWireLine Rom)) {line : OneWireLine Rom}
    {j : SlotIdx} (hused : (line.sensors j).address ≠ 0)
    (hafter : ∀ l ∈ after, paramName l.pin ≠ paramName line.pin) :
    cmdOneWireMapSave params (before ++ line :: after) (paramName line.pin) =
      some (mapValue line) := by
  rw [cmdOneWireMapSave, List.foldl_append, List.foldl_cons]
  exact (cmdOneWireMapSave_of_ne _ after hafter).trans
    (mapSaveLine_self _ line (mapValue_ne_nil hused))

/-- What a line with a used entry loads after it was saved. -/
theorem load_save (params : CStr → Option CStr)
    (before after : List (OneWireLine Rom)) {line : OneWireLine Rom}
    {j : SlotIdx} (hused : (line.sensors j).address ≠ 0)
    (hafter : ∀ l ∈ after, paramName l.pin ≠ paramName line.pin)
    (mapping : SlotIdx → UInt64) :
    oneWireConfigLoadMapping
        (cmdOneWireMapSave params (before ++ line :: after)) line.pin mapping =
      some fun j =>
        if j ∈ entries line then loadedAddress (line.sensors j).address
        else mapping j := by
  have hstored := cmdOneWireMapSave_line params before after hused hafter
  have hlen : ¬ strlen (mapValue line) < 1 := by
    have hpos := List.length_pos_iff.mpr (mapValue_ne_nil hused)
    rw [strlen]
    omega
  simp only [oneWireConfigLoadMapping, hstored, if_neg hlen, tokens_mapValue]
  exact loadEntries_map line (entries line) mapping

/-! ## The round trip -/

/-- After `map_save` and a start of the device a line has its addresses in its
mapping.  The lines behind it are on other pins. -/
def RoundTrips (line : OneWireLine Rom) : Prop :=
  ∀ (params : CStr → Option CStr) (before after : List (OneWireLine Rom)),
    (∀ l ∈ after, paramName l.pin ≠ paramName line.pin) →
    ∀ j, (line.sensors j).address ≠ 0 →
      ∃ mapping, oneWireConfigLoadMapping
          (cmdOneWireMapSave params (before ++ line :: after)) line.pin
          (fun _ => 0) = some mapping ∧
        mapping j = (line.sensors j).address

/-- Loading a string writes nothing outside the mapping. -/
def LoadsInside (config : CStr) : Prop :=
  ∀ (params : CStr → Option CStr) (pin : ℤ) (mapping : SlotIdx → UInt64),
    params (paramName pin) = some config →
    (oneWireConfigLoadMapping params pin mapping).isSome = true

/-- A pair of an index and an address, the index below 0. -/
def NegativeEntry (tok : CStr) : Prop :=
  ∃ strId strAddress,
    strtokR (some tok) (lit ":") = (some strId, some strAddress) ∧
      strtol strId 0 < 0

theorem roundTrips_iff (line : OneWireLine Rom) :
    RoundTrips line ↔
      ∀ j, (line.sensors j).address.toNat < 2 ^ 63 := by
  constructor
  · intro htrip j
    by_cases hused : (line.sensors j).address = 0
    · rw [hused]
      decide
    · obtain ⟨mapping, hload, hj⟩ := htrip (fun _ => none) [] []
        (fun l hl => absurd hl List.not_mem_nil) j hused
      have hnone : ∀ l ∈ ([] : List (OneWireLine Rom)),
          paramName l.pin ≠ paramName line.pin :=
        fun l hl => absurd hl List.not_mem_nil
      rw [load_save _ [] [] hused hnone] at hload
      rw [← Option.some.inj hload] at hj
      exact (loadedAddress_eq_iff _).mp
        ((if_pos (mem_entries.mpr hused)).symm.trans hj)
  · intro hsmall params before after hafter j hused
    refine ⟨_, load_save params before after hused hafter _, ?_⟩
    exact (if_pos (mem_entries.mpr hused)).trans
      ((loadedAddress_eq_iff _).mpr (hsmall j))

theorem loadEntry_isSome_iff (mapping : SlotIdx → UInt64) (tok : CStr) :
    (loadEntry mapping tok).isSome = true ↔ ¬ NegativeEntry tok := by
  rw [loadEntry]
  split
  next strId strAddress htok =>
    have hneg : NegativeEntry tok ↔ strtol strId 0 < 0 := by
      constructor
      · rintro ⟨strId', strAddress', htok', hlt⟩
        obtain ⟨hid, -⟩ := Prod.mk.inj (htok.symm.trans htok')
        rwa [Option.some.inj hid]
      · exact fun hlt => ⟨strId, strAddress, htok, hlt⟩
    rw [hneg, Int.not_lt]
    have hmax : onewireSenorsMax = 5 := rfl
    dsimp only
    split
    · simp only [Option.isSome_some, true_iff]
      omega
    · split
      next hinside => simp [hinside.1]
      next hinside =>
        simp only [Option.isSome_none, Bool.false_eq_true, false_iff]
        omega
  next hother =>
    simp only [Option.isSome_some, true_iff]
    rintro ⟨strId, strAddress, htok, -⟩
    exact hother strId strAddress htok

theorem loadEntries_isSome_iff (toks : List CStr) (mapping : SlotIdx → UInt64) :
    (loadEntries mapping toks).isSome = true ↔
      ∀ tok ∈ toks, ¬ NegativeEntry tok := by
  induction toks generalizing mapping with
  | nil => simp [loadEntries]
  | cons tok toks ih =>
      have hhead := loadEntry_isSome_iff mapping tok
      rw [loadEntries, List.foldlM_cons, List.forall_mem_cons, ← hhead]
      cases loadEntry mapping tok with
      | none => simp
      | some mapping' =>
          rw [Option.isSome_some, eq_self, true_and]
          exact ih mapping'

theorem loadsInside_iff (config : CStr) :
    LoadsInside config ↔
      ∀ tok ∈ tokens (some config) (lit ";"), ¬ NegativeEntry tok := by
  by_cases hconfig : strlen config < 1
  · have hnil : config = [] := List.eq_nil_of_length_eq_zero (Nat.lt_one_iff.mp hconfig)
    have htokens : tokens (some config) (lit ";") = [] := by
      rw [hnil]
      rfl
    rw [htokens]
    refine iff_of_true (fun params pin mapping hparam => ?_)
      (List.forall_mem_nil _)
    simp only [oneWireConfigLoadMapping, hparam, if_pos hconfig,
      Option.isSome_some]
  · constructor
    · intro hinside
      have hload := hinside (fun _ => some config) 0 (fun _ => 0) rfl
      simp only [oneWireConfigLoadMapping, if_neg hconfig] at hload
      exact (loadEntries_isSome_iff _ _).mp hload
    · intro hentries params pin mapping hparam
      simp only [oneWireConfigLoadMapping, hparam, if_neg hconfig]
      exact (loadEntries_isSome_iff _ _).mpr hentries

/-- An address survives if it is below `2 ^ 63`, and a string is loaded inside
the mapping if it has no index below 0. -/
theorem mapping_iff :
    (∀ line : OneWireLine Rom, RoundTrips line ↔
      ∀ j, (line.sensors j).address.toNat < 2 ^ 63) ∧
    ∀ config, LoadsInside config ↔
      ∀ tok ∈ tokens (some config) (lit ";"), ¬ NegativeEntry tok :=
  ⟨roundTrips_iff, loadsInside_iff⟩

/-- A sensor whose address begins with `9C` is loaded with another one, and
the string `-1:0x1` is written in front of the mapping. -/
theorem not_mapping :
    (¬ ∀ line : OneWireLine Unit, RoundTrips line) ∧
      ¬ ∀ config, LoadsInside config := by
  constructor
  · intro h
    let line : OneWireLine Unit :=
      { pin := 2
        countOnLine := 1
        savedMapping := fun _ => 0
        sensors := fun j =>
          { romAddr := (), address := if j = 0 then 0x9C00000A12B3C428 else 0,
            force := false } }
    obtain ⟨mapping, hload, hzero⟩ := h line (fun _ => none) [] []
      (List.forall_mem_nil _) 0 (by decide)
    have hread : (oneWireConfigLoadMapping
        (cmdOneWireMapSave (fun _ => none) [line]) 2 fun _ => 0).map
          (fun mapping => mapping 0) = some 0x7FFFFFFFFFFFFFFF := by
      decide +kernel
    have hmap : (some mapping).map (fun mapping => mapping 0) =
        some 0x7FFFFFFFFFFFFFFF := (congrArg _ hload).symm.trans hread
    rw [Option.map_some, hzero] at hmap
    exact absurd (Option.some.inj hmap) (by decide)
  · intro h
    have hload := h (lit "-1:0x1") (fun _ => some (lit "-1:0x1")) 2 (fun _ => 0) rfl
    have hnone : (oneWireConfigLoadMapping (fun _ => some (lit "-1:0x1")) 2
        fun _ => 0).isSome = false := by decide +kernel
    rw [hnone] at hload
    cases hload

end Herak.OneWire
