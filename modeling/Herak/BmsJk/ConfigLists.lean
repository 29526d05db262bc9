import Herak.BmsJk.Config
import Herak.Support.Forms

/-!
# Alignment of the configuration lists

The entries of a list that belong to a device are those at the place of its
entry in `BMS_BT`, if they have the form of the list.  The loops count tokens
and devices instead, so that an empty entry, or an entry of `BMS_BT` without a
device, moves the entries behind it to other devices.
-/

namespace Herak.BmsJk

open CInt CString Scripts

/-! ## What the lists say -/

/-- `<XX:XX:XX:XX:XX:XX>,<pin>` -/
def btForm (entry : CStr) : Option (List UInt8 × CStr) :=
  match entry.dropWhile (· ≠ 44) with
  | [] => none
  | _ :: pin =>
      match hexBytes 58 (entry.takeWhile (· ≠ 44)) with
      | some address =>
          if address.length = 6 ∧ pin ≠ [] then some (address, pin) else none
      | none => none

/-- The millivolts of a cell, from its volts. -/
def cellVoltForm (s : CStr) : Option ℕ :=
  (decimalFraction s).bind fun (n, places) =>
    if 0 < n ∧ (n : ℤ) ≤ cellVoltageMax * 10 ^ places then
      some (n * 1000 / 10 ^ places)
    else none

/-- `<low>,<high>` -/
def levelsForm (entry : CStr) : Option (ℕ × ℕ) :=
  match entry.splitOn 44 with
  | [low, high] =>
      match cellVoltForm low, cellVoltForm high with
      | some low, some high => if low < high then some (low, high) else none
      | _, _ => none
  | _ => none

/-- The milliseconds of a timeout, from its seconds. -/
def entryTimeout (entry : CStr) : ℕ :=
  (wholeNumber entry).getD 0 * 1000

def entryName (entry : CStr) : Option CStr :=
  if entry = [] then none else some entry

/-- A device with the cell levels that an entry says. -/
def entryLevels (entry : CStr) (dev : JkBmsDev) : JkBmsDev :=
  match levelsForm entry with
  | none => dev
  | some (low, high) => jkBtEnableBatteryTrack dev low high

/-- The amperes of a threshold; 0 is that of no automation. -/
def entryCharge (entry : CStr) : ℕ :=
  (wholeNumber entry).getD 0

/-- A device with the entries at a place; the settings without an entry of
their form are left as they are. -/
def listedDev (scripts : Option ScriptsContext) (p : BmsParams) (place : ℕ) :
    JkBmsDev :=
  let dev := JkBmsDev.cleared (entryName (entryAt p.name 59 place)) 0
    (entryTimeout (entryAt p.timeoutSec 59 place))
  let dev := entryLevels (entryAt p.cellLevels 59 place) dev
  let current := entryCharge (entryAt p.chargeCurrentThreshold 59 place)
  if 0 < current then jkBtEnableSolarTrack scripts dev current else dev

/-- The entry of `BMS_BT` is that of a device. -/
def IsDevice (p : BmsParams) (x : CStr × ℕ) : Bool :=
  (btForm x.1).isSome && isModel (entryAt p.model 59 x.2)

/-- For how many devices there is memory, of `n` from the `k`-th on. -/
def BmsMemory.roomFrom (memory : BmsMemory) : ℕ → ℕ → ℕ
  | 0, _ => 0
  | n + 1, k =>
      if memory.device k && memory.pin k then memory.roomFrom n (k + 1) + 1 else 0

/-- For how many devices there is memory. -/
def BmsMemory.room (memory : BmsMemory) : ℕ :=
  if memory.context then memory.roomFrom bmsMaxDevices 0 else 0

/-- The places of the devices in the lists, as far as there is memory. -/
def devicePlaces (memory : BmsMemory) (p : BmsParams) : List ℕ :=
  (((placedTokens p.bt 59).filter (IsDevice p)).take memory.room).map Prod.snd

/-- The device was given its own entries, and nothing else. -/
structure InPlace (scripts : Option ScriptsContext) (p : BmsParams)
    (d : ConfigDev) : Prop where
  bt : ∃ pin, btForm (entryAt p.bt 59 d.btPlace) = some (d.address, pin) ∧
    d.pin = some pin
  model : d.modelPlace = d.btPlace
  timeout : ∀ i, d.timeoutPlace = some i → i = d.btPlace
  levels : ∀ i, d.levelsPlace = some i → i = d.btPlace
  name : ∀ i, d.namePlace = some i → i = d.btPlace
  charge : ∀ i, d.chargePlace = some i → i = d.btPlace
  dev : d.dev = listedDev scripts p d.btPlace

/-- The devices are those of the lists, each with its own entries, and no null
pointer was dereferenced. -/
def Aligned (scripts : Option ScriptsContext) (memory : BmsMemory)
    (p : BmsParams) : Option (Option ConfigContext) → Prop
  | none => False
  | some none => devicePlaces memory p = []
  | some (some ctx) =>
      ctx.devices.map ConfigDev.btPlace = devicePlaces memory p ∧
        ∀ d ∈ ctx.devices, InPlace scripts p d

/-! ## When they are aligned -/

/-- An entry of `BMS_BT` with the token of `BMS_MODEL` that it is read with. -/
abbrev BtPair := (CStr × ℕ) × Option (CStr × ℕ)

def btPairs : List (CStr × ℕ) → List (CStr × ℕ) → List BtPair
  | [], _ => []
  | tok :: toks, mods => (tok, mods.head?) :: btPairs toks mods.tail

/-- The loop makes a device of the entry. -/
def BtPair.accepted (x : BtPair) : Bool :=
  match x.2 with
  | none => false
  | some mod => isModel mod.1 && (btEntry x.1.1).isSome

/-- The token of `BMS_MODEL` stands where the entry does. -/
def BtPair.Own (x : BtPair) : Prop :=
  x.2.map Prod.snd = some x.1.2

/-- The elements up to the `n`-th one with a property. -/
def upTo {α : Type*} (p : α → Bool) : ℕ → List α → List α
  | 0, _ => []
  | _, [] => []
  | n + 1, x :: xs => x :: upTo p (if p x then n else n + 1) xs

/-- The `k`-th token stands at the `k`-th place. -/
def Follows (places : List ℕ) (toks : List (CStr × ℕ)) : Prop :=
  ∀ (k i : ℕ) (x : CStr × ℕ), places[k]? = some i → toks[k]? = some x → x.2 = i

/-- The cell levels are valid: tracking of the battery is enabled. -/
def enables (pair : CStr × CStr) : Bool :=
  match cellLevels pair with
  | none => false
  | some (low, high) => low < high

/-- The entries with the tokens that they are read with. -/
def BmsParams.pairs (p : BmsParams) : List BtPair :=
  btPairs (placedTokens p.bt 59) (placedTokens p.model 59)

/-- The first device is left without a pin, and is not counted. -/
def Spare (memory : BmsMemory) (p : BmsParams) : Prop :=
  memory.device 0 = true ∧ memory.pin 0 = false ∧
    ∃ x ∈ p.pairs, x.accepted = true

/-- No entry is moved to another device or read in another form, and none
enables the automation. -/
structure Unshifted (memory : BmsMemory) (p : BmsParams) : Prop where
  models : ∀ x ∈ upTo BtPair.accepted memory.room p.pairs,
    (x.accepted = true → x.Own ∧ (btForm x.1.1).isSome = true) ∧
      (IsDevice p x.1 = true → x.accepted = true)
  timeouts : Follows (devicePlaces memory p) (listTokens p.timeoutSec)
  timeoutsRead : ∀ x ∈
      (listTokens p.timeoutSec).take (devicePlaces memory p).length,
    strtol x.1 0 = (wholeNumber x.1).getD 0
  names : Follows (devicePlaces memory p) (listTokens p.name)
  written : devicePlaces memory p = [] → ¬Spare memory p →
    listTokens p.timeoutSec = [] ∧ listTokens p.name = []
  levelsRead : ∀ x ∈
      (cellPairs p.cellLevels).take (max 1 (devicePlaces memory p).length),
    enables x.1 = false
  levelsOwn : ∀ i ∈ devicePlaces memory p,
    levelsForm (entryAt p.cellLevels 59 i) = none
  chargeRead : ∀ x ∈ (listTokens p.chargeCurrentThreshold).take
      (max 1 (devicePlaces memory p).length), strtol x.1 0 ≤ 0
  chargeOwn : ∀ i ∈ devicePlaces memory p,
    entryCharge (entryAt p.chargeCurrentThreshold 59 i) = 0

/-! ## Entries of their form -/

/-- What an entry of the form of `BMS_BT` is put together from. -/
theorem btForm_cases {entry pin : CStr} {address : List UInt8}
    (h : btForm entry = some (address, pin)) :
    ∃ addr, entry = addr ++ 44 :: pin ∧ 44 ∉ addr ∧
      hexBytes 58 addr = some address ∧ address.length = 6 ∧ pin ≠ [] := by
  have hsplit := List.takeWhile_append_dropWhile
    (p := fun c : UInt8 => decide (c ≠ 44)) (l := entry)
  rw [btForm] at h
  split at h
  · cases h
  next c rest hdrop =>
    split at h
    next bytes hbytes =>
      rw [Option.ite_none_right_eq_some] at h
      obtain ⟨⟨hlen, hpin⟩, hdev⟩ := h
      obtain ⟨rfl, rfl⟩ := Prod.mk.inj (Option.some.inj hdev)
      have hc : c = 44 := by
        have hhead := List.head_dropWhile_not (fun b : UInt8 => decide (b ≠ 44))
          (l := entry) (by rw [hdrop]; exact List.cons_ne_nil c rest)
        simp only [hdrop, List.head_cons] at hhead
        simpa using hhead
      rw [hdrop, hc] at hsplit
      refine ⟨_, hsplit.symm, fun hmem => ?_, hbytes, hlen, hpin⟩
      simpa using List.mem_takeWhile_imp hmem
    · cases h

/-- The bytes of an address are read from its tokens. -/
theorem address_of_hexBytes {addr : CStr} {address : List UInt8}
    (h : hexBytes 58 addr = some address) :
    (tokens (some addr) (lit ":")).map
      (fun ch => UInt8.ofNat (toUInt8 (strtol ch 16))) = address := by
  have hmap := congrArg (List.map fun n => UInt8.ofNat (toUInt8 n)) (hexBytes_tokens h)
  rw [List.map_map, List.map_map] at hmap
  refine hmap.trans (List.map_id'' (fun byte => ?_) address)
  have hbyte := byte.toNat_lt
  simp [toUInt8, Int.emod_eq_of_lt, hbyte]

/-- An entry of the form of `BMS_BT` is read as the form says. -/
theorem btEntry_of_btForm {entry : CStr} {dev : List UInt8 × CStr}
    (h : btForm entry = some dev) : btEntry entry = some dev := by
  obtain ⟨address, pin⟩ := dev
  obtain ⟨addr, rfl, hcomma, hbytes, hlen, hpin⟩ := btForm_cases h
  have haddress := address_of_hexBytes hbytes
  have hlength : (tokens (some addr) (lit ":")).length = 6 := by
    rw [← hlen, ← haddress, List.length_map]
  have hne : addr ≠ [] := by
    rintro rfl
    exact absurd hlength (by decide)
  have hpre : ∀ c ∈ ([] : CStr), c = 44 := fun c hc => (List.not_mem_nil hc).elim
  have hword : strtokR (some (addr ++ 44 :: pin)) (lit ",") =
      (some addr, some pin) :=
    strtokR_word hpre hne hcomma pin
  have haddrlen := List.length_pos_iff.mpr hne
  have hpinlen := List.length_pos_iff.mpr hpin
  rw [btEntry, hword]
  dsimp only
  rw [if_neg (by rw [strlen, strlen]; omega), List.take_of_length_le hlength.le,
    if_neg (not_not.mpr hlength), haddress]

/-! ## The loop over the devices -/

/-- The device of an entry. -/
def BtPair.dev (x : BtPair) : ConfigDev :=
  .new (((btEntry x.1.1).map Prod.fst).getD []) ((btEntry x.1.1).map Prod.snd)
    x.1.2 ((x.2.map Prod.snd).getD 0)

theorem map_fst_btPairs (toks mods : List (CStr × ℕ)) :
    (btPairs toks mods).map Prod.fst = toks := by
  induction toks generalizing mods with
  | nil => rfl
  | cons tok toks ih => rw [btPairs, List.map_cons, ih]

theorem mem_btPairs_snd {toks mods : List (CStr × ℕ)} {x : BtPair}
    (hx : x ∈ btPairs toks mods) {mod : CStr × ℕ} (hmod : x.2 = some mod) :
    mod ∈ mods := by
  induction toks generalizing mods with
  | nil => cases hx
  | cons tok toks ih =>
      rw [btPairs, List.mem_cons] at hx
      rcases hx with rfl | hx
      · exact List.mem_of_mem_head? hmod
      · exact List.mem_of_mem_tail (ih hx)

/-- One round of the loop with an entry of a device. -/
theorem btLoop_accepted (memory : BmsMemory) {tok : CStr × ℕ}
    (toks : List (CStr × ℕ)) {mods : List (CStr × ℕ)} (devices : List ConfigDev)
    (h : BtPair.accepted (tok, mods.head?) = true) :
    ∃ d : ConfigDev, d.bmsData = none ∧
      btLoop memory (tok :: toks) mods devices =
        if bmsMaxDevices ≤ devices.length then (devices, none)
        else if !memory.device devices.length then (devices, none)
        else if !memory.pin devices.length then (devices, some d)
        else btLoop memory toks mods.tail
          (devices ++ [BtPair.dev (tok, mods.head?)]) := by
  obtain ⟨tok, btPlace⟩ := tok
  obtain _ | ⟨⟨mod, modelPlace⟩, mods⟩ := mods
  · cases h
  · simp only [BtPair.accepted, List.head?_cons, Bool.and_eq_true] at h
    obtain ⟨hmodel, hentry⟩ := h
    obtain ⟨⟨address, pin⟩, hentry⟩ := Option.isSome_iff_exists.mp hentry
    refine ⟨.new address none btPlace modelPlace, rfl, ?_⟩
    rw [btLoop, if_neg (by simp [hmodel]), hentry]
    simp [BtPair.dev, hentry]

/-- One round of the loop with another entry. -/
theorem btLoop_rejected {memory : BmsMemory} {tok : CStr × ℕ}
    {toks mods : List (CStr × ℕ)} {devices : List ConfigDev}
    (h : BtPair.accepted (tok, mods.head?) = false) :
    btLoop memory (tok :: toks) mods devices =
      btLoop memory toks mods.tail devices := by
  obtain ⟨tok, btPlace⟩ := tok
  obtain _ | ⟨⟨mod, modelPlace⟩, mods⟩ := mods
  · rw [btLoop]
    rfl
  · rw [btLoop]
    by_cases hmodel : isModel mod = true
    · have hentry : btEntry tok = none := by
        simpa [BtPair.accepted, hmodel] using h
      rw [if_neg (by simp [hmodel]), hentry]
      rfl
    · rw [if_pos (by simpa using hmodel)]
      rfl

/-- The devices are those of the first pairs that are accepted, as far as there
is memory. -/
theorem btLoop_fst (memory : BmsMemory) {toks mods : List (CStr × ℕ)}
    {devices : List ConfigDev} (hlen : devices.length ≤ bmsMaxDevices) :
    (btLoop memory toks mods devices).1 =
      devices ++ (((btPairs toks mods).filter BtPair.accepted).take
        (memory.roomFrom (bmsMaxDevices - devices.length) devices.length)).map
          BtPair.dev := by
  induction toks generalizing mods devices with
  | nil => simp [btLoop, btPairs]
  | cons tok toks ih =>
      rw [btPairs]
      by_cases haccepted : BtPair.accepted (tok, mods.head?) = true
      · obtain ⟨d, -, hround⟩ := btLoop_accepted memory toks devices haccepted
        rw [hround, List.filter_cons_of_pos haccepted]
        by_cases hfull : bmsMaxDevices ≤ devices.length
        · have hzero : bmsMaxDevices - devices.length = 0 := by omega
          rw [if_pos hfull, hzero]
          simp [BmsMemory.roomFrom]
        · have hsucc : bmsMaxDevices - devices.length =
              (bmsMaxDevices - (devices.length + 1)) + 1 := by omega
          rw [if_neg hfull, hsucc, BmsMemory.roomFrom]
          cases hdevice : memory.device devices.length with
          | false => simp
          | true =>
              cases hpin : memory.pin devices.length with
              | false => simp
              | true =>
                  have hlen' : (devices ++
                      [BtPair.dev (tok, mods.head?)]).length ≤ bmsMaxDevices := by
                    rw [List.length_append, List.length_singleton]
                    omega
                  have hrest := @ih mods.tail _ hlen'
                  rw [List.length_append, List.length_singleton] at hrest
                  simp [hrest]
      · rw [Bool.not_eq_true] at haccepted
        rw [btLoop_rejected haccepted, ih hlen,
          List.filter_cons_of_neg (by simp [haccepted])]

/-- The device that is not counted has no component. -/
theorem bmsData_of_btLoop_snd (memory : BmsMemory) {toks mods : List (CStr × ℕ)}
    {devices : List ConfigDev} :
    ∀ d ∈ (btLoop memory toks mods devices).2, d.bmsData = none := by
  induction toks generalizing mods devices with
  | nil => simp [btLoop]
  | cons tok toks ih =>
      by_cases haccepted : BtPair.accepted (tok, mods.head?) = true
      · obtain ⟨d, hd, hround⟩ := btLoop_accepted memory toks devices haccepted
        rw [hround]
        split_ifs
        · simp
        · simp
        · simpa using hd
        · exact ih
      · rw [btLoop_rejected (Bool.not_eq_true _ ▸ haccepted)]
        exact ih

/-- When the loop makes no device, but leaves one without a pin. -/
theorem btLoop_snd_iff (memory : BmsMemory) {toks mods : List (CStr × ℕ)}
    (hnil : (btLoop memory toks mods []).1 = []) :
    (btLoop memory toks mods []).2.isSome = true ↔
      memory.device 0 = true ∧ memory.pin 0 = false ∧
        ∃ x ∈ btPairs toks mods, x.accepted = true := by
  induction toks generalizing mods with
  | nil => simp [btLoop, btPairs]
  | cons tok toks ih =>
      rw [btPairs]
      by_cases haccepted : BtPair.accepted (tok, mods.head?) = true
      · obtain ⟨d, -, hround⟩ := btLoop_accepted memory toks [] haccepted
        rw [hround, if_neg (by decide), List.length_nil] at hnil ⊢
        cases hdevice : memory.device 0 with
        | false => simp
        | true =>
            cases hpin : memory.pin 0 with
            | false => simp [haccepted]
            | true =>
                -- The device is counted.
                simp only [hdevice, hpin, Bool.not_true, Bool.false_eq_true,
                  if_false] at hnil
                rw [btLoop_fst memory (Nat.le_of_ble_eq_true rfl)] at hnil
                simp at hnil
      · rw [Bool.not_eq_true] at haccepted
        rw [btLoop_rejected haccepted] at hnil ⊢
        rw [ih hnil]
        simp [haccepted]

theorem mem_of_mem_upTo {α : Type*} {p : α → Bool} {n : ℕ} {l : List α} {x : α}
    (hx : x ∈ upTo p n l) : x ∈ l := by
  induction l generalizing n with
  | nil => cases n <;> cases hx
  | cons y l ih =>
      obtain _ | n := n
      · cases hx
      · rw [upTo, List.mem_cons] at hx
        rcases hx with rfl | hx
        · exact List.mem_cons_self
        · exact List.mem_cons_of_mem y (ih hx)

/-- Two properties pick the same first elements, and those with the first one
have a third one, if and only if they agree on each element up to there. -/
theorem take_filter_iff {α : Type*} {accepted listed : α → Bool} {own : α → Prop}
    {place : α → ℕ} {l : List α} (hnodup : (l.map place).Nodup) (n : ℕ) :
    (((l.filter accepted).take n).map place = ((l.filter listed).take n).map place ∧
        ∀ x ∈ (l.filter accepted).take n, own x) ↔
      ∀ x ∈ upTo accepted n l,
        (accepted x = true → own x ∧ listed x = true) ∧
          (listed x = true → accepted x = true) := by
  induction l generalizing n with
  | nil =>
      cases n with
      | zero => simp [upTo]
      | succ n => simp [upTo]
  | cons x l ih =>
      obtain _ | n := n
      · simp [upTo]
      · rw [List.map_cons, List.nodup_cons] at hnodup
        have hrest := ih hnodup.2
        -- The place of `x` is not among those of the other elements.
        have hfresh : ∀ (p : α → Bool) (m : ℕ) (ys : List ℕ),
            ((l.filter p).take m).map place ≠ place x :: ys := by
          intro p m ys h
          refine hnodup.1 ?_
          have hmem : place x ∈ ((l.filter p).take m).map place :=
            h ▸ List.mem_cons_self
          obtain ⟨y, hy, hyx⟩ := List.mem_map.mp hmem
          exact hyx ▸ List.mem_map_of_mem
            (List.mem_of_mem_filter (List.mem_of_mem_take hy))
        rw [upTo, List.forall_mem_cons]
        by_cases haccepted : accepted x = true
        · rw [List.filter_cons_of_pos haccepted, if_pos haccepted,
            List.take_succ_cons, List.map_cons, List.forall_mem_cons, ← hrest]
          by_cases hlisted : listed x = true
          · rw [List.filter_cons_of_pos hlisted, List.take_succ_cons, List.map_cons,
              List.cons.injEq]
            simp only [haccepted, hlisted, true_and, forall_const, and_true]
            exact and_left_comm
          · rw [List.filter_cons_of_neg hlisted]
            refine iff_of_false (fun h => ?_) fun h => ?_
            · exact hfresh listed (n + 1) _ h.1.symm
            · exact hlisted (h.1.1 haccepted).2
        · rw [List.filter_cons_of_neg haccepted, if_neg haccepted, ← hrest]
          by_cases hlisted : listed x = true
          · rw [List.filter_cons_of_pos hlisted, List.take_succ_cons, List.map_cons]
            refine iff_of_false (fun h => ?_) fun h => ?_
            · exact hfresh accepted (n + 1) _ h.1
            · exact haccepted (h.1.2 hlisted)
          · rw [List.filter_cons_of_neg hlisted]
            simp [haccepted, hlisted]

/-! ## The loops over the settings -/

/-- The `k`-th token sets the `k`-th device. -/
def setEach (f : CStr × ℕ → ConfigDev → ConfigDev) :
    List (CStr × ℕ) → List ConfigDev → List ConfigDev
  | [], devices => devices
  | _, [] => []
  | tok :: toks, d :: devices => f tok d :: setEach f toks devices

theorem getElem?_setEach (f : CStr × ℕ → ConfigDev → ConfigDev)
    (toks : List (CStr × ℕ)) (devices : List ConfigDev) (k : ℕ) :
    (setEach f toks devices)[k]? =
      devices[k]?.map fun d => (toks[k]?).elim d fun tok => f tok d := by
  induction toks generalizing devices k with
  | nil => simp [setEach]
  | cons tok toks ih =>
      obtain _ | ⟨d, devices⟩ := devices
      · simp [setEach]
      · obtain _ | k := k
        · simp [setEach]
        · simpa [setEach] using ih devices k

theorem length_setEach (f : CStr × ℕ → ConfigDev → ConfigDev)
    (toks : List (CStr × ℕ)) (devices : List ConfigDev) :
    (setEach f toks devices).length = devices.length := by
  induction toks generalizing devices with
  | nil => rfl
  | cons tok toks ih =>
      obtain _ | ⟨d, devices⟩ := devices
      · rfl
      · rw [setEach, List.length_cons, List.length_cons, ih]

section

variable {α : Type*} {body : α → Option ConfigDev → Option (Option ConfigDev)}

/-- A device behind those that are counted is not touched. -/
theorem configLoop_append {count i : ℕ} (hi : i < count) (toks : List α)
    {devices : List ConfigDev} (hcount : devices.length = count)
    (behind : List ConfigDev) :
    configLoop body count i toks (devices ++ behind) =
      (configLoop body count i toks devices).map (· ++ behind) := by
  induction toks generalizing i devices with
  | nil => rfl
  | cons tok toks ih =>
      rw [configLoop, configLoop, List.getElem?_append_left (hcount ▸ hi)]
      cases hbody : body tok devices[i]? with
      | none => rfl
      | some dev =>
          have hput : putDev (devices ++ behind) i dev =
              putDev devices i dev ++ behind := by
            cases dev with
            | none => rfl
            | some d => exact List.set_append_left i d (hcount ▸ hi)
          have hlen : (putDev devices i dev).length = count := by
            cases dev with
            | none => exact hcount
            | some d => rw [putDev, List.length_set, hcount]
          simp only [Option.bind_eq_bind, Option.bind_some, hput]
          split
          · rfl
          next hlast => exact ih (Nat.not_le.mp hlast) hlen

/-- A round of a loop at the device behind `before`. -/
theorem configLoop_append_cons {count : ℕ} (tok : α) (toks : List α)
    {before : List ConfigDev} {d : ConfigDev} {devices : List ConfigDev}
    (hcount : count = (before ++ d :: devices).length) :
    configLoop body count before.length (tok :: toks) (before ++ d :: devices) =
      (body tok (some d)).bind fun dev =>
        if devices = [] then some (before ++ [dev.getD d])
        else configLoop body count (before ++ [dev.getD d]).length toks
          (before ++ [dev.getD d] ++ devices) := by
  have hat : (before ++ d :: devices)[before.length]? = some d := by simp
  have hput : ∀ dev, putDev (before ++ d :: devices) before.length dev =
      before ++ dev.getD d :: devices := by
    intro dev
    cases dev with
    | none => rfl
    | some d' => simp [putDev]
  have hlast : count ≤ before.length + 1 ↔ devices = [] := by
    rw [hcount, ← List.length_eq_zero_iff, List.length_append, List.length_cons]
    omega
  rw [configLoop, hat]
  cases hbody : body tok (some d) with
  | none => rfl
  | some dev =>
      simp only [Option.bind_eq_bind, Option.bind_some, hput, hlast]
      split
      next hnil => rw [hnil]
      · rw [List.length_append, List.length_singleton, List.append_assoc,
          List.singleton_append]

/-- A loop that sets something of each device. -/
theorem configLoop_set {body : CStr × ℕ → Option ConfigDev → Option (Option ConfigDev)}
    {f : CStr × ℕ → ConfigDev → ConfigDev}
    (hbody : ∀ tok dev, body tok dev = dev.map fun d => some (f tok d))
    {count : ℕ} (toks : List (CStr × ℕ)) (before : List ConfigDev) (d : ConfigDev)
    (devices : List ConfigDev) (hcount : count = (before ++ d :: devices).length) :
    configLoop body count before.length toks (before ++ d :: devices) =
      some (before ++ setEach f toks (d :: devices)) := by
  induction toks generalizing before d devices with
  | nil => rfl
  | cons tok toks ih =>
      rw [configLoop_append_cons tok toks hcount, hbody, setEach]
      obtain _ | ⟨d', devices⟩ := devices
      · cases toks with
        | nil => rfl
        | cons tok' toks => rfl
      · have hrest := ih (before ++ [f tok d]) d' devices (by rw [hcount]; simp)
        rw [List.append_assoc, List.singleton_append] at hrest
        simpa using hrest

/-- What the loop does with the device that is not counted: without others it
takes the first token. -/
def setSpare (f : CStr × ℕ → ConfigDev → ConfigDev) (toks : List (CStr × ℕ))
    (devices : List ConfigDev) (spare : Option ConfigDev) : Option ConfigDev :=
  if devices = [] then spare.map fun d => toks.head?.elim d fun tok => f tok d
  else spare

/-- From the first device on; without one the first token meets a null
pointer. -/
theorem configLoop_set_zero
    (body : CStr × ℕ → Option ConfigDev → Option (Option ConfigDev))
    {f : CStr × ℕ → ConfigDev → ConfigDev}
    (hbody : ∀ tok dev, body tok dev = dev.map fun d => some (f tok d))
    (toks : List (CStr × ℕ)) (devices : List ConfigDev) (spare : Option ConfigDev) :
    configLoop body devices.length 0 toks (devices ++ spare.toList) =
      if devices.length = 0 → spare.isSome = false → toks = [] then
        some (setEach f toks devices ++ (setSpare f toks devices spare).toList)
      else none := by
  obtain _ | ⟨d, devices⟩ := devices
  · obtain _ | ⟨tok, toks⟩ := toks
    · cases spare <;> rfl
    · cases spare <;> simp [configLoop, hbody, setEach, setSpare, putDev]
  · have hset := configLoop_set hbody toks [] d devices rfl
    rw [if_pos (by simp),
      configLoop_append (List.length_pos_of_ne_nil (List.cons_ne_nil d devices)) toks rfl]
    simp only [List.nil_append, List.length_nil] at hset
    rw [hset, setSpare, if_neg (List.cons_ne_nil _ _)]
    rfl

/-- A loop that does nothing, or meets a null pointer. -/
theorem configLoop_keep {bad : α → Bool}
    (hbody : ∀ tok (dev : Option ConfigDev),
      (∀ d, dev = some d → d.bmsData = none) →
        body tok dev = if bad tok = true then none else some dev)
    {count : ℕ} (toks : List α) (before : List ConfigDev) (d : ConfigDev)
    (devices : List ConfigDev) (hcount : count = (before ++ d :: devices).length)
    (hdata : ∀ d' ∈ d :: devices, d'.bmsData = none) :
    configLoop body count before.length toks (before ++ d :: devices) =
      if ∀ tok ∈ toks.take (d :: devices).length, bad tok = false then
        some (before ++ d :: devices)
      else none := by
  induction toks generalizing before d devices with
  | nil => simp [configLoop]
  | cons tok toks ih =>
      have hd : ∀ d', some d = some d' → d'.bmsData = none := by
        rintro d' ⟨⟩
        exact hdata d List.mem_cons_self
      rw [configLoop_append_cons tok toks hcount, hbody tok (some d) hd,
        List.length_cons, List.take_succ_cons]
      simp only [List.forall_mem_cons]
      by_cases hbad : bad tok = true
      · simp [hbad]
      · rw [if_neg hbad, Option.bind_some, Option.getD_some]
        obtain _ | ⟨d', devices⟩ := devices
        · simp [hbad]
        · have hrest := ih (before ++ [d]) d' devices
            (by rw [hcount]; simp) fun e he => hdata e (List.mem_cons_of_mem d he)
          rw [if_neg (List.cons_ne_nil _ _), hrest]
          simp [hbad]

theorem configLoop_keep_zero {bad : α → Bool}
    (hbody : ∀ tok (dev : Option ConfigDev),
      (∀ d, dev = some d → d.bmsData = none) →
        body tok dev = if bad tok = true then none else some dev)
    (toks : List α) {devices : List ConfigDev} {spare : Option ConfigDev}
    (hdata : ∀ d ∈ devices, d.bmsData = none)
    (hspare : ∀ d ∈ spare, d.bmsData = none) :
    configLoop body devices.length 0 toks (devices ++ spare.toList) =
      if ∀ tok ∈ toks.take (max 1 devices.length), bad tok = false then
        some (devices ++ spare.toList)
      else none := by
  obtain _ | ⟨d, devices⟩ := devices
  · obtain _ | ⟨tok, toks⟩ := toks
    · simp [configLoop]
    · have htok := hbody tok spare hspare
      have hput : putDev spare.toList 0 spare = spare.toList := by
        cases spare <;> rfl
      have hat : spare.toList[0]? = spare := by
        cases spare <;> rfl
      by_cases hbad : bad tok = true
      · simp [configLoop, hat, htok, hbad]
      · simp [configLoop, hat, htok, hbad, hput]
  · have hmax : max 1 (d :: devices).length = (d :: devices).length := by
      rw [List.length_cons]
      omega
    have hkeep := configLoop_keep hbody toks [] d devices rfl hdata
    simp only [List.nil_append, List.length_nil] at hkeep
    rw [hmax,
      configLoop_append (List.length_pos_of_ne_nil (List.cons_ne_nil d devices)) toks rfl,
      hkeep]
    split <;> rfl

end

end Herak.BmsJk
