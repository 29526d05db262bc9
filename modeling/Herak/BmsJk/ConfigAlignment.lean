import Herak.BmsJk.ConfigLists

/-!
# When the configuration is aligned

`get_bms_config` is put together from its loops, and its result is compared with
what the lists say.
-/

namespace Herak.BmsJk

open CInt CString Scripts

variable {scripts : Option ScriptsContext} {memory : BmsMemory} {p : BmsParams}

/-! ## The loops of `get_bms_config` -/

def withTimeout (tok : CStr × ℕ) (d : ConfigDev) : ConfigDev :=
  { d with
    dev := { d.dev with timeoutMsec := timeoutMsec tok.1 }
    timeoutPlace := some tok.2 }

def withName (tok : CStr × ℕ) (d : ConfigDev) : ConfigDev :=
  { d with
    dev := { d.dev with userName := some tok.1 }
    namePlace := some tok.2 }

/-- A device whose component does not exist yet is not changed by valid cell
levels: the component is dereferenced. -/
theorem setLevels_keep (pair : (CStr × CStr) × ℕ) (dev : Option ConfigDev)
    (hdev : ∀ d, dev = some d → d.bmsData = none) :
    setLevels pair dev =
      if enables pair.1 = true then none else some dev := by
  unfold setLevels enables
  cases cellLevels pair.1 with
  | none => simp
  | some levels =>
      obtain ⟨low, high⟩ := levels
      dsimp only
      unfold enableBatteryTrack
      by_cases hlevels : high ≤ low
      · rw [if_pos hlevels, if_neg (by simpa using hlevels)]
      · rw [if_neg hlevels, if_pos (by simpa using hlevels)]
        cases dev with
        | none => rfl
        | some d => simp [hdev d rfl]

theorem setCharge_keep (scripts : Option ScriptsContext) (tok : CStr × ℕ)
    (dev : Option ConfigDev)
    (hdev : ∀ d, dev = some d → d.bmsData = none) :
    setCharge scripts tok dev =
      if decide (0 < strtol tok.1 0) = true then none else some dev := by
  simp only [setCharge, decide_eq_true_eq]
  split
  · unfold enableSolarTrack
    cases dev with
    | none => rfl
    | some d => simp [hdev d rfl]
  · rfl

theorem bmsData_setEach (f : CStr × ℕ → ConfigDev → ConfigDev)
    (hf : ∀ tok d, (f tok d).bmsData = d.bmsData) (toks : List (CStr × ℕ))
    {devices : List ConfigDev} (h : ∀ d ∈ devices, d.bmsData = none) :
    ∀ d ∈ setEach f toks devices, d.bmsData = none := by
  intro d hd
  obtain ⟨k, hk⟩ := List.mem_iff_getElem?.mp hd
  rw [getElem?_setEach] at hk
  obtain ⟨d₀, hd₀, rfl⟩ := Option.map_eq_some_iff.mp hk
  have hdata := h d₀ (List.mem_of_getElem? hd₀)
  cases toks[k]? with
  | none => exact hdata
  | some tok => exact (hf tok d₀).trans hdata

theorem bmsData_setSpare (f : CStr × ℕ → ConfigDev → ConfigDev)
    (hf : ∀ tok d, (f tok d).bmsData = d.bmsData) (toks : List (CStr × ℕ))
    (devices : List ConfigDev) {spare : Option ConfigDev}
    (h : ∀ d ∈ spare, d.bmsData = none) :
    ∀ d ∈ setSpare f toks devices spare, d.bmsData = none := by
  rw [setSpare]
  split
  · intro d hd
    obtain ⟨d₀, hd₀, rfl⟩ := Option.map_eq_some_iff.mp hd
    cases toks.head? with
    | none => exact h d₀ hd₀
    | some tok => exact (hf tok d₀).trans (h d₀ hd₀)
  · exact h

theorem isSome_setSpare (f : CStr × ℕ → ConfigDev → ConfigDev)
    (toks : List (CStr × ℕ)) (devices : List ConfigDev) (spare : Option ConfigDev) :
    (setSpare f toks devices spare).isSome = spare.isSome := by
  rw [setSpare]
  split
  · rw [Option.isSome_map]
  · rfl

/-- No loop dereferences a null pointer; `spare` is whether there is a device
that is not counted. -/
structure NoNull (p : BmsParams) (count : ℕ) (spare : Bool) : Prop where
  timeouts : count = 0 → spare = false → listTokens p.timeoutSec = []
  levels : ∀ x ∈ (cellPairs p.cellLevels).take (max 1 count), enables x.1 = false
  names : count = 0 → spare = false → listTokens p.name = []
  charge : ∀ x ∈ (listTokens p.chargeCurrentThreshold).take (max 1 count),
    decide (0 < strtol x.1 0) = false

/-- The devices before their settings. -/
def btDevices (memory : BmsMemory) (p : BmsParams) : List ConfigDev :=
  ((p.pairs.filter BtPair.accepted).take memory.room).map BtPair.dev

/-- The device that is not counted. -/
def btSpare (memory : BmsMemory) (p : BmsParams) : Option ConfigDev :=
  (btLoop memory (placedTokens p.bt 59) (placedTokens p.model 59) []).2

/-- The devices with their settings. -/
def setDevices (memory : BmsMemory) (p : BmsParams) : List ConfigDev :=
  setEach withName (listTokens p.name)
    (setEach withTimeout (listTokens p.timeoutSec) (btDevices memory p))

theorem length_setDevices (memory : BmsMemory) (p : BmsParams) :
    (setDevices memory p).length = (btDevices memory p).length := by
  rw [setDevices, length_setEach, length_setEach]

theorem btLoop_btDevices (hcontext : memory.context = true) (p : BmsParams) :
    btLoop memory (placedTokens p.bt 59) (placedTokens p.model 59) [] =
      (btDevices memory p, btSpare memory p) := by
  refine Prod.ext ?_ rfl
  rw [btLoop_fst memory (Nat.zero_le _), btDevices, BmsMemory.room, if_pos hcontext]
  rfl

theorem bmsData_btDevices (memory : BmsMemory) (p : BmsParams) :
    ∀ d ∈ btDevices memory p, d.bmsData = none := by
  intro d hd
  obtain ⟨x, -, rfl⟩ := List.mem_map.mp hd
  rfl

/-- Without a device that is counted, the first one may be there without a
pin. -/
theorem btSpare_iff (hcontext : memory.context = true)
    (hnil : btDevices memory p = []) :
    (btSpare memory p).isSome = true ↔ Spare memory p := by
  refine btLoop_snd_iff memory ?_
  rw [btLoop_btDevices hcontext]
  exact hnil

/-- The devices with their timeouts. -/
def timedDevices (memory : BmsMemory) (p : BmsParams) : List ConfigDev :=
  setEach withTimeout (listTokens p.timeoutSec) (btDevices memory p)

/-- The device that is not counted, with its timeout. -/
def timedSpare (memory : BmsMemory) (p : BmsParams) : Option ConfigDev :=
  setSpare withTimeout (listTokens p.timeoutSec) (btDevices memory p)
    (btSpare memory p)

/-- The device that is not counted, with its settings. -/
def setSpareDevice (memory : BmsMemory) (p : BmsParams) : Option ConfigDev :=
  setSpare withName (listTokens p.name) (timedDevices memory p)
    (timedSpare memory p)

theorem length_timedDevices (memory : BmsMemory) (p : BmsParams) :
    (timedDevices memory p).length = (btDevices memory p).length :=
  length_setEach _ _ _

theorem isSome_timedSpare (memory : BmsMemory) (p : BmsParams) :
    (timedSpare memory p).isSome = (btSpare memory p).isSome :=
  isSome_setSpare _ _ _ _

theorem bmsData_timedDevices (memory : BmsMemory) (p : BmsParams) :
    ∀ d ∈ timedDevices memory p, d.bmsData = none :=
  bmsData_setEach withTimeout (fun _ _ => rfl) _ (bmsData_btDevices memory p)

theorem bmsData_timedSpare (memory : BmsMemory) (p : BmsParams) :
    ∀ d ∈ timedSpare memory p, d.bmsData = none :=
  bmsData_setSpare withTimeout (fun _ _ => rfl) _ _ (bmsData_of_btLoop_snd memory)

theorem timeouts_loop (memory : BmsMemory) (p : BmsParams) :
    configLoop setTimeout (btDevices memory p).length 0 (listTokens p.timeoutSec)
        (btDevices memory p ++ (btSpare memory p).toList) =
      if (btDevices memory p).length = 0 → (btSpare memory p).isSome = false →
          listTokens p.timeoutSec = [] then
        some (timedDevices memory p ++ (timedSpare memory p).toList)
      else none :=
  configLoop_set_zero setTimeout (fun _ _ => rfl) _ _ _

theorem levels_loop (memory : BmsMemory) (p : BmsParams) :
    configLoop setLevels (btDevices memory p).length 0 (cellPairs p.cellLevels)
        (timedDevices memory p ++ (timedSpare memory p).toList) =
      if ∀ x ∈ (cellPairs p.cellLevels).take (max 1 (btDevices memory p).length),
          enables x.1 = false then
        some (timedDevices memory p ++ (timedSpare memory p).toList)
      else none := by
  rw [← length_timedDevices]
  exact configLoop_keep_zero setLevels_keep _ (bmsData_timedDevices memory p)
    (bmsData_timedSpare memory p)

theorem names_loop (memory : BmsMemory) (p : BmsParams) :
    configLoop setName (btDevices memory p).length 0 (listTokens p.name)
        (timedDevices memory p ++ (timedSpare memory p).toList) =
      if (btDevices memory p).length = 0 → (btSpare memory p).isSome = false →
          listTokens p.name = [] then
        some (setDevices memory p ++ (setSpareDevice memory p).toList)
      else none := by
  rw [← length_timedDevices, ← isSome_timedSpare]
  exact configLoop_set_zero setName (fun _ _ => rfl) _ _ _

theorem charge_loop (scripts : Option ScriptsContext) (memory : BmsMemory)
    (p : BmsParams) :
    configLoop (setCharge scripts) (btDevices memory p).length 0
        (listTokens p.chargeCurrentThreshold)
        (setDevices memory p ++ (setSpareDevice memory p).toList) =
      if ∀ x ∈ (listTokens p.chargeCurrentThreshold).take
            (max 1 (btDevices memory p).length),
          decide (0 < strtol x.1 0) = false then
        some (setDevices memory p ++ (setSpareDevice memory p).toList)
      else none := by
  have hdevices : ∀ d ∈ setDevices memory p, d.bmsData = none :=
    bmsData_setEach withName (fun _ _ => rfl) _ (bmsData_timedDevices memory p)
  have hspare : ∀ d ∈ setSpareDevice memory p, d.bmsData = none :=
    bmsData_setSpare withName (fun _ _ => rfl) _ _ (bmsData_timedSpare memory p)
  rw [← length_setDevices]
  exact configLoop_keep_zero (setCharge_keep scripts) _ hdevices hspare

/-- The loops over the settings, while none of them meets a null pointer. -/
theorem getBmsConfig_loops {r : Option ConfigContext}
    (hmodel : hasText p.model = true) (hbt : hasText p.bt = true)
    (hcontext : memory.context = true) :
    getBmsConfig scripts memory p = some r ↔
      NoNull p (btDevices memory p).length (btSpare memory p).isSome ∧
        r = if btDevices memory p = [] then none
          else some ⟨whNotify p.notify, setDevices memory p⟩ := by
  have hlast : 0 < (btDevices memory p).length ↔ ¬ btDevices memory p = [] := by
    rw [← List.length_eq_zero_iff, Nat.pos_iff_ne_zero]
  have htake : (setDevices memory p ++ (setSpareDevice memory p).toList).take
      (btDevices memory p).length = setDevices memory p := by
    rw [← length_setDevices, List.take_left]
  rw [getBmsConfig, if_neg (by simp [hmodel]), if_neg (by simp [hbt]),
    if_neg (by simp [hcontext]), btLoop_btDevices hcontext]
  simp only [Option.bind_eq_bind, Option.bind_eq_some_iff, timeouts_loop,
    Option.ite_none_right_eq_some, Option.some.injEq]
  constructor
  · rintro ⟨_, ⟨htimeouts, rfl⟩, _, hcells, _, hn, _, hc, hr⟩
    rw [levels_loop, Option.ite_none_right_eq_some] at hcells
    obtain ⟨hcells, hd⟩ := hcells
    obtain rfl := Option.some.inj hd
    rw [names_loop, Option.ite_none_right_eq_some] at hn
    obtain ⟨hn, hd⟩ := hn
    obtain rfl := Option.some.inj hd
    rw [charge_loop, Option.ite_none_right_eq_some] at hc
    obtain ⟨hc, hd⟩ := hc
    obtain rfl := Option.some.inj hd
    refine ⟨⟨htimeouts, hcells, hn, hc⟩, ?_⟩
    simp only [hlast, htake] at hr
    split
    next h =>
      rw [if_neg (not_not.mpr h)] at hr
      exact (Option.some.inj hr).symm
    next h =>
      rw [if_pos h] at hr
      exact (Option.some.inj hr).symm
  · rintro ⟨hnull, rfl⟩
    refine ⟨_, ⟨hnull.timeouts, rfl⟩,
      _, (levels_loop memory p).trans (if_pos hnull.levels),
      _, (names_loop memory p).trans (if_pos hnull.names),
      _, (charge_loop scripts memory p).trans (if_pos hnull.charge), ?_⟩
    simp only [hlast, ite_not, htake]
    split
    · rfl
    · rfl

/-! ## A device and its settings -/

/-- A device with the tokens that the loops have for it. -/
def withSettings (timeout name : Option (CStr × ℕ)) (d : ConfigDev) : ConfigDev :=
  let d := timeout.elim d fun tok => withTimeout tok d
  name.elim d fun tok => withName tok d

theorem getElem?_setDevices (memory : BmsMemory) (p : BmsParams) (k : ℕ) :
    (setDevices memory p)[k]? = (btDevices memory p)[k]?.map
      (withSettings (listTokens p.timeoutSec)[k]? (listTokens p.name)[k]?) := by
  rw [setDevices, getElem?_setEach, getElem?_setEach, Option.map_map]
  rfl

theorem withSettings_spec (timeout name : Option (CStr × ℕ)) (d : ConfigDev) :
    (withSettings timeout name d).address = d.address ∧
      (withSettings timeout name d).pin = d.pin ∧
      (withSettings timeout name d).btPlace = d.btPlace ∧
      (withSettings timeout name d).modelPlace = d.modelPlace ∧
      (withSettings timeout name d).levelsPlace = d.levelsPlace ∧
      (withSettings timeout name d).chargePlace = d.chargePlace := by
  cases timeout with
  | none => cases name <;> exact ⟨rfl, rfl, rfl, rfl, rfl, rfl⟩
  | some tok => cases name <;> exact ⟨rfl, rfl, rfl, rfl, rfl, rfl⟩

/-- What the settings of a new device are. -/
theorem withSettings_new (timeout name : Option (CStr × ℕ)) (x : BtPair) :
    (withSettings timeout name x.dev).timeoutPlace = timeout.map Prod.snd ∧
      (withSettings timeout name x.dev).namePlace = name.map Prod.snd ∧
      (withSettings timeout name x.dev).dev =
        JkBmsDev.cleared (name.map Prod.fst) 0
          ((timeout.map fun tok => timeoutMsec tok.1).getD 0) := by
  cases timeout with
  | none => cases name <;> exact ⟨rfl, rfl, rfl⟩
  | some tok => cases name <;> exact ⟨rfl, rfl, rfl⟩

/-- A number of seconds in `uint64_t` milliseconds; one below zero wraps around
to what no number of seconds is. -/
theorem scaled_eq_iff {n : ℤ} {m t : ℕ} (hmin : -2147483648 ≤ n)
    (hmax : n ≤ 2147483647) (ht : (t : ℤ) = n * 1000 % 2 ^ 64) :
    t = m * 1000 ↔ n = m := by
  rcases lt_or_ge n 0 with hneg | hpos
  · have hwrap : (n * 1000 + 2 ^ 64) % 2 ^ 64 = n * 1000 + 2 ^ 64 :=
      Int.emod_eq_of_lt (by omega) (by omega)
    rw [Int.add_emod_right] at hwrap
    rw [hwrap] at ht
    omega
  · rw [Int.emod_eq_of_lt (by omega) (by omega)] at ht
    omega

/-- The loop reads a timeout as it is meant, if its number is the one that is
written. -/
theorem timeoutMsec_eq_iff (tok : CStr) :
    timeoutMsec tok = entryTimeout tok ↔
      strtol tok 0 = (wholeNumber tok).getD 0 := by
  obtain ⟨hmin, hmax⟩ := strtol_mem_long tok 0
  rw [longMin] at hmin
  rw [longMax] at hmax
  have hmul : (toUInt64 (toUInt64 (strtol tok 0) * 1000) : ℤ) =
      strtol tok 0 * 1000 % 2 ^ 64 := by
    rw [toUInt64, toUInt64, Int.toNat_of_nonneg (Int.emod_nonneg _ (by decide)),
      Int.toNat_of_nonneg (Int.emod_nonneg _ (by decide))]
    rw [Int.mul_emod, Int.emod_emod, ← Int.mul_emod]
  have hzero : timeoutMsec tok = toUInt64 (toUInt64 (strtol tok 0) * 1000) := by
    rw [timeoutMsec]
    split
    · rfl
    next hnot =>
      rw [Nat.eq_zero_of_not_pos hnot]
      rfl
  rw [hzero, entryTimeout]
  exact scaled_eq_iff hmin hmax hmul

theorem solarTrack_scriptOnName (scripts : Option ScriptsContext)
    (dev : JkBmsDev) (current : ℤ) :
    (jkBtEnableSolarTrack scripts dev current).autoSolar.scriptOnName =
      lit "solar_on" := by
  rw [jkBtEnableSolarTrack]
  dsimp only
  split
  · rw [jkBtFindAutoScripts]
    split
    · rfl
    · rfl
  · rfl

/-- Cell levels enable the tracking of the battery. -/
theorem entryLevels_enabled {entry : CStr} (h : levelsForm entry ≠ none)
    (dev : JkBmsDev) : (entryLevels entry dev).autoBatt.enabled = true := by
  obtain ⟨⟨low, high⟩, hlevels⟩ := Option.ne_none_iff_exists'.mp h
  rw [entryLevels, hlevels]
  rw [levelsForm] at hlevels
  split at hlevels
  next lowTok highTok _ =>
    split at hlevels
    next low' high' _ _ =>
      rw [Option.ite_none_right_eq_some] at hlevels
      obtain ⟨hlt, hpair⟩ := hlevels
      obtain ⟨rfl, rfl⟩ := Prod.mk.inj (Option.some.inj hpair)
      dsimp only
      rw [jkBtEnableBatteryTrack, if_neg (Nat.not_le.mpr hlt)]
    · cases hlevels
  · cases hlevels

/-- A device without automation is the one of the lists if and only if its
entries enable none, and its name and timeout are those of the entries. -/
theorem cleared_eq_listedDev_iff (userName : Option CStr) (timeout place : ℕ) :
    JkBmsDev.cleared userName 0 timeout = listedDev scripts p place ↔
      levelsForm (entryAt p.cellLevels 59 place) = none ∧
        entryCharge (entryAt p.chargeCurrentThreshold 59 place) = 0 ∧
        userName = entryName (entryAt p.name 59 place) ∧
        timeout = entryTimeout (entryAt p.timeoutSec 59 place) := by
  rw [listedDev]
  constructor
  · intro h
    have hcharge : entryCharge (entryAt p.chargeCurrentThreshold 59 place) = 0 := by
      by_contra hpos
      rw [if_pos (Nat.pos_of_ne_zero hpos)] at h
      have hname : ([] : CStr) = _ :=
        congrArg (fun dev => dev.autoSolar.scriptOnName) h
      rw [solarTrack_scriptOnName] at hname
      revert hname
      decide
    rw [if_neg (by omega)] at h
    have hlevels : levelsForm (entryAt p.cellLevels 59 place) = none := by
      by_contra hform
      have henabled := congrArg (fun dev => dev.autoBatt.enabled) h
      rw [entryLevels_enabled hform] at henabled
      exact Bool.false_ne_true henabled
    rw [entryLevels, hlevels] at h
    exact ⟨hlevels, hcharge, congrArg JkBmsDev.userName h,
      congrArg JkBmsDev.timeoutMsec h⟩
  · rintro ⟨hlevels, hcharge, rfl, rfl⟩
    rw [if_neg (by omega), entryLevels, hlevels]

/-! ## The devices of the lists -/

/-- A token that stands where the entry does is the model of the entry. -/
theorem BtPair.Own.accepted_eq {x : BtPair} (hown : x.Own) (hx : x ∈ p.pairs) :
    x.accepted = ((btEntry x.1.1).isSome && isModel (entryAt p.model 59 x.1.2)) := by
  rw [BtPair.Own] at hown
  cases hmod : x.2 with
  | none =>
      rw [hmod] at hown
      cases hown
  | some mod =>
      rw [hmod] at hown
      have hentry := (mem_placedTokens.mp (mem_btPairs_snd hx hmod)).1
      rw [Option.some.inj hown] at hentry
      rw [BtPair.accepted, hmod, hentry, Bool.and_comm]

/-- The loop over the devices makes those of the lists, each from its own
model, if and only if each entry up to the last of them is read in its form and
with its own model, or makes no device. -/
theorem models_iff (memory : BmsMemory) (p : BmsParams) :
    ((btDevices memory p).map ConfigDev.btPlace = devicePlaces memory p ∧
        ∀ d ∈ btDevices memory p, d.modelPlace = d.btPlace) ↔
      ∀ x ∈ upTo BtPair.accepted memory.room p.pairs,
        (x.accepted = true → x.Own ∧ (btForm x.1.1).isSome = true) ∧
          (IsDevice p x.1 = true → x.accepted = true) := by
  have hplaces : (btDevices memory p).map ConfigDev.btPlace =
      ((p.pairs.filter BtPair.accepted).take memory.room).map fun x => x.1.2 := by
    rw [btDevices, List.map_map]
    rfl
  have hlisted : devicePlaces memory p =
      ((p.pairs.filter fun x => IsDevice p x.1).take memory.room).map
        fun x => x.1.2 := by
    have hfst : p.pairs.map Prod.fst = placedTokens p.bt 59 := map_fst_btPairs _ _
    rw [devicePlaces]
    conv_lhs => rw [← hfst, List.filter_map, ← List.map_take, List.map_map]
    rfl
  have hown : (∀ d ∈ btDevices memory p, d.modelPlace = d.btPlace) ↔
      ∀ x ∈ (p.pairs.filter BtPair.accepted).take memory.room, x.Own := by
    rw [btDevices, List.forall_mem_map]
    refine forall₂_congr fun x hx => ?_
    have haccepted := List.of_mem_filter (List.mem_of_mem_take hx)
    cases hmod : x.2 with
    | none => simp [BtPair.accepted, hmod] at haccepted
    | some mod => simp [BtPair.dev, BtPair.Own, ConfigDev.new, hmod]
  have hnodup : (p.pairs.map fun x => x.1.2).Nodup := by
    have hplaces := nodup_places p.bt 59
    rw [← map_fst_btPairs (placedTokens p.bt 59) (placedTokens p.model 59),
      List.map_map] at hplaces
    exact hplaces
  rw [hplaces, hlisted, hown, take_filter_iff hnodup]
  refine forall₂_congr fun x hx => and_congr_left fun _ => forall_congr' fun haccepted =>
    and_congr_right fun hxown => ?_
  have hmodel := hxown.accepted_eq (mem_of_mem_upTo hx)
  rw [haccepted] at hmodel
  rw [IsDevice, Bool.and_eq_true]
  exact and_iff_left (Bool.and_eq_true _ _ ▸ hmodel.symm).2

theorem getD_of_hasText {param : Option CStr} (h : hasText param = false) :
    param.getD [] = [] := by
  cases param with
  | none => rfl
  | some text =>
      rw [hasText, decide_eq_false_iff_not, Nat.not_le, Nat.lt_one_iff] at h
      exact List.length_eq_zero_iff.mp h

theorem listTokens_eq (param : Option CStr) :
    listTokens param = placedTokens param 59 := by
  rw [listTokens]
  split
  · rfl
  next h =>
    exact (placedTokens_eq_nil (getD_of_hasText (Bool.eq_false_of_not_eq_true h))).symm

theorem nodup_devicePlaces (memory : BmsMemory) (p : BmsParams) :
    (devicePlaces memory p).Nodup :=
  (nodup_places p.bt 59).sublist
    (((List.take_sublist _ _).trans List.filter_sublist).map Prod.snd)

/-- Without a text of one of the two lists, or without memory, there are no
devices. -/
theorem devicePlaces_eq_nil
    (h : hasText p.model = false ∨ hasText p.bt = false ∨ memory.context = false) :
    devicePlaces memory p = [] := by
  rcases h with hmodel | hbt | hcontext
  · have hentry : ∀ i, isModel (entryAt p.model 59 i) = false := by
      intro i
      rw [entryAt, getD_of_hasText hmodel]
      obtain _ | i := i
      · decide
      · rfl
    have hnone : ((placedTokens p.bt 59).filter (IsDevice p)) = [] := by
      rw [List.filter_eq_nil_iff]
      intro x _
      simp [IsDevice, hentry]
    rw [devicePlaces, hnone, List.take_nil, List.map_nil]
  · rw [devicePlaces, placedTokens_eq_nil (getD_of_hasText hbt), List.filter_nil,
      List.take_nil, List.map_nil]
  · rw [devicePlaces, BmsMemory.room, hcontext]
    rfl

/-- The tokens that follow the devices are their entries. -/
theorem follows_entryName {param : Option CStr} {places : List ℕ} {k i : ℕ}
    (hfollows : Follows places (listTokens param)) (hnodup : places.Nodup)
    (hk : places[k]? = some i) :
    ((listTokens param)[k]?).map Prod.fst = entryName (entryAt param 59 i) := by
  have hmem : ∀ x : CStr × ℕ, x ∈ listTokens param ↔
      entryAt param 59 x.2 = x.1 ∧ x.1 ≠ [] := by
    intro x
    rw [listTokens_eq]
    exact mem_placedTokens
  cases htok : (listTokens param)[k]? with
  | some x =>
      obtain ⟨hentry, hne⟩ := (hmem x).mp (List.mem_of_getElem? htok)
      rw [hfollows k i x hk htok] at hentry
      rw [Option.map_some, hentry, entryName, if_neg hne]
  | none =>
      have hempty : entryAt param 59 i = [] := by
        by_contra hne
        obtain ⟨j, hj⟩ := List.mem_iff_getElem?.mp
          ((hmem (entryAt param 59 i, i)).mpr ⟨rfl, hne⟩)
        have hjk : j < k := by
          have hlen := List.getElem?_eq_none_iff.mp htok
          have hlt := (List.getElem?_eq_some_iff.mp hj).1
          omega
        have hkn := (List.getElem?_eq_some_iff.mp hk).1
        have hplace := hfollows j _ _
          (List.getElem?_eq_getElem (hjk.trans hkn)) hj
        have hsame : places[j]? = places[k]? := by
          rw [hk, List.getElem?_eq_getElem (hjk.trans hkn), ← hplace]
        exact absurd ((List.getElem?_inj (hjk.trans hkn) hnodup).mp hsame) (by omega)
      rw [hempty]
      rfl

/-! ## Alignment -/

theorem inPlace_iff {k : ℕ} {d : ConfigDev}
    (hd : (btDevices memory p)[k]? = some d) (timeout name : Option (CStr × ℕ)) :
    InPlace scripts p (withSettings timeout name d) ↔
      (btForm (entryAt p.bt 59 d.btPlace)).isSome = true ∧
        d.modelPlace = d.btPlace ∧
        (∀ tok, timeout = some tok → tok.2 = d.btPlace) ∧
        (∀ tok, name = some tok → tok.2 = d.btPlace) ∧
        JkBmsDev.cleared (name.map Prod.fst) 0
            ((timeout.map fun tok => timeoutMsec tok.1).getD 0) =
          listedDev scripts p d.btPlace := by
  obtain ⟨x, hx, rfl⟩ := List.mem_map.mp (List.mem_of_getElem? hd)
  have hpair := List.mem_of_mem_take hx
  have hentry : entryAt p.bt 59 x.1.2 = x.1.1 := by
    have hmem := List.mem_map_of_mem (f := Prod.fst) (List.mem_of_mem_filter hpair)
    rw [BmsParams.pairs, map_fst_btPairs] at hmem
    exact (mem_placedTokens.mp hmem).1
  obtain ⟨haddress, hpin, hbtPlace, hmodelPlace, hlevels, hcharge⟩ :=
    withSettings_spec timeout name x.dev
  obtain ⟨htimeout, hname, hdev⟩ := withSettings_new timeout name x
  constructor
  · intro h
    obtain ⟨pin, hform, -⟩ := h.bt
    have hmodel := h.model
    have htimeouts := h.timeout
    have hnames := h.name
    have hlisted := h.dev
    rw [hbtPlace] at hform
    rw [hmodelPlace, hbtPlace] at hmodel
    rw [hbtPlace] at htimeouts hnames hlisted
    refine ⟨Option.isSome_of_eq_some hform, hmodel, ?_, ?_, hdev.symm.trans hlisted⟩
    · rintro tok rfl
      exact htimeouts tok.2 htimeout
    · rintro tok rfl
      exact hnames tok.2 hname
  · rintro ⟨hform, hmodel, htimeouts, hnames, hlisted⟩
    refine ⟨?_, ?_, ?_, ?_, ?_, ?_, ?_⟩
    · rw [hbtPlace, haddress, hpin]
      obtain ⟨⟨address, pin⟩, hform⟩ := Option.isSome_iff_exists.mp hform
      have hread : btEntry x.1.1 = some (address, pin) := by
        rw [← hentry]
        exact btEntry_of_btForm hform
      refine ⟨pin, hform.trans ?_, ?_⟩
      · simp [BtPair.dev, ConfigDev.new, hread]
      · simp [BtPair.dev, ConfigDev.new, hread]
    · rw [hmodelPlace, hbtPlace]
      exact hmodel
    · rw [hbtPlace]
      intro i hi
      obtain ⟨tok, htok, rfl⟩ := Option.map_eq_some_iff.mp (htimeout.symm.trans hi)
      exact htimeouts tok htok
    · rw [hlevels]
      rintro i ⟨⟩
    · rw [hbtPlace]
      intro i hi
      obtain ⟨tok, htok, rfl⟩ := Option.map_eq_some_iff.mp (hname.symm.trans hi)
      exact hnames tok htok
    · rw [hcharge]
      rintro i ⟨⟩
    · rw [hbtPlace]
      exact hdev.trans hlisted

/-- Alignment, device by device. -/
theorem aligned_iff (hmodel : hasText p.model = true) (hbt : hasText p.bt = true)
    (hcontext : memory.context = true) :
    Aligned scripts memory p (getBmsConfig scripts memory p) ↔
      NoNull p (btDevices memory p).length (btSpare memory p).isSome ∧
        (btDevices memory p).map ConfigDev.btPlace = devicePlaces memory p ∧
        ∀ (k : ℕ) (d : ConfigDev), (btDevices memory p)[k]? = some d →
          InPlace scripts p
            (withSettings (listTokens p.timeoutSec)[k]? (listTokens p.name)[k]? d) := by
  have hplaces : (setDevices memory p).map ConfigDev.btPlace =
      (btDevices memory p).map ConfigDev.btPlace := by
    refine List.ext_getElem? fun k => ?_
    rw [List.getElem?_map, List.getElem?_map, getElem?_setDevices, Option.map_map]
    congr 1
    exact funext fun d => (withSettings_spec _ _ d).2.2.1
  have hdevices : (∀ d ∈ setDevices memory p, InPlace scripts p d) ↔
      ∀ (k : ℕ) (d : ConfigDev), (btDevices memory p)[k]? = some d →
        InPlace scripts p
          (withSettings (listTokens p.timeoutSec)[k]? (listTokens p.name)[k]? d) := by
    constructor
    · intro h k d hd
      refine h _ (List.mem_iff_getElem?.mpr ⟨k, ?_⟩)
      rw [getElem?_setDevices, hd, Option.map_some]
    · intro h d hd
      obtain ⟨k, hk⟩ := List.mem_iff_getElem?.mp hd
      rw [getElem?_setDevices] at hk
      obtain ⟨d₀, hd₀, rfl⟩ := Option.map_eq_some_iff.mp hk
      exact h k d₀ hd₀
  cases hresult : getBmsConfig scripts memory p with
  | none =>
      refine iff_of_false id fun h => ?_
      rw [(getBmsConfig_loops hmodel hbt hcontext).mpr ⟨h.1, rfl⟩] at hresult
      cases hresult
  | some r =>
      obtain ⟨hnull, rfl⟩ := (getBmsConfig_loops hmodel hbt hcontext).mp hresult
      by_cases hnil : btDevices memory p = []
      · rw [if_pos hnil, hnil]
        rw [hnil] at hnull
        exact ⟨fun h => ⟨hnull, h.symm, fun k d hd => by simp at hd⟩,
          fun h => h.2.1.symm⟩
      · rw [if_neg hnil, ← hdevices, ← hplaces]
        exact ⟨fun h => ⟨hnull, h⟩, fun h => h.2⟩

/-- The `k`-th device stands at the `k`-th place. -/
theorem exists_dev_of_place
    (hmap : (btDevices memory p).map ConfigDev.btPlace = devicePlaces memory p)
    {k i : ℕ} (hk : (devicePlaces memory p)[k]? = some i) :
    ∃ d, (btDevices memory p)[k]? = some d ∧ d.btPlace = i := by
  rw [← hmap, List.getElem?_map] at hk
  exact Option.map_eq_some_iff.mp hk

theorem unshifted_of_aligned (hcontext : memory.context = true)
    (hnull : NoNull p (btDevices memory p).length (btSpare memory p).isSome)
    (hmap : (btDevices memory p).map ConfigDev.btPlace = devicePlaces memory p)
    (hplace : ∀ (k : ℕ) (d : ConfigDev), (btDevices memory p)[k]? = some d →
      InPlace scripts p
        (withSettings (listTokens p.timeoutSec)[k]? (listTokens p.name)[k]? d)) :
    Unshifted memory p := by
  have hlen : (devicePlaces memory p).length = (btDevices memory p).length := by
    rw [← hmap, List.length_map]
  have hin := fun k d hd => (inPlace_iff hd _ _).mp (hplace k d hd)
  refine ⟨?_, fun k i x hk hx => ?_, fun x hx => ?_, fun k i x hk hx => ?_,
    fun hnil hspare => ?_, ?_, fun i hi => ?_, fun x hx => ?_, fun i hi => ?_⟩
  · refine (models_iff memory p).mp ⟨hmap, fun d hd => ?_⟩
    obtain ⟨k, hk⟩ := List.mem_iff_getElem?.mp hd
    exact (hin k d hk).2.1
  · obtain ⟨d, hd, rfl⟩ := exists_dev_of_place hmap hk
    exact (hin k d hd).2.2.1 x hx
  · obtain ⟨k, hk⟩ := List.mem_iff_getElem?.mp hx
    have hkn : k < (devicePlaces memory p).length := by
      have hlt := (List.getElem?_eq_some_iff.mp hk).1
      rw [List.length_take] at hlt
      omega
    rw [List.getElem?_take_of_lt hkn] at hk
    obtain ⟨d, hd, hi⟩ := exists_dev_of_place hmap (List.getElem?_eq_getElem hkn)
    obtain ⟨-, -, hown, -, hlisted⟩ := hin k d hd
    obtain ⟨-, -, -, htimeout⟩ := (cleared_eq_listedDev_iff _ _ _).mp hlisted
    rw [hk, Option.map_some, Option.getD_some, ← hown x hk] at htimeout
    have hmem := List.mem_of_getElem? hk
    rw [listTokens_eq] at hmem
    rw [(mem_placedTokens.mp hmem).1] at htimeout
    exact (timeoutMsec_eq_iff x.1).mp htimeout
  · obtain ⟨d, hd, rfl⟩ := exists_dev_of_place hmap hk
    exact (hin k d hd).2.2.2.1 x hx
  · have hzero : (btDevices memory p).length = 0 := by
      rw [← hlen, hnil, List.length_nil]
    have hnone : (btSpare memory p).isSome = false := by
      rw [← Bool.not_eq_true, btSpare_iff hcontext (List.length_eq_zero_iff.mp hzero)]
      exact hspare
    exact ⟨hnull.timeouts hzero hnone, hnull.names hzero hnone⟩
  · rw [hlen]
    exact hnull.levels
  · obtain ⟨k, hk⟩ := List.mem_iff_getElem?.mp hi
    obtain ⟨d, hd, rfl⟩ := exists_dev_of_place hmap hk
    exact ((cleared_eq_listedDev_iff _ _ _).mp (hin k d hd).2.2.2.2).1
  · rw [hlen] at hx
    simpa using hnull.charge x hx
  · obtain ⟨k, hk⟩ := List.mem_iff_getElem?.mp hi
    obtain ⟨d, hd, rfl⟩ := exists_dev_of_place hmap hk
    exact ((cleared_eq_listedDev_iff _ _ _).mp (hin k d hd).2.2.2.2).2.1

/-- The timeout that is set is the one of the entry at the place of the device. -/
theorem Unshifted.timeout_eq (h : Unshifted memory p) {k i : ℕ}
    (hk : (devicePlaces memory p)[k]? = some i) :
    ((listTokens p.timeoutSec)[k]?.map fun tok => timeoutMsec tok.1).getD 0 =
      entryTimeout (entryAt p.timeoutSec 59 i) := by
  have htimeout := follows_entryName h.timeouts (nodup_devicePlaces memory p) hk
  rw [entryName] at htimeout
  cases htok : (listTokens p.timeoutSec)[k]? with
  | none =>
      rw [htok, Option.map_none] at htimeout
      split at htimeout
      next hempty =>
        rw [hempty]
        rfl
      · cases htimeout
  | some x =>
      rw [htok, Option.map_some] at htimeout
      split at htimeout
      · cases htimeout
      · rw [← Option.some.inj htimeout, Option.map_some, Option.getD_some]
        refine (timeoutMsec_eq_iff x.1).mpr (h.timeoutsRead x ?_)
        have hkn := (List.getElem?_eq_some_iff.mp hk).1
        refine List.mem_iff_getElem?.mpr ⟨k, ?_⟩
        rw [List.getElem?_take_of_lt hkn, htok]

theorem aligned_of_unshifted (hcontext : memory.context = true)
    (h : Unshifted memory p) :
    NoNull p (btDevices memory p).length (btSpare memory p).isSome ∧
      (btDevices memory p).map ConfigDev.btPlace = devicePlaces memory p ∧
      ∀ (k : ℕ) (d : ConfigDev), (btDevices memory p)[k]? = some d →
        InPlace scripts p
          (withSettings (listTokens p.timeoutSec)[k]? (listTokens p.name)[k]? d) := by
  obtain ⟨hmap, hmodels⟩ := (models_iff memory p).mpr h.models
  have hlen : (btDevices memory p).length = (devicePlaces memory p).length := by
    rw [← hmap, List.length_map]
  have hwritten : (btDevices memory p).length = 0 →
      (btSpare memory p).isSome = false →
        listTokens p.timeoutSec = [] ∧ listTokens p.name = [] := by
    intro hzero hspare
    refine h.written (List.length_eq_zero_iff.mp (hlen ▸ hzero)) ?_
    rwa [← btSpare_iff hcontext (List.length_eq_zero_iff.mp hzero), Bool.not_eq_true]
  refine ⟨⟨fun hzero hspare => (hwritten hzero hspare).1, ?_,
    fun hzero hspare => (hwritten hzero hspare).2, ?_⟩, hmap, fun k d hd => ?_⟩
  · rw [hlen]
    exact h.levelsRead
  · rw [hlen]
    intro x hx
    simpa using h.chargeRead x hx
  · have hk : (devicePlaces memory p)[k]? = some d.btPlace := by
      rw [← hmap, List.getElem?_map, hd, Option.map_some]
    have hmem := List.mem_of_getElem? hk
    have hform : (btForm (entryAt p.bt 59 d.btPlace)).isSome = true := by
      obtain ⟨x, hx, hplace⟩ := List.mem_map.mp hmem
      obtain ⟨hx, hdevice⟩ := List.mem_filter.mp (List.mem_of_mem_take hx)
      rw [← hplace, (mem_placedTokens.mp hx).1]
      exact (Bool.and_eq_true _ _ ▸ hdevice).1
    have hname := follows_entryName h.names (nodup_devicePlaces memory p) hk
    exact (inPlace_iff hd _ _).mpr ⟨hform, hmodels d (List.mem_of_getElem? hd),
      fun tok htok => h.timeouts k _ tok hk htok,
      fun tok htok => h.names k _ tok hk htok,
      (cleared_eq_listedDev_iff _ _ _).mpr ⟨h.levelsOwn _ hmem, h.chargeOwn _ hmem,
        hname, h.timeout_eq hk⟩⟩

/-- Without a text, or without memory for the context, nothing is read. -/
theorem getBmsConfig_eq_none
    (h : hasText p.model = false ∨ hasText p.bt = false ∨ memory.context = false) :
    getBmsConfig scripts memory p = some none := by
  rcases h with h | h | h <;> simp [getBmsConfig, h]

/-- `get_bms_config` gives each device its own entries, and dereferences no null
pointer, if and only if the devices are not read, or no entry is moved to another
device or read in another form, and none enables the automation. -/
theorem getBmsConfig_aligned_iff (scripts : Option ScriptsContext)
    (memory : BmsMemory) (p : BmsParams) :
    Aligned scripts memory p (getBmsConfig scripts memory p) ↔
      (hasText p.model = false ∨ hasText p.bt = false ∨ memory.context = false) ∨
        Unshifted memory p := by
  by_cases hread : hasText p.model = false ∨ hasText p.bt = false ∨
      memory.context = false
  · rw [getBmsConfig_eq_none hread]
    exact iff_of_true (devicePlaces_eq_nil hread) (Or.inl hread)
  · simp only [not_or, Bool.not_eq_false] at hread
    obtain ⟨hmodel, hbt, hcontext⟩ := hread
    rw [aligned_iff hmodel hbt hcontext]
    constructor
    · rintro ⟨hnull, hmap, hplace⟩
      exact Or.inr (unshifted_of_aligned hcontext hnull hmap hplace)
    · rintro (hno | h)
      · simp [hmodel, hbt, hcontext] at hno
      · exact aligned_of_unshifted hcontext h

/-- One device and a threshold of its charge current. -/
def thresholdParams : BmsParams where
  cellLevels := none
  timeoutSec := none
  model := some (lit "JK")
  bt := some (lit "11:2A:33:2B:3C:44,1234")
  name := none
  notify := none
  chargeCurrentThreshold := some (lit "5")

/-- There is memory for everything. -/
def BmsMemory.ample : BmsMemory where
  context := true
  device := fun _ => true
  pin := fun _ => true

/-- The component of the device is asked for a message before it exists. -/
theorem not_getBmsConfig_aligned :
    ¬ ∀ (scripts : Option ScriptsContext) (memory : BmsMemory) (p : BmsParams),
      Aligned scripts memory p (getBmsConfig scripts memory p) := by
  intro h
  have haligned := h none BmsMemory.ample thresholdParams
  have hnull : (getBmsConfig none BmsMemory.ample thresholdParams).isNone = true := by
    decide +kernel
  rw [Option.isNone_iff_eq_none.mp hnull] at haligned
  exact haligned

end Herak.BmsJk
