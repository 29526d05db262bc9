import Mathlib.Data.List.FinRange
import Mathlib.Data.List.Nodup
import Herak.OneWire.Device

/-!
# The sensors of a line

`one_wire_sensors_detect` gives the sensors that are found on a line their
entries in the table.  A sensor of the saved mapping goes to its own entry, any
other one to the entry of its place in the search, if that is still free.
-/

namespace Herak.OneWire

open CInt

/-- The library of the protocol at one line: the devices that a search finds,
in the order of `get_address`. -/
structure OneWireBus (Rom : Type*) where
  found : List Rom
  toUint64 : Rom → UInt64
  zeroRom : Rom

variable {Rom : Type*}

/-! ## The code -/

/-- An entry after `memset`. -/
def OneWireBus.emptySensor (bus : OneWireBus Rom) : OneWireSensor Rom where
  romAddr := bus.zeroRom
  address := 0
  force := false

def clearSensors (bus : OneWireBus Rom) (line : OneWireLine Rom) :
    OneWireLine Rom :=
  { line with sensors := fun _ => bus.emptySensor }

/-- The entry of the saved mapping that has an address. -/
def mappedSlot (saved : SlotIdx → UInt64) (address : UInt64) : Option SlotIdx :=
  (List.finRange onewireSenorsMax).find? fun j => address = saved j

/-- A round of the loop over the sensors that were found. -/
def detectSensor (bus : OneWireBus Rom) (line : OneWireLine Rom)
    (device : SlotIdx × Rom) : OneWireLine Rom :=
  let (i, romAddr) := device
  let address := bus.toUint64 romAddr
  match mappedSlot line.savedMapping address with
  | some j =>
      line.setSensor j
        { line.sensors j with romAddr := romAddr, address := address }
  | none =>
      if (line.sensors i).address ≠ 0 then line
      else
        line.setSensor i
          { line.sensors i with romAddr := romAddr, address := address }

/-- `one_wire_mqtt_init`: `mqtt_msg_component_register` asks for the first
message of a component. -/
def oneWireMqttInit (registered : SlotIdx → Bool) (line : OneWireLine Rom) :
    OneWireLine Rom :=
  { line with
    sensors := fun j =>
      let sensor := line.sensors j
      if sensor.address = 0 then sensor
      else { sensor with force := sensor.force || registered j } }

/-- `count_on_line` after a search. -/
def searchCount (bus : OneWireBus Rom) : ℕ :=
  min onewireSenorsMax (toUInt8 bus.found.length)

/-- `one_wire_sensors_detect`; `level` is that of the pin. -/
def oneWireSensorsDetect (bus : OneWireBus Rom) (level : Bool)
    (registered : SlotIdx → Bool) (line : OneWireLine Rom) :
    ℕ × OneWireLine Rom :=
  if !level then (0, clearSensors bus { line with countOnLine := 0 })
  else if line.countOnLine ≠ 0 then (line.countOnLine, line)
  else
    let count := searchCount bus
    let line := clearSensors bus { line with countOnLine := count }
    let devices := ((List.finRange onewireSenorsMax).zip bus.found).take count
    (count, oneWireMqttInit registered (devices.foldl (detectSensor bus) line))

/-! ## The table after a search -/

/-- No entry of the saved mapping has the address. -/
def Unmapped (saved : SlotIdx → UInt64) (address : UInt64) : Prop :=
  ∀ j, saved j ≠ address

/-- The addresses of a saved mapping are told apart; 0 stands for none. -/
def DistinctMapping (saved : SlotIdx → UInt64) : Prop :=
  ∀ j k, saved j = saved k → saved j ≠ 0 → j = k

instance (saved : SlotIdx → UInt64) : Decidable (DistinctMapping saved) :=
  inferInstanceAs (Decidable (∀ j k, saved j = saved k → saved j ≠ 0 → j = k))

theorem mappedSlot_eq_none_iff (saved : SlotIdx → UInt64) (address : UInt64) :
    mappedSlot saved address = none ↔ Unmapped saved address := by
  rw [mappedSlot, List.find?_eq_none, Unmapped]
  simp [eq_comm]

theorem mappedSlot_spec {saved : SlotIdx → UInt64} {address : UInt64}
    {j : SlotIdx} (h : mappedSlot saved address = some j) : saved j = address := by
  have hfound := List.find?_some h
  simpa [eq_comm] using hfound

/-- What a table has after some of the devices: a mapped device is in its
entry, and one without a mapping in that of its place unless another device is
mapped to it. -/
structure Detected (bus : OneWireBus Rom) (saved : SlotIdx → UInt64)
    (devices : List (SlotIdx × Rom)) (line : OneWireLine Rom) : Prop where
  mapping : line.savedMapping = saved
  mapped : ∀ device ∈ devices, ∀ j, saved j = bus.toUint64 device.2 →
    (line.sensors j).address = bus.toUint64 device.2
  unmapped : ∀ device ∈ devices, Unmapped saved (bus.toUint64 device.2) →
    (∀ other ∈ devices, saved device.1 ≠ bus.toUint64 other.2) →
    (line.sensors device.1).address = bus.toUint64 device.2
  only : ∀ j, (line.sensors j).address ≠ 0 → ∃ device ∈ devices,
    (line.sensors j).address = bus.toUint64 device.2 ∧
      (saved j = bus.toUint64 device.2 ∨
        device.1 = j ∧ Unmapped saved (bus.toUint64 device.2))

section Step

variable {bus : OneWireBus Rom} {saved : SlotIdx → UInt64}
  {devices : List (SlotIdx × Rom)} {line : OneWireLine Rom}
  {i : SlotIdx} {romAddr : Rom}

theorem Detected.nil (hmapping : line.savedMapping = saved)
    (hempty : ∀ j, (line.sensors j).address = 0) :
    Detected bus saved [] line where
  mapping := hmapping
  mapped := by
    intro device hdevice
    exact absurd hdevice List.not_mem_nil
  unmapped := by
    intro device hdevice
    exact absurd hdevice List.not_mem_nil
  only := by
    intro j hj
    exact absurd (hempty j) hj

/-- A device of the mapping takes its entry, whatever stands there. -/
theorem Detected.setMapped (h : Detected bus saved devices line)
    (hsaved : DistinctMapping saved) (hzero : bus.toUint64 romAddr ≠ 0)
    (hfresh : ∀ device ∈ devices,
      bus.toUint64 device.2 ≠ bus.toUint64 romAddr)
    {j : SlotIdx} (hj : saved j = bus.toUint64 romAddr)
    {sensor : OneWireSensor Rom} (hsensor : sensor.address = bus.toUint64 romAddr) :
    Detected bus saved (devices ++ [(i, romAddr)]) (line.setSensor j sensor) where
  mapping := h.mapping
  mapped := by
    intro device hdevice k hk
    rcases List.mem_append.mp hdevice with hdevice | hdevice
    · have hkj : k ≠ j := by
        rintro rfl
        exact hfresh device hdevice (hk.symm.trans hj)
      rw [line.setSensor_of_ne hkj]
      exact h.mapped device hdevice k hk
    · obtain rfl := List.mem_singleton.mp hdevice
      have hkj : k = j := hsaved k j (hk.trans hj.symm) (hk ▸ hzero)
      rw [hkj, line.setSensor_self, hsensor]
  unmapped := by
    intro device hdevice hunmapped hfree
    have hdevicej : device.1 ≠ j := by
      rintro rfl
      exact hfree (i, romAddr) (List.mem_append_right _ (List.mem_singleton.mpr rfl)) hj
    rw [line.setSensor_of_ne hdevicej]
    rcases List.mem_append.mp hdevice with hdevice | hdevice
    · exact h.unmapped device hdevice hunmapped
        fun other hother => hfree other (List.mem_append_left _ hother)
    · obtain rfl := List.mem_singleton.mp hdevice
      exact absurd hj (hunmapped j)
  only := by
    intro k hk
    by_cases hkj : k = j
    · refine ⟨(i, romAddr), List.mem_append_right _ (List.mem_singleton.mpr rfl), ?_, ?_⟩
      · rw [hkj, line.setSensor_self, hsensor]
      · exact Or.inl (hkj ▸ hj)
    · rw [line.setSensor_of_ne hkj] at hk ⊢
      obtain ⟨device, hdevice, hrest⟩ := h.only k hk
      exact ⟨device, List.mem_append_left _ hdevice, hrest⟩

/-- A device without a mapping is dropped if its entry is taken. -/
theorem Detected.drop (h : Detected bus saved devices line)
    (hunmapped : Unmapped saved (bus.toUint64 romAddr))
    (hplace : ∀ device ∈ devices, device.1 ≠ i)
    (htaken : (line.sensors i).address ≠ 0) :
    Detected bus saved (devices ++ [(i, romAddr)]) line where
  mapping := h.mapping
  mapped := by
    intro device hdevice k hk
    rcases List.mem_append.mp hdevice with hdevice | hdevice
    · exact h.mapped device hdevice k hk
    · obtain rfl := List.mem_singleton.mp hdevice
      exact absurd hk (hunmapped k)
  unmapped := by
    intro device hdevice hdev hfree
    rcases List.mem_append.mp hdevice with hdevice | hdevice
    · exact h.unmapped device hdevice hdev
        fun other hother => hfree other (List.mem_append_left _ hother)
    · obtain rfl := List.mem_singleton.mp hdevice
      obtain ⟨other, hother, -, hsaved | ⟨hsame, -⟩⟩ := h.only i htaken
      · exact absurd hsaved (hfree other (List.mem_append_left _ hother))
      · exact absurd hsame (hplace other hother)
  only := by
    intro k hk
    obtain ⟨device, hdevice, hrest⟩ := h.only k hk
    exact ⟨device, List.mem_append_left _ hdevice, hrest⟩

/-- Otherwise it takes the entry of its place. -/
theorem Detected.setUnmapped (h : Detected bus saved devices line)
    (hunmapped : Unmapped saved (bus.toUint64 romAddr))
    (hzero : ∀ device ∈ devices, bus.toUint64 device.2 ≠ 0)
    (hplace : ∀ device ∈ devices, device.1 ≠ i)
    (hfree : (line.sensors i).address = 0)
    {sensor : OneWireSensor Rom} (hsensor : sensor.address = bus.toUint64 romAddr) :
    Detected bus saved (devices ++ [(i, romAddr)]) (line.setSensor i sensor) where
  mapping := h.mapping
  mapped := by
    intro device hdevice k hk
    rcases List.mem_append.mp hdevice with hdevice | hdevice
    · have hold := h.mapped device hdevice k hk
      have hne := hzero device hdevice
      have hki : k ≠ i := by
        rintro rfl
        exact hne (hold.symm.trans hfree)
      rw [line.setSensor_of_ne hki, hold]
    · obtain rfl := List.mem_singleton.mp hdevice
      exact absurd hk (hunmapped k)
  unmapped := by
    intro device hdevice hdev hothers
    rcases List.mem_append.mp hdevice with hdevice | hdevice
    · rw [line.setSensor_of_ne (hplace device hdevice)]
      exact h.unmapped device hdevice hdev
        fun other hother => hothers other (List.mem_append_left _ hother)
    · obtain rfl := List.mem_singleton.mp hdevice
      rw [line.setSensor_self, hsensor]
  only := by
    intro k hk
    by_cases hki : k = i
    · refine ⟨(i, romAddr), List.mem_append_right _ (List.mem_singleton.mpr rfl), ?_, ?_⟩
      · rw [hki, line.setSensor_self, hsensor]
      · exact Or.inr ⟨hki.symm, hunmapped⟩
    · rw [line.setSensor_of_ne hki] at hk ⊢
      obtain ⟨device, hdevice, hrest⟩ := h.only k hk
      exact ⟨device, List.mem_append_left _ hdevice, hrest⟩

/-- A round of the loop. -/
theorem Detected.detectSensor (h : Detected bus saved devices line)
    (hsaved : DistinctMapping saved)
    (hzero : ∀ device ∈ devices ++ [(i, romAddr)], bus.toUint64 device.2 ≠ 0)
    (hfresh : ∀ device ∈ devices,
      bus.toUint64 device.2 ≠ bus.toUint64 romAddr)
    (hplace : ∀ device ∈ devices, device.1 ≠ i) :
    Detected bus saved (devices ++ [(i, romAddr)])
      (detectSensor bus line (i, romAddr)) := by
  have hlast : bus.toUint64 romAddr ≠ 0 :=
    hzero (i, romAddr) (List.mem_append_right _ (List.mem_singleton.mpr rfl))
  simp only [OneWire.detectSensor, h.mapping]
  cases hslot : mappedSlot saved (bus.toUint64 romAddr) with
  | some j => exact h.setMapped hsaved hlast hfresh (mappedSlot_spec hslot) rfl
  | none =>
      have hunmapped := (mappedSlot_eq_none_iff _ _).mp hslot
      by_cases htaken : (line.sensors i).address ≠ 0
      · simp only [if_pos htaken]
        exact h.drop hunmapped hplace htaken
      · simp only [if_neg htaken]
        exact h.setUnmapped hunmapped
          (fun device hdevice => hzero device (List.mem_append_left _ hdevice))
          hplace (not_not.mp htaken) rfl

end Step

/-- The loop. -/
theorem detected_foldl (bus : OneWireBus Rom) {saved : SlotIdx → UInt64}
    (line : OneWireLine Rom) (hsaved : DistinctMapping saved)
    (hstart : Detected bus saved [] line) (devices : List (SlotIdx × Rom))
    (hzero : ∀ device ∈ devices, bus.toUint64 device.2 ≠ 0)
    (haddress : (devices.map fun device => bus.toUint64 device.2).Nodup)
    (hplace : (devices.map Prod.fst).Nodup) :
    Detected bus saved devices (devices.foldl (detectSensor bus) line) := by
  induction devices using List.reverseRecOn with
  | nil => exact hstart
  | append_singleton devices device ih =>
      obtain ⟨i, romAddr⟩ := device
      rw [List.map_append, List.nodup_append] at haddress hplace
      have hdevices := ih
        (fun device hdevice => hzero device (List.mem_append_left _ hdevice))
        haddress.1 hplace.1
      rw [List.foldl_append]
      refine hdevices.detectSensor hsaved hzero ?_ ?_
      · intro device hdevice
        exact haddress.2.2 _ (List.mem_map_of_mem hdevice) _
          (List.mem_singleton.mpr rfl)
      · intro device hdevice
        exact hplace.2.2 _ (List.mem_map_of_mem hdevice) _
          (List.mem_singleton.mpr rfl)

theorem Detected.congr {bus : OneWireBus Rom} {saved : SlotIdx → UInt64}
    {devices : List (SlotIdx × Rom)} {line line' : OneWireLine Rom}
    (h : Detected bus saved devices line)
    (hsaved : line'.savedMapping = line.savedMapping)
    (haddress : ∀ j, (line'.sensors j).address = (line.sensors j).address) :
    Detected bus saved devices line' where
  mapping := hsaved.trans h.mapping
  mapped := fun device hdevice j hj =>
    (haddress j).trans (h.mapped device hdevice j hj)
  unmapped := fun device hdevice hdev hfree =>
    (haddress device.1).trans (h.unmapped device hdevice hdev hfree)
  only := fun j hj => by
    rw [haddress j] at hj ⊢
    exact h.only j hj

@[simp] theorem oneWireMqttInit_address (registered : SlotIdx → Bool)
    (line : OneWireLine Rom) (j : SlotIdx) :
    ((oneWireMqttInit registered line).sensors j).address =
      (line.sensors j).address := by
  simp only [oneWireMqttInit]
  split
  · rfl
  · rfl

/-! ## The sensors in their entries -/

/-- Every sensor that was found has one entry, that of its mapping if it has
one, and the others are empty. -/
structure Placed (bus : OneWireBus Rom) (saved : SlotIdx → UInt64)
    (line : OneWireLine Rom) : Prop where
  one : ∀ rom ∈ bus.found, ∃! j, (line.sensors j).address = bus.toUint64 rom
  mapped : ∀ rom ∈ bus.found, ∀ j, saved j = bus.toUint64 rom →
    (line.sensors j).address = bus.toUint64 rom
  others : ∀ j, (∀ rom ∈ bus.found,
    (line.sensors j).address ≠ bus.toUint64 rom) → (line.sensors j).address = 0

/-- No sensor without a mapping is found at a place which another one of the
sensors is mapped to. -/
def PlacesFree (bus : OneWireBus Rom) (saved : SlotIdx → UInt64) : Prop :=
  ∀ (i : SlotIdx) (rom : Rom), bus.found[(i : ℕ)]? = some rom →
    Unmapped saved (bus.toUint64 rom) →
    ∀ other ∈ bus.found, saved i ≠ bus.toUint64 other

/-- What the search of a line promises: at most as many sensors as there are
entries, with addresses of their own. -/
structure GoodSearch (bus : OneWireBus Rom) : Prop where
  few : bus.found.length ≤ onewireSenorsMax
  distinct : (bus.found.map bus.toUint64).Nodup
  nonzero : ∀ rom ∈ bus.found, bus.toUint64 rom ≠ 0

section Search

variable {bus : OneWireBus Rom}

theorem GoodSearch.count_eq (h : GoodSearch bus) :
    searchCount bus = bus.found.length := by
  have hfew := h.few
  have hmax : onewireSenorsMax = 5 := rfl
  rw [searchCount, toUInt8]
  omega

theorem GoodSearch.inj (h : GoodSearch bus) {rom rom' : Rom}
    (hrom : rom ∈ bus.found) (hrom' : rom' ∈ bus.found)
    (heq : bus.toUint64 rom = bus.toUint64 rom') : rom = rom' :=
  List.inj_on_of_nodup_map h.distinct hrom hrom' heq

/-- The devices with their places. -/
def placed (bus : OneWireBus Rom) : List (SlotIdx × Rom) :=
  (List.finRange onewireSenorsMax).zip bus.found

theorem mem_placed {i : SlotIdx} {rom : Rom} :
    (i, rom) ∈ placed bus ↔ bus.found[(i : ℕ)]? = some rom := by
  rw [placed, List.mem_iff_getElem]
  constructor
  · rintro ⟨n, hn, hpair⟩
    rw [List.getElem_zip, Prod.mk.injEq, List.getElem_finRange] at hpair
    obtain ⟨rfl, rfl⟩ := hpair
    exact List.getElem?_eq_getElem _
  · intro hrom
    obtain ⟨hlt, rfl⟩ := List.getElem?_eq_some_iff.mp hrom
    have hn : (i : ℕ) <
        ((List.finRange onewireSenorsMax).zip bus.found).length := by
      rw [List.length_zip, List.length_finRange]
      exact lt_min i.isLt hlt
    refine ⟨i, hn, ?_⟩
    rw [List.getElem_zip, List.getElem_finRange]
    rfl

theorem GoodSearch.map_snd_placed (h : GoodSearch bus) :
    (placed bus).map Prod.snd = bus.found := by
  rw [placed, List.map_snd_zip]
  simpa using h.few

theorem nodup_map_fst_placed (bus : OneWireBus Rom) :
    ((placed bus).map Prod.fst).Nodup := by
  rw [List.Nodup, List.pairwise_iff_getElem]
  intro a b ha hb hab heq
  simp only [placed, List.getElem_map, List.getElem_zip, List.getElem_finRange,
    Fin.ext_iff, Fin.val_cast] at heq
  omega

/-- The table after a search, up to the flags of the components. -/
theorem GoodSearch.detected (h : GoodSearch bus) {line : OneWireLine Rom}
    (hsaved : DistinctMapping line.savedMapping) (hcount : line.countOnLine = 0)
    (registered : SlotIdx → Bool) :
    Detected bus line.savedMapping (placed bus)
      (oneWireSensorsDetect bus true registered line).2 := by
  have htake : (placed bus).take (searchCount bus) = placed bus := by
    refine List.take_of_length_le ?_
    rw [h.count_eq, ← h.map_snd_placed, List.length_map]
  have hdetected := detected_foldl bus
    (clearSensors bus { line with countOnLine := searchCount bus })
    hsaved (Detected.nil rfl fun _ => rfl) (placed bus)
    (fun device hdevice => h.nonzero device.2 (by
      rw [← h.map_snd_placed]
      exact List.mem_map_of_mem hdevice))
    (by
      have hmap := h.distinct
      rw [← h.map_snd_placed, List.map_map] at hmap
      exact hmap)
    (nodup_map_fst_placed bus)
  have hresult : (oneWireSensorsDetect bus true registered line).2 =
      oneWireMqttInit registered
        (((placed bus).take (searchCount bus)).foldl (detectSensor bus)
          (clearSensors bus { line with countOnLine := searchCount bus })) := by
    simp only [oneWireSensorsDetect, hcount]
    rfl
  rw [hresult, htake]
  exact hdetected.congr rfl fun j => oneWireMqttInit_address registered _ j

theorem mem_found_of_placed {device : SlotIdx × Rom} (h : device ∈ placed bus) :
    device.2 ∈ bus.found :=
  List.mem_of_getElem? (mem_placed.mp h)

/-- Every device has a place. -/
theorem GoodSearch.exists_place (h : GoodSearch bus) {rom : Rom}
    (hrom : rom ∈ bus.found) : ∃ i, (i, rom) ∈ placed bus := by
  rw [← h.map_snd_placed] at hrom
  obtain ⟨⟨i, rom'⟩, hdevice, rfl⟩ := List.mem_map.mp hrom
  exact ⟨i, hdevice⟩

theorem GoodSearch.place_unique (h : GoodSearch bus) {i j : SlotIdx} {rom : Rom}
    (hi : (i, rom) ∈ placed bus) (hj : (j, rom) ∈ placed bus) : i = j := by
  have hfound := mem_placed.mp hi
  have hlt : (i : ℕ) < bus.found.length :=
    (List.getElem?_eq_some_iff.mp hfound).1
  exact Fin.ext ((List.getElem?_inj hlt (List.Nodup.of_map _ h.distinct)).mp
    (hfound.trans (mem_placed.mp hj).symm))

/-- Why an entry has the address of a sensor. -/
theorem Detected.entry (h : GoodSearch bus) {saved : SlotIdx → UInt64}
    {line : OneWireLine Rom} (hdetected : Detected bus saved (placed bus) line)
    {rom : Rom} (hrom : rom ∈ bus.found) {j : SlotIdx}
    (hj : (line.sensors j).address = bus.toUint64 rom) :
    saved j = bus.toUint64 rom ∨
      (j, rom) ∈ placed bus ∧ Unmapped saved (bus.toUint64 rom) := by
  obtain ⟨⟨i, rom'⟩, hmem, haddress, hwhy⟩ :=
    hdetected.only j (hj ▸ h.nonzero rom hrom)
  obtain rfl : rom' = rom :=
    h.inj (mem_found_of_placed hmem) hrom (haddress.symm.trans hj)
  rcases hwhy with hmapped | ⟨rfl, hunmapped⟩
  · exact Or.inl hmapped
  · exact Or.inr ⟨hmem, hunmapped⟩

/-- The sensors are placed if and only if no place is taken. -/
theorem Detected.placed_iff (h : GoodSearch bus) {saved : SlotIdx → UInt64}
    {line : OneWireLine Rom} (hsaved : DistinctMapping saved)
    (hdetected : Detected bus saved (placed bus) line) :
    Placed bus saved line ↔ PlacesFree bus saved := by
  constructor
  · intro hplaced i rom hi hunmapped other hother hsame
    have hdevice : (i, rom) ∈ placed bus := mem_placed.mpr hi
    have hrom := mem_found_of_placed hdevice
    -- The other sensor is in the entry `i`, and the sensor itself in none.
    have hentry := hplaced.mapped other hother i hsame
    obtain ⟨j, hj, -⟩ := hplaced.one rom hrom
    rcases hdetected.entry h hrom hj with hmapped | ⟨hplace, -⟩
    · exact hunmapped j hmapped
    · obtain rfl := h.place_unique hplace hdevice
      have hrom' : other = rom := h.inj hother hrom (hentry.symm.trans hj)
      exact hunmapped j (hrom' ▸ hsame)
  · intro hfree
    have hentry : ∀ rom ∈ bus.found, ∃ j,
        (line.sensors j).address = bus.toUint64 rom := by
      intro rom hrom
      obtain ⟨i, hdevice⟩ := h.exists_place hrom
      by_cases hunmapped : Unmapped saved (bus.toUint64 rom)
      · refine ⟨i, hdetected.unmapped (i, rom) hdevice hunmapped ?_⟩
        intro other hother
        exact hfree i rom (mem_placed.mp hdevice) hunmapped other.2
          (mem_found_of_placed hother)
      · obtain ⟨j, hj⟩ := not_forall.mp hunmapped
        rw [not_not] at hj
        exact ⟨j, hdetected.mapped (i, rom) hdevice j hj⟩
    refine ⟨?_, ?_, ?_⟩
    · intro rom hrom
      obtain ⟨j, hj⟩ := hentry rom hrom
      refine ⟨j, hj, fun k hk => ?_⟩
      rcases hdetected.entry h hrom hk with hk | ⟨hk, hunmapped⟩
      · rcases hdetected.entry h hrom hj with hj | ⟨-, hunmapped⟩
        · exact hsaved k j (hk.trans hj.symm) (hk ▸ h.nonzero rom hrom)
        · exact absurd hk (hunmapped k)
      · rcases hdetected.entry h hrom hj with hj | ⟨hj, -⟩
        · exact absurd hj (hunmapped j)
        · exact h.place_unique hk hj
    · intro rom hrom j hj
      obtain ⟨i, hdevice⟩ := h.exists_place hrom
      exact hdetected.mapped (i, rom) hdevice j hj
    · intro j hothers
      by_contra hne
      obtain ⟨device, hmem, haddress, -⟩ := hdetected.only j hne
      exact hothers device.2 (mem_found_of_placed hmem) haddress

end Search

/-- After a search the sensors are in their entries if and only if no sensor
without a mapping is found at a place which another one is mapped to. -/
theorem oneWireSensorsDetect_placed_iff (bus : OneWireBus Rom)
    (registered : SlotIdx → Bool) (line : OneWireLine Rom)
    (hsearch : GoodSearch bus) (hsaved : DistinctMapping line.savedMapping)
    (hcount : line.countOnLine = 0) :
    Placed bus line.savedMapping
        (oneWireSensorsDetect bus true registered line).2 ↔
      PlacesFree bus line.savedMapping :=
  (hsearch.detected hsaved hcount registered).placed_iff hsearch hsaved

/-- Two sensors, the second of them mapped to the entry 1. -/
def twoSensors : OneWireBus UInt64 where
  found := [0x10, 0x20]
  toUint64 := id
  zeroRom := 0

def lineMappedTo (saved : SlotIdx → UInt64) : OneWireLine UInt64 where
  pin := 2
  countOnLine := 0
  savedMapping := saved
  sensors := fun _ => twoSensors.emptySensor

theorem goodSearch_twoSensors : GoodSearch twoSensors where
  few := by decide
  distinct := by decide
  nonzero := by
    intro rom hrom
    rcases List.mem_pair.mp hrom with rfl | rfl
    · decide
    · decide

theorem oneWireSensorsDetect_placed_two :
    Placed twoSensors (fun j => if j = 1 then 0x20 else 0)
      (oneWireSensorsDetect twoSensors true (fun _ => true)
        (lineMappedTo fun j => if j = 1 then 0x20 else 0)).2 := by
  refine (oneWireSensorsDetect_placed_iff twoSensors (fun _ => true)
    (lineMappedTo fun j => if j = 1 then 0x20 else 0) goodSearch_twoSensors
    (by decide) rfl).mpr ?_
  intro i rom hi hunmapped other hother hsame
  by_cases hone : i = 1
  · subst hone
    obtain rfl : 0x20 = rom := Option.some.inj hi
    exact hunmapped 1 rfl
  · have hzero : (lineMappedTo fun j => if j = 1 then 0x20 else 0).savedMapping i =
        0 := if_neg hone
    exact goodSearch_twoSensors.nonzero other hother (hsame.symm.trans hzero)

/-- The second sensor is mapped to the entry 0, where the first one, which has
no mapping, has been put: it is overwritten. -/
theorem not_oneWireSensorsDetect_placed :
    ¬ ∀ (bus : OneWireBus UInt64) (line : OneWireLine UInt64),
      GoodSearch bus → DistinctMapping line.savedMapping →
      line.countOnLine = 0 →
      Placed bus line.savedMapping
        (oneWireSensorsDetect bus true (fun _ => true) line).2 := by
  intro h
  have hplaced := h twoSensors (lineMappedTo fun j => if j = 0 then 0x20 else 0)
    goodSearch_twoSensors (by decide) rfl
  obtain ⟨j, hj, -⟩ := hplaced.one 0x10 (by decide)
  revert j
  decide

end Herak.OneWire
