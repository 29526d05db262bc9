import Mathlib.Algebra.BigOperators.Fin
import Mathlib.Data.Fintype.Fin
import Mathlib.Order.UpperLower.Basic
import Herak.Soil.Device
import Herak.Support.PairList

/-!
# The sensors of the lists

A list names some of the sensors, in any order, and the pin of each.  The table
is sparse, while `sensors_count` counts the sensors that are used: the loops
reach all of them if and only if the numbers have no gap.
-/

namespace Herak.Soil

open CString

/-- What a list says: the pins of some sensors, each of which it names once. -/
structure PinList where
  pairs : List (SoilIdx × ℕ)
  nodup : (pairs.map Prod.fst).Nodup
  le_forty : ∀ pair ∈ pairs, pair.2 ≤ 40

namespace PinList

/-- The text of a list; that of a parameter without a value is a null
pointer. -/
def param (l : PinList) : Option CStr :=
  if l.pairs = [] then none
  else some (pairListText (l.pairs.map fun pair => ((pair.1 : ℕ), pair.2)))

/-- The pin of a sensor. -/
def pin (l : PinList) (i : SoilIdx) : Option ℕ :=
  l.pairs.lookup i

/-- The list names the sensor. -/
def Has (l : PinList) (i : SoilIdx) : Prop :=
  (l.pin i).isSome

instance (l : PinList) : DecidablePred l.Has :=
  fun i => inferInstanceAs (Decidable ((l.pin i).isSome = true))

/-- The pin in the table. -/
def tablePin (l : PinList) (i : SoilIdx) : ℤ :=
  match l.pin i with
  | none => -1
  | some pin => pin

variable {l : PinList} {i : SoilIdx}

theorem tablePin_nonneg_iff : 0 ≤ l.tablePin i ↔ l.Has i := by
  rw [tablePin, Has]
  cases l.pin i with
  | none => decide
  | some pin => simp

theorem has_iff_mem : l.Has i ↔ i ∈ l.pairs.map Prod.fst := by
  rw [Has, pin, ← not_iff_not, Bool.not_eq_true, Option.isSome_eq_false_iff,
    Option.isNone_iff_eq_none, List.lookup_eq_none_iff]
  simp only [List.mem_map, bne_iff_ne, not_exists, not_and]
  exact ⟨fun h pair hpair heq => h pair hpair heq.symm,
    fun h pair hpair heq => h pair hpair heq.symm⟩

/-- There is no text without a sensor. -/
theorem noText_param_iff : noText l.param = true ↔ ∀ i, ¬ l.Has i := by
  simp only [has_iff_mem, param]
  split
  next hnil => simp [noText, hnil]
  next hne =>
    have hlen : 0 < (pairListText
        (l.pairs.map fun pair => ((pair.1 : ℕ), pair.2))).length := by
      refine List.length_pos_of_ne_nil (pairListText_ne_nil ?_)
      rwa [ne_eq, List.map_eq_nil_iff]
    have hfalse : noText (some (pairListText
        (l.pairs.map fun pair => ((pair.1 : ℕ), pair.2)))) = false := by
      simpa [noText] using Nat.not_lt.mpr hlen
    obtain ⟨pair, hpair⟩ := List.exists_mem_of_ne_nil _ hne
    rw [hfalse]
    refine iff_of_false Bool.false_ne_true fun h => ?_
    exact h pair.1 (List.mem_map_of_mem hpair)

theorem length_pairs_pos_iff : 0 < l.pairs.length ↔ ∃ i, l.Has i := by
  simp only [has_iff_mem]
  rw [List.length_pos_iff_exists_mem]
  constructor
  · rintro ⟨pair, hpair⟩
    exact ⟨pair.1, List.mem_map_of_mem hpair⟩
  · rintro ⟨i, hi⟩
    obtain ⟨pair, hpair, -⟩ := List.mem_map.mp hi
    exact ⟨pair, hpair⟩

end PinList

/-! ## Reading a list -/

/-- A sensor with the pin that a list has for it. -/
def SoilSensor.withPin (s : SoilSensor) (digital : Bool) (pin : Option ℕ) :
    SoilSensor :=
  match pin with
  | none => s
  | some pin => s.setPin digital pin

theorem SoilSensor.setPin_withPin (s : SoilSensor) (digital : Bool)
    (pin : Option ℕ) (id : ℤ) :
    (s.withPin digital pin).setPin digital id = s.setPin digital id := by
  cases pin with
  | none => rfl
  | some pin => cases digital <;> rfl

/-- An entry of a list gives its sensor the pin. -/
theorem soilReadPin_pairText {pair : SoilIdx × ℕ} (hpin : pair.2 ≤ 40)
    (digital : Bool) (state : ℕ × (SoilIdx → SoilSensor)) :
    soilReadPin digital state (pairText ((pair.1 : ℕ), pair.2)) =
      (state.1 + 1,
        Function.update state.2 pair.1
          ((state.2 pair.1).setPin digital pair.2)) := by
  obtain ⟨i, pin⟩ := pair
  have hi := i.isLt
  have hmax : maxSoilSensorsCount = 5 := rfl
  have hidx : strtol (decimal (i : ℕ)) 10 = (i : ℕ) := by
    rw [strtol_decimal_ten]
    exact min_eq_right (by rw [longMax]; omega)
  have hid : strtol (decimal pin) 10 = pin := by
    rw [strtol_decimal_ten]
    dsimp only at hpin
    exact min_eq_right (by rw [longMax]; omega)
  have hrange : 0 ≤ ((i : ℕ) : ℤ) ∧ ((i : ℕ) : ℤ).toNat < maxSoilSensorsCount := by
    rw [Int.toNat_natCast]
    exact ⟨Int.natCast_nonneg _, hi⟩
  have hvalid : ¬ ((pin : ℤ) < 0 ∨ 40 < (pin : ℤ)) := by
    dsimp only at hpin
    omega
  simp only [soilReadPin, strtokR_pairText, strtokR_decimal, hidx, hid]
  rw [dif_pos hrange, if_neg hvalid]
  rfl

/-- The second loop of `soil_read_pin_cfg` gives every sensor its pin. -/
theorem foldr_soilReadPin {pairs : List (SoilIdx × ℕ)}
    (hpins : ∀ pair ∈ pairs, pair.2 ≤ 40) (digital : Bool)
    (sensors : SoilIdx → SoilSensor) :
    (pairs.map fun pair => pairText ((pair.1 : ℕ), pair.2)).foldr
        (fun tok state => soilReadPin digital state tok) (0, sensors) =
      (pairs.length,
        fun i => (sensors i).withPin digital (pairs.lookup i)) := by
  induction pairs with
  | nil => rfl
  | cons pair pairs ih =>
      rw [List.map_cons, List.foldr_cons,
        ih fun p hp => hpins p (List.mem_cons_of_mem _ hp),
        soilReadPin_pairText (hpins pair List.mem_cons_self)]
      refine Prod.ext rfl (funext fun i => ?_)
      obtain ⟨j, pin⟩ := pair
      dsimp only
      rw [List.lookup_cons]
      by_cases hij : i = j
      · rw [hij, Function.update_self, beq_self_eq_true]
        exact SoilSensor.setPin_withPin _ _ _ _
      · rw [Function.update_of_ne hij, beq_eq_false_iff_ne.mpr hij]

/-- `soil_read_pin_cfg` on the text of a list. -/
theorem soilReadPinCfg_param (l : PinList) (digital : Bool)
    (sensors : SoilIdx → SoilSensor) :
    soilReadPinCfg sensors l.param digital =
      some (l.pairs.length,
        fun i => (sensors i).withPin digital (l.pin i)) := by
  rw [PinList.param]
  split
  next hnil => simp [soilReadPinCfg, PinList.pin, hnil, SoilSensor.withPin]
  next hne =>
    have hlen : l.pairs.length ≤ maxSoilSensorsCount := by
      simpa using l.nodup.length_le_card
    have htokens : (tokens (some (pairListText
          (l.pairs.map fun pair => ((pair.1 : ℕ), pair.2)))) (lit ";")).take
            maxSoilSensorsCount =
        l.pairs.map fun pair => pairText ((pair.1 : ℕ), pair.2) := by
      rw [tokens_pairListText, List.map_map, List.take_of_length_le]
      · rfl
      · simpa using hlen
    have hsome : (l.pairs.map fun pair => pairText ((pair.1 : ℕ), pair.2)) ≠ [] := by
      rwa [ne_eq, List.map_eq_nil_iff]
    rw [soilReadPinCfg, htokens, if_neg hsome, List.foldl_reverse,
      foldr_soilReadPin l.le_forty]
    rfl

/-! ## The sensors that are counted -/

/-- One of the lists names the sensor. -/
def Configured (digital analog : PinList) (i : SoilIdx) : Prop :=
  digital.Has i ∨ analog.Has i

/-- There is an ADC sensor for the analog output. -/
def SoilMemory.Ready (memory : SoilMemory) (analog : PinList) (i : SoilIdx) :
    Prop :=
  memory.analog i = true ∧
    adcSensorInit (analog.tablePin i) (memory.adc i) = true

/-- `sensors_count` has the sensor. -/
def Counted (memory : SoilMemory) (digital analog : PinList) (i : SoilIdx) :
    Prop :=
  digital.Has i ∨ analog.Has i ∧ memory.Ready analog i

instance (digital analog : PinList) :
    DecidablePred (Configured digital analog) :=
  fun i => inferInstanceAs (Decidable (digital.Has i ∨ analog.Has i))

instance (memory : SoilMemory) (analog : PinList) :
    DecidablePred (memory.Ready analog) :=
  fun i => inferInstanceAs (Decidable (memory.analog i = true ∧
    adcSensorInit (analog.tablePin i) (memory.adc i) = true))

instance (memory : SoilMemory) (digital analog : PinList) :
    DecidablePred (Counted memory digital analog) :=
  fun i => inferInstanceAs
    (Decidable (digital.Has i ∨ analog.Has i ∧ memory.Ready analog i))

variable {memory : SoilMemory} {digital analog : PinList} {i : SoilIdx}

theorem Counted.configured (h : Counted memory digital analog i) :
    Configured digital analog i :=
  h.imp_right And.left

/-- A sensor after both lists. -/
def listedSensor (digital analog : PinList) (i : SoilIdx) : SoilSensor :=
  { noSensor with
    digitalPin := digital.tablePin i
    analogPin := analog.tablePin i }

theorem withPin_withPin (digital analog : PinList) (i : SoilIdx) :
    (noSensor.withPin true (digital.pin i)).withPin false (analog.pin i) =
      listedSensor digital analog i := by
  rw [listedSensor, PinList.tablePin, PinList.tablePin]
  cases digital.pin i with
  | none => cases analog.pin i <;> rfl
  | some pin => cases analog.pin i <;> rfl

theorem soilInitSensor_count (memory : SoilMemory) (digital analog : PinList)
    (i : SoilIdx) :
    (soilInitSensor memory i (listedSensor digital analog i)).2 =
      if Counted memory digital analog i then 1 else 0 := by
  have hlt : digital.tablePin i < 0 ↔ ¬ digital.Has i := by
    rw [← PinList.tablePin_nonneg_iff, not_le]
  simp only [soilInitSensor, listedSensor, PinList.tablePin_nonneg_iff, hlt,
    Counted, SoilMemory.Ready]
  by_cases hanalog : analog.Has i
  · by_cases hmemory : memory.analog i = true
    · by_cases hadc : adcSensorInit (analog.tablePin i) (memory.adc i) = true
      · by_cases hdigital : digital.Has i
        · simp [hanalog, hmemory, hadc, hdigital]
        · simp [hanalog, hmemory, hadc, hdigital]
      · simp [hanalog, hmemory, hadc]
    · simp [hanalog, hmemory]
  · simp [hanalog]

theorem soilInitSensor_digitalPin (memory : SoilMemory) (i : SoilIdx)
    (s : SoilSensor) : (soilInitSensor memory i s).1.digitalPin = s.digitalPin := by
  unfold soilInitSensor
  dsimp only
  split
  · split
    · rfl
    · split
      · rfl
      · rfl
  · rfl

/-- What is known of the analog part of a sensor. -/
theorem soilInitSensor_analog (memory : SoilMemory) (digital analog : PinList)
    (i : SoilIdx) :
    (soilInitSensor memory i (listedSensor digital analog i)).1.analog =
      if analog.Has i ∧ memory.analog i = true then
        some ⟨adcSensorInit (analog.tablePin i) (memory.adc i)⟩
      else none := by
  simp only [soilInitSensor, listedSensor, PinList.tablePin_nonneg_iff]
  by_cases hanalog : analog.Has i
  · by_cases hmemory : memory.analog i = true
    · by_cases hadc : adcSensorInit (analog.tablePin i) (memory.adc i) = true
      · simp [hanalog, hmemory, hadc]
      · simp [hanalog, hmemory, hadc]
    · simp [hanalog, hmemory, noSensor]
  · simp [hanalog, noSensor]

/-- `sensors_count` -/
theorem sensorsCount_eq (memory : SoilMemory) (digital analog : PinList)
    (wnotify : Option CStr) :
    (soilContext memory (listedSensor digital analog) wnotify).sensorsCount =
      (Finset.univ.filter (Counted memory digital analog)).card := by
  simp only [soilContext, soilInitSensor_count]
  rw [← Fin.sum_univ_def, Finset.card_filter]

/-- The sensors that are counted are those below the count if and only if their
numbers have no gap. -/
theorem counted_lt_iff {n : ℕ} (p : Fin n → Prop) [DecidablePred p] :
    (∀ i, p i → (i : ℕ) < (Finset.univ.filter p).card) ↔ IsLowerSet {i | p i} := by
  constructor
  · intro h
    have hsub : Finset.univ.filter p ⊆
        Finset.univ.filter fun i : Fin n =>
          (i : ℕ) < (Finset.univ.filter p).card := by
      intro i hi
      exact Finset.mem_filter.mpr
        ⟨Finset.mem_univ i, h i (Finset.mem_filter.mp hi).2⟩
    have hcard : (Finset.univ.filter fun i : Fin n =>
        (i : ℕ) < (Finset.univ.filter p).card).card ≤
          (Finset.univ.filter p).card := by
      rw [Fin.card_filter_val_lt]
      exact min_le_right _ _
    have heq := Finset.eq_of_subset_of_card_le hsub hcard
    intro i j hji hi
    have hj : j ∈ Finset.univ.filter p := by
      rw [heq]
      refine Finset.mem_filter.mpr ⟨Finset.mem_univ j, ?_⟩
      exact lt_of_le_of_lt hji (h i hi)
    exact (Finset.mem_filter.mp hj).2
  · intro h i hi
    exact (Fin.lt_card_filter_univ_iff_apply_of_imp p
      fun i j hji hi => h hji hi).mpr hi

end Herak.Soil
