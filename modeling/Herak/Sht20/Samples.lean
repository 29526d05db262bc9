import Herak.Sht20.Publishing
import Herak.Utils.Samples

/-!
# The samples of the SHT20 sensors

A sample of the sensor has 16 bits, so that `samples_filter` sorts the samples
of a quantity and returns the mean that the model of the sensor computes with.
-/

namespace Herak.Sht20

open List Utils
open Mqtt (SendCall)

variable {Float Double : Type*} {count : ℕ}

/-- Samples of 16 bits. -/
def SamplesFit (raws : List ℕ) : Prop :=
  ∀ raw ∈ raws, raw < 2 ^ 16

namespace SamplesFit

variable {raws : List ℕ} (h : SamplesFit raws)

/-! ## The filter -/

include h

theorem toNat_ofNat : ∀ raw ∈ raws, (UInt32.ofNat raw).toNat = raw :=
  fun raw hraw => UInt32.toNat_ofNat_of_lt' ((h raw hraw).trans (by decide))

theorem map_toNat : (raws.map UInt32.ofNat).map UInt32.toNat = raws := by
  rw [List.map_map]
  exact (List.map_congr_left h.toNat_ofNat).trans (List.map_id raws)

theorem middleValues_eq (k : ℕ) :
    middleValues (raws.map UInt32.ofNat) k =
      ((raws.insertionSort (· ≤ ·)).drop k).take (raws.length - 2 * k) := by
  have hsort : (raws.map UInt32.ofNat).insertionSort (· ≤ ·) =
      (raws.insertionSort (· ≤ ·)).map UInt32.ofNat := by
    apply (map_insertionSort (· ≤ ·) (· ≤ ·) UInt32.ofNat raws _).symm
    intro x hx y hy
    rw [UInt32.le_iff_toNat_le, h.toNat_ofNat x hx, h.toNat_ofNat y hy]
  have hmiddle : SamplesFit
      (((raws.insertionSort (· ≤ ·)).drop k).take (raws.length - 2 * k)) := by
    intro raw hraw
    apply h raw
    exact (mem_insertionSort _).mp (mem_of_mem_drop (mem_of_mem_take hraw))
  rw [middleValues, hsort, ← List.map_drop, ← List.map_take, List.length_map,
    hmiddle.map_toNat]

theorem exchangedFit : ExchangedFit (raws.map UInt32.ofNat) := by
  apply pairwise_of_forall_mem_list
  intro x hx y _ _
  obtain ⟨raw, hraw, rfl⟩ := mem_map.mp hx
  rw [h.toNat_ofNat raw hraw]
  exact h raw hraw

theorem sum_lt (hlen : raws.length ≤ 2 ^ 16) : raws.sum < 2 ^ 32 := by
  have hle : raws.sum ≤ raws.length • (2 ^ 16 - 1) := by
    apply sum_le_card_nsmul
    intro raw hraw
    exact Nat.le_sub_one_of_lt (h raw hraw)
  rw [smul_eq_mul] at hle
  omega

/-- On samples of 16 bits the filter is what the model of the sensor has. -/
theorem samplesFilter_eq {k : ℕ} (hlen : raws.length ≤ 2 ^ 16)
    (hk : 2 * k < raws.length) :
    (Utils.samplesFilter (raws.map UInt32.ofNat) raws.length k).2.map
        UInt32.toNat = some (samplesFilter raws raws.length k) := by
  have hlength : (raws.map UInt32.ofNat).length = raws.length := length_map _
  obtain ⟨hsorted, hperm⟩ := (sortSamples_iff _).mpr h.exchangedFit
  have hmean := samplesFilter_mean (k := k) (by omega) (by omega)
    (by rw [h.map_toNat]; exact h.sum_lt hlen) hsorted hperm
  rwa [hlength, h.middleValues_eq] at hmean

end SamplesFit

/-! ## Runs -/

theorem samplesFit_addSample {raws : List ℕ} (h : SamplesFit raws) {last : ℕ}
    (hlast : last < 2 ^ 16) : SamplesFit (addSample raws last) := by
  unfold addSample
  split
  · intro raw hraw
    rcases mem_append.mp hraw with hraw | hraw
    · exact h raw hraw
    · rwa [mem_singleton.mp hraw]
  · exact h

/-- The two bytes of a sample. -/
theorem sample_lt {input : ReadInput} {raw : ℕ}
    (h : Sht20Sensor.sample input = some raw) : raw < 2 ^ 16 := by
  obtain ⟨⟨b0, b1, b2⟩, -, hcrc⟩ := Option.bind_eq_some_iff.mp h
  dsimp only at hcrc
  split at hcrc
  · have hraw := Option.some.inj hcrc
    have h0 := b0.toNat_lt
    have h1 := b1.toNat_lt
    rw [Nat.shiftLeft_eq] at hraw
    omega
  · exact (Option.some_ne_none raw hcrc.symm).elim

theorem readFailed_rawData (s : Sht20Sensor Float) :
    (readFailed s).2.rawData = [] := by
  unfold readFailed
  cases s.readCmd <;> rfl

theorem stored_rawData (a : CArithmetic Float Double) (s : Sht20Sensor Float)
    (raw : ℕ) :
    (storeDerived a (storeQuantity a s raw)).rawData = s.rawData := by
  unfold storeDerived storeQuantity
  cases s.readCmd <;> rfl

theorem samplesFit_sht20SensorGetData (a : CArithmetic Float Double)
    {s : Sht20Sensor Float} (h : SamplesFit s.rawData) (input : ReadInput) :
    SamplesFit (sht20SensorGetData a s input).2.rawData := by
  by_cases hwait : s.Waits input
  · rw [Sht20Sensor.Waits] at hwait
    rwa [sht20SensorGetData, if_pos hwait]
  · rw [Sht20Sensor.sht20SensorGetData_of_due a hwait]
    cases hsample : Sht20Sensor.sample input with
    | none =>
        dsimp only
        rw [readFailed_rawData]
        exact forall_mem_nil _
    | some raw =>
        dsimp only
        split
        · cases input.requested with
          | none =>
              dsimp only
              rw [readFailed_rawData]
              exact forall_mem_nil _
          | some time => exact samplesFit_addSample h (sample_lt hsample)
        · rw [stored_rawData]
          exact forall_mem_nil _

/-- The samples of all the sensors have 16 bits. -/
def AllSamplesFit (s : Sht20State Float count) : Prop :=
  ∀ i, SamplesFit (s.sensors i).rawData

theorem AllSamplesFit.update {s : Sht20State Float count} (h : AllSamplesFit s)
    {i : Fin count} {sensor : Sht20Sensor Float}
    (hsensor : SamplesFit sensor.rawData) :
    AllSamplesFit { s with sensors := Function.update s.sensors i sensor } := by
  intro j
  by_cases hj : j = i
  · rw [hj]
    dsimp only
    rwa [Function.update_self]
  · dsimp only
    rw [Function.update_of_ne hj]
    exact h j

theorem AllSamplesFit.sth20MqttDataSend {s : Sht20State Float count}
    (h : AllSamplesFit s) (call : SendCall) (i : Fin count) :
    AllSamplesFit (s.sth20MqttDataSend call i) := by
  unfold Sht20State.sth20MqttDataSend
  split
  · exact h.update (h i)
  · exact h

theorem AllSamplesFit.sht20MqttSend {s : Sht20State Float count}
    (h : AllSamplesFit s) (call : SendCall) :
    AllSamplesFit (s.sht20MqttSend call) := by
  have hand : AllSamplesFit (s.handOver call) := h
  unfold Sht20State.sht20MqttSend
  dsimp only
  split
  · exact hand
  · exact hand.sth20MqttDataSend call _

theorem samplesFit_step (a : CArithmetic Float Double)
    (s : Sht20State Float count) (e : Sht20Event count) (h : AllSamplesFit s) :
    AllSamplesFit ((sht20Machine a).step s e) := by
  cases e with
  | request i time => exact h.update (h i)
  | read i input => exact h.update (samplesFit_sht20SensorGetData a (h i) input)
  | send call => exact h.sht20MqttSend call

/-- Whatever has been read, the sample that completes a quantity makes
`samples_filter` return what the model of the sensor computes with. -/
theorem filter_readings (a : CArithmetic Float Double)
    (registered : Fin count → Bool) (es : List (Sht20Event count))
    (i : Fin count) (input : ReadInput) {last : ℕ}
    (hlast : Sht20Sensor.sample input = some last) :
    let s := ((sht20Machine a).run (.boot a registered) es).sensors i
    let raws := addSample s.rawData last
    raws.length = sht20DataCount →
      (Utils.samplesFilter (raws.map UInt32.ofNat) sht20DataCount 1).2.map
        UInt32.toNat = some (samplesFilter raws sht20DataCount 1) := by
  intro s raws hlen
  have hinv := EventMachine.invariant (m := sht20Machine a)
    (I := AllSamplesFit) (samplesFit_step a)
    (s := .boot a registered) (fun _ => forall_mem_nil _) es
  have hfit : SamplesFit raws := samplesFit_addSample (hinv i) (sample_lt hlast)
  rw [← hlen]
  exact hfit.samplesFilter_eq (by rw [hlen]; decide) (by rw [hlen]; decide)

end Herak.Sht20
