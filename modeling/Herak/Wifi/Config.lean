import Herak.Support.Tokens

/-!
# Configured WiFi networks

The names and the passwords of the networks are two lists in the parameters of
the device, read one after the other.
-/

namespace Herak.Wifi

open CString

/-- `MAX_WIFI_NETS` -/
def maxWifiNets : ℕ := 3

/-- `struct wifi_net_t` -/
structure WifiNet where
  ssid : CStr
  pass : Option CStr
  connected : Bool
deriving DecidableEq

/-- The loop over the names of the networks; `alloc` tells whether a `calloc`
succeeds. -/
def readNets (alloc : ℕ → Bool) (idx : ℕ) : List CStr → Option (List WifiNet)
  | [] => some []
  | tok :: toks =>
      if maxWifiNets ≤ idx then some []
      else if alloc idx then
        (readNets alloc (idx + 1) toks).map (⟨tok, none, false⟩ :: ·)
      else none

/-- The loop over the passwords; nothing when it writes through a null pointer. -/
def readPasses (idx : ℕ) : List CStr → List WifiNet → Option (List WifiNet)
  | [], nets => some nets
  | tok :: toks, nets =>
      if maxWifiNets ≤ idx then some nets
      else
        match nets with
        | [] => none
        | net :: nets =>
            (readPasses (idx + 1) toks nets).map ({ net with pass := some tok } :: ·)

/-- How `get_wifi_cfg` ends. -/
inductive WifiCfg
  | failed
  | nullAccess
  | nets (allNets : List WifiNet)
deriving DecidableEq

/-- `get_wifi_cfg`, with the values of the two parameters. -/
def getWifiCfg (alloc : ℕ → Bool) (ssd pass : Option CStr) : WifiCfg :=
  match ssd with
  | none => .failed
  | some ssd =>
      match readNets alloc 0 (tokens (some ssd) [59]) with
      | none => .failed
      | some [] => .failed
      | some (net :: nets) =>
          match readPasses 0 (tokens pass [59]) (net :: nets) with
          | none => .nullAccess
          | some nets => .nets nets

theorem readNets_eq {alloc : ℕ → Bool} (halloc : ∀ i, alloc i = true) (idx : ℕ)
    (toks : List CStr) :
    readNets alloc idx toks =
      some ((toks.take (maxWifiNets - idx)).map (⟨·, none, false⟩)) := by
  induction toks generalizing idx with
  | nil => rw [readNets, List.take_nil, List.map_nil]
  | cons tok toks ih =>
      rw [readNets]
      split
      next hle =>
        rw [Nat.sub_eq_zero_of_le hle, List.take_zero, List.map_nil]
      next hlt =>
        obtain ⟨left, hleft⟩ : ∃ left, maxWifiNets - idx = left + 1 :=
          ⟨maxWifiNets - idx - 1, by omega⟩
        rw [if_pos (halloc idx), ih, hleft, List.take_succ_cons, List.map_cons,
          show maxWifiNets - (idx + 1) = left by omega]
        rfl

/-- The networks with their passwords, as far as there are any. -/
def withPasses : List CStr → List WifiNet → List WifiNet
  | [], nets => nets
  | _, [] => []
  | tok :: toks, net :: nets => { net with pass := some tok } :: withPasses toks nets

theorem readPasses_eq (idx : ℕ) (toks : List CStr) (nets : List WifiNet) :
    readPasses idx toks nets =
      if (toks.take (maxWifiNets - idx)).length ≤ nets.length then
        some (withPasses (toks.take (maxWifiNets - idx)) nets)
      else none := by
  induction toks generalizing idx nets with
  | nil =>
      rw [readPasses, List.take_nil, withPasses]
      exact (if_pos (Nat.zero_le _)).symm
  | cons tok toks ih =>
      by_cases hle : maxWifiNets ≤ idx
      · rw [Nat.sub_eq_zero_of_le hle, List.take_zero, withPasses]
        cases nets with
        | nil => simp only [readPasses, if_pos hle, List.length_nil, le_refl, if_true]
        | cons net nets =>
            simp only [readPasses, if_pos hle, List.length_nil, Nat.zero_le, if_true]
      · obtain ⟨left, hleft⟩ : ∃ left, maxWifiNets - idx = left + 1 :=
          ⟨maxWifiNets - idx - 1, by omega⟩
        rw [hleft, List.take_succ_cons, List.length_cons]
        cases nets with
        | nil =>
            have hmore : ¬(toks.take left).length + 1 ≤ ([] : List WifiNet).length :=
              Nat.not_succ_le_zero _
            rw [if_neg hmore]
            simp only [readPasses, if_neg hle]
        | cons net nets =>
            have hrest := ih (idx + 1) nets
            rw [show maxWifiNets - (idx + 1) = left by omega] at hrest
            simp only [readPasses, if_neg hle, hrest, withPasses, List.length_cons,
              Nat.add_le_add_iff_right]
            split
            · rfl
            · rfl

theorem getElem?_withPasses (toks : List CStr) (nets : List WifiNet) (i : ℕ) :
    (withPasses toks nets)[i]? =
      nets[i]?.map fun net => { net with pass := toks[i]?.or net.pass } := by
  induction toks generalizing nets i with
  | nil => simp [withPasses]
  | cons tok toks ih =>
      cases nets with
      | nil => simp [withPasses]
      | cons net nets =>
          cases i with
          | zero => simp [withPasses]
          | succ i => simp [withPasses, ih]

theorem length_withPasses (toks : List CStr) (nets : List WifiNet) :
    (withPasses toks nets).length = nets.length := by
  induction toks generalizing nets with
  | nil => rfl
  | cons tok toks ih =>
      cases nets with
      | nil => rfl
      | cons net nets => rw [withPasses, List.length_cons, List.length_cons, ih]

/-- The entries of a parameter that are not empty. -/
def entries (s : CStr) : List CStr :=
  (s.splitOn 59).filter (· ≠ [])

theorem getWifiCfg_eq {alloc : ℕ → Bool} (halloc : ∀ i, alloc i = true)
    (ssd pass : CStr) :
    getWifiCfg alloc (some ssd) (some pass) =
      if entries ssd = [] then .failed
      else if ((entries pass).take maxWifiNets).length ≤
          ((entries ssd).take maxWifiNets).length then
        .nets (withPasses ((entries pass).take maxWifiNets)
          (((entries ssd).take maxWifiNets).map (⟨·, none, false⟩)))
      else .nullAccess := by
  have hssd : tokens (some ssd) [59] = entries ssd := tokens_eq ssd
  have hpass : tokens (some pass) [59] = entries pass := tokens_eq pass
  rw [getWifiCfg, hssd, hpass, readNets_eq halloc]
  cases hentries : entries ssd with
  | nil =>
      rw [if_pos rfl]
      rfl
  | cons tok toks =>
      rw [if_neg (List.cons_ne_nil _ _), Nat.sub_zero]
      change (match readPasses 0 (entries pass)
        (((tok :: toks).take maxWifiNets).map (⟨·, none, false⟩)) with
        | none => WifiCfg.nullAccess
        | some nets => .nets nets) = _
      rw [readPasses_eq, Nat.sub_zero, List.length_map]
      split
      next hfew =>
        split at hfew
        · cases hfew
        next hmany => rw [if_neg hmany]
      next hfew =>
        split at hfew
        next hle =>
          cases hfew
          rw [if_pos hle]
        next => cases hfew

/-- The i-th network has the i-th entry of the names and the i-th entry of the
passwords, not counting empty ones.  More passwords than names are written
through a null pointer. -/
theorem getWifiCfg_entries {alloc : ℕ → Bool} (halloc : ∀ i, alloc i = true)
    (ssd pass : CStr) :
    (getWifiCfg alloc (some ssd) (some pass) = .failed ↔ entries ssd = []) ∧
      (getWifiCfg alloc (some ssd) (some pass) = .nullAccess ↔
        entries ssd ≠ [] ∧
          (entries ssd).length < min maxWifiNets (entries pass).length) ∧
        ∀ nets : List WifiNet,
          getWifiCfg alloc (some ssd) (some pass) = .nets nets →
            nets.length = min maxWifiNets (entries ssd).length ∧
            ∀ (i : ℕ) (net : WifiNet), nets[i]? = some net →
              (entries ssd)[i]? = some net.ssid ∧
                net.pass = (entries pass)[i]? ∧ net.connected = false := by
  rw [getWifiCfg_eq halloc]
  by_cases hempty : entries ssd = []
  · rw [if_pos hempty]
    exact ⟨iff_of_true rfl hempty,
      iff_of_false nofun fun h => h.1 hempty, fun nets h => nomatch h⟩
  · rw [if_neg hempty]
    simp only [List.length_take]
    by_cases hmany : min maxWifiNets (entries pass).length ≤
        min maxWifiNets (entries ssd).length
    · rw [if_pos hmany]
      refine ⟨iff_of_false nofun hempty, iff_of_false nofun fun h => ?_,
        fun nets h => ?_⟩
      · have := h.2
        omega
      · obtain rfl := WifiCfg.nets.inj h
        refine ⟨by rw [length_withPasses, List.length_map, List.length_take],
          fun i net hnet => ?_⟩
        rw [getElem?_withPasses, List.getElem?_map] at hnet
        by_cases hlt : i < maxWifiNets
        · rw [List.getElem?_take, List.getElem?_take, if_pos hlt, if_pos hlt] at hnet
          cases hssid : (entries ssd)[i]? with
          | none =>
              rw [hssid] at hnet
              cases hnet
          | some tok =>
              rw [hssid] at hnet
              cases hnet
              exact ⟨rfl, Option.or_none, rfl⟩
        · rw [List.getElem?_take (l := entries ssd), if_neg hlt] at hnet
          cases hnet
    · rw [if_neg hmany]
      refine ⟨iff_of_false nofun hempty, iff_of_true rfl ⟨hempty, by omega⟩,
        fun nets h => nomatch h⟩

theorem readNets_spec {alloc : ℕ → Bool} {idx : ℕ} {toks : List CStr}
    {nets : List WifiNet} (h : readNets alloc idx toks = some nets) :
    nets.length ≤ maxWifiNets - idx ∧ ∀ net ∈ nets, net.connected = false := by
  induction toks generalizing idx nets with
  | nil =>
      obtain rfl := Option.some.inj h
      exact ⟨Nat.zero_le _, fun net hnet => (List.not_mem_nil hnet).elim⟩
  | cons tok toks ih =>
      rw [readNets] at h
      split at h
      next =>
        obtain rfl := Option.some.inj h
        exact ⟨Nat.zero_le _, fun net hnet => (List.not_mem_nil hnet).elim⟩
      next hlt =>
        split at h
        next =>
          obtain ⟨rest, hrest, rfl⟩ := Option.map_eq_some_iff.mp h
          obtain ⟨hlength, hfresh⟩ := ih hrest
          refine ⟨by rw [List.length_cons]; omega, fun net hnet => ?_⟩
          rcases List.mem_cons.mp hnet with rfl | hnet
          · rfl
          · exact hfresh net hnet
        next => cases h

/-- The networks of a configuration, whether all its memory was there or not. -/
theorem getWifiCfg_nets {alloc : ℕ → Bool} {ssd pass : Option CStr}
    {nets : List WifiNet} (h : getWifiCfg alloc ssd pass = .nets nets) :
    nets ≠ [] ∧ nets.length ≤ maxWifiNets ∧
      ∀ net ∈ nets, net.connected = false := by
  cases ssd with
  | none => cases h
  | some ssd =>
      rw [getWifiCfg] at h
      split at h
      next => cases h
      next => cases h
      next net rest hread =>
        rw [readPasses_eq] at h
        split at h
        next => cases h
        next nets' hpass =>
          obtain rfl := WifiCfg.nets.inj h
          split at hpass
          next =>
            obtain rfl := Option.some.inj hpass
            obtain ⟨hlength, hfresh⟩ := readNets_spec hread
            refine ⟨fun hnil => ?_, by rwa [length_withPasses], fun entry hentry => ?_⟩
            · have hzero := congrArg List.length hnil
              rw [length_withPasses] at hzero
              cases hzero
            · obtain ⟨i, hi⟩ := List.mem_iff_getElem?.mp hentry
              rw [getElem?_withPasses] at hi
              obtain ⟨old, hold, rfl⟩ := Option.map_eq_some_iff.mp hi
              exact hfresh old (List.mem_of_getElem? hold)
          next => cases hpass

/-- One name and two passwords. -/
theorem getWifiCfg_entries_twoPasses :
    getWifiCfg (fun _ => true) (some [65]) (some [66, 59, 67]) = .nullAccess :=
  (getWifiCfg_entries (fun _ => rfl) [65] [66, 59, 67]).2.1.mpr (by decide)

end Herak.Wifi
