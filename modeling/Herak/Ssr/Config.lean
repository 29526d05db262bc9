import Mathlib.Data.Fintype.Card
import Herak.Support.PairList
import Herak.Ssr.Relay

/-!
# The configuration of the relays

`ssr_config_get` of `ssr.c` reads a list of pairs of an id and a pin.  It first
writes the pin -1 through every pointer of a table that `calloc` has just
cleared; a write through `NULL` is `none`.
-/

namespace Herak.Ssr

open CInt CString

/-! ## The code -/

/-- `ssr_context_t`, as far as the configuration sets it: of a relay that
exists the table has its pin. -/
structure SsrConfig where
  count : ℕ
  onState : UInt8
  relays : RelayIdx → Option ℤ

/-- The context after `calloc`. -/
def SsrConfig.cleared : SsrConfig where
  count := 0
  onState := 0
  relays := fun _ => none

/-- The outcomes of `calloc`: for the context, and for the relay of an id. -/
structure SsrMemory where
  context : Bool
  relay : RelayIdx → Bool

/-- `relays[i]->gpio_pin = pin` -/
def SsrConfig.setPin (config : SsrConfig) (i : RelayIdx) (pin : ℤ) :
    Option SsrConfig :=
  match config.relays i with
  | none => none
  | some _ =>
      some { config with relays := Function.update config.relays i (some pin) }

/-- The loop over the table before the configuration is read. -/
def ssrClearPins (config : SsrConfig) : Option SsrConfig :=
  (List.finRange maxSsrCount).foldlM (fun config i => config.setPin i (-1)) config

/-- What `tok` reads as once `strtok_r` has ended its first part: `tok_map`
has this text for both parts of a pair. -/
def ssrTokMap (tok : CStr) : Option (CStr × CStr) :=
  match strtokR (some tok) (lit ":") with
  | (none, _) => none
  | (some part, rest) =>
      match strtokR rest (lit ":") with
      | (none, _) => none
      | (some _, _) =>
          let text := tok.takeWhile (· = 58) ++ part
          some (text, text)

/-- A round of the loop over the pairs; `none` if there is no memory. -/
def ssrConfigPair (memory : SsrMemory) (config : SsrConfig) (tok : CStr) :
    Option SsrConfig :=
  match ssrTokMap tok with
  | none => some config
  | some (idText, pinText) =>
      let id := strtol idText 10
      if hid : 0 ≤ id ∧ id.toNat < maxSsrCount then
        let i : RelayIdx := ⟨id.toNat, hid.2⟩
        if (config.relays i).isNone && !memory.relay i then none
        else
          some
            { config with
              count := config.count + 1
              relays := Function.update config.relays i
                (some (strtol pinText 0)) }
      else some config

def ssrConfigPairs (memory : SsrMemory) (config : SsrConfig)
    (toks : List CStr) : Option SsrConfig :=
  toks.foldlM (ssrConfigPair memory) config

/-- The level of `SSR_TRIGGER`. -/
def ssrTrigger (config : SsrConfig) (trigger : Option CStr) : SsrConfig :=
  match trigger with
  | none => config
  | some tok =>
      if 1 ≤ strlen tok then
        { config with onState := UInt8.ofNat (toUInt8 (strtol tok 10)) }
      else config

/-- `ssr_config_get`: the context that it leaves, if it returns true. -/
def ssrConfigGet (memory : SsrMemory) (ssr trigger : Option CStr) :
    Option (Option SsrConfig) :=
  match ssr with
  | none => some none
  | some config =>
      if strlen config < 1 then some none
      else if !memory.context then some none
      else do
        let cleared ← ssrClearPins SsrConfig.cleared
        match ssrConfigPairs memory (ssrTrigger cleared trigger)
            (tokens (some config) (lit ";")) with
        | none => some none
        | some ctx => if ctx.count < 1 then some none else some (some ctx)

/-! ## Lists of pairs -/

/-- `<id>:<gpio pin>;<id>:<gpio pin> ....` -/
def configText (pairs : List (RelayIdx × ℕ)) : CStr :=
  pairListText (pairs.map fun pair => ((pair.1 : ℕ), pair.2))

/-- The pin that the last pair of a relay asks for. -/
def lastPin (pairs : List (RelayIdx × ℕ)) (i : RelayIdx) : Option ℤ :=
  (pairs.reverse.find? fun pair => pair.1 = i).map fun pair => pair.2

/-- The relays of a list, each with its last pin, and their number. -/
def ConfiguredAs (result : Option (Option SsrConfig))
    (pairs : List (RelayIdx × ℕ)) : Prop :=
  ∃ ctx, result = some (some ctx) ∧
    (∀ i, ctx.relays i = lastPin pairs i) ∧
    ctx.count =
      (Finset.univ.filter fun i => (ctx.relays i).isSome = true).card

/-- Both entries of `tok_map` are the id of the pair. -/
theorem ssrTokMap_pairText (pair : ℕ × ℕ) :
    ssrTokMap (pairText pair) = some (decimal pair.1, decimal pair.1) := by
  have hlead : (pairText pair).takeWhile (· = 58) = [] := by
    obtain ⟨d, rest, hd, -, hrest⟩ := decimal_head pair.1
    have hdigit : digit d ≠ 58 := fun h =>
      not_mem_decimal (show 58 ≤ (58 : UInt8).toNat by decide) pair.1
        (by rw [hrest, h]; exact List.mem_cons_self)
    rw [pairText, hrest, List.cons_append, List.takeWhile_cons_of_neg]
    simpa using hdigit
  simp only [ssrTokMap, strtokR_pairText, strtokR_decimal, hlead, List.nil_append]

/-- A pair makes its relay, with the id for its pin, and is counted each time
that it stands in the list. -/
theorem ssrConfigPair_pairText (memory : SsrMemory) (config : SsrConfig)
    (pair : RelayIdx × ℕ) (hmemory : memory.relay pair.1 = true) :
    ssrConfigPair memory config (pairText ((pair.1 : ℕ), pair.2)) =
      some
        { config with
          count := config.count + 1
          relays := Function.update config.relays pair.1
            (some ((pair.1 : ℕ) : ℤ)) } := by
  obtain ⟨i, pin⟩ := pair
  have hlt : (i : ℕ) < 29 := i.isLt
  have hlong : ((i : ℕ) : ℤ) ≤ longMax := by
    rw [longMax]
    omega
  have hten : strtol (decimal i) 10 = ((i : ℕ) : ℤ) := by
    rw [strtol_decimal_ten, min_eq_right hlong]
  have hzero := strtol_decimal_detect hlong
  have hid : 0 ≤ ((i : ℕ) : ℤ) ∧ ((i : ℕ) : ℤ).toNat < maxSsrCount :=
    ⟨Int.natCast_nonneg _, i.isLt⟩
  simp only [ssrConfigPair, ssrTokMap_pairText, hten, hzero]
  rw [dif_pos hid]
  simp [hmemory]

theorem ssrConfigPairs_map (memory : SsrMemory) (pairs : List (RelayIdx × ℕ))
    (config : SsrConfig) (hmemory : ∀ i, memory.relay i = true) :
    ssrConfigPairs memory config
        (pairs.map fun pair => pairText ((pair.1 : ℕ), pair.2)) =
      some
        { config with
          count := config.count + pairs.length
          relays := fun i =>
            if i ∈ pairs.map Prod.fst then some ((i : ℕ) : ℤ)
            else config.relays i } := by
  induction pairs generalizing config with
  | nil => simp [ssrConfigPairs]
  | cons pair pairs ih =>
      rw [ssrConfigPairs, List.map_cons, List.foldlM_cons,
        ssrConfigPair_pairText memory config pair (hmemory pair.1)]
      refine (ih _).trans ?_
      congr 2
      · change config.count + 1 + pairs.length = config.count + (pairs.length + 1)
        omega
      · funext i
        by_cases hi : i ∈ pairs.map Prod.fst
        · simp [hi]
        · by_cases hfst : i = pair.1
          · simp [hfst]
          · simp [hi, hfst]

/-- The loop over a list, if it were reached: the relays of the list are made,
but each gets its id for its pin, and the number counts the pairs. -/
theorem ssrConfigPairs_configText (memory : SsrMemory)
    (pairs : List (RelayIdx × ℕ)) (config : SsrConfig)
    (hmemory : ∀ i, memory.relay i = true) :
    ssrConfigPairs memory config
        (tokens (some (configText pairs)) (lit ";")) =
      some
        { config with
          count := config.count + pairs.length
          relays := fun i =>
            if i ∈ pairs.map Prod.fst then some ((i : ℕ) : ℤ)
            else config.relays i } := by
  rw [configText, tokens_pairListText, List.map_map]
  exact ssrConfigPairs_map memory pairs config hmemory

/-! ## The table is empty -/

/-- No relay exists when the pins are cleared. -/
theorem ssrClearPins_cleared : ssrClearPins SsrConfig.cleared = none := rfl

/-- With memory for the context every string ends in a write through `NULL`. -/
theorem ssrConfigGet_eq_none (memory : SsrMemory) {config : CStr}
    (trigger : Option CStr) (hcontext : memory.context = true)
    (hconfig : config ≠ []) :
    ssrConfigGet memory (some config) trigger = none := by
  have hlen : ¬ strlen config < 1 := by
    rw [strlen]
    have hpos := List.length_pos_iff.mpr hconfig
    omega
  simp only [ssrConfigGet, hlen, hcontext, ssrClearPins_cleared]
  rfl

/-- No configuration is ever read. -/
theorem ssrConfigGet_ne_some (memory : SsrMemory) (config trigger : Option CStr)
    (ctx : SsrConfig) : ssrConfigGet memory config trigger ≠ some (some ctx) := by
  obtain _ | config := config
  · simp [ssrConfigGet]
  by_cases hconfig : config = []
  · simp [ssrConfigGet, hconfig, strlen]
  obtain hcontext | hcontext := Bool.eq_false_or_eq_true memory.context
  · simp [ssrConfigGet_eq_none memory trigger hcontext hconfig]
  · simp [ssrConfigGet, hcontext]

/-- The relays of a list are never configured. -/
theorem not_configuredAs (memory : SsrMemory) (pairs : List (RelayIdx × ℕ))
    (trigger : Option CStr) :
    ¬ ConfiguredAs (ssrConfigGet memory (some (configText pairs)) trigger)
      pairs := by
  rintro ⟨ctx, hctx, -, -⟩
  exact ssrConfigGet_ne_some memory _ trigger ctx hctx

/-- One relay at one pin is already too much. -/
theorem not_configuredAs_one :
    ¬ ∀ (pairs : List (RelayIdx × ℕ)) (trigger : Option CStr), pairs ≠ [] →
      ConfiguredAs (ssrConfigGet { context := true, relay := fun _ => true }
        (some (configText pairs)) trigger) pairs := by
  intro h
  obtain ⟨ctx, hctx, -, -⟩ := h [(0, 1)] none (List.cons_ne_nil _ _)
  have hnull : ssrConfigGet { context := true, relay := fun _ => true }
      (some (configText [(0, 1)])) none = none := rfl
  rw [hnull] at hctx
  cases hctx

end Herak.Ssr
