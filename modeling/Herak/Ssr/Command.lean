import Herak.Support.Decimal
import Herak.Support.Tokens
import Herak.Ssr.Relay

/-!
# The relay that a command names

The id of a `set` command is read by `strtol` into an `int`, and goes on as
the `uint8_t` of `ssr_state_set`, which is where it is compared with the table.
-/

namespace Herak.Ssr

open CInt CString

/-! ## The fields of a command -/

/-- The text of the id. -/
def idField (params : CStr) : Option CStr :=
  (strtokR (some params) (lit ":")).1

/-- The text of the state. -/
def stateField (params : CStr) : Option CStr :=
  (strtokR (strtokR (some params) (lit ":")).2 (lit ":")).1

/-- The id that a command writes, as a decimal number of any size. -/
def writtenId (params : CStr) : Option ℤ :=
  (idField params).bind writtenNumber

def Configured (s : SsrState) (id : ℤ) : Prop :=
  ∃ i : RelayIdx, (i : ℤ) = id ∧ (s.relays i).isSome = true

/-- A parameter string of the command. -/
def IsSetCommand (params : CStr) : Prop :=
  2 ≤ strlen params ∧ params.head? = some 58

/-- Only the relay that is written changes: a command for a relay that is not
configured is refused, and the state stays. -/
def ObeysId (s : SsrState) (params : CStr) (clock : ℕ) : Prop :=
  ((∀ id, writtenId params = some id → ¬ Configured s id) →
    cmdSsrSet s params clock = (-1, s)) ∧
  ∀ (i : RelayIdx) (r : Relay), writtenId params = some (i : ℤ) →
    s.relays i = some r →
    (cmdSsrSet s params clock).2.onState = s.onState ∧
    (∀ k, k ≠ i → (cmdSsrSet s params clock).2.relays k = s.relays k) ∧
    ∀ pin, pin ≠ r.gpioPin →
      (cmdSsrSet s params clock).2.gpio pin = s.gpio pin

/-- The command reaches a relay that its text does not name: an id without
digits counts as 0, and one from 256 on loses its high bits. -/
def Misread (s : SsrState) (params : CStr) : Prop :=
  IsSetCommand params ∧ (stateField params).isSome = true ∧
    (writtenId params = none ∧ Configured s 0 ∨
      ∃ id, writtenId params = some id ∧ 256 ≤ id ∧ id ≤ longMax ∧
        Configured s (id % 256))

/-! ## What the code reads -/

/-- The id as an `int`. -/
def readId (params : CStr) : ℤ :=
  clampLong (writtenId params)

/-- The command goes through. -/
def Acts (s : SsrState) (params : CStr) : Prop :=
  IsSetCommand params ∧ (stateField params).isSome = true ∧
    0 ≤ readId params ∧ Configured s (readId params % 256)

theorem readId_of_idField {params tok : CStr} (h : idField params = some tok) :
    readId params = strtol tok 10 := by
  rw [readId, writtenId, h, strtol_ten]
  rfl

theorem ssrSetRequest_of_stateField_none {params : CStr}
    (h : stateField params = none) : ssrSetRequest params = none := by
  rw [stateField] at h
  cases htok : strtokR (some params) (lit ":") with
  | mk idTok rest =>
      rw [htok] at h
      obtain ⟨rest', hstate⟩ : ∃ rest', strtokR rest (lit ":") = (none, rest') :=
        ⟨_, Prod.ext h rfl⟩
      cases idTok with
      | none => simp only [ssrSetRequest, htok]
      | some idTok =>
          rw [ssrSetRequest, htok]
          simp only [hstate, ite_self]

/-- With both fields the request has the id that is read. -/
theorem ssrSetRequest_of_stateField {params : CStr}
    (h : (stateField params).isSome = true) :
    (readId params < 0 → ssrSetRequest params = none) ∧
      (0 ≤ readId params →
        ∃ req, ssrSetRequest params = some req ∧ req.id = readId params) := by
  obtain ⟨idTok, rest, hid⟩ : ∃ idTok rest,
      strtokR (some params) (lit ":") = (some idTok, rest) := by
    cases htok : strtokR (some params) (lit ":") with
    | mk idTok rest =>
        cases idTok with
        | none =>
            rw [stateField, htok, strtokR_rest_of_none htok] at h
            exact absurd h (by decide)
        | some idTok => exact ⟨idTok, rest, rfl⟩
  obtain ⟨stateTok, rest', hstate⟩ : ∃ stateTok rest',
      strtokR rest (lit ":") = (some stateTok, rest') := by
    rw [stateField, hid] at h
    obtain ⟨stateTok, hstateTok⟩ := Option.isSome_iff_exists.mp h
    exact ⟨stateTok, _, Prod.ext hstateTok rfl⟩
  have hread : readId params = strtol idTok 10 :=
    readId_of_idField (by rw [idField, hid])
  rw [hread]
  constructor
  · intro hneg
    simp only [ssrSetRequest, hid, if_pos hneg]
  · intro hpos
    simp only [ssrSetRequest, hid, hstate, if_neg (Int.not_lt.mpr hpos)]
    split
    · exact ⟨_, rfl, rfl⟩
    · split
      · exact ⟨_, rfl, rfl⟩
      · exact ⟨_, rfl, rfl⟩

theorem ssrStateSet_refused {s : SsrState} {id : ℕ} (h : ¬ Configured s id)
    (state : Bool) (time delay clock : ℕ) :
    ssrStateSet s id state time delay clock = (-1, s) := by
  rw [ssrStateSet]
  split
  next hid =>
    have hnone : s.relays ⟨id, hid⟩ = none := by
      by_contra hsome
      exact h ⟨⟨id, hid⟩, rfl, Option.isSome_iff_ne_none.mpr hsome⟩
    rw [hnone]
  · rfl

theorem toUInt8_cast (id : ℤ) : ((toUInt8 id : ℕ) : ℤ) = id % 256 := by
  rw [toUInt8]
  omega

theorem cmdSsrSetState_of_not_acts {s : SsrState} {params : CStr} (clock : ℕ)
    (hset : IsSetCommand params) (h : ¬ Acts s params) :
    cmdSsrSetState s params clock = (-1, s) := by
  rw [cmdSsrSetState]
  by_cases hstate : (stateField params).isSome = true
  · obtain ⟨hneg, hpos⟩ := ssrSetRequest_of_stateField hstate
    by_cases hread : 0 ≤ readId params
    · obtain ⟨req, hreq, hid⟩ := hpos hread
      have hnot : ¬ Configured s (toUInt8 req.id : ℕ) := by
        rw [toUInt8_cast, hid]
        exact fun hconfigured => h ⟨hset, hstate, hread, hconfigured⟩
      rw [hreq]
      exact ssrStateSet_refused hnot _ _ _ _
    · rw [hneg (Int.not_le.mp hread)]
  · rw [ssrSetRequest_of_stateField_none (by simpa using hstate)]

theorem cmdSsrSet_of_not_acts {s : SsrState} {params : CStr} (clock : ℕ)
    (h : ¬ Acts s params) : cmdSsrSet s params clock = (-1, s) := by
  rw [cmdSsrSet]
  by_cases hset : strlen params < 2 ∨ params.head? ≠ some 58
  · rw [if_pos hset]
  · rw [not_or, Nat.not_lt, not_not] at hset
    rw [if_neg (by rw [not_or, Nat.not_lt, not_not]; exact hset),
      cmdSsrSetState_of_not_acts clock hset h]
    rfl

theorem cmdSsrSet_of_acts {s : SsrState} {params : CStr} (clock : ℕ)
    (h : Acts s params) :
    ∃ (i : RelayIdx) (r : Relay) (state : Bool) (time delay : ℕ),
      (i : ℤ) = readId params % 256 ∧ s.relays i = some r ∧
        cmdSsrSet s params clock =
          (0, (ssrStateSet s i state time delay clock).2) := by
  obtain ⟨⟨hlen, hhead⟩, hstate, hread, i, hi, hsome⟩ := h
  obtain ⟨r, hr⟩ := Option.isSome_iff_exists.mp hsome
  obtain ⟨req, hreq, hid⟩ := (ssrSetRequest_of_stateField hstate).2 hread
  have hindex : toUInt8 req.id = (i : ℕ) := by
    have hcast := toUInt8_cast req.id
    rw [hid, ← hi] at hcast
    rw [hid]
    exact_mod_cast hcast
  refine ⟨i, r, s.level (req.state != 0), secToMs req.time, secToMs req.delay, hi,
    hr, ?_⟩
  have hset : ¬ (strlen params < 2 ∨ params.head? ≠ some 58) := by
    rw [not_or, Nat.not_lt, not_not]
    exact ⟨hlen, hhead⟩
  rw [cmdSsrSet, if_neg hset]
  simp only [cmdSsrSetState, hreq, hindex, ssrStateSet_some hr]
  rfl

/-- Setting a relay leaves the pins of the others alone. -/
theorem ssrStateSet_gpio_of_ne {s : SsrState} {i : RelayIdx} {r : Relay}
    (h : s.relays i = some r) (state : Bool) (time delay clock : ℕ) {pin : ℤ}
    (hpin : pin ≠ r.gpioPin) :
    (ssrStateSet s i state time delay clock).2.gpio pin = s.gpio pin := by
  rw [ssrStateSet_some h]
  split
  · exact Function.update_of_ne hpin _ _
  · rfl

theorem ssrStateSet_onState {s : SsrState} {i : RelayIdx} {r : Relay}
    (h : s.relays i = some r) (state : Bool) (time delay clock : ℕ) :
    (ssrStateSet s i state time delay clock).2.onState = s.onState := by
  rw [ssrStateSet_some h]
  split
  · rfl
  · rfl

/-! ## The id that is written -/

/-- A command that goes through without a relay of its text is misread. -/
theorem misread_of_acts {s : SsrState} {params : CStr} (h : Acts s params)
    (hwritten : ∀ id, writtenId params = some id → ¬ Configured s id) :
    Misread s params := by
  obtain ⟨hset, hstate, hpos, hconfigured⟩ := h
  refine ⟨hset, hstate, ?_⟩
  rw [readId, clampLong] at hpos hconfigured
  cases hid : writtenId params with
  | none =>
      rw [hid] at hconfigured
      exact Or.inl ⟨rfl, hconfigured⟩
  | some id =>
      have hnot := hwritten id hid
      simp only [hid, Option.getD_some, longMin, longMax] at hpos hconfigured
      obtain ⟨i, hi, hsome⟩ := hconfigured
      have hlt : (i : ℕ) < 29 := i.isLt
      refine Or.inr ⟨id, rfl, ?_, ?_, i, ?_, hsome⟩
      · by_contra hsmall
        exact hnot ⟨i, by omega, hsome⟩
      · rw [longMax]
        omega
      · omega

theorem acts_of_misread {s : SsrState} {params : CStr} (h : Misread s params) :
    Acts s params ∧ ∀ id, writtenId params = some id → ¬ Configured s id := by
  obtain ⟨hset, hstate, ⟨hnone, hzero⟩ | ⟨id, hid, hbig, hlong, hconfigured⟩⟩ := h
  · refine ⟨⟨hset, hstate, ?_, ?_⟩, ?_⟩
    · rw [readId, hnone]
      decide
    · rw [readId, hnone]
      exact hzero
    · intro id hid
      rw [hnone] at hid
      cases hid
  · have hread : readId params = id := by
      simp only [readId, hid, clampLong, Option.getD_some, longMin, longMax] at hlong ⊢
      omega
    refine ⟨⟨hset, hstate, ?_, ?_⟩, ?_⟩
    · omega
    · rwa [hread]
    · intro id' hid'
      obtain rfl := Option.some.inj (hid.symm.trans hid')
      rintro ⟨i, hi, -⟩
      have hlt : (i : ℕ) < 29 := i.isLt
      omega

/-- The text is obeyed unless it is misread. -/
theorem obeysId_iff (s : SsrState) (params : CStr) (clock : ℕ) :
    ObeysId s params clock ↔ ¬ Misread s params := by
  constructor
  · intro hobeys hmisread
    obtain ⟨hacts, hwritten⟩ := acts_of_misread hmisread
    obtain ⟨i, r, state, time, delay, -, -, hresult⟩ :=
      cmdSsrSet_of_acts clock hacts
    have hrefused := hobeys.1 hwritten
    rw [hresult] at hrefused
    have hzero : (0 : ℤ) = -1 := congrArg Prod.fst hrefused
    exact absurd hzero (by decide)
  · intro hmisread
    by_cases hacts : Acts s params
    · refine ⟨fun hwritten => absurd (misread_of_acts hacts hwritten) hmisread, ?_⟩
      intro i r hid hr
      obtain ⟨j, r', state, time, delay, hj, hr', hresult⟩ :=
        cmdSsrSet_of_acts clock hacts
      have hlt : (i : ℕ) < 29 := i.isLt
      have hji : j = i := by
        simp only [readId, hid, clampLong, Option.getD_some, longMin, longMax] at hj
        refine Fin.ext ?_
        omega
      subst hji
      obtain rfl := Option.some.inj (hr.symm.trans hr')
      rw [hresult]
      refine ⟨ssrStateSet_onState hr _ _ _ _, fun k hk => ?_,
        fun pin hpin => ssrStateSet_gpio_of_ne hr _ _ _ _ hpin⟩
      exact ssrStateSet_relays_of_ne s (fun h => hk (Fin.ext h)) _ _ _ _
    · rw [ObeysId, cmdSsrSet_of_not_acts clock hacts]
      exact ⟨fun _ => rfl, fun _ _ _ _ => ⟨rfl, fun _ _ => rfl, fun _ _ => rfl⟩⟩

/-- The command `:256:1` with the relay 0 at the pin 1: the id 256 is not
configured, but the relay 0 is switched. -/
theorem not_obeysId :
    ¬ ∀ (s : SsrState) (params : CStr) (clock : ℕ), ObeysId s params clock := by
  intro h
  let s := ssrInit (fun i => if i = 0 then some 1 else none) 1 fun _ => false
  have hwritten : writtenId (lit ":256:1") = some 256 := by decide
  have hrefused := (h s (lit ":256:1") 0).1 (by
    intro id hid
    obtain rfl := Option.some.inj (hwritten.symm.trans hid)
    rintro ⟨i, hi, -⟩
    have hlt : (i : ℕ) < 29 := i.isLt
    omega)
  have hzero : (cmdSsrSet s (lit ":256:1") 0).1 = 0 := by decide
  rw [hrefused] at hzero
  exact absurd hzero (by decide)

end Herak.Ssr
