import Mathlib.Data.Fintype.Basic
import Mathlib.Logic.Function.Basic
import Herak.Support.CInt
import Herak.Support.CString

/-!
# Solid state relays

The relay module keeps for each relay the state it is in, the state that was
asked for, and two times in milliseconds: how long to wait before the state is
taken, and how long to stay in it.  `ssrRun` is polled by the main loop and
switches the relays whose time has come.
-/

namespace Herak.Ssr

open CInt CString

abbrev maxSsrCount : ℕ := 29

/-- Number of a relay. -/
abbrev RelayIdx := Fin maxSsrCount

/-- `ssr_t`; `force` asks for the next report to be sent at once. -/
structure Relay where
  gpioPin : ℤ
  stateDesired : Bool
  stateActual : Bool
  lastSwitch : ℕ
  timeMs : ℕ
  timeRemainMs : ℤ
  delayMs : ℕ
  delayRemainMs : ℤ
  force : Bool

/-- `ssr_context_t`, with the level last written to each GPIO pin. -/
structure SsrState where
  onState : UInt8
  relays : RelayIdx → Option Relay
  gpio : ℤ → Bool

namespace SsrState

def gpioPut (s : SsrState) (pin : ℤ) (level : Bool) : SsrState :=
  { s with gpio := Function.update s.gpio pin level }

def setRelay (s : SsrState) (i : RelayIdx) (r : Relay) : SsrState :=
  { s with relays := Function.update s.relays i (some r) }

/-- The level that switches a relay on or off. -/
def level (s : SsrState) (on : Bool) : Bool :=
  if on then s.onState != 0 else s.onState == 0

end SsrState

/-- `ssr_init`: the relays of the configuration, all switched off. -/
def ssrInit (pins : RelayIdx → Option ℤ) (onState : UInt8)
    (gpio : ℤ → Bool) : SsrState :=
  let s : SsrState :=
    { onState := onState
      relays := fun i => (pins i).map fun pin =>
        { gpioPin := pin, stateDesired := false, stateActual := false,
          lastSwitch := 0, timeMs := 0, timeRemainMs := 0, delayMs := 0,
          delayRemainMs := 0, force := true }
      gpio := gpio }
  (List.finRange maxSsrCount).foldl (fun s i =>
    match s.relays i with
    | none => s
    | some r =>
        (s.gpioPut r.gpioPin (s.level false)).setRelay i
          { r with
            stateActual := s.level false
            stateDesired := s.level false }) s

/-- `ssr_state_set`; `clock` is the time read at its end. -/
def ssrStateSet (s : SsrState) (id : ℕ) (state : Bool) (time delay : ℕ)
    (clock : ℕ) : ℤ × SsrState :=
  if h : id < maxSsrCount then
    match s.relays ⟨id, h⟩ with
    | none => (-1, s)
    | some r =>
        let s := if delay = 0 then s.gpioPut r.gpioPin state else s
        let r := if delay = 0 then
            { r with
              force := r.force || r.stateActual != state
              stateActual := state }
          else r
        (0, s.setRelay ⟨id, h⟩
          { r with
            force := r.force || r.stateDesired != state
            stateDesired := state
            timeMs := time
            delayMs := delay
            lastSwitch := clock })
  else (-1, s)

/-- `ssr_state_remain_times` -/
def ssrStateRemainTimes (s : SsrState) (i : RelayIdx) (time delay : ℤ) :
    SsrState :=
  match s.relays i with
  | none => s
  | some r =>
      let time := max 0 time
      let delay := max 0 delay
      s.setRelay i
        { r with
          force := r.force || r.timeRemainMs.tdiv 1000 != time.tdiv 1000 ||
            r.delayRemainMs.tdiv 1000 != delay.tdiv 1000
          timeRemainMs := time
          delayRemainMs := delay }

/-- Milliseconds left of `period`, as the signed difference that the code
computes: the time elapsed is truncated to an `int` first. -/
def remaining (period now lastSwitch : ℕ) : ℤ :=
  toInt32 (period - toInt32 ((now : ℤ) - lastSwitch))

/-- The body of the loop of `ssr_run`. -/
def ssrRunRelay (now clock : ℕ) (s : SsrState) (i : RelayIdx) : SsrState :=
  match s.relays i with
  | none => s
  | some r =>
      if 0 < r.delayMs then
        let deltaD := remaining r.delayMs now r.lastSwitch
        let s := if deltaD ≤ 0 then
            (ssrStateSet s i r.stateDesired r.timeMs 0 clock).2
          else s
        ssrStateRemainTimes s i (toInt32 r.timeMs) deltaD
      else if 0 < r.timeMs then
        let deltaT := remaining r.timeMs now r.lastSwitch
        let s := if deltaT ≤ 0 then
            (ssrStateSet s i (!r.stateDesired) 0 0 clock).2
          else s
        ssrStateRemainTimes s i deltaT (toInt32 r.delayMs)
      else ssrStateRemainTimes s i (toInt32 r.timeMs) (toInt32 r.delayMs)

/-- The loop of `ssr_run`: `now` is read once, and `clock i` when relay `i` is
switched. -/
def ssrRun (s : SsrState) (now : ℕ) (clock : RelayIdx → ℕ) : SsrState :=
  (List.finRange maxSsrCount).foldl
    (fun s i => ssrRunRelay now (clock i) s i) s

/-- The body of the loop of `ssr_reset_all`. -/
def ssrResetRelay (clock : ℕ) (s : SsrState) (i : RelayIdx) : SsrState :=
  match s.relays i with
  | none => s
  | some r =>
      (s.gpioPut r.gpioPin (s.level false)).setRelay i
        { r with
          stateActual := s.level false
          stateDesired := s.level false
          timeMs := 0
          delayMs := 0
          lastSwitch := clock
          force := true }

def ssrResetAll (s : SsrState) (clock : RelayIdx → ℕ) : SsrState :=
  (List.finRange maxSsrCount).foldl
    (fun s i => ssrResetRelay (clock i) s i) s

/-! ## Commands -/

/-- What a `set` command asks for; the times are in seconds. -/
structure SsrRequest where
  id : ℤ
  state : ℤ
  time : ℤ
  delay : ℤ
  deriving DecidableEq

/-- The parser of `cmd_ssr_set_state`.  Without the third or fourth field the
time or the delay is 0, and negative ones count as 0. -/
def ssrSetRequest (params : CStr) : Option SsrRequest :=
  match strtokR (some params) (lit ":") with
  | (none, _) => none
  | (some tok, rest) =>
      let id := strtol tok 10
      if id < 0 then none
      else
        match strtokR rest (lit ":") with
        | (none, _) => none
        | (some tok, rest) =>
            let state := strtol tok 10
            match strtokR rest (lit ":") with
            | (none, _) =>
                some { id := id, state := state, time := 0, delay := 0 }
            | (some tok, rest) =>
                let time := max 0 (strtol tok 10)
                match strtokR rest (lit ":") with
                | (none, _) =>
                    some { id := id, state := state, time := time, delay := 0 }
                | (some tok, _) =>
                    some
                      { id := id, state := state, time := time,
                        delay := max 0 (strtol tok 10) }

/-- `sec *= 1000` in an `int`, passed on as `uint32_t`. -/
def secToMs (sec : ℤ) : ℕ :=
  toUInt32 (toInt32 (sec * 1000))

def cmdSsrSetState (s : SsrState) (params : CStr) (clock : ℕ) :
    ℤ × SsrState :=
  match ssrSetRequest params with
  | none => (-1, s)
  | some req =>
      ssrStateSet s (toUInt8 req.id) (s.level (req.state != 0))
        (secToMs req.time) (secToMs req.delay) clock

def cmdSsrSet (s : SsrState) (params : CStr) (clock : ℕ) : ℤ × SsrState :=
  if strlen params < 2 ∨ params.head? ≠ some 58 then (-1, s)
  else
    let result := cmdSsrSetState s params clock
    if result.1 ≠ 0 then (-1, result.2) else (0, result.2)

/-- The interface for other modules. -/
def ssrApiStateSet (s : SsrState) (id : ℕ) (state : Bool) (time delay : ℕ)
    (clock : ℕ) : ℤ × SsrState :=
  ssrStateSet s id (s.level state) time delay clock

/-- `ssr_api_state_get`: the state and the two remaining times. -/
def ssrApiStateGet (s : SsrState) (id : ℕ) : Option (Bool × ℕ × ℕ) :=
  if h : id < maxSsrCount then
    (s.relays ⟨id, h⟩).map fun r =>
      ((if r.stateActual then 1 else 0) == s.onState,
        toUInt32 r.timeRemainMs, toUInt32 r.delayRemainMs)
  else none

/-! ## One relay at a time -/

/-- What `ssr_state_set` makes of the relay it names. -/
def Relay.set (r : Relay) (state : Bool) (time delay clock : ℕ) : Relay :=
  let r := if delay = 0 then
      { r with
        force := r.force || r.stateActual != state
        stateActual := state }
    else r
  { r with
    force := r.force || r.stateDesired != state
    stateDesired := state
    timeMs := time
    delayMs := delay
    lastSwitch := clock }

/-- What `ssr_state_remain_times` makes of the relay it names. -/
def Relay.remain (r : Relay) (time delay : ℤ) : Relay :=
  { r with
    force := r.force || r.timeRemainMs.tdiv 1000 != (max 0 time).tdiv 1000 ||
      r.delayRemainMs.tdiv 1000 != (max 0 delay).tdiv 1000
    timeRemainMs := max 0 time
    delayRemainMs := max 0 delay }

/-- What a poll makes of a relay. -/
def Relay.poll (r : Relay) (now clock : ℕ) : Relay :=
  if 0 < r.delayMs then
    let deltaD := remaining r.delayMs now r.lastSwitch
    (if deltaD ≤ 0 then r.set r.stateDesired r.timeMs 0 clock else r).remain
      (toInt32 r.timeMs) deltaD
  else if 0 < r.timeMs then
    let deltaT := remaining r.timeMs now r.lastSwitch
    (if deltaT ≤ 0 then r.set (!r.stateDesired) 0 0 clock else r).remain
      deltaT (toInt32 r.delayMs)
  else r.remain (toInt32 r.timeMs) (toInt32 r.delayMs)

section Frame

variable {s : SsrState} {i k : RelayIdx} {r : Relay}

@[simp] theorem setRelay_self (s : SsrState) (i : RelayIdx) (r : Relay) :
    (s.setRelay i r).relays i = some r :=
  Function.update_self _ _ _

theorem setRelay_of_ne (s : SsrState) (r : Relay) (h : k ≠ i) :
    (s.setRelay i r).relays k = s.relays k :=
  Function.update_of_ne h _ _

@[simp] theorem setRelay_gpio (s : SsrState) (i : RelayIdx) (r : Relay) :
    (s.setRelay i r).gpio = s.gpio := rfl

@[simp] theorem gpioPut_relays (s : SsrState) (pin : ℤ) (level : Bool) :
    (s.gpioPut pin level).relays = s.relays := rfl

theorem ssrStateSet_none (h : s.relays i = none) (state : Bool)
    (time delay clock : ℕ) :
    ssrStateSet s i state time delay clock = (-1, s) := by
  simp [ssrStateSet, h]

theorem ssrStateSet_some (h : s.relays i = some r) (state : Bool)
    (time delay clock : ℕ) :
    ssrStateSet s i state time delay clock =
      (0, (if delay = 0 then s.gpioPut r.gpioPin state else s).setRelay i
        (r.set state time delay clock)) := by
  simp [ssrStateSet, h, Relay.set]

theorem ssrStateRemainTimes_some (h : s.relays i = some r) (time delay : ℤ) :
    ssrStateRemainTimes s i time delay =
      s.setRelay i (r.remain time delay) := by
  simp [ssrStateRemainTimes, h, Relay.remain]

/-- Setting one relay leaves the others alone. -/
theorem ssrStateSet_relays_of_ne (s : SsrState) {id : ℕ}
    (h : (k : ℕ) ≠ id) (state : Bool) (time delay clock : ℕ) :
    (ssrStateSet s id state time delay clock).2.relays k = s.relays k := by
  unfold ssrStateSet
  split
  next hid =>
    have hne : k ≠ ⟨id, hid⟩ := fun heq => h (congrArg Fin.val heq)
    split
    · rfl
    · dsimp only
      rw [setRelay_of_ne _ _ hne]
      split <;> rfl
  · rfl

theorem ssrStateSet_relays_self (h : s.relays i = some r) (state : Bool)
    (time delay clock : ℕ) :
    (ssrStateSet s i state time delay clock).2.relays i =
      some (r.set state time delay clock) := by
  rw [ssrStateSet_some h, setRelay_self]

theorem ssrStateRemainTimes_relays_of_ne (s : SsrState) (h : k ≠ i)
    (time delay : ℤ) :
    (ssrStateRemainTimes s i time delay).relays k = s.relays k := by
  unfold ssrStateRemainTimes
  split
  · rfl
  · exact setRelay_of_ne _ _ h

theorem ssrRunRelay_relays_of_ne (s : SsrState) (h : k ≠ i)
    (now clock : ℕ) :
    (ssrRunRelay now clock s i).relays k = s.relays k := by
  have hval : (k : ℕ) ≠ i := fun heq => h (Fin.ext heq)
  unfold ssrRunRelay
  split
  · rfl
  · split
    · dsimp only
      rw [ssrStateRemainTimes_relays_of_ne _ h]
      split
      · exact ssrStateSet_relays_of_ne s hval _ _ _ _
      · rfl
    · split
      · dsimp only
        rw [ssrStateRemainTimes_relays_of_ne _ h]
        split
        · exact ssrStateSet_relays_of_ne s hval _ _ _ _
        · rfl
      · exact ssrStateRemainTimes_relays_of_ne _ h _ _

theorem ssrRunRelay_relays_self (h : s.relays i = some r) (now clock : ℕ) :
    (ssrRunRelay now clock s i).relays i = some (r.poll now clock) := by
  simp only [ssrRunRelay, h, Relay.poll]
  by_cases hd : 0 < r.delayMs
  · simp only [if_pos hd]
    by_cases hdue : remaining r.delayMs now r.lastSwitch ≤ 0
    · simp only [if_pos hdue]
      rw [ssrStateRemainTimes_some (ssrStateSet_relays_self h _ _ _ _),
        setRelay_self]
    · simp only [if_neg hdue]
      rw [ssrStateRemainTimes_some h, setRelay_self]
  · simp only [if_neg hd]
    by_cases ht : 0 < r.timeMs
    · simp only [if_pos ht]
      by_cases hdue : remaining r.timeMs now r.lastSwitch ≤ 0
      · simp only [if_pos hdue]
        rw [ssrStateRemainTimes_some (ssrStateSet_relays_self h _ _ _ _),
          setRelay_self]
      · simp only [if_neg hdue]
        rw [ssrStateRemainTimes_some h, setRelay_self]
    · simp only [if_neg ht]
      rw [ssrStateRemainTimes_some h, setRelay_self]

theorem foldl_run_relays (now : ℕ) (clock : RelayIdx → ℕ)
    (is : List RelayIdx) (hk : k ∉ is) (s : SsrState) :
    (is.foldl (fun s i => ssrRunRelay now (clock i) s i) s).relays k =
      s.relays k := by
  induction is generalizing s with
  | nil => rfl
  | cons i is ih =>
      rw [List.mem_cons, not_or] at hk
      rw [List.foldl_cons, ih hk.2, ssrRunRelay_relays_of_ne s hk.1]

theorem ssrRunRelay_relays (s : SsrState) (i : RelayIdx) (now clock : ℕ) :
    (ssrRunRelay now clock s i).relays i =
      (s.relays i).map fun r => r.poll now clock := by
  cases h : s.relays i with
  | none => simp [ssrRunRelay, h]
  | some r => rw [ssrRunRelay_relays_self h, Option.map_some]

/-- A round polls every relay once. -/
theorem ssrRun_relays (s : SsrState) (now : ℕ) (clock : RelayIdx → ℕ)
    (k : RelayIdx) :
    (ssrRun s now clock).relays k =
      (s.relays k).map fun r => r.poll now (clock k) := by
  obtain ⟨before, after, hsplit⟩ :=
    List.append_of_mem (List.mem_finRange k)
  have hnodup := List.nodup_finRange maxSsrCount
  rw [hsplit] at hnodup
  have hbefore : k ∉ before := fun hmem =>
    (List.nodup_append.mp hnodup).2.2 k hmem k List.mem_cons_self rfl
  have hafter : k ∉ after :=
    (List.nodup_cons.mp (List.nodup_append.mp hnodup).2.1).1
  rw [ssrRun, hsplit, List.foldl_append, List.foldl_cons,
    foldl_run_relays now clock after hafter, ssrRunRelay_relays,
    foldl_run_relays now clock before hbefore]

end Frame

end Herak.Ssr
