import Mathlib.Data.Set.Insert
import Mathlib.Tactic.Tauto
import Herak.Ssr.Plan
import Herak.Ssr.Relay
import Herak.Support.EventMachine

/-!
# Relays follow their plans

Sessions of the relay module: polls, commands for any relay, and a clock that
never runs backwards.  As long as the milliseconds of a command fit into an
`int` and the polls are not put off for weeks, a relay follows the plan of its
last command, and the GPIO levels agree with the states of the relays.
-/

namespace Herak.Ssr

open CInt CString

inductive SsrEvent
  | poll (now : ℕ) (clock : RelayIdx → ℕ)
  | set (params : CStr) (clock : ℕ)
  | api (id : UInt8) (state : Bool) (time delay : UInt32) (clock : ℕ)
  | reset (clock : RelayIdx → ℕ)

/-- The module and the last time that was read. -/
structure SsrSession where
  ssr : SsrState
  clock : ℕ

namespace SsrSession

def step (s : SsrSession) : SsrEvent → SsrSession
  | .poll now clock =>
      { ssr := ssrRun s.ssr now clock, clock := clock (Fin.last _) }
  | .set params clock =>
      { ssr := (cmdSsrSet s.ssr params clock).2, clock := clock }
  | .api id state time delay clock =>
      { ssr := (ssrApiStateSet s.ssr id.toNat state time.toNat delay.toNat
          clock).2
        clock := clock }
  | .reset clock =>
      { ssr := ssrResetAll s.ssr clock, clock := clock (Fin.last _) }

/-- The clock never runs backwards. -/
def Enabled (s : SsrSession) : SsrEvent → Prop
  | .poll now clock =>
      s.clock ≤ now ∧ (∀ i, now ≤ clock i) ∧ ∀ i j, i ≤ j → clock i ≤ clock j
  | .set _ clock | .api _ _ _ _ clock => s.clock ≤ clock
  | .reset clock => (∀ i, s.clock ≤ clock i) ∧ ∀ i j, i ≤ j → clock i ≤ clock j

instance (s : SsrSession) : ∀ e, Decidable (s.Enabled e)
  | .poll _ _ => inferInstanceAs (Decidable (_ ∧ _ ∧ _))
  | .set _ _ | .api _ _ _ _ _ => inferInstanceAs (Decidable (_ ≤ _))
  | .reset _ => inferInstanceAs (Decidable (_ ∧ _))

def machine : EventMachine SsrSession SsrEvent where
  step := step
  enabled := Enabled

instance (s : SsrSession) (e : SsrEvent) : Decidable (machine.enabled s e) :=
  inferInstanceAs (Decidable (s.Enabled e))

def init (pins : RelayIdx → Option ℤ) (onState : UInt8) (gpio : ℤ → Bool)
    (clock : ℕ) : SsrSession where
  ssr := ssrInit pins onState gpio
  clock := clock

end SsrSession

/-- The event is a command for relay `k`. -/
def SsrEvent.Commands (k : RelayIdx) : SsrEvent → Prop
  | .poll _ _ => False
  | .set params _ =>
      ∃ req, ssrSetRequest params = some req ∧ toUInt8 req.id = k
  | .api id _ _ _ _ => id.toNat = k
  | .reset _ => True

/-- The polls of relay `k`. -/
def pollsOf (k : RelayIdx) (es : List SsrEvent) : List Poll :=
  es.filterMap fun
    | .poll now clock => some { now := now, clock := clock k }
    | _ => none

/-- A poll comes at most `2 ^ 31` milliseconds after the switch that relay `k`
waits for. -/
def Timely (k : RelayIdx) (s : SsrSession) : SsrEvent → Prop
  | .poll now _ => ∀ r ∈ s.ssr.relays k,
      (0 < r.delayMs → now ≤ r.lastSwitch + r.delayMs + 2 ^ 31) ∧
        (r.delayMs = 0 → 0 < r.timeMs →
          now ≤ r.lastSwitch + r.timeMs + 2 ^ 31)
  | _ => True

instance (k : RelayIdx) (s : SsrSession) : ∀ e, Decidable (Timely k s e)
  | .poll now _ =>
      inferInstanceAs (Decidable (∀ r ∈ s.ssr.relays k,
        (0 < r.delayMs → now ≤ r.lastSwitch + r.delayMs + 2 ^ 31) ∧
          (r.delayMs = 0 → 0 < r.timeMs →
            now ≤ r.lastSwitch + r.timeMs + 2 ^ 31)))
  | .set _ _ | .api _ _ _ _ _ | .reset _ => .isTrue trivial

/-! ## Arithmetic -/

theorem secToMs_eq {sec : ℤ} (hlo : 0 ≤ sec) (hhi : sec * 1000 < 2 ^ 31) :
    (secToMs sec : ℤ) = sec * 1000 := by
  rw [secToMs, toInt32_of_range (by omega) hhi,
    toUInt32_of_range (by omega) (by omega)]

/-- The difference is exact when the elapsed time is not far behind. -/
theorem remaining_nonpos_iff {period now lastSwitch : ℕ}
    (hperiod : period < 2 ^ 31) (hle : lastSwitch ≤ now)
    (hlate : now ≤ lastSwitch + period + 2 ^ 31) :
    remaining period now lastSwitch ≤ 0 ↔ lastSwitch + period ≤ now := by
  rw [remaining, toInt32_sub_toInt32,
    toInt32_of_range (by omega) (by omega)]
  omega

theorem ssrSetRequest_nonneg {params : CStr} {req : SsrRequest}
    (h : ssrSetRequest params = some req) : 0 ≤ req.time ∧ 0 ≤ req.delay := by
  simp only [ssrSetRequest] at h
  repeat' split at h
  all_goals first
    | (obtain rfl := Option.some.inj h; simp)
    | simp at h

/-! ## The plan of a command -/

/-- What the fields of a relay say in each phase of its plan. -/
def Tracks (p : Plan) (r : Relay) : Phase → Prop
  | .waiting => r.stateActual = p.prev ∧ r.stateDesired = p.state ∧
      r.timeMs = p.time ∧ r.delayMs = p.delay ∧ 0 < p.delay ∧
      r.lastSwitch = p.start
  | .on since => r.stateActual = p.state ∧ r.stateDesired = p.state ∧
      r.timeMs = p.time ∧ r.delayMs = 0 ∧ r.lastSwitch = since
  | .done => r.stateActual = !p.state ∧ r.timeMs = 0 ∧ r.delayMs = 0

theorem tracks_level {p : Plan} {r : Relay} {ph : Phase}
    (h : Tracks p r ph) : r.stateActual = p.level ph := by
  cases ph with
  | waiting => exact h.1
  | on since => exact h.1
  | done => exact h.1

/-- A command starts its plan. -/
theorem tracks_set (r : Relay) (state : Bool) (time delay clock : ℕ) :
    let p : Plan :=
      { prev := r.stateActual, state := state, time := time, delay := delay,
        start := clock }
    Tracks p (r.set state time delay clock) p.initial := by
  intro p
  by_cases hd : delay = 0
  · simp [p, Plan.initial, Tracks, Relay.set, hd]
  · simp [p, Plan.initial, Tracks, Relay.set, hd, Nat.pos_of_ne_zero hd]

/-- Reporting the remaining times does not touch the plan. -/
theorem tracks_remain {p : Plan} {r : Relay} {ph : Phase} {time delay : ℤ} :
    Tracks p (r.remain time delay) ph ↔ Tracks p r ph := by
  cases ph <;> rfl

theorem tracks_poll {p : Plan} {r : Relay} {ph : Phase} {now clock : ℕ}
    (htime : p.time < 2 ^ 31) (hdelay : p.delay < 2 ^ 31)
    (h : Tracks p r ph) (hle : r.lastSwitch ≤ now)
    (hlate : (0 < r.delayMs → now ≤ r.lastSwitch + r.delayMs + 2 ^ 31) ∧
      (r.delayMs = 0 → 0 < r.timeMs →
        now ≤ r.lastSwitch + r.timeMs + 2 ^ 31)) :
    Tracks p (r.poll now clock) (p.poll ph ⟨now, clock⟩) := by
  cases ph with
  | waiting =>
      obtain ⟨hprev, hstate, ht, hd, hpos, hstart⟩ := h
      have hdue := remaining_nonpos_iff
        (by rwa [hd]) hle (hlate.1 (by rwa [hd]))
      rw [Relay.poll, if_pos (by rwa [hd])]
      simp only [tracks_remain]
      by_cases hwait : now < p.start + p.delay
      · rw [if_neg (by rw [hdue, hstart, hd]; omega)]
        have hphase : p.poll .waiting ⟨now, clock⟩ = .waiting := if_pos hwait
        rw [hphase]
        exact ⟨hprev, hstate, ht, hd, hpos, hstart⟩
      · rw [if_pos (by rw [hdue, hstart, hd]; omega)]
        have hphase : p.poll .waiting ⟨now, clock⟩ = .on clock := if_neg hwait
        rw [hphase]
        simp [Tracks, Relay.set, hstate, ht]
  | on since =>
      obtain ⟨hactual, hstate, ht, hd, hsince⟩ := h
      rw [Relay.poll, if_neg (by omega)]
      by_cases hzero : p.time = 0
      · rw [if_neg (by omega)]
        have hphase : p.poll (.on since) ⟨now, clock⟩ = .on since :=
          if_pos (Or.inl hzero)
        rw [hphase, tracks_remain]
        exact ⟨hactual, hstate, ht, hd, hsince⟩
      · have hpos : 0 < r.timeMs := by omega
        have hdue := remaining_nonpos_iff
          (by rwa [ht]) hle (hlate.2 hd hpos)
        rw [if_pos hpos]
        simp only [tracks_remain]
        by_cases hkeep : now < since + p.time
        · rw [if_neg (by rw [hdue, hsince, ht]; omega)]
          have hphase : p.poll (.on since) ⟨now, clock⟩ = .on since :=
            if_pos (Or.inr hkeep)
          rw [hphase]
          exact ⟨hactual, hstate, ht, hd, hsince⟩
        · rw [if_pos (by rw [hdue, hsince, ht]; omega)]
          have hphase : p.poll (.on since) ⟨now, clock⟩ = .done :=
            if_neg (by simp only [not_or]; exact ⟨hzero, hkeep⟩)
          rw [hphase]
          simp [Tracks, Relay.set, hstate]
  | done =>
      obtain ⟨hactual, ht, hd⟩ := h
      rw [Relay.poll, if_neg (by omega), if_neg (by omega)]
      have hphase : p.poll .done ⟨now, clock⟩ = .done := rfl
      rw [hphase, tracks_remain]
      exact ⟨hactual, ht, hd⟩

/-! ## The other relays and the clock -/

theorem cmdSsrSet_relays_of_not_commands {s : SsrState} {params : CStr}
    {clock : ℕ} {k : RelayIdx}
    (h : ¬(SsrEvent.set params clock).Commands k) :
    (cmdSsrSet s params clock).2.relays k = s.relays k := by
  unfold cmdSsrSet
  split
  · rfl
  · have hsame : (cmdSsrSetState s params clock).2.relays k = s.relays k := by
      unfold cmdSsrSetState
      split
      · rfl
      next req hreq =>
        exact ssrStateSet_relays_of_ne s
          (fun heq => h ⟨req, hreq, heq.symm⟩) _ _ _ _
    dsimp only
    split <;> exact hsame

/-- An accepted command sets the relay it names. -/
theorem cmdSsrSet_accepted {s : SsrState} {params : CStr} {clock : ℕ}
    {req : SsrRequest} {k : RelayIdx} {r : Relay}
    (hacc : (cmdSsrSet s params clock).1 = 0)
    (hreq : ssrSetRequest params = some req) (hk : (k : ℕ) = toUInt8 req.id)
    (hr : s.relays k = some r) :
    (cmdSsrSet s params clock).2.relays k =
      some (r.set (s.level (req.state != 0)) (secToMs req.time)
        (secToMs req.delay) clock) := by
  have hset : cmdSsrSetState s params clock =
      ssrStateSet s k (s.level (req.state != 0)) (secToMs req.time)
        (secToMs req.delay) clock := by
    simp only [cmdSsrSetState, hreq, hk]
  unfold cmdSsrSet at hacc ⊢
  split at hacc
  · simp at hacc
  next hshape =>
    rw [if_neg hshape, hset]
    dsimp only
    split <;> exact ssrStateSet_relays_self hr _ _ _ _

theorem ssrStateSet_lastSwitch {s : SsrState} {id : ℕ} {state : Bool}
    {time delay clock : ℕ} {i : RelayIdx} {r : Relay}
    (h : (ssrStateSet s id state time delay clock).2.relays i = some r) :
    s.relays i = some r ∨ r.lastSwitch = clock := by
  by_cases hi : (i : ℕ) = id
  · subst hi
    cases hr : s.relays i with
    | none =>
        rw [ssrStateSet_none hr, hr] at h
        simp at h
    | some old =>
        rw [ssrStateSet_relays_self hr] at h
        obtain rfl := Option.some.inj h
        exact Or.inr rfl
  · rw [ssrStateSet_relays_of_ne s hi] at h
    exact Or.inl h

theorem cmdSsrSet_lastSwitch {s : SsrState} {params : CStr} {clock : ℕ}
    {i : RelayIdx} {r : Relay}
    (h : (cmdSsrSet s params clock).2.relays i = some r) :
    s.relays i = some r ∨ r.lastSwitch = clock := by
  have hset : (cmdSsrSetState s params clock).2.relays i = some r →
      s.relays i = some r ∨ r.lastSwitch = clock := by
    intro h
    unfold cmdSsrSetState at h
    split at h
    · exact Or.inl h
    · exact ssrStateSet_lastSwitch h
  unfold cmdSsrSet at h
  split at h
  · exact Or.inl h
  · dsimp only at h
    split at h <;> exact hset h

/-- A poll sets a relay at most once, without a delay. -/
theorem poll_cases (r : Relay) (now clock : ℕ) :
    (∃ t d, r.poll now clock = r.remain t d) ∨
      ∃ state time t d,
        r.poll now clock = (r.set state time 0 clock).remain t d := by
  unfold Relay.poll
  by_cases hd : 0 < r.delayMs
  · rw [if_pos hd]
    generalize remaining r.delayMs now r.lastSwitch = deltaD
    dsimp only
    by_cases hdue : deltaD ≤ 0
    · right
      exact ⟨_, _, _, _, by rw [if_pos hdue]⟩
    · left
      exact ⟨_, _, by rw [if_neg hdue]⟩
  · rw [if_neg hd]
    by_cases ht : 0 < r.timeMs
    · rw [if_pos ht]
      generalize remaining r.timeMs now r.lastSwitch = deltaT
      dsimp only
      by_cases hdue : deltaT ≤ 0
      · right
        exact ⟨_, _, _, _, by rw [if_pos hdue]⟩
      · left
        exact ⟨_, _, by rw [if_neg hdue]⟩
    · left
      exact ⟨_, _, by rw [if_neg ht]⟩

theorem poll_lastSwitch (r : Relay) (now clock : ℕ) :
    (r.poll now clock).lastSwitch = r.lastSwitch ∨
      (r.poll now clock).lastSwitch = clock := by
  rcases poll_cases r now clock with ⟨t, d, h⟩ | ⟨state, time, t, d, h⟩
  · left
    rw [h]
    rfl
  · right
    rw [h]
    rfl
theorem resetRelay_relays_of_ne (s : SsrState) {i k : RelayIdx} (h : k ≠ i)
    (clock : ℕ) : (ssrResetRelay clock s i).relays k = s.relays k := by
  unfold ssrResetRelay
  split
  · rfl
  · rw [setRelay_of_ne _ _ h, gpioPut_relays]

theorem foldl_reset_lastSwitch (clock : RelayIdx → ℕ) (is : List RelayIdx)
    {s : SsrState} {k : RelayIdx} {r : Relay}
    (h : (is.foldl (fun s i => ssrResetRelay (clock i) s i) s).relays k =
      some r) :
    s.relays k = some r ∨ r.lastSwitch = clock k := by
  induction is generalizing s with
  | nil => exact Or.inl h
  | cons i is ih =>
      rcases ih h with hr | hclock
      · by_cases hik : k = i
        · subst hik
          change (ssrResetRelay (clock k) s k).relays k = some r at hr
          unfold ssrResetRelay at hr
          split at hr
          · exact Or.inl hr
          · rw [setRelay_self] at hr
            obtain rfl := Option.some.inj hr
            exact Or.inr rfl
        · rw [resetRelay_relays_of_ne s hik] at hr
          exact Or.inl hr
      · exact Or.inr hclock

/-- No relay was switched after the last time that was read. -/
def ClockInv (s : SsrSession) : Prop :=
  ∀ i r, s.ssr.relays i = some r → r.lastSwitch ≤ s.clock

theorem clockInv_step {s : SsrSession} (h : ClockInv s) {e : SsrEvent}
    (he : s.Enabled e) : ClockInv (s.step e) := by
  intro i r hr
  cases e with
  | poll now clock =>
      obtain ⟨hnow, hclock, hmono⟩ := he
      have hr : (ssrRun s.ssr now clock).relays i = some r := hr
      rw [ssrRun_relays] at hr
      obtain ⟨old, hold, rfl⟩ := Option.map_eq_some_iff.mp hr
      have hlast := hmono i (Fin.last _) (Fin.le_last i)
      have hi := hclock i
      have := h i old hold
      change (old.poll now (clock i)).lastSwitch ≤ clock (Fin.last _)
      rcases poll_lastSwitch old now (clock i) with hsame | hswitch
      · omega
      · omega
  | set params clock =>
      have he : s.clock ≤ clock := he
      change r.lastSwitch ≤ clock
      rcases cmdSsrSet_lastSwitch hr with hold | hswitch
      · exact (h i r hold).trans he
      · exact hswitch.le
  | api id state time delay clock =>
      have he : s.clock ≤ clock := he
      change r.lastSwitch ≤ clock
      rcases ssrStateSet_lastSwitch hr with hold | hswitch
      · exact (h i r hold).trans he
      · exact hswitch.le
  | reset clock =>
      obtain ⟨hclock, hmono⟩ := he
      change r.lastSwitch ≤ clock (Fin.last _)
      have hlast := hmono i (Fin.last _) (Fin.le_last i)
      rcases foldl_reset_lastSwitch clock _ hr with hold | hswitch
      · have := h i r hold
        have := hclock i
        omega
      · omega

theorem clockInv_run {s : SsrSession} (h : ClockInv s) {es : List SsrEvent}
    (hes : SsrSession.machine.Admits s es) :
    ClockInv (SsrSession.machine.run s es) := by
  have hstep : ∀ (s : SsrSession) e, ClockInv s →
      SsrSession.machine.enabled s e →
      ClockInv (SsrSession.machine.step s e) :=
    fun _ _ hs he => clockInv_step hs he
  exact hes.invariant hstep h

/-! ## A relay along a run -/

/-- An event moves a relay it does not command by a poll, or not at all. -/
theorem tracks_step {p : Plan} {s : SsrSession} {k : RelayIdx} {r : Relay}
    {ph : Phase} (htime : p.time < 2 ^ 31) (hdelay : p.delay < 2 ^ 31)
    (hclock : ClockInv s) (hr : s.ssr.relays k = some r)
    (h : Tracks p r ph) {e : SsrEvent} (he : s.Enabled e)
    (hother : ¬e.Commands k) (hlate : Timely k s e) :
    ∃ r', (s.step e).ssr.relays k = some r' ∧
      Tracks p r' ((pollsOf k [e]).foldl p.poll ph) := by
  cases e with
  | poll now clock =>
      have hle := (hclock k r hr).trans he.1
      refine ⟨r.poll now (clock k), ?_,
        tracks_poll htime hdelay h hle (hlate r hr)⟩
      change (ssrRun s.ssr now clock).relays k = _
      rw [ssrRun_relays, hr, Option.map_some]
  | set params clock =>
      exact ⟨r, (cmdSsrSet_relays_of_not_commands hother).trans hr, h⟩
  | api id state time delay clock =>
      exact ⟨r, (ssrStateSet_relays_of_ne s.ssr (fun heq => hother heq.symm) _ _
        _ _).trans hr, h⟩
  | reset clock => exact (hother trivial).elim

theorem tracks_run {p : Plan} {k : RelayIdx} (htime : p.time < 2 ^ 31)
    (hdelay : p.delay < 2 ^ 31) {es : List SsrEvent} {s : SsrSession}
    {r : Relay} {ph : Phase} (hclock : ClockInv s)
    (hr : s.ssr.relays k = some r) (h : Tracks p r ph)
    (hes : SsrSession.machine.Admits s es)
    (hother : ∀ e ∈ es, ¬e.Commands k)
    (hlate : SsrSession.machine.Along (Timely k) s es) :
    ∃ r', (SsrSession.machine.run s es).ssr.relays k = some r' ∧
      Tracks p r' ((pollsOf k es).foldl p.poll ph) := by
  induction es generalizing s r ph with
  | nil => exact ⟨r, hr, h⟩
  | cons e es ih =>
      obtain ⟨r', hr', h'⟩ := tracks_step htime hdelay hclock hr h hes.1
        (hother e List.mem_cons_self) hlate.1
      obtain ⟨r'', hr'', h''⟩ := ih (clockInv_step hclock hes.1) hr' h' hes.2
        (fun e he => hother e (List.mem_cons_of_mem _ he)) hlate.2
      refine ⟨r'', hr'', ?_⟩
      have hpolls : pollsOf k (e :: es) = pollsOf k [e] ++ pollsOf k es := by
        rw [pollsOf, pollsOf, pollsOf, ← List.filterMap_append]
        rfl
      rwa [hpolls, List.foldl_append]

/-! ## The GPIO levels -/

/-- The relays keep the pins of the configuration, and the level of the pin of
each relay in `is` is the state the relay is in. -/
structure GpioInv (pins : RelayIdx → Option ℤ) (is : Set RelayIdx)
    (s : SsrState) : Prop where
  pins : ∀ i, (s.relays i).map (·.gpioPin) = pins i
  agree : ∀ i ∈ is, ∀ r, s.relays i = some r → s.gpio r.gpioPin = r.stateActual

variable {pins : RelayIdx → Option ℤ} {is : Set RelayIdx}

/-- No two relays share a pin. -/
def DistinctPins (pins : RelayIdx → Option ℤ) : Prop :=
  ∀ i j pin, pins i = some pin → pins j = some pin → i = j

theorem gpioInv_setRelay {s : SsrState} (h : GpioInv pins is s)
    {i : RelayIdx} {r r' : Relay} (hr : s.relays i = some r)
    (hpin : r'.gpioPin = r.gpioPin) (hstate : r'.stateActual = r.stateActual) :
    GpioInv pins is (s.setRelay i r') := by
  refine ⟨fun k => ?_, fun k hk rk hrk => ?_⟩
  · by_cases hki : k = i
    · subst hki
      rw [setRelay_self, ← h.pins k, hr]
      simp [hpin]
    · rw [setRelay_of_ne _ _ hki]
      exact h.pins k
  · by_cases hki : k = i
    · subst hki
      rw [setRelay_self] at hrk
      obtain rfl := Option.some.inj hrk
      rw [setRelay_gpio, hpin, hstate]
      exact h.agree k hk r hr
    · rw [setRelay_of_ne _ _ hki] at hrk
      exact h.agree k hk rk hrk

theorem gpioInv_put {s : SsrState} (hpins : DistinctPins pins)
    (h : GpioInv pins is s) {i : RelayIdx} {r : Relay} (r' : Relay)
    (hr : s.relays i = some r) (hpin : r'.gpioPin = r.gpioPin) :
    GpioInv pins (insert i is)
      ((s.gpioPut r.gpioPin r'.stateActual).setRelay i r') := by
  have hpini : pins i = some r.gpioPin := by
    rw [← h.pins i, hr]
    rfl
  refine ⟨fun k => ?_, fun k hk rk hrk => ?_⟩
  · by_cases hki : k = i
    · subst hki
      rw [setRelay_self, ← h.pins k, hr]
      simp [hpin]
    · rw [setRelay_of_ne _ _ hki]
      exact h.pins k
  · by_cases hki : k = i
    · subst hki
      rw [setRelay_self] at hrk
      obtain rfl := Option.some.inj hrk
      rw [hpin]
      exact Function.update_self _ _ _
    · rw [setRelay_of_ne _ _ hki] at hrk
      have hpink : pins k = some rk.gpioPin := by
        rw [← h.pins k, ← gpioPut_relays s r.gpioPin r'.stateActual, hrk]
        rfl
      have hne : rk.gpioPin ≠ r.gpioPin := fun heq =>
        hki (hpins k i rk.gpioPin hpink (heq ▸ hpini))
      have hgpio : (s.gpioPut r.gpioPin r'.stateActual).gpio rk.gpioPin =
          s.gpio rk.gpioPin := Function.update_of_ne hne _ _
      rw [setRelay_gpio, hgpio]
      exact h.agree k (hk.resolve_left hki) rk hrk

theorem gpioInv_set {s : SsrState} (hpins : DistinctPins pins)
    (h : GpioInv pins Set.univ s) (id : ℕ) (state : Bool)
    (time delay clock : ℕ) :
    GpioInv pins Set.univ (ssrStateSet s id state time delay clock).2 := by
  by_cases hid : id < maxSsrCount
  · cases hr : s.relays ⟨id, hid⟩ with
    | none =>
        rw [ssrStateSet_none (i := ⟨id, hid⟩) hr]
        exact h
    | some r =>
        rw [ssrStateSet_some (i := ⟨id, hid⟩) hr]
        by_cases hd : delay = 0
        · have hput := gpioInv_put hpins h (r.set state time delay clock) hr
            (by simp [Relay.set, hd])
          rw [Set.insert_eq_of_mem (Set.mem_univ _)] at hput
          simpa [hd, Relay.set] using hput
        · simp only [if_neg hd]
          exact gpioInv_setRelay h hr (by simp [Relay.set, hd])
            (by simp [Relay.set, hd])
  · rw [ssrStateSet, dif_neg hid]
    exact h

theorem gpioInv_remain {s : SsrState} (h : GpioInv pins is s) (i : RelayIdx)
    (time delay : ℤ) : GpioInv pins is (ssrStateRemainTimes s i time delay) := by
  cases hr : s.relays i with
  | none => simpa [ssrStateRemainTimes, hr] using h
  | some r =>
      rw [ssrStateRemainTimes_some hr]
      exact gpioInv_setRelay h hr rfl rfl

theorem gpioInv_runRelay {s : SsrState} (hpins : DistinctPins pins)
    (h : GpioInv pins Set.univ s) (now clock : ℕ) (i : RelayIdx) :
    GpioInv pins Set.univ (ssrRunRelay now clock s i) := by
  unfold ssrRunRelay
  split
  · exact h
  · split
    · refine gpioInv_remain ?_ _ _ _
      split
      · exact gpioInv_set hpins h _ _ _ _ _
      · exact h
    · split
      · refine gpioInv_remain ?_ _ _ _
        split
        · exact gpioInv_set hpins h _ _ _ _ _
        · exact h
      · exact gpioInv_remain h _ _ _

theorem gpioInv_resetRelay {s : SsrState} (hpins : DistinctPins pins)
    (h : GpioInv pins Set.univ s) (clock : ℕ) (i : RelayIdx) :
    GpioInv pins Set.univ (ssrResetRelay clock s i) := by
  unfold ssrResetRelay
  split
  · exact h
  next r hr =>
    have hput := gpioInv_put hpins h
      { r with
        stateActual := s.level false
        stateDesired := s.level false
        timeMs := 0
        delayMs := 0
        lastSwitch := clock
        force := true } hr rfl
    rwa [Set.insert_eq_of_mem (Set.mem_univ _)] at hput

theorem gpioInv_foldl {f : SsrState → RelayIdx → SsrState}
    (hf : ∀ s i, GpioInv pins Set.univ s → GpioInv pins Set.univ (f s i))
    (is : List RelayIdx) {s : SsrState} (h : GpioInv pins Set.univ s) :
    GpioInv pins Set.univ (is.foldl f s) := by
  induction is generalizing s with
  | nil => exact h
  | cons i is ih => exact ih (hf s i h)

theorem gpioInv_step {s : SsrSession} (hpins : DistinctPins pins)
    (h : GpioInv pins Set.univ s.ssr) (e : SsrEvent) :
    GpioInv pins Set.univ (s.step e).ssr := by
  cases e with
  | poll now clock =>
      exact gpioInv_foldl (fun s i hs => gpioInv_runRelay hpins hs _ _ _) _ h
  | set params clock =>
      have hset : GpioInv pins Set.univ
          (cmdSsrSetState s.ssr params clock).2 := by
        unfold cmdSsrSetState
        split
        · exact h
        · exact gpioInv_set hpins h _ _ _ _ _
      change GpioInv pins Set.univ (cmdSsrSet s.ssr params clock).2
      unfold cmdSsrSet
      split
      · exact h
      · dsimp only
        split <;> exact hset
  | api id state time delay clock => exact gpioInv_set hpins h _ _ _ _ _
  | reset clock =>
      exact gpioInv_foldl (fun s i hs => gpioInv_resetRelay hpins hs _ _) _ h

/-- A fold that brings one relay after the other into agreement. -/
theorem GpioInv.foldl {f : SsrState → RelayIdx → SsrState}
    (hf : ∀ ready s i, GpioInv pins ready s →
      GpioInv pins (insert i ready) (f s i)) (todo : List RelayIdx) :
    ∀ ready s, GpioInv pins ready s →
      GpioInv pins (ready ∪ {i | i ∈ todo}) (todo.foldl f s) := by
  induction todo with
  | nil =>
      intro ready s h
      simpa using h
  | cons i todo ih =>
      intro ready s h
      have hrest := ih (insert i ready) _ (hf ready s i h)
      have hsets : insert i ready ∪ {j | j ∈ todo} =
          ready ∪ {j | j ∈ i :: todo} := by
        ext j
        simp only [Set.mem_union, Set.mem_insert_iff, Set.mem_ofPred_eq,
          List.mem_cons]
        tauto
      rw [hsets] at hrest
      exact hrest

/-- Switching the relays off one after the other brings their pins into
agreement. -/
theorem gpioInv_init (hpins : DistinctPins pins) (onState : UInt8)
    (gpio : ℤ → Bool) : GpioInv pins Set.univ (ssrInit pins onState gpio) := by
  have huniv : (∅ : Set RelayIdx) ∪ {i | i ∈ List.finRange maxSsrCount} =
      Set.univ := by
    ext i
    simp
  unfold ssrInit
  rw [← huniv]
  refine GpioInv.foldl (fun ready s i h => ?_) _ _ _
    ⟨fun i => by cases h : pins i <;> simp [h], fun i hi => hi.elim⟩
  cases hr : s.relays i with
  | none =>
      refine ⟨h.pins, fun k hk rk hrk => ?_⟩
      rcases hk with rfl | hk
      · simp [hr] at hrk
      · exact h.agree k hk rk hrk
  | some r =>
      exact gpioInv_put hpins h
        { r with
          stateActual := s.level false
          stateDesired := s.level false } hr rfl

theorem clockInv_init (pins : RelayIdx → Option ℤ) (onState : UInt8)
    (gpio : ℤ → Bool) (clock : ℕ) :
    ClockInv (SsrSession.init pins onState gpio clock) := by
  have hzero : ∀ i r, (ssrInit pins onState gpio).relays i = some r →
      r.lastSwitch = 0 := by
    unfold ssrInit
    refine List.foldlRecOn
      (motive := fun s : SsrState => ∀ i r, s.relays i = some r →
        r.lastSwitch = 0) _ _ ?_ fun s h k _ => ?_
    · intro i r hr
      obtain ⟨pin, -, rfl⟩ := Option.map_eq_some_iff.mp hr
      rfl
    · intro i r hr
      cases hk : s.relays k with
      | none =>
          simp only [hk] at hr
          exact h i r hr
      | some rk =>
          simp only [hk] at hr
          by_cases hik : i = k
          · subst hik
            rw [setRelay_self] at hr
            obtain rfl := Option.some.inj hr
            exact h i rk hk
          · rw [setRelay_of_ne _ _ hik, gpioPut_relays] at hr
            exact h i r hr
  intro i r hr
  rw [hzero i r hr]
  exact Nat.zero_le _

/-! ## The whole module -/

/-- The plan that a request makes for a relay in state `prev`. -/
def requestPlan (s : SsrState) (req : SsrRequest) (prev : Bool) (start : ℕ) :
    Plan where
  prev := prev
  state := s.level (req.state != 0)
  time := (req.time * 1000).toNat
  delay := (req.delay * 1000).toNat
  start := start

/-- In every run, with every relay on a pin of its own, each GPIO level is the
state of its relay.  And after every accepted `set` command whose times in
milliseconds fit into an `int`, up to the next command for the same relay, the
relay is in the state its plan schedules, as long as its polls are timely. -/
theorem ssr_follows_plan (pins : RelayIdx → Option ℤ) (onState : UInt8)
    (gpio : ℤ → Bool) (boot : ℕ) (es : List SsrEvent)
    (hes : SsrSession.machine.Admits
      (SsrSession.init pins onState gpio boot) es) :
    let run := SsrSession.machine.run (SsrSession.init pins onState gpio boot)
    (DistinctPins pins → ∀ i r, (run es).ssr.relays i = some r →
        (run es).ssr.gpio r.gpioPin = r.stateActual) ∧
      ∀ before params start after req k r,
        es = before ++ .set params start :: after →
        (cmdSsrSet (run before).ssr params start).1 = 0 →
        ssrSetRequest params = some req →
        (k : RelayIdx).val = toUInt8 req.id →
        (run before).ssr.relays k = some r →
        req.time * 1000 < 2 ^ 31 → req.delay * 1000 < 2 ^ 31 →
        (∀ e ∈ after, ¬e.Commands k) →
        SsrSession.machine.Along (Timely k)
          (run (before ++ [.set params start])) after →
        ∃ r', (run es).ssr.relays k = some r' ∧
          r'.stateActual =
            (requestPlan (run before).ssr req r.stateActual start).scheduled
              (pollsOf k after) := by
  intro run
  constructor
  · intro hpins i r hr
    have hstep : ∀ (s : SsrSession) e, GpioInv pins Set.univ s.ssr →
        SsrSession.machine.enabled s e →
        GpioInv pins Set.univ (SsrSession.machine.step s e).ssr :=
      fun _ e hs _ => gpioInv_step hpins hs e
    have hinv : GpioInv pins Set.univ (run es).ssr :=
      EventMachine.Along.invariant hstep hes (gpioInv_init hpins onState gpio)
    exact hinv.agree i (Set.mem_univ i) r hr
  · rintro before params start after req k r rfl hacc hreq hk hr htime hdelay
      hother hlate
    obtain ⟨hbefore, hset, hafter⟩ :=
      SsrSession.machine.along_append.mp hes
    obtain ⟨htime0, hdelay0⟩ := ssrSetRequest_nonneg hreq
    have hclock : ClockInv (run (before ++ [.set params start])) := by
      refine clockInv_run (clockInv_init pins onState gpio boot) ?_
      exact SsrSession.machine.along_append.mpr ⟨hbefore, hset, trivial⟩
    have hmsTime : secToMs req.time = (req.time * 1000).toNat := by
      have := secToMs_eq htime0 htime
      omega
    have hmsDelay : secToMs req.delay = (req.delay * 1000).toNat := by
      have := secToMs_eq hdelay0 hdelay
      omega
    have hstart : (run (before ++ [.set params start])).ssr.relays k =
        some (r.set ((run before).ssr.level (req.state != 0))
          (req.time * 1000).toNat (req.delay * 1000).toNat start) := by
      have haccepted := cmdSsrSet_accepted hacc hreq hk hr
      rw [hmsTime, hmsDelay] at haccepted
      change (SsrSession.machine.run _ (before ++ [_])).ssr.relays k = _
      rw [EventMachine.run_append]
      exact haccepted
    have htracks := tracks_set r ((run before).ssr.level (req.state != 0))
      (req.time * 1000).toNat (req.delay * 1000).toNat start
    have hadmits : SsrSession.machine.Admits
        (run (before ++ [.set params start])) after := by
      change SsrSession.machine.Admits
        (SsrSession.machine.run _ (before ++ [_])) after
      rw [EventMachine.run_append]
      exact hafter
    have hlt : (req.time * 1000).toNat < 2 ^ 31 := by omega
    have hdt : (req.delay * 1000).toNat < 2 ^ 31 := by omega
    obtain ⟨r', hr', htracks'⟩ := tracks_run
      (p := requestPlan (run before).ssr req r.stateActual start) hlt hdt
      hclock hstart htracks hadmits hother hlate
    refine ⟨r', ?_, ?_⟩
    · change (SsrSession.machine.run _ (before ++ _ :: after)).ssr.relays k = _
      rw [List.append_cons, EventMachine.run_append]
      exact hr'
    · rw [← Plan.level_phase]
      exact tracks_level htracks'

/-! ## A time that does not fit -/

def onePin : RelayIdx → Option ℤ := fun i => if i = 0 then some 2 else none

/-- Relay 0 is switched on for 2147484 seconds and polled a millisecond
later. -/
def longPulse : List SsrEvent :=
  [.set (lit ":0:1:2147484") 10, .poll 11 fun _ => 11]

/-- The plan keeps it on, and the poll switches it off. -/
theorem longPulse_ends_at_once :
    SsrSession.machine.Admits (SsrSession.init onePin 1 (fun _ => true) 0)
        longPulse ∧
      ssrSetRequest (lit ":0:1:2147484") =
        some { id := 0, state := 1, time := 2147484, delay := 0 } ∧
      ((SsrSession.machine.run (SsrSession.init onePin 1 (fun _ => true) 0)
        longPulse).ssr.relays 0).map (·.stateActual) = some false ∧
      Plan.scheduled
        { prev := false, state := true, time := 2147484000, delay := 0,
          start := 10 } [{ now := 11, clock := 11 }] = true := by
  decide +kernel

/-- Relay 0 is switched on for a minute after half a minute. -/
def shortPulse : List SsrEvent :=
  [.set (lit ":0:1:60:30") 10, .poll 11 fun _ => 11,
    .poll 30010 fun _ => 30011, .poll 90010 fun _ => 90010,
    .poll 90011 fun _ => 90011]

theorem ssr_follows_plan_shortPulse :
    let run := SsrSession.machine.run
      (SsrSession.init onePin 1 (fun _ => true) 0) shortPulse
    (∀ i r, run.ssr.relays i = some r →
        run.ssr.gpio r.gpioPin = r.stateActual) ∧
      ∃ r', run.ssr.relays 0 = some r' ∧ r'.stateActual =
        Plan.scheduled
          { prev := false, state := true, time := 60000, delay := 30000,
            start := 10 } (pollsOf 0 shortPulse) := by
  have h := ssr_follows_plan onePin 1 (fun _ => true) 0 shortPulse
    (by decide +kernel)
  refine ⟨h.1 ?_, ?_⟩
  · intro i j pin hi hj
    have hzero : ∀ k, onePin k = some pin → k = 0 := by
      intro k hk
      by_contra hne
      simp [onePin, hne] at hk
    rw [hzero i hi, hzero j hj]
  · exact h.2 [] (lit ":0:1:60:30") 10 shortPulse.tail
      { id := 0, state := 1, time := 60, delay := 30 } 0
      { gpioPin := 2, stateDesired := false, stateActual := false,
        lastSwitch := 0, timeMs := 0, timeRemainMs := 0, delayMs := 0,
        delayRemainMs := 0, force := true }
      rfl (by decide +kernel) (by decide +kernel) (by decide) rfl (by decide)
      (by decide) (by simp [shortPulse, SsrEvent.Commands]) (by decide +kernel)

end Herak.Ssr
