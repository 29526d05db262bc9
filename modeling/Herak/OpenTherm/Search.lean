import Mathlib.Algebra.Order.Ring.Nat
import Mathlib.Data.Nat.Log
import Herak.OpenTherm.Manchester
import Herak.Support.CInt
import Herak.Support.RankedLoop

/-!
# Search of the receiver frequency

`opentherm_dev_pio_find` looks for a frequency at which a reply is received.
Without an end bit it goes up, with a broken reply it goes down, and whenever it
turns it divides its step by ten.  The frequency is an unsigned number of 32
bits, so that a step below zero leaves the range at the other end.
-/

namespace Herak.OpenTherm

open CInt

/-! ## The code -/

/-- `MAX_SEARCH_HZ` -/
def maxSearchHz : ℕ := 1000000

/-- `END_BIT` -/
def endBit : BitVec 32 := 0x80000000

/-- What `opentherm_exchange_frame` returns and leaves in `in`. -/
structure FrameResult where
  ret : ℤ
  in0 : BitVec 32
  in1 : BitVec 32
  in2 : BitVec 32

/-- The frame of a reply. -/
def FrameResult.decode (r : FrameResult) : Option (BitVec 32) :=
  manchesterDecode (r.in0.setWidth 64 <<< 32 ||| r.in1.setWidth 64) false

/-- The variables of the search, with the frequencies for which the divider of
the clock has been set. -/
structure PioSearch where
  hz : ℕ
  step : ℤ
  up : Bool
  dividers : List ℕ

namespace PioSearch

def init : PioSearch := ⟨1, 10000, true, []⟩

/-- `sm_config_set_clkdiv` -/
def setClkdiv (s : PioSearch) : PioSearch :=
  { s with dividers := s.dividers ++ [s.hz] }

/-- The first part of a move: a turn. -/
def turn (s : PioSearch) (up : Bool) : PioSearch :=
  if s.up = up then s else { s with up := up, step := s.step.tdiv 10 }

/-- A move up or down. -/
def move (s : PioSearch) (up : Bool) : PioSearch :=
  let s := s.turn up
  { s with hz := toUInt32 (if up then s.hz + s.step else s.hz - s.step) }

/-- The condition of the loop. -/
def goesOn (s : PioSearch) : Prop :=
  s.step ≠ 0 ∧ 0 < s.hz ∧ s.hz < maxSearchHz

instance (s : PioSearch) : Decidable s.goesOn :=
  inferInstanceAs (Decidable (s.step ≠ 0 ∧ 0 < s.hz ∧ s.hz < maxSearchHz))

/-- The end of a round. -/
def next (s : PioSearch) : PioSearch ⊕ (Bool × PioSearch) :=
  if s.goesOn then .inl s else .inr (false, s)

/-- A round of the search, which ends with `found`. -/
def findRound (s : PioSearch) (r : FrameResult) :
    PioSearch ⊕ (Bool × PioSearch) :=
  let s := s.setClkdiv
  if r.in2 = 0 ∨ r.ret ≠ 0 then (s.move true).next
  else if r.in2 ≠ endBit then (s.move false).next
  else
    match r.decode with
    | none => (s.move false).next
    | some _ => .inr (true, s)

end PioSearch

/-- The search of `opentherm_dev_pio_find`, for a number of rounds. -/
def findFrequency (results : ℕ → FrameResult) (fuel : ℕ) :
    Option (ℕ × Bool × PioSearch) :=
  RankedLoop.rounds PioSearch.findRound results fuel 0 .init

/-! ## The rank of a search -/

/-- An exchange that ends the search. -/
def FrameResult.Succeeds (r : FrameResult) : Prop :=
  r.ret = 0 ∧ r.in2 = endBit ∧ r.decode.isSome

/-- The state of a search before round `i`: it has set the divider `i` times, in
the range, and no exchange has succeeded. -/
structure Searching (results : ℕ → FrameResult) (i : ℕ) (s : PioSearch) :
    Prop where
  step_pos : 0 < s.step
  step_le : s.step ≤ 10000
  hz_pos : 0 < s.hz
  hz_lt : s.hz < maxSearchHz
  rounds : s.dividers.length = i
  dividers : ∀ hz ∈ s.dividers, 1 ≤ hz ∧ hz ≤ maxSearchHz - 1
  failed : ∀ k < i, ¬(results k).Succeeds

namespace PioSearch

/-- The way that is left in the direction of the search. -/
def distance (s : PioSearch) : ℕ :=
  if s.up then maxSearchHz - s.hz else s.hz

/-- The turns that are left, and the way that is left before the next one. -/
def rank (s : PioSearch) : ℕ :=
  Nat.log 10 s.step.toNat * maxSearchHz + s.distance

variable {s : PioSearch}

theorem turn_same : s.turn s.up = s := if_pos rfl

/-- A turn takes a digit from the step. -/
theorem log_div_ten {n : ℕ} (h : 0 < n / 10) :
    Nat.log 10 (n / 10) + 1 = Nat.log 10 n := by
  have hlog : 0 < Nat.log 10 n := Nat.log_pos (by decide) (by omega)
  rw [Nat.log_div_base]
  omega

/-- A move that stays in the range goes on in its direction. -/
theorem distance_move (hpos : 0 < s.step) (hle : s.step ≤ 10000)
    (hlt : s.hz < maxSearchHz) (hgoes : (s.move s.up).goesOn) :
    (s.move s.up).distance < s.distance := by
  have hmax : maxSearchHz = 1000000 := rfl
  obtain ⟨-, -, hhz⟩ := hgoes
  have hup : (s.move s.up).up = s.up := by rw [move, turn_same]
  have hmoved : (s.move s.up).hz =
      toUInt32 (if s.up then s.hz + s.step else s.hz - s.step) := by
    rw [move, turn_same]
  rw [hmoved] at hhz
  rw [distance, distance, hup, hmoved]
  cases hdir : s.up with
  | true =>
      simp only [hdir, if_true, toUInt32] at hhz ⊢
      omega
  | false =>
      simp only [hdir, Bool.false_eq_true, if_false, toUInt32] at hhz ⊢
      omega

/-- Every move that goes on lowers the rank. -/
theorem rank_move (hpos : 0 < s.step) (hle : s.step ≤ 10000)
    (hlt : s.hz < maxSearchHz) (up : Bool) (hgoes : (s.move up).goesOn) :
    (s.move up).rank < s.rank := by
  have hmax : maxSearchHz = 1000000 := rfl
  by_cases hsame : s.up = up
  · subst hsame
    have hdist := distance_move hpos hle hlt hgoes
    have hstep : (s.move s.up).step = s.step := by rw [move, turn_same]
    rw [rank, rank, hstep]
    omega
  · -- After a turn there may be any way to go, but a digit less.
    have hstep : (s.move up).step = s.step.tdiv 10 := by
      rw [move, turn, if_neg hsame]
    have htdiv : s.step.tdiv 10 = s.step / 10 :=
      Int.tdiv_eq_ediv_of_nonneg hpos.le
    have hdiv : (s.step.tdiv 10).toNat = s.step.toNat / 10 := by omega
    obtain ⟨hne, hpos', hlt'⟩ := hgoes
    rw [hstep, htdiv] at hne
    have hlog := log_div_ten (n := s.step.toNat) (by omega)
    have hdist : (s.move up).distance < maxSearchHz := by
      rw [distance]
      split <;> omega
    rw [rank, rank, hstep, hdiv, ← hlog, Nat.succ_mul]
    omega

/-- What a move leaves: a smaller step at most, and the dividers. -/
theorem move_step (hpos : 0 < s.step) (up : Bool) :
    0 ≤ (s.move up).step ∧ (s.move up).step ≤ s.step := by
  have hstep : (s.move up).step = (s.turn up).step := rfl
  rw [hstep, turn]
  split
  · exact ⟨hpos.le, le_refl _⟩
  · dsimp only
    rw [Int.tdiv_eq_ediv_of_nonneg hpos.le]
    omega

theorem move_dividers (up : Bool) : (s.move up).dividers = s.dividers := by
  have hdividers : (s.move up).dividers = (s.turn up).dividers := rfl
  rw [hdividers, turn]
  split <;> rfl

/-- A round moves up or down after an exchange that failed, and ends with one
that succeeded. -/
theorem findRound_cases (s : PioSearch) (r : FrameResult) :
    (¬r.Succeeds ∧ ∃ up, s.findRound r = (s.setClkdiv.move up).next) ∨
      (r.Succeeds ∧ s.findRound r = .inr (true, s.setClkdiv)) := by
  have hne : endBit ≠ 0 := by decide
  unfold findRound
  dsimp only
  split
  next hnone =>
    refine .inl ⟨fun h => ?_, true, rfl⟩
    rcases hnone with hzero | hret
    · exact hne (h.2.1.symm.trans hzero)
    · exact hret h.1
  next hnone =>
    split
    next hend => exact .inl ⟨fun h => hend h.2.1, false, rfl⟩
    next hend =>
      split
      next hdecode =>
        refine .inl ⟨fun h => ?_, false, rfl⟩
        have hsome := h.2.2
        rw [hdecode] at hsome
        cases hsome
      next frame hdecode =>
        refine .inr ⟨⟨?_, not_not.mp hend, ?_⟩, rfl⟩
        · by_contra hret
          exact hnone (.inr hret)
        · rw [hdecode]
          rfl

end PioSearch

/-! ## A round -/

section

variable {results : ℕ → FrameResult} {i : ℕ} {s : PioSearch}

theorem searching_init (results : ℕ → FrameResult) :
    Searching results 0 .init where
  step_pos := by decide
  step_le := by decide
  hz_pos := by decide
  hz_lt := by decide
  rounds := rfl
  dividers := fun _ h => (List.not_mem_nil h).elim
  failed := fun _ h => (Nat.not_lt_zero _ h).elim

/-- The divider of a round is in the range. -/
theorem Searching.setClkdiv (h : Searching results i s) :
    s.setClkdiv.dividers.length = i + 1 ∧
      ∀ hz ∈ s.setClkdiv.dividers, 1 ≤ hz ∧ hz ≤ maxSearchHz - 1 := by
  constructor
  · simp [PioSearch.setClkdiv, h.rounds]
  · intro hz hmem
    rcases List.mem_append.mp hmem with hold | hnew
    · exact h.dividers hz hold
    · rw [List.mem_singleton.mp hnew]
      have hpos := h.hz_pos
      have hlt := h.hz_lt
      omega

theorem Searching.failed_succ (h : Searching results i s)
    (hfail : ¬(results i).Succeeds) : ∀ k < i + 1, ¬(results k).Succeeds := by
  intro k hk
  rcases Nat.lt_succ_iff_lt_or_eq.mp hk with hlt | rfl
  · exact h.failed k hlt
  · exact hfail

/-- A round that goes on keeps the search in the range and lowers its rank. -/
theorem Searching.round (h : Searching results i s) {next : PioSearch}
    (hnext : s.findRound (results i) = .inl next) :
    Searching results (i + 1) next ∧ next.rank < s.rank := by
  rcases s.findRound_cases (results i) with ⟨hfail, up, hround⟩ | ⟨-, hround⟩
  · rw [hround, PioSearch.next] at hnext
    split at hnext
    next hgoes =>
      obtain rfl := Sum.inl.inj hnext
      have hpos : 0 < s.setClkdiv.step := h.step_pos
      obtain ⟨hstep, hstep'⟩ := s.setClkdiv.move_step hpos up
      obtain ⟨hlength, hdividers⟩ := h.setClkdiv
      refine ⟨?_, s.setClkdiv.rank_move hpos h.step_le h.hz_lt up hgoes⟩
      exact
        { step_pos := lt_of_le_of_ne hstep hgoes.1.symm
          step_le := hstep'.trans h.step_le
          hz_pos := hgoes.2.1
          hz_lt := hgoes.2.2
          rounds := by rw [PioSearch.move_dividers, hlength]
          dividers := by rw [PioSearch.move_dividers]; exact hdividers
          failed := h.failed_succ hfail }
    · cases hnext
  · rw [hround] at hnext
    cases hnext

end

/-! ## The search -/

/-- Whatever the exchanges give, the search ends after less than five million
rounds.  Until then it sets the divider only for frequencies of the range, and
it ends with the first exchange that succeeds, at the frequency of this
exchange. -/
theorem findFrequency_ends (results : ℕ → FrameResult) :
    ∃ n found s, findFrequency results 5000000 = some (n, found, s) ∧
      s.dividers.length = n + 1 ∧
      (∀ hz ∈ s.dividers, 1 ≤ hz ∧ hz ≤ maxSearchHz - 1) ∧
      (∀ k < n, ¬(results k).Succeeds) ∧
      (found = true ↔ (results n).Succeeds) ∧
      (found = true → s.dividers.getLast? = some s.hz) := by
  have hrank : PioSearch.init.rank < 5000000 := by decide +kernel
  have hround : ∀ i (s next : PioSearch), Searching results i s →
      s.findRound (results i) = .inl next →
        Searching results (i + 1) next ∧ next.rank < s.rank :=
    fun i s next h hnext => h.round hnext
  obtain ⟨n, last, ⟨found, s⟩, hrounds, hlast, hend⟩ :=
    RankedLoop.rounds_ends hround (searching_init results) hrank
  obtain ⟨hlength, hdividers⟩ := hlast.setClkdiv
  refine ⟨n, found, s, hrounds, ?_⟩
  rcases last.findRound_cases (results n) with ⟨hfail, up, hround⟩ | ⟨hsucc, hround⟩
  · rw [hround, PioSearch.next] at hend
    split at hend
    · cases hend
    · obtain ⟨rfl, rfl⟩ := Prod.mk.inj (Sum.inr.inj hend)
      rw [PioSearch.move_dividers]
      exact ⟨hlength, hdividers, hlast.failed, iff_of_false Bool.false_ne_true hfail,
        fun h => (Bool.false_ne_true h).elim⟩
  · rw [hround] at hend
    obtain ⟨rfl, rfl⟩ := Prod.mk.inj (Sum.inr.inj hend)
    refine ⟨hlength, hdividers, hlast.failed, iff_of_true rfl hsucc, fun _ => ?_⟩
    exact List.getLast?_concat

end Herak.OpenTherm
