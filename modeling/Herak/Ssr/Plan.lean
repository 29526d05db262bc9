import Mathlib.Data.List.TakeWhile
import Mathlib.Tactic.Tauto

/-!
# Delayed pulses

What a relay command asks for, apart from how it is carried out: keep the level
for a while, take another one, and after a time invert it again.  A plan is
observed at polls, each with the time it starts at and the time it acts at.
-/

namespace Herak.Ssr

/-- One observation: the time it is decided on and the time of its action. -/
structure Poll where
  now : ℕ
  clock : ℕ

/-- From time `start` on keep level `prev` for `delay`, then take level
`state`, and keep it for `time`, or for ever if that is 0. -/
structure Plan where
  prev : Bool
  state : Bool
  time : ℕ
  delay : ℕ
  start : ℕ

inductive Phase
  | waiting
  | on (since : ℕ)
  | done
  deriving DecidableEq

namespace Plan

variable (p : Plan)

def initial : Phase :=
  if p.delay = 0 then .on p.start else .waiting

def level : Phase → Bool
  | .waiting => p.prev
  | .on _ => p.state
  | .done => !p.state

/-- One poll moves a plan on by at most one phase. -/
def poll : Phase → Poll → Phase
  | .waiting, q => if q.now < p.start + p.delay then .waiting else .on q.clock
  | .on since, q =>
      if p.time = 0 ∨ q.now < since + p.time then .on since else .done
  | .done, _ => .done

def phase (polls : List Poll) : Phase :=
  polls.foldl p.poll p.initial

/-- The time at which the state is taken, and the polls after it. -/
def switch (polls : List Poll) : Option (ℕ × List Poll) :=
  if p.delay = 0 then some (p.start, polls)
  else
    match polls.dropWhile fun q => q.now < p.start + p.delay with
    | [] => none
    | q :: rest => some (q.clock, rest)

/-- The level after the polls: the previous one before the first poll at or
after the delay, the state from then on, and the inverted state from the first
poll at or after the time. -/
def scheduled (polls : List Poll) : Bool :=
  match p.switch polls with
  | none => p.prev
  | some (since, rest) =>
      if p.time = 0 ∨ ∀ q ∈ rest, q.now < since + p.time then p.state
      else !p.state

theorem foldl_done (polls : List Poll) :
    polls.foldl p.poll .done = .done := by
  induction polls with
  | nil => rfl
  | cons q polls ih => exact ih

theorem foldl_on (since : ℕ) (polls : List Poll) :
    polls.foldl p.poll (.on since) =
      if p.time = 0 ∨ ∀ q ∈ polls, q.now < since + p.time then .on since
      else .done := by
  induction polls with
  | nil => simp
  | cons q polls ih =>
      rw [List.foldl_cons]
      by_cases hkeep : p.time = 0 ∨ q.now < since + p.time
      · have hstep : p.poll (.on since) q = .on since := if_pos hkeep
        rw [hstep, ih]
        congr 1
        simp only [List.forall_mem_cons, eq_iff_iff]
        tauto
      · have hstep : p.poll (.on since) q = .done := if_neg hkeep
        rw [hstep, foldl_done, if_neg]
        simp only [List.forall_mem_cons]
        tauto

theorem foldl_waiting (polls : List Poll) :
    polls.foldl p.poll .waiting =
      match polls.dropWhile fun q => q.now < p.start + p.delay with
      | [] => .waiting
      | q :: rest => rest.foldl p.poll (.on q.clock) := by
  induction polls with
  | nil => rfl
  | cons q polls ih =>
      rw [List.foldl_cons, List.dropWhile_cons]
      by_cases hearly : q.now < p.start + p.delay
      · have hstep : p.poll .waiting q = .waiting := if_pos hearly
        simp only [hstep, ih, hearly, decide_true, if_true]
      · have hstep : p.poll .waiting q = .on q.clock := if_neg hearly
        simp [hstep, hearly]

/-- Following the phases gives the scheduled level. -/
theorem level_phase (polls : List Poll) :
    p.level (p.phase polls) = p.scheduled polls := by
  unfold phase initial scheduled switch
  by_cases hd : p.delay = 0
  · simp only [if_pos hd, foldl_on]
    split <;> rfl
  · simp only [if_neg hd, foldl_waiting]
    cases polls.dropWhile fun q => decide (q.now < p.start + p.delay) with
    | nil => rfl
    | cons q rest =>
        simp only [foldl_on]
        split <;> rfl

end Plan

end Herak.Ssr
