import Mathlib.Init
import Mathlib.Order.Basic

/-!
# Loops with a rank

A `do` loop that reads one input in each round and ends in a round that the
inputs decide.  Fuel stands for the number of rounds that the loop is followed.
A rank that every round lowers, as long as an invariant holds, bounds this
number.
-/

namespace RankedLoop

variable {State Input Result : Type*}

/-- The rounds of a loop from the input `i` on: the number of the round in which
it ends, and the result. -/
def rounds (round : State → Input → State ⊕ Result) (inputs : ℕ → Input) :
    ℕ → ℕ → State → Option (ℕ × Result)
  | 0, _, _ => none
  | fuel + 1, i, s =>
      match round s (inputs i) with
      | .inl next => rounds round inputs fuel (i + 1) next
      | .inr result => some (i, result)

/-- A loop whose rounds keep an invariant and lower a rank ends, and its last
round starts in a state of the invariant. -/
theorem rounds_ends {round : State → Input → State ⊕ Result}
    {inputs : ℕ → Input} {I : ℕ → State → Prop} {rank : State → ℕ}
    (hround : ∀ i s next, I i s → round s (inputs i) = .inl next →
      I (i + 1) next ∧ rank next < rank s)
    {fuel i : ℕ} {s : State} (hs : I i s) (hfuel : rank s < fuel) :
    ∃ n last result, rounds round inputs fuel i s = some (n, result) ∧
      I n last ∧ round last (inputs n) = .inr result := by
  induction fuel generalizing i s with
  | zero => exact (Nat.not_lt_zero _ hfuel).elim
  | succ fuel ih =>
      rw [rounds]
      cases hnext : round s (inputs i) with
      | inl next =>
          obtain ⟨hinv, hlower⟩ := hround i s next hs hnext
          exact ih hinv (Nat.lt_of_lt_of_le hlower (Nat.le_of_lt_succ hfuel))
      | inr result => exact ⟨i, s, result, rfl, hs, hnext⟩

end RankedLoop
