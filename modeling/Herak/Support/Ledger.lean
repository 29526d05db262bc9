import Mathlib.Algebra.Order.Group.Defs
import Mathlib.Tactic.Abel
import Herak.Support.EventMachine

/-!
# Ledgers

An account whose balance is emptied from time to time: it is delivered, as what
it is or as another amount, it is cleared, or it is lost.  Nothing leaves it in another way, so that what came in
is accounted for as long as nothing is lost.
-/

/-- What has come into an account, what has left it, and what is in it. -/
structure Ledger (α : Type*) where
  deposited : α
  delivered : α
  cleared : α
  lost : α
  balance : α

namespace Ledger

variable {α : Type*} [AddCommGroup α]

def empty : Ledger α := ⟨0, 0, 0, 0, 0⟩

def deposit (l : Ledger α) (a : α) : Ledger α :=
  { l with deposited := l.deposited + a, balance := l.balance + a }

/-- The balance is delivered. -/
def deliver (l : Ledger α) : Ledger α :=
  { l with delivered := l.delivered + l.balance, balance := 0 }

/-- The balance is cleared on purpose. -/
def clear (l : Ledger α) : Ledger α :=
  { l with cleared := l.cleared + l.balance, balance := 0 }

/-- The balance is lost. -/
def lose (l : Ledger α) : Ledger α :=
  { l with lost := l.lost + l.balance, balance := 0 }

/-- The balance leaves as the amount `a`; the rest of it is lost. -/
def report (l : Ledger α) (a : α) : Ledger α :=
  { l with
    delivered := l.delivered + a
    lost := l.lost + (l.balance - a)
    balance := 0 }

/-- A part of the balance is lost. -/
def leak (l : Ledger α) (a : α) : Ledger α :=
  { l with lost := l.lost + a, balance := l.balance - a }

/-- All that came in has left the account or is in it. -/
def Balanced (l : Ledger α) : Prop :=
  l.delivered + l.balance + l.cleared + l.lost = l.deposited

/-- Nothing that came in is lost. -/
def Conserved (l : Ledger α) : Prop :=
  l.delivered + l.balance + l.cleared = l.deposited

theorem balanced_empty : (empty : Ledger α).Balanced := by
  simp [Balanced, empty]

variable {l : Ledger α}

theorem Balanced.conserved_iff (h : l.Balanced) : l.Conserved ↔ l.lost = 0 := by
  rw [Conserved, ← h, eq_comm, add_eq_left]

theorem Balanced.deposit (h : l.Balanced) (a : α) : (l.deposit a).Balanced := by
  rw [Balanced, Ledger.deposit, ← h]
  dsimp only
  abel

theorem Balanced.deliver (h : l.Balanced) : l.deliver.Balanced := by
  rw [Balanced, Ledger.deliver, ← h]
  dsimp only
  abel

theorem Balanced.clear (h : l.Balanced) : l.clear.Balanced := by
  rw [Balanced, Ledger.clear, ← h]
  dsimp only
  abel

theorem Balanced.lose (h : l.Balanced) : l.lose.Balanced := by
  rw [Balanced, Ledger.lose, ← h]
  dsimp only
  abel

theorem Balanced.report (h : l.Balanced) (a : α) : (l.report a).Balanced := by
  rw [Balanced, Ledger.report, ← h]
  dsimp only
  abel

theorem Balanced.leak (h : l.Balanced) (a : α) : (l.leak a).Balanced := by
  rw [Balanced, Ledger.leak, ← h]
  dsimp only
  abel

end Ledger

namespace EventMachine

variable {State Event : Type*} {m : EventMachine State Event}

/-- What each step keeps exactly if it satisfies `C` holds after every step
exactly if all steps satisfy `C`. -/
theorem along_step_iff {P I : State → Prop} {C : State → Event → Prop}
    (hI : ∀ s e, I s → I (m.step s e))
    (hP : ∀ s e, I s → P s → (P (m.step s e) ↔ C s e))
    {s : State} (hs : I s) (hPs : P s) (es : List Event) :
    m.Along (fun s e => P (m.step s e)) s es ↔ m.Along C s es := by
  induction es generalizing s with
  | nil => exact Iff.rfl
  | cons e es ih =>
      rw [along_cons, along_cons, hP s e hs hPs]
      refine and_congr_right fun he => ?_
      exact ih (hI s e hs) ((hP s e hs hPs).mpr he)

end EventMachine
