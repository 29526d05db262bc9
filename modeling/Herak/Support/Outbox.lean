import Mathlib.Data.List.Infix

/-!
# Outboxes

A sender takes one message at a time and hands it on in pieces.  This module
has what such a sender is for: what was handed on is in order, and together
with what is pending it is what was accepted, as long as nothing is discarded.
-/

/-- The messages that were accepted, what was handed on, and what is still to
be handed on. -/
structure Outbox (α : Type*) where
  accepted : List (List α)
  written : List α
  pending : List α

namespace Outbox

variable {α : Type*}

def empty : Outbox α := ⟨[], [], []⟩

/-- A new message takes the place of what is pending. -/
def accept (o : Outbox α) (message : List α) : Outbox α :=
  { o with accepted := o.accepted ++ [message], pending := message }

/-- The next `n` items are handed on. -/
def write (o : Outbox α) (n : ℕ) : Outbox α :=
  { o with
    written := o.written ++ o.pending.take n
    pending := o.pending.drop n }

/-- Nothing is lost. -/
def Complete (o : Outbox α) : Prop :=
  o.written ++ o.pending = o.accepted.flatten

/-- What was handed on is a beginning of what was accepted. -/
def InOrder (o : Outbox α) : Prop :=
  o.written <+: o.accepted.flatten

theorem complete_empty : (empty : Outbox α).Complete := rfl

variable {o : Outbox α}

theorem Complete.inOrder (h : o.Complete) : o.InOrder := ⟨o.pending, h⟩

theorem Complete.accept (h : o.Complete) (hp : o.pending = [])
    (message : List α) : (o.accept message).Complete := by
  rw [Complete, hp, List.append_nil] at h
  simp [Complete, Outbox.accept, h]

theorem Complete.write (h : o.Complete) (n : ℕ) : (o.write n).Complete := by
  rw [Complete, Outbox.write, List.append_assoc, List.take_append_drop]
  exact h

theorem InOrder.accept (h : o.InOrder) (message : List α) :
    (o.accept message).InOrder := by
  obtain ⟨rest, hrest⟩ := h
  refine ⟨rest ++ message, ?_⟩
  simp [Outbox.accept, ← hrest]

end Outbox
