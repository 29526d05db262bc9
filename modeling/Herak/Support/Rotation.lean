import Mathlib.Data.Finset.Card
import Mathlib.Logic.Function.Iterate

/-!
# Rotations with pending entries

A sender serves one entry a turn: one of those that are pending, as long as
there are any, and else the entry that a cursor stands at, which then goes on.
After as many turns as there are pending entries the cursor moves with every
turn, so that nothing on its way is left out.
-/

/-- How the cursor of a rotation moves, and the entry at a cursor. -/
structure Rotation (Entry Cursor : Type*) where
  next : Cursor → Cursor
  entry : Cursor → Entry

namespace Rotation

variable {Entry Cursor : Type*} [DecidableEq Entry]

/-- The entries that are pending, the cursor, and the entries served so far. -/
structure State (Entry Cursor : Type*) where
  pending : Finset Entry
  cursor : Cursor
  served : List Entry

/-- A turn. -/
inductive Serves (r : Rotation Entry Cursor) :
    State Entry Cursor → Entry → State Entry Cursor → Prop
  | pending {s : State Entry Cursor} {p : Entry} (h : p ∈ s.pending) :
      Serves r s p
        { s with pending := s.pending.erase p, served := s.served ++ [p] }
  | turn {s : State Entry Cursor} (h : s.pending = ∅) :
      Serves r s (r.entry s.cursor)
        { s with
          cursor := r.next s.cursor
          served := s.served ++ [r.entry s.cursor] }

/-- A number of turns. -/
inductive Turns (r : Rotation Entry Cursor) :
    ℕ → State Entry Cursor → State Entry Cursor → Prop
  | none (s : State Entry Cursor) : Turns r 0 s s
  | one {n : ℕ} {s s' s'' : State Entry Cursor} {p : Entry}
      (h : r.Serves s p s') (hrest : Turns r n s' s'') : Turns r (n + 1) s s''

variable {r : Rotation Entry Cursor} {n : ℕ} {s s' : State Entry Cursor}

theorem Serves.served {p : Entry} (h : r.Serves s p s') :
    s'.served = s.served ++ [p] := by
  cases h with
  | pending => rfl
  | turn => rfl

/-- What has been served stays so. -/
theorem Turns.mem_served (h : r.Turns n s s') {p : Entry} (hp : p ∈ s.served) :
    p ∈ s'.served := by
  induction h with
  | none => exact hp
  | one hserves _ ih =>
      refine ih ?_
      rw [hserves.served]
      exact List.mem_append_left _ hp

/-- The pending entries are served, and then those on the way of the cursor. -/
theorem Turns.all_served (h : r.Turns n s s') {k : ℕ}
    (hk : s.pending.card + k ≤ n) :
    (∀ p ∈ s.pending, p ∈ s'.served) ∧
      ∀ j < k, r.entry (r.next^[j] s.cursor) ∈ s'.served := by
  induction h generalizing k with
  | none s =>
      have hcard : s.pending = ∅ := Finset.card_eq_zero.mp (by omega)
      refine ⟨fun p hp => ?_, fun j hj => by omega⟩
      rw [hcard] at hp
      exact absurd hp (Finset.notMem_empty p)
  | one hserves hrest ih =>
      cases hserves with
      | pending hq =>
          rename_i q
          have hcard := Finset.card_erase_add_one hq
          obtain ⟨hpending, hway⟩ := ih (k := k) (by dsimp only; omega)
          refine ⟨fun p hp => ?_, hway⟩
          by_cases hpq : p = q
          · refine hrest.mem_served ?_
            rw [hpq]
            exact List.mem_append_right _ (List.mem_singleton.mpr rfl)
          · exact hpending p (Finset.mem_erase.mpr ⟨hpq, hp⟩)
      | turn hnone =>
          rw [hnone]
          refine ⟨fun p hp => absurd hp (Finset.notMem_empty p), fun j hj => ?_⟩
          obtain _ | j := j
          · refine hrest.mem_served ?_
            exact List.mem_append_right _ (List.mem_singleton.mpr rfl)
          · refine (ih (k := k - 1) ?_).2 j (by omega)
            rw [hnone] at hk ⊢
            omega

/-- Nothing else is served. -/
theorem Turns.served_cases (h : r.Turns n s s') {p : Entry}
    (hp : p ∈ s'.served) :
    p ∈ s.served ∨ p ∈ s.pending ∨ ∃ j, p = r.entry (r.next^[j] s.cursor) := by
  induction h with
  | none => exact Or.inl hp
  | one hserves _ ih =>
      have hserved := hserves.served
      cases hserves with
      | pending hq =>
          rcases ih hp with hold | hpending | hway
          · rw [hserved, List.mem_append, List.mem_singleton] at hold
            rcases hold with hold | rfl
            · exact Or.inl hold
            · exact Or.inr (Or.inl hq)
          · exact Or.inr (Or.inl (Finset.mem_of_mem_erase hpending))
          · exact Or.inr (Or.inr hway)
      | turn hnone =>
          rcases ih hp with hold | hpending | ⟨j, hj⟩
          · rw [hserved, List.mem_append, List.mem_singleton] at hold
            rcases hold with hold | rfl
            · exact Or.inl hold
            · exact Or.inr (Or.inr ⟨0, rfl⟩)
          · exact Or.inr (Or.inl hpending)
          · exact Or.inr (Or.inr ⟨j + 1, hj⟩)

end Rotation
