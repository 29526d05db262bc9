import Mathlib.Order.Bounds.Basic

/-!
# Searching for the least match

A search moves forwards over moments of time.  It finds the least match if no
move skips one.  When a condition depends on the block of a moment only, such as
its minute or its month, a search may move into the next block that meets the
condition.
-/

namespace LeastMatch

variable {τ β : Type*} [LinearOrder τ] {p : τ → Prop} {s t u : τ}

/-- The matches from a moment on. -/
def From (p : τ → Prop) (t : τ) : Set τ :=
  {v | t ≤ v ∧ p v}

/-- There is no match from `t` to `u`, but for `u`. -/
structure Skips (p : τ → Prop) (t u : τ) : Prop where
  le : t ≤ u
  none : ∀ v, t ≤ v → v < u → ¬p v

namespace Skips

theorem refl (p : τ → Prop) (t : τ) : Skips p t t :=
  ⟨le_rfl, fun _ hle hlt => (not_lt.mpr hle hlt).elim⟩

theorem trans (h : Skips p s t) (h' : Skips p t u) : Skips p s u := by
  refine ⟨h.le.trans h'.le, fun v hle hlt => ?_⟩
  by_cases hv : v < t
  · exact h.none v hle hv
  · exact h'.none v (not_lt.mp hv) hlt

/-- A move keeps the least match. -/
theorem isLeast_iff (h : Skips p t u) {l : τ} :
    IsLeast (From p t) l ↔ IsLeast (From p u) l := by
  have hsame : From p t = From p u := by
    ext v
    constructor
    · rintro ⟨hle, hp⟩
      exact ⟨not_lt.mp fun hlt => h.none v hle hlt hp, hp⟩
    · rintro ⟨hle, hp⟩
      exact ⟨h.le.trans hle, hp⟩
  rw [hsame]

end Skips

theorem isLeast_of_match (hp : p t) : IsLeast (From p t) t :=
  ⟨⟨le_rfl, hp⟩, fun _ hv => hv.1⟩

theorem le_of_isLeast {l : τ} (hl : IsLeast (From p t) l) : t ≤ l :=
  hl.1.1

/-- The search may go to what no match in the next block that meets a condition
comes before. -/
theorem skips_block [LinearOrder β] {block : τ → β} (hmono : Monotone block)
    {q : β → Prop} (hq : ∀ v, p v → q (block v)) {b : β} (hle : t ≤ u)
    (hnone : ∀ c, block t ≤ c → c < b → ¬q c)
    (hfirst : ∀ v, p v → b ≤ block v → u ≤ v) : Skips p t u := by
  refine ⟨hle, fun v htv hvu hp => ?_⟩
  have hlt : block v < b :=
    not_le.mp fun hb => not_lt.mpr (hfirst v hp hb) hvu
  exact hnone _ (hmono htv) hlt (hq v hp)

theorem Skips.mono {p q : τ → Prop} (h : Skips p t u) (hpq : ∀ v, q v → p v) :
    Skips q t u :=
  ⟨h.le, fun v hle hlt hq => h.none v hle hlt (hpq v hq)⟩

end LeastMatch
