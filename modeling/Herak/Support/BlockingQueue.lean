import Herak.Support.EventMachine

/-!
# Queues that block

Work that is done in its order, one piece at a step, each piece only after the
one before it is done.  A piece that cannot be done blocks everything behind
it.  A queue is a list of pieces, of which `none` is one that cannot be done.
-/

namespace BlockingQueue

variable {α β : Type*}

/-- What is done in a step. -/
def served : List (Option α) → List α
  | some a :: _ => [a]
  | _ => []

/-- What is left after the step. -/
def rest : List (Option α) → List (Option α)
  | some _ :: q => q
  | q => q

/-- All that will be done: the pieces in front of the first one that cannot. -/
def reach : List (Option α) → List α
  | some a :: q => a :: reach q
  | _ => []

@[simp] theorem reach_nil : reach ([] : List (Option α)) = [] := rfl

@[simp] theorem reach_none_cons (q : List (Option α)) :
    reach (none :: q) = [] := rfl

@[simp] theorem reach_some_cons (a : α) (q : List (Option α)) :
    reach (some a :: q) = a :: reach q := rfl

theorem reach_length_le (q : List (Option α)) :
    (reach q).length ≤ q.length := by
  induction q with
  | nil => exact le_rfl
  | cons o q ih =>
      cases o with
      | none => exact Nat.zero_le _
      | some a => exact Nat.succ_le_succ ih

/-- Nothing blocks the second part if all of the first one can be done. -/
theorem reach_append_of_isSome {p : List (Option α)}
    (h : ∀ o ∈ p, o.isSome) (q : List (Option α)) :
    reach (p ++ q) = reach p ++ reach q := by
  induction p with
  | nil => rfl
  | cons o p ih =>
      obtain ⟨ho, hp⟩ := List.forall_mem_cons.mp h
      obtain ⟨a, rfl⟩ := Option.isSome_iff_exists.mp ho
      exact congrArg (a :: ·) (ih hp)

theorem reach_append_of_none_mem {p : List (Option α)} (h : none ∈ p)
    (q : List (Option α)) : reach (p ++ q) = reach p := by
  induction p with
  | nil => cases h
  | cons o p ih =>
      cases o with
      | none => rfl
      | some a => exact congrArg (a :: ·) (ih (by simpa using h))

/-- The queue of the values that a test lets through. -/
theorem reach_map_ite (test : β → Prop) [DecidablePred test] (f : β → α)
    (l : List β) :
    reach (l.map fun b => if test b then some (f b) else none) =
      (l.takeWhile (decide <| test ·)).map f := by
  induction l with
  | nil => rfl
  | cons b l ih =>
      by_cases hb : test b
      · simp [hb, ih]
      · simp [hb]

/-- A machine whose states show a queue, and what has been done of it, has done
all that can be reached once it has taken as many steps as the queue is long. -/
theorem run_reach {State Event : Type*} {m : EventMachine State Event}
    {C : State → Event → Prop}
    {Shows : State → List (Option α) → List α → Prop}
    (hstep : ∀ s e q done, Shows s q done → C s e →
      Shows (m.step s e) (rest q) (done ++ served q))
    {s : State} {es : List Event} {q : List (Option α)} {done : List α}
    (h : m.Along C s es) (hs : Shows s q done) :
    ∃ q', Shows (m.run s es) q' (done ++ (reach q).take es.length) := by
  induction es generalizing s q done with
  | nil => exact ⟨q, by simpa using hs⟩
  | cons e es ih =>
      obtain ⟨q', hrun⟩ := ih h.2 (hstep s e q done hs h.1)
      refine ⟨q', ?_⟩
      rw [EventMachine.run_cons]
      convert hrun using 1
      cases q with
      | nil => simp [served, rest]
      | cons o q => cases o <;> simp [served, rest]

end BlockingQueue
