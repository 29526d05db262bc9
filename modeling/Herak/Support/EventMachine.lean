import Mathlib.Data.List.Infix

/-!
# Event machines

A system whose parties call it one function at a time is a deterministic
machine driven by a schedule of events, some of which are allowed only in some
states.  This module has the notions every such development needs: the state
after a schedule, a condition on all steps of a schedule, the invariant rule,
and the first step at which a condition fails.
-/

/-- A deterministic machine together with the events its environment may
produce in each state. -/
structure EventMachine (State Event : Type*) where
  step : State → Event → State
  enabled : State → Event → Prop

namespace EventMachine

variable {State Event : Type*} (m : EventMachine State Event)

/-- The state after a schedule of events. -/
def run (s : State) (es : List Event) : State :=
  es.foldl m.step s

/-- Every event of the schedule satisfies `C` in the state it happens in. -/
def Along (C : State → Event → Prop) : State → List Event → Prop
  | _, [] => True
  | s, e :: es => C s e ∧ Along C (m.step s e) es

/-- The environment may produce this schedule. -/
def Admits (s : State) (es : List Event) : Prop :=
  m.Along m.enabled s es

@[simp] theorem run_nil (s : State) : m.run s [] = s := rfl

@[simp] theorem run_cons (s : State) (e : Event) (es : List Event) :
    m.run s (e :: es) = m.run (m.step s e) es := rfl

theorem run_append (s : State) (es fs : List Event) :
    m.run s (es ++ fs) = m.run (m.run s es) fs :=
  List.foldl_append

@[simp] theorem along_nil (C : State → Event → Prop) (s : State) :
    m.Along C s [] := trivial

@[simp] theorem along_cons
    {C : State → Event → Prop} {s : State} {e : Event} {es : List Event} :
    m.Along C s (e :: es) ↔ C s e ∧ m.Along C (m.step s e) es :=
  Iff.rfl

theorem along_append
    {C : State → Event → Prop} {s : State} {es fs : List Event} :
    m.Along C s (es ++ fs) ↔
      m.Along C s es ∧ m.Along C (m.run s es) fs := by
  induction es generalizing s with
  | nil => simp
  | cons e es ih => simp [ih, and_assoc]

variable {m}

theorem Along.of_prefix
    {C : State → Event → Prop} {s : State} {es fs : List Event}
    (h : m.Along C s fs) (hp : es <+: fs) : m.Along C s es := by
  obtain ⟨rest, rfl⟩ := hp
  exact (m.along_append.mp h).1

theorem Along.mono
    {C D : State → Event → Prop} {s : State} {es : List Event}
    (hCD : ∀ s e, C s e → D s e) (h : m.Along C s es) : m.Along D s es := by
  induction es generalizing s with
  | nil => trivial
  | cons e es ih => exact ⟨hCD s e h.1, ih h.2⟩

/-- A condition that does not depend on the state. -/
theorem along_of_forall
    {C : State → Event → Prop} {s : State} {es : List Event}
    (h : ∀ e ∈ es, ∀ s, C s e) : m.Along C s es := by
  induction es generalizing s with
  | nil => trivial
  | cons e es ih =>
      exact ⟨h e List.mem_cons_self s, ih fun f hf => h f (List.mem_cons_of_mem e hf)⟩

theorem along_and
    {C D : State → Event → Prop} {s : State} {es : List Event} :
    m.Along (fun s e => C s e ∧ D s e) s es ↔
      m.Along C s es ∧ m.Along D s es := by
  induction es generalizing s with
  | nil => simp
  | cons e es ih =>
      simp only [along_cons, ih]
      constructor
      · rintro ⟨⟨hC, hD⟩, hCs, hDs⟩
        exact ⟨⟨hC, hCs⟩, hD, hDs⟩
      · rintro ⟨⟨hC, hCs⟩, hD, hDs⟩
        exact ⟨⟨hC, hD⟩, hCs, hDs⟩

/-- The invariant rule: what every step keeps holds after every schedule. -/
theorem Along.invariant
    {C : State → Event → Prop} {I : State → Prop}
    (hstep : ∀ s e, I s → C s e → I (m.step s e))
    {s : State} {es : List Event}
    (h : m.Along C s es) (hs : I s) : I (m.run s es) := by
  induction es generalizing s with
  | nil => exact hs
  | cons e es ih => exact ih h.2 (hstep s e hs h.1)

/-- Under an invariant, a condition on the steps may be exchanged for
another. -/
theorem Along.mono_of_invariant
    {C D : State → Event → Prop} {I : State → Prop}
    (hstep : ∀ s e, I s → C s e → I (m.step s e))
    (hCD : ∀ s e, I s → C s e → D s e)
    {s : State} {es : List Event}
    (h : m.Along C s es) (hs : I s) : m.Along D s es := by
  induction es generalizing s with
  | nil => trivial
  | cons e es ih => exact ⟨hCD s e hs h.1, ih h.2 (hstep s e hs h.1)⟩

/-- What every step keeps whatever the event. -/
theorem invariant {I : State → Prop} (hstep : ∀ s e, I s → I (m.step s e))
    {s : State} (hs : I s) (es : List Event) : I (m.run s es) := by
  induction es generalizing s with
  | nil => exact hs
  | cons e es ih => exact ih (hstep s e hs)

/-- A schedule that breaks a condition has a first step that breaks it. -/
theorem exists_first_failure
    {C : State → Event → Prop} {s : State} {es : List Event}
    (h : ¬m.Along C s es) :
    ∃ before e after, es = before ++ e :: after ∧
      m.Along C s before ∧ ¬C (m.run s before) e := by
  induction es generalizing s with
  | nil => exact (h trivial).elim
  | cons e es ih =>
      by_cases he : C s e
      · have hes : ¬m.Along C (m.step s e) es := fun hes => h ⟨he, hes⟩
        obtain ⟨before, f, after, rfl, hbefore, hf⟩ := ih hes
        exact ⟨e :: before, f, after, rfl, ⟨he, hbefore⟩, hf⟩
      · exact ⟨[], e, es, rfl, trivial, he⟩

/-- If every step that fails `C` leaves the followers a way to break `P`, a
schedule meets `C` exactly if `P` holds however its beginnings are followed. -/
theorem along_iff_followed
    {C P : State → Event → Prop} {I : State → Prop} {F : Event → Prop}
    (hstep : ∀ s e, I s → m.enabled s e → C s e → I (m.step s e))
    (hP : ∀ s e, I s → m.enabled s e → C s e → P s e)
    (hF : ∀ s e, F e → C s e)
    (hbreak : ∀ s e, I s → m.enabled s e → ¬C s e →
      ∃ fs, (∀ f ∈ fs, F f) ∧ m.Admits (m.step s e) fs ∧
        ¬m.Along P (m.step s e) fs)
    {s : State} {es : List Event} (hs : I s) (hadmits : m.Admits s es) :
    m.Along C s es ↔
      ∀ before, before <+: es → ∀ fs, (∀ f ∈ fs, F f) →
        m.Admits (m.run s before) fs → m.Along P s (before ++ fs) := by
  constructor
  · intro hC before hbefore fs hfs hfollowed
    have hC' : m.Along C s (before ++ fs) := by
      refine m.along_append.mpr ⟨hC.of_prefix hbefore, ?_⟩
      exact along_of_forall fun f hf s => hF s f (hfs f hf)
    have hadmits' : m.Along m.enabled s (before ++ fs) :=
      m.along_append.mpr ⟨hadmits.of_prefix hbefore, hfollowed⟩
    exact (along_and.mpr ⟨hadmits', hC'⟩).mono_of_invariant
      (fun s e hI h => hstep s e hI h.1 h.2) (fun s e hI h => hP s e hI h.1 h.2) hs
  · intro hfollowed
    by_contra hC
    obtain ⟨before, e, after, rfl, hbefore, he⟩ := exists_first_failure hC
    have hadmits' := m.along_append.mp hadmits
    have hI : I (m.run s before) :=
      (along_and.mpr ⟨hadmits'.1, hbefore⟩).invariant
        (fun s e hI h => hstep s e hI h.1 h.2) hs
    obtain ⟨fs, hfs, hfs_admits, hfs_break⟩ := hbreak _ e hI hadmits'.2.1 he
    have hrun : m.run s (before ++ [e]) = m.step (m.run s before) e :=
      m.run_append s before [e]
    have hP' := hfollowed (before ++ [e]) (by simp) fs hfs
      (hrun ▸ hfs_admits)
    rw [m.along_append, hrun] at hP'
    exact hfs_break hP'.2

/-! ## Records -/

section

variable {Record : Type*} (record : State → Event → Record → Record)

variable (m) in
/-- The machine that keeps a record of what happens to it. -/
def recording : EventMachine (State × Record) Event where
  step := fun x e => (m.step x.1 e, record x.1 e x.2)
  enabled := fun x e => m.enabled x.1 e

variable {record}

/-- The record does not change what happens. -/
@[simp] theorem recording_run_fst (x : State × Record) (es : List Event) :
    ((m.recording record).run x es).1 = m.run x.1 es := by
  induction es generalizing x with
  | nil => rfl
  | cons e es ih => exact ih _

theorem recording_along
    {C : State → Event → Prop} {x : State × Record} {es : List Event} :
    (m.recording record).Along (fun x e => C x.1 e) x es ↔
      m.Along C x.1 es := by
  induction es generalizing x with
  | nil => simp
  | cons e es ih =>
      simp only [along_cons]
      exact and_congr_right fun _ => ih

end

instance decidableAlong
    (C : State → Event → Prop) [∀ s e, Decidable (C s e)] :
    ∀ s es, Decidable (m.Along C s es)
  | _, [] => .isTrue trivial
  | s, e :: es =>
      have := decidableAlong C (m.step s e) es
      inferInstanceAs (Decidable (C s e ∧ m.Along C (m.step s e) es))

instance decidableAdmits [∀ s e, Decidable (m.enabled s e)]
    (s : State) (es : List Event) : Decidable (m.Admits s es) :=
  inferInstanceAs (Decidable (m.Along m.enabled s es))

end EventMachine
