import Mathlib.Logic.Basic

/-!
# Programs that take a mutex

A program over a state that one mutex protects.  The mutex is not recursive: a
program that takes it while it holds it waits for ever, and has no result.
-/

/-- A program over a state, and whether the mutex is held. -/
abbrev MutexM (σ : Type) := StateT (Bool × σ) Option

namespace MutexM

variable {σ α β : Type}

def enter : MutexM σ Unit := fun x =>
  if x.1 then none else some ((), true, x.2)

def leave : MutexM σ Unit := fun x => some ((), false, x.2)

/-- A value that depends on the state. -/
def read (f : σ → α) : MutexM σ α := fun x => some (f x.2, x)

def update (f : σ → σ) : MutexM σ Unit := fun x => some ((), x.1, f x.2)

/-- A critical section. -/
def locked (p : MutexM σ α) : MutexM σ α := do
  enter
  let a ← p
  leave
  return a

/-- The program starts without the mutex, does not wait for ever and returns
without it. -/
def Returns (p : MutexM σ α) (s : σ) (a : α) (t : σ) : Prop :=
  p (false, s) = some (a, false, t)

/-- The program waits for ever when it is called with the mutex held. -/
def Blocks (p : MutexM σ α) : Prop :=
  ∀ s, p (true, s) = none

theorem bind_apply (p : MutexM σ α) (f : α → MutexM σ β) (x : Bool × σ) :
    (p >>= f) x = (p x).bind fun r => f r.1 r.2 := rfl

theorem map_apply (f : α → β) (p : MutexM σ α) (x : Bool × σ) :
    (f <$> p) x = (p x).map fun r => (f r.1, r.2) := by
  change (p x).bind _ = _
  cases p x <;> rfl

@[simp] theorem pure_apply (a : α) (x : Bool × σ) :
    (pure a : MutexM σ α) x = some (a, x) := rfl

@[simp] theorem read_apply (f : σ → α) (x : Bool × σ) :
    read f x = some (f x.2, x) := rfl

@[simp] theorem update_apply (f : σ → σ) (x : Bool × σ) :
    update f x = some ((), x.1, f x.2) := rfl

@[simp] theorem leave_apply (x : Bool × σ) :
    (leave : MutexM σ Unit) x = some ((), false, x.2) := rfl

@[simp] theorem enter_free (s : σ) :
    (enter : MutexM σ Unit) (false, s) = some ((), true, s) := rfl

theorem enter_blocks : (enter : MutexM σ Unit).Blocks := fun _ => rfl

theorem Blocks.bind {p : MutexM σ α} (h : p.Blocks) (f : α → MutexM σ β) :
    (p >>= f).Blocks := by
  intro s
  rw [bind_apply, h s]
  rfl

theorem locked_blocks (p : MutexM σ α) : (locked p).Blocks :=
  enter_blocks.bind _

/-- A critical section that does not touch the mutex. -/
theorem locked_returns {p : MutexM σ α} {s t : σ} {a : α}
    (h : p (true, s) = some (a, true, t)) : (locked p).Returns s a t := by
  rw [Returns, locked, bind_apply, enter_free]
  simp only [Option.bind_some, bind_apply, h, leave_apply, pure_apply]

/-- A critical section that calls a program that takes the mutex. -/
theorem locked_apply_of_none {p : MutexM σ α} {s : σ}
    (h : p (true, s) = none) : locked p (false, s) = none := by
  rw [locked, bind_apply, enter_free]
  simp only [Option.bind_some, bind_apply, h, Option.bind_none]

theorem returns_pure (a : α) (s : σ) : (pure a : MutexM σ α).Returns s a s :=
  rfl

theorem read_returns (f : σ → α) (s : σ) : (read f).Returns s (f s) s := rfl

theorem update_returns (f : σ → σ) (s : σ) : (update f).Returns s () (f s) :=
  rfl

theorem locked_read_returns (f : σ → α) (s : σ) :
    (locked (read f)).Returns s (f s) s :=
  locked_returns rfl

theorem locked_update_returns (f : σ → σ) (s : σ) :
    (locked (update f)).Returns s () (f s) :=
  locked_returns rfl

/-- One program after another. -/
theorem Returns.bind {p : MutexM σ α} {f : α → MutexM σ β} {s t u : σ} {a : α}
    {b : β} (hp : p.Returns s a t) (hf : (f a).Returns t b u) :
    (p >>= f).Returns s b u := by
  rw [Returns, bind_apply, hp]
  exact hf

/-- A program that blocks after another has returned. -/
theorem Returns.bind_none {p : MutexM σ α} {f : α → MutexM σ β} {s t : σ}
    {a : α} (hp : p.Returns s a t) (hf : f a (false, t) = none) :
    (p >>= f) (false, s) = none := by
  rw [bind_apply, hp]
  exact hf

/-! ## Postconditions -/

/-- The program is called with the mutex held if `held`, returns with it held if
`held'`, and its result and the state satisfy `Q`. -/
def Leads (p : MutexM σ α) (held : Bool) (s : σ) (held' : Bool)
    (Q : α → σ → Prop) : Prop :=
  ∃ a t, p (held, s) = some (a, held', t) ∧ Q a t

section Leads

variable {p : MutexM σ α} {f : α → MutexM σ β} {held held' held'' : Bool}
  {s : σ} {Q : α → σ → Prop} {R : β → σ → Prop}

theorem Leads.mono {Q' : α → σ → Prop} (h : p.Leads held s held' Q)
    (hQ : ∀ a t, Q a t → Q' a t) : p.Leads held s held' Q' := by
  obtain ⟨a, t, happly, ha⟩ := h
  exact ⟨a, t, happly, hQ a t ha⟩

theorem leads_pure {a : α} (h : Q a s) :
    (pure a : MutexM σ α).Leads held s held Q :=
  ⟨a, s, rfl, h⟩

theorem leads_update {g : σ → σ} {Q : Unit → σ → Prop} (h : Q () (g s)) :
    (update g).Leads held s held Q :=
  ⟨(), g s, rfl, h⟩

theorem leads_enter {Q : Unit → σ → Prop} (h : Q () s) :
    (enter : MutexM σ Unit).Leads false s true Q :=
  ⟨(), s, rfl, h⟩

theorem leads_leave {Q : Unit → σ → Prop} (h : Q () s) :
    (leave : MutexM σ Unit).Leads held s false Q :=
  ⟨(), s, rfl, h⟩

theorem Leads.bind (hp : p.Leads held s held' Q)
    (hf : ∀ a t, Q a t → (f a).Leads held' t held'' R) :
    (p >>= f).Leads held s held'' R := by
  obtain ⟨a, t, happly, ha⟩ := hp
  obtain ⟨b, u, happly', hb⟩ := hf a t ha
  refine ⟨b, u, ?_, hb⟩
  rw [bind_apply, happly]
  exact happly'

theorem leads_read_bind {g : σ → α} (h : (f (g s)).Leads held s held' R) :
    (read g >>= f).Leads held s held' R := h

theorem Leads.locked (h : p.Leads true s true Q) :
    (locked p).Leads false s false Q := by
  obtain ⟨a, t, happly, ha⟩ := h
  exact ⟨a, t, locked_returns happly, ha⟩

end Leads

/-! ## Programs that are called without the mutex -/

/-- The program returns, and its result and the state satisfy `Q`. -/
def Ensures (p : MutexM σ α) (s : σ) (Q : α → σ → Prop) : Prop :=
  ∃ a t, p.Returns s a t ∧ Q a t

theorem Returns.ensures {p : MutexM σ α} {s t : σ} {a : α}
    {Q : α → σ → Prop} (h : p.Returns s a t) (hQ : Q a t) : p.Ensures s Q :=
  ⟨a, t, h, hQ⟩

theorem Ensures.mono {p : MutexM σ α} {s : σ} {Q R : α → σ → Prop}
    (h : p.Ensures s Q) (hQR : ∀ a t, Q a t → R a t) : p.Ensures s R :=
  Leads.mono h hQR

/-- Postconditions of one program, which has one result. -/
theorem Ensures.and {p : MutexM σ α} {s : σ} {Q R : α → σ → Prop}
    (hQ : p.Ensures s Q) (hR : p.Ensures s R) :
    p.Ensures s fun a t => Q a t ∧ R a t := by
  obtain ⟨a, t, hreturns, ha⟩ := hQ
  obtain ⟨b, u, hreturns', hb⟩ := hR
  obtain ⟨rfl, -, rfl⟩ := by
    simpa using Option.some.inj (hreturns.symm.trans hreturns')
  exact hreturns.ensures ⟨ha, hb⟩

theorem ensures_pure {a : α} {s : σ} {Q : α → σ → Prop} (h : Q a s) :
    (pure a : MutexM σ α).Ensures s Q :=
  (returns_pure a s).ensures h

theorem ensures_locked_update {f : σ → σ} {s : σ} {Q : Unit → σ → Prop}
    (h : Q () (f s)) : (locked (update f)).Ensures s Q :=
  (locked_update_returns f s).ensures h

theorem Ensures.bind {p : MutexM σ α} {f : α → MutexM σ β} {s : σ}
    {Q : α → σ → Prop} {R : β → σ → Prop} (hp : p.Ensures s Q)
    (hf : ∀ a t, Q a t → (f a).Ensures t R) : (p >>= f).Ensures s R :=
  Leads.bind hp hf

theorem Returns.bind_ensures {p : MutexM σ α} {f : α → MutexM σ β} {s t : σ}
    {a : α} {R : β → σ → Prop} (hp : p.Returns s a t)
    (hf : (f a).Ensures t R) : (p >>= f).Ensures s R := by
  obtain ⟨b, u, hreturns, hR⟩ := hf
  exact (hp.bind hreturns).ensures hR

/-! ## What remains true -/

/-- The state satisfies `P` whenever the program returns. -/
def Leaves (P : σ → Prop) (p : MutexM σ α) (x : Bool × σ) : Prop :=
  ∀ r, p x = some r → P r.2.2

/-- The program leaves `P` true, whether it is called with the mutex or not. -/
def Keeps (P : σ → Prop) (p : MutexM σ α) : Prop :=
  ∀ x, P x.2 → Leaves P p x

section Keeps

variable {P : σ → Prop} {p : MutexM σ α} {f : α → MutexM σ β} {x : Bool × σ}

theorem Leaves.bind (hp : Leaves P p x) (hf : ∀ a, Keeps P (f a)) :
    Leaves P (p >>= f) x := by
  intro r hr
  rw [bind_apply] at hr
  obtain ⟨q, hq, hr⟩ := Option.bind_eq_some_iff.mp hr
  exact hf q.1 q.2 (hp q hq) r hr

theorem leaves_read_bind {g : σ → α} (h : Leaves P (f (g x.2)) x) :
    Leaves P (read g >>= f) x := h

theorem Keeps.bind (hp : Keeps P p) (hf : ∀ a, Keeps P (f a)) :
    Keeps P (p >>= f) :=
  fun x hx => (hp x hx).bind hf

theorem keeps_pure (a : α) : Keeps P (pure a : MutexM σ α) := by
  rintro x hx r hr
  rw [← Option.some.inj hr]
  exact hx

theorem keeps_read (g : σ → α) : Keeps P (read g) := by
  rintro x hx r hr
  rw [← Option.some.inj hr]
  exact hx

theorem keeps_update {g : σ → σ} (h : ∀ s, P s → P (g s)) :
    Keeps P (update g) := by
  rintro x hx r hr
  rw [← Option.some.inj hr]
  exact h x.2 hx

theorem keeps_leave : Keeps P (leave : MutexM σ Unit) := by
  rintro x hx r hr
  rw [← Option.some.inj hr]
  exact hx

theorem keeps_enter : Keeps P (enter : MutexM σ Unit) := by
  rintro ⟨held, s⟩ hx r hr
  cases held with
  | true => exact (Option.some_ne_none r hr.symm).elim
  | false =>
      rw [← Option.some.inj hr]
      exact hx

theorem Keeps.locked (hp : Keeps P p) : Keeps P (locked p) :=
  keeps_enter.bind fun _ => hp.bind fun _ => keeps_leave.bind fun _ =>
    keeps_pure _

theorem Leaves.locked {s : σ} (hp : Leaves P p (true, s)) :
    Leaves P (locked p) (false, s) := by
  have hrest : Leaves P (p >>= fun a => leave >>= fun _ => pure a) (true, s) :=
    hp.bind fun _ => keeps_leave.bind fun _ => keeps_pure _
  exact hrest

end Keeps

end MutexM
