import Herak.Fs.Gets
import Herak.Support.EventMachine

/-!
# File handles

A handle is an index of the table of opened files, and an entry that is free
is given to the next file.  `fs_close_all` frees all of them, whoever holds a
handle.  The files that are opened are numbered here, so that it can be told
which of them a handle was returned for.
-/

namespace Herak.Fs

open CString Memory

/-- `fs_read` -/
def fsRead (fs : FsContext) (fd : ℤ) (buff : List UInt8) (buffSize : ℕ) :
    ℤ × List UInt8 × FsContext :=
  match fs.fd? fd with
  | none => (-1, buff, fs)
  | some pico =>
      let data := (fs.unread pico).take buffSize
      (data.length, memcpy buff 0 data,
        { fs with
          unread :=
            Function.update fs.unread pico
              ((fs.unread pico).drop buffSize) })

/-- `fs_write`; `written` is what went to each descriptor of the file system,
`wrote` what `pico_write` returns. -/
def fsWrite (fs : FsContext) (written : ℤ → List UInt8) (fd : ℤ)
    (data : List UInt8) (wrote : ℤ) : ℤ × (ℤ → List UInt8) :=
  match fs.fd? fd with
  | none => (-1, written)
  | some pico =>
      (wrote,
        Function.update written pico (written pico ++ data.take wrote.toNat))

/-- `fs_close_all` -/
def fsCloseAll (fs : FsContext) : FsContext :=
  { fs with openFd := fs.openFd.map fun fd => if 0 ≤ fd then -1 else fd }

/-- What `fs_open` has returned: the index, and the number of the file. -/
structure FsHandle where
  fd : ℕ
  number : ℕ
  deriving DecidableEq

/-- The calls of the module by its users. -/
inductive FsEvent
  | open (opened : ℤ) (content : List UInt8)
  | close (handle : FsHandle)
  | read (handle : FsHandle) (buff : List UInt8) (buffSize : ℕ)
  | gets (handle : FsHandle) (buff : List UInt8) (buffSize : ℕ)
  | write (handle : FsHandle) (data : List UInt8) (wrote : ℤ)
  | closeAll

/-- What a call of the module leaves of the table and of the files. -/
def FsContext.after (fs : FsContext) : FsEvent → FsContext
  | .open opened content => (fsOpen fs opened content).2
  | .close handle => fsClose fs handle.fd
  | .read handle buff buffSize => (fsRead fs handle.fd buff buffSize).2.2
  | .gets handle buff buffSize => (fsGets fs handle.fd buff buffSize).2.2
  | .write _ _ _ => fs
  | .closeAll => fsCloseAll fs

/-- The module with the file system and its users: `fileOf` is the file that a
descriptor of the file system is open for, `handles` are those that were
returned, `last` is the file that an index was returned for last, `closed` tells
which files their users have closed, and the files before `swept` have seen a
`fs_close_all`. -/
structure FsWorld where
  fs : FsContext
  written : ℤ → List UInt8
  fileOf : ℤ → Option ℕ
  opens : ℕ
  handles : List FsHandle
  last : ℕ → Option ℕ
  closed : ℕ → Bool
  swept : ℕ

namespace FsWorld

def init : FsWorld where
  fs := .init
  written := fun _ => []
  fileOf := fun _ => none
  opens := 0
  handles := []
  last := fun _ => none
  closed := fun _ => false
  swept := 0

/-- `fs_open` has returned the index `i`. -/
def grant (x : FsWorld) (fs : FsContext) (i : ℕ) (opened : ℤ) : FsWorld :=
  { x with
    fs := fs
    written := Function.update x.written opened []
    fileOf := Function.update x.fileOf opened (some x.opens)
    opens := x.opens + 1
    handles := ⟨i, x.opens⟩ :: x.handles
    last := Function.update x.last i (some x.opens) }

/-- What the call returns, and what is there after it. -/
def call (x : FsWorld) : FsEvent → ℤ × FsWorld
  | .open opened content =>
      let result := fsOpen x.fs opened content
      (result.1,
        if result.1 < 0 then { x with fs := result.2 }
        else x.grant result.2 result.1.toNat opened)
  | .close handle =>
      (0, { x with
        fs := fsClose x.fs handle.fd
        fileOf :=
          match x.fs.fd? handle.fd with
          | some pico => Function.update x.fileOf pico none
          | none => x.fileOf
        closed := Function.update x.closed handle.number true })
  | .read handle buff buffSize =>
      let result := fsRead x.fs handle.fd buff buffSize
      (result.1, { x with fs := result.2.2 })
  | .gets handle buff buffSize =>
      let result := fsGets x.fs handle.fd buff buffSize
      (result.1, { x with fs := result.2.2 })
  | .write handle data wrote =>
      let result := fsWrite x.fs x.written handle.fd data wrote
      (result.1, { x with written := result.2 })
  | .closeAll =>
      (0, { x with
        fs := fsCloseAll x.fs
        fileOf := fun fd =>
          if 0 ≤ fd ∧ fd ∈ x.fs.openFd then none else x.fileOf fd
        swept := x.opens })

theorem call_fs (x : FsWorld) (e : FsEvent) :
    (x.call e).2.fs = x.fs.after e := by
  cases e with
  | «open» opened content =>
      simp only [call, FsContext.after]
      split <;> rfl
  | close | read | gets | write | closeAll => rfl

/-- `pico_open` fails or returns a descriptor that is not in use, and users have
the handles that were returned to them. -/
def Enabled (x : FsWorld) : FsEvent → Prop
  | .open opened _ => opened < 0 ∨ x.fileOf opened = none
  | .close handle | .read handle _ _ | .gets handle _ _ | .write handle _ _ =>
      handle ∈ x.handles
  | .closeAll => True

end FsWorld

def fsMachine : EventMachine FsWorld FsEvent where
  step := fun x e => (x.call e).2
  enabled := FsWorld.Enabled

/-! ## The properties and the condition -/

def FsEvent.handle : FsEvent → Option FsHandle
  | .open _ _ | .closeAll => none
  | .close handle | .read handle _ _ | .gets handle _ _ | .write handle _ _ =>
      some handle

/-- At most `MAX_OPENED_FILES` entries are in use, for different files. -/
def TableSafe (x : FsWorld) : Prop :=
  (x.fs.openFd.filter fun fd => 0 ≤ fd).length ≤ maxOpenedFiles ∧
    ∀ i j : ℕ, ∀ fd fd', x.fs.fd? i = some fd → x.fs.fd? j = some fd' →
      i ≠ j → fd ≠ fd' ∧ x.fileOf fd ≠ none ∧ x.fileOf fd ≠ x.fileOf fd'

/-- Nothing is changed but the `n`-th file, its descriptor and its entry. -/
structure OnlyFile (x x' : FsWorld) (n : ℕ) : Prop where
  unread : ∀ fd, x.fileOf fd ≠ some n → x'.fs.unread fd = x.fs.unread fd
  written : ∀ fd, x.fileOf fd ≠ some n → x'.written fd = x.written fd
  opened : ∀ fd, x.fileOf fd ≠ some n → x'.fileOf fd = x.fileOf fd
  entries : ∀ (i : ℕ) (fd : ℤ), x.fs.openFd[i]? = some fd →
    x.fileOf fd ≠ some n → x'.fs.openFd[i]? = some fd

/-- The call acts on the file that the handle was returned for and on nothing
else, or it fails, as it does after `fs_close_all`. -/
structure ActsOnOwn (x : FsWorld) (e : FsEvent) (handle : FsHandle) : Prop where
  own : ∀ fd, x.fs.fd? handle.fd = some fd → x.fileOf fd = some handle.number
  only : OnlyFile x (x.call e).2 handle.number
  fails : x.fs.fd? handle.fd = none →
    (x.call e).2.fs = x.fs ∧ (e ≠ .close handle → (x.call e).1 = -1)
  swept : handle.number < x.swept → x.fs.fd? handle.fd = none

/-- Handles that their users have not closed act on their own files. -/
def HandleSafe (x : FsWorld) (e : FsEvent) : Prop :=
  ∀ handle, e.handle = some handle → x.closed handle.number = false →
    ActsOnOwn x e handle

/-- A handle that its user has not closed is not used while its index is in use
for a file that was opened later. -/
def NoReusedHandle (x : FsWorld) (e : FsEvent) : Prop :=
  ∀ handle, e.handle = some handle → x.closed handle.number = false →
    x.fs.fd? handle.fd ≠ none → x.last handle.fd = some handle.number

/-! ## The table -/

theorem FsContext.fd?_eq_some {fs : FsContext} {i : ℕ} {fd : ℤ} :
    fs.fd? i = some fd ↔ fs.openFd[i]? = some fd ∧ fd ≠ -1 := by
  have hnonneg : ¬(i : ℤ) < 0 := by omega
  rw [FsContext.fd?, if_neg hnonneg, Int.toNat_natCast]
  cases fs.openFd[i]? with
  | none => simp
  | some pico =>
      by_cases h : pico = -1
      · simp only [h, if_true, reduceCtorEq, Option.some.injEq, false_iff,
          not_and, ne_eq, not_not]
        exact Eq.symm
      · simp only [h, if_false, Option.some.injEq, iff_self_and]
        rintro rfl
        exact h

/-- What the table, the file system and the numbers of the files say of one
another. -/
structure TableInv (x : FsWorld) : Prop where
  length : x.fs.openFd.length = maxOpenedFiles
  entries : ∀ (i : ℕ) (fd : ℤ), x.fs.openFd[i]? = some fd →
    fd = -1 ∨ 0 ≤ fd ∧ ∃ n, x.last i = some n ∧ x.fileOf fd = some n
  distinct : ∀ (i j : ℕ) (fd : ℤ), x.fs.openFd[i]? = some fd →
    x.fs.openFd[j]? = some fd → 0 ≤ fd → i = j
  tabled : ∀ fd n, x.fileOf fd = some n → 0 ≤ fd ∧ fd ∈ x.fs.openFd
  numbers : ∀ fd n, x.fileOf fd = some n → x.swept ≤ n ∧ n < x.opens
  files : ∀ fd fd' n, x.fileOf fd = some n → x.fileOf fd' = some n → fd = fd'
  swept : x.swept ≤ x.opens

theorem tableInv_init : TableInv .init where
  length := List.length_replicate
  entries := by
    intro i fd h
    exact .inl (List.eq_of_mem_replicate (List.mem_of_getElem? h))
  distinct := by
    intro i j fd hi _ hfd
    have h := List.eq_of_mem_replicate (List.mem_of_getElem? hi)
    omega
  tabled := nofun
  numbers := nofun
  files := nofun
  swept := Nat.le_refl _

namespace TableInv

variable {x : FsWorld}

/-- A valid index leads to the file that it was returned for last. -/
theorem fd?_file (h : TableInv x) {i : ℕ} {fd : ℤ} (hfd : x.fs.fd? i = some fd) :
    0 ≤ fd ∧ ∃ n, x.last i = some n ∧ x.fileOf fd = some n := by
  obtain ⟨hi, hne⟩ := FsContext.fd?_eq_some.mp hfd
  exact (h.entries i fd hi).resolve_left hne

theorem tableSafe (h : TableInv x) : TableSafe x := by
  constructor
  · exact (List.length_filter_le _ _).trans h.length.le
  · intro i j fd fd' hi hj hij
    obtain ⟨hfd, n, -, hn⟩ := h.fd?_file hi
    have hne : fd ≠ fd' := by
      rintro rfl
      exact hij (h.distinct i j fd (FsContext.fd?_eq_some.mp hi).1
        (FsContext.fd?_eq_some.mp hj).1 hfd)
    refine ⟨hne, by simp [hn], fun hsame => hne ?_⟩
    exact h.files fd fd' n hn (hsame.symm.trans hn)

/-- The invariant is about five of the fields. -/
theorem congr (h : TableInv x) {x' : FsWorld}
    (hfd : x'.fs.openFd = x.fs.openFd) (hfile : x'.fileOf = x.fileOf)
    (hlast : x'.last = x.last) (hopens : x'.opens = x.opens)
    (hswept : x'.swept = x.swept) : TableInv x' where
  length := hfd ▸ h.length
  entries := hfd ▸ hfile ▸ hlast ▸ h.entries
  distinct := hfd ▸ h.distinct
  tabled := hfd ▸ hfile ▸ h.tabled
  numbers := hopens ▸ hswept ▸ hfile ▸ h.numbers
  files := hfile ▸ h.files
  swept := hopens ▸ hswept ▸ h.swept

/-- A fresh descriptor in a free entry. -/
theorem grant (h : TableInv x) {i : ℕ} {free opened : ℤ} {fs : FsContext}
    (hi : x.fs.openFd[i]? = some free) (hfree : free < 0)
    (hopened : 0 ≤ opened) (hfresh : x.fileOf opened = none)
    (hfs : fs.openFd = x.fs.openFd.set i opened) :
    TableInv (x.grant fs i opened) := by
  have hlt := (List.getElem?_eq_some_iff.mp hi).1
  have hnot : opened ∉ x.fs.openFd := by
    intro hmem
    obtain ⟨j, hj⟩ := List.mem_iff_getElem?.mp hmem
    obtain heq | ⟨-, n, -, hn⟩ := h.entries j opened hj
    · omega
    · exact nomatch hfresh.symm.trans hn
  have hne {j : ℕ} {fd : ℤ} (hj : x.fs.openFd[j]? = some fd) :
      fd ≠ opened := by
    rintro rfl
    exact hnot (List.mem_of_getElem? hj)
  constructor
  · simp only [FsWorld.grant, hfs, List.length_set]
    exact h.length
  · intro j fd hj
    simp only [FsWorld.grant, hfs] at hj ⊢
    by_cases hij : i = j
    · subst hij
      rw [List.getElem?_set_self hlt] at hj
      obtain rfl := Option.some.inj hj
      exact .inr ⟨hopened, x.opens, Function.update_self _ _ _,
        Function.update_self _ _ _⟩
    · rw [List.getElem?_set_ne hij] at hj
      rw [Function.update_of_ne (Ne.symm hij), Function.update_of_ne (hne hj)]
      exact h.entries j fd hj
  · intro j k fd hj hk hfd
    simp only [FsWorld.grant, hfs, List.getElem?_set, hlt, if_true] at hj hk
    split at hj
    next hij =>
      split at hk
      next hik => exact hij.symm.trans hik
      next => exact (hne hk (Option.some.inj hj).symm).elim
    next =>
      split at hk
      next => exact (hne hj (Option.some.inj hk).symm).elim
      next => exact h.distinct j k fd hj hk hfd
  · intro fd n hn
    simp only [FsWorld.grant, hfs] at hn ⊢
    by_cases hfd : fd = opened
    · subst hfd
      exact ⟨hopened, List.mem_of_getElem? (List.getElem?_set_self hlt)⟩
    · rw [Function.update_of_ne hfd] at hn
      obtain ⟨hnonneg, hmem⟩ := h.tabled fd n hn
      obtain ⟨j, hj⟩ := List.mem_iff_getElem?.mp hmem
      have hij : i ≠ j := by
        rintro rfl
        have := Option.some.inj (hi.symm.trans hj)
        omega
      refine ⟨hnonneg, List.mem_of_getElem? (i := j) ?_⟩
      rwa [List.getElem?_set_ne hij]
  · intro fd n hn
    simp only [FsWorld.grant] at hn ⊢
    by_cases hfd : fd = opened
    · subst hfd
      rw [Function.update_self] at hn
      have := Option.some.inj hn
      have := h.swept
      omega
    · rw [Function.update_of_ne hfd] at hn
      have := h.numbers fd n hn
      omega
  · intro fd fd' n hn hn'
    simp only [FsWorld.grant] at hn hn'
    by_cases hfd : fd = opened <;> by_cases hfd' : fd' = opened
    · exact hfd.trans hfd'.symm
    · subst hfd
      rw [Function.update_self] at hn
      rw [Function.update_of_ne hfd'] at hn'
      have := h.numbers fd' n hn'
      have := Option.some.inj hn
      omega
    · subst hfd'
      rw [Function.update_self] at hn'
      rw [Function.update_of_ne hfd] at hn
      have := h.numbers fd n hn
      have := Option.some.inj hn'
      omega
    · rw [Function.update_of_ne hfd] at hn
      rw [Function.update_of_ne hfd'] at hn'
      exact h.files fd fd' n hn hn'
  · exact Nat.le_succ_of_le h.swept

/-- The entry and the descriptor of a file that is closed are free. -/
theorem close (h : TableInv x) {i : ℕ} {pico : ℤ}
    (hi : x.fs.fd? i = some pico) {x' : FsWorld}
    (hfd : x'.fs.openFd = x.fs.openFd.set i (-1))
    (hfile : x'.fileOf = Function.update x.fileOf pico none)
    (hlast : x'.last = x.last) (hopens : x'.opens = x.opens)
    (hswept : x'.swept = x.swept) : TableInv x' := by
  obtain ⟨hpico, -⟩ := FsContext.fd?_eq_some.mp hi
  have hnonneg := (h.fd?_file hi).1
  have hlt := (List.getElem?_eq_some_iff.mp hpico).1
  have hfileOf {fd : ℤ} {n : ℕ} (hn : x'.fileOf fd = some n) :
      fd ≠ pico ∧ x.fileOf fd = some n := by
    rw [hfile] at hn
    by_cases hfd : fd = pico
    · subst hfd
      rw [Function.update_self] at hn
      exact nomatch hn
    · rw [Function.update_of_ne hfd] at hn
      exact ⟨hfd, hn⟩
  have hentry {j : ℕ} {fd : ℤ} (hj : x'.fs.openFd[j]? = some fd)
      (hfree : fd ≠ -1) : i ≠ j ∧ x.fs.openFd[j]? = some fd := by
    rw [hfd] at hj
    by_cases hij : i = j
    · subst hij
      rw [List.getElem?_set_self hlt] at hj
      exact (hfree (Option.some.inj hj).symm).elim
    · rw [List.getElem?_set_ne hij] at hj
      exact ⟨hij, hj⟩
  constructor
  · rw [hfd, List.length_set]
    exact h.length
  · intro j fd hj
    by_cases hfree : fd = -1
    · exact .inl hfree
    · obtain ⟨hij, hj⟩ := hentry hj hfree
      obtain heq | ⟨hfdnonneg, n, hln, hn⟩ := h.entries j fd hj
      · exact .inl heq
      · have hne : fd ≠ pico := by
          rintro rfl
          exact hij (h.distinct i j fd hpico hj hfdnonneg)
        refine .inr ⟨hfdnonneg, n, hlast ▸ hln, ?_⟩
        rw [hfile, Function.update_of_ne hne]
        exact hn
  · intro j k fd hj hk hfdnonneg
    have hfree : fd ≠ -1 := by omega
    exact h.distinct j k fd (hentry hj hfree).2 (hentry hk hfree).2 hfdnonneg
  · intro fd n hn
    obtain ⟨hne, hn⟩ := hfileOf hn
    obtain ⟨hfdnonneg, hmem⟩ := h.tabled fd n hn
    obtain ⟨j, hj⟩ := List.mem_iff_getElem?.mp hmem
    have hij : i ≠ j := by
      rintro rfl
      exact hne (Option.some.inj (hj.symm.trans hpico))
    refine ⟨hfdnonneg, List.mem_of_getElem? (i := j) ?_⟩
    rwa [hfd, List.getElem?_set_ne hij]
  · intro fd n hn
    rw [hopens, hswept]
    exact h.numbers fd n (hfileOf hn).2
  · intro fd fd' n hn hn'
    exact h.files fd fd' n (hfileOf hn).2 (hfileOf hn').2
  · rw [hopens, hswept]
    exact h.swept

/-- Nothing is left open. -/
theorem closeAll (h : TableInv x) : TableInv (x.call .closeAll).2 := by
  have hentry {i : ℕ} {fd : ℤ}
      (hi : (fsCloseAll x.fs).openFd[i]? = some fd) : fd = -1 := by
    rw [fsCloseAll, List.getElem?_map, Option.map_eq_some_iff] at hi
    obtain ⟨old, hold, rfl⟩ := hi
    obtain rfl | ⟨hnonneg, -⟩ := h.entries i old hold
    · rfl
    · exact if_pos hnonneg
  have hfile (fd : ℤ) : (x.call .closeAll).2.fileOf fd = none := by
    show (if 0 ≤ fd ∧ fd ∈ x.fs.openFd then none else x.fileOf fd) = none
    split
    · rfl
    next hnot =>
      cases hn : x.fileOf fd with
      | none => rfl
      | some n => exact (hnot (h.tabled fd n hn)).elim
  constructor
  · exact (List.length_map _).trans h.length
  · exact fun i fd hi => .inl (hentry hi)
  · intro i j fd hi _ hnonneg
    have := hentry hi
    omega
  · exact fun fd n hn => nomatch (hfile fd).symm.trans hn
  · exact fun fd n hn => nomatch (hfile fd).symm.trans hn
  · exact fun fd fd' n hn => nomatch (hfile fd).symm.trans hn
  · exact Nat.le_refl _

end TableInv

/-! ## One call -/

theorem fsOpen_cases (fs : FsContext) (opened : ℤ) (content : List UInt8) :
    fsOpen fs opened content = (-1, fs) ∨
      ∃ (i : ℕ) (free : ℤ), fs.openFd[i]? = some free ∧ free < 0 ∧ 0 ≤ opened ∧
        fsOpen fs opened content =
          ((i : ℤ), { openFd := fs.openFd.set i opened
                      unread := Function.update fs.unread opened content }) := by
  unfold fsOpen
  cases hfind : fs.openFd.findIdx? (· < 0) with
  | none => exact .inl rfl
  | some i =>
      obtain ⟨hi, hfree, -⟩ := List.findIdx?_eq_some_iff_getElem.mp hfind
      dsimp only
      split
      · exact .inl rfl
      next hopened =>
        exact .inr ⟨i, fs.openFd[i], List.getElem?_eq_getElem hi,
          of_decide_eq_true hfree, by omega, rfl⟩

/-- What a call that reads does: it fails, or it goes on in its own file. -/
def ReadsFrom (fs : FsContext) (fd : ℤ) (result : ℤ × List UInt8 × FsContext) :
    Prop :=
  (fs.fd? fd = none ∧ result.1 = -1 ∧ result.2.2 = fs) ∨
    ∃ pico, fs.fd? fd = some pico ∧ result.2.2.openFd = fs.openFd ∧
      ∀ other ≠ pico, result.2.2.unread other = fs.unread other

theorem fsRead_readsFrom (fs : FsContext) (fd : ℤ) (buff : List UInt8)
    (buffSize : ℕ) : ReadsFrom fs fd (fsRead fs fd buff buffSize) := by
  unfold fsRead
  cases h : fs.fd? fd with
  | none => exact .inl ⟨h, rfl, rfl⟩
  | some pico =>
      exact .inr ⟨pico, h, rfl, fun _ hother => Function.update_of_ne hother _ _⟩

theorem fsGets_readsFrom (fs : FsContext) (fd : ℤ) (buff : List UInt8)
    (buffSize : ℕ) : ReadsFrom fs fd (fsGets fs fd buff buffSize) := by
  have hcheck : ReadsFrom fs fd
      (fsReadCheck fs fd (buff.set 0 0) buffSize newLine) := by
    unfold fsReadCheck
    cases h : fs.fd? fd with
    | none => exact .inl ⟨h, rfl, rfl⟩
    | some pico =>
        exact .inr ⟨pico, h, rfl,
          fun _ hother => Function.update_of_ne hother _ _⟩
  unfold fsGets
  dsimp only
  split
  · exact hcheck
  · exact hcheck

theorem tableInv_step {x : FsWorld} (h : TableInv x) {e : FsEvent}
    (he : x.Enabled e) : TableInv (x.call e).2 := by
  cases e with
  | «open» opened content =>
      simp only [FsWorld.call]
      obtain heq | ⟨i, free, hi, hfree, hopened, heq⟩ :=
        fsOpen_cases x.fs opened content
      · rw [heq]
        exact h
      · rw [heq, if_neg (by omega), Int.toNat_natCast]
        exact h.grant hi hfree hopened (he.resolve_left (by omega)) rfl
  | close handle =>
      cases hfd : x.fs.fd? handle.fd with
      | none =>
          refine h.congr ?_ ?_ rfl rfl rfl
          · simp only [FsWorld.call, fsClose, hfd]
          · simp only [FsWorld.call, hfd]
      | some pico =>
          refine h.close hfd ?_ ?_ rfl rfl rfl
          · simp only [FsWorld.call, fsClose, hfd, Int.toNat_natCast]
          · simp only [FsWorld.call, hfd]
  | read handle buff buffSize =>
      refine h.congr ?_ rfl rfl rfl rfl
      obtain ⟨-, -, hsame⟩ | ⟨pico, -, hsame, -⟩ :=
        fsRead_readsFrom x.fs handle.fd buff buffSize
      · exact congrArg FsContext.openFd hsame
      · exact hsame
  | gets handle buff buffSize =>
      refine h.congr ?_ rfl rfl rfl rfl
      obtain ⟨-, -, hsame⟩ | ⟨pico, -, hsame, -⟩ :=
        fsGets_readsFrom x.fs handle.fd buff buffSize
      · exact congrArg FsContext.openFd hsame
      · exact hsame
  | write handle data wrote => exact h.congr rfl rfl rfl rfl rfl
  | closeAll => exact h.closeAll

/-- A handle that leads to its own file changes nothing else, and an invalid one
fails. -/
theorem onlyFile_call {x : FsWorld} {e : FsEvent} {handle : FsHandle}
    (he : e.handle = some handle)
    (hown : ∀ fd, x.fs.fd? handle.fd = some fd →
      x.fileOf fd = some handle.number) :
    OnlyFile x (x.call e).2 handle.number ∧
      (x.fs.fd? handle.fd = none →
        (x.call e).2.fs = x.fs ∧ (e ≠ .close handle → (x.call e).1 = -1)) := by
  -- a descriptor of another file is not the one that the call is passed to
  have hother {fd pico : ℤ} (hfd : x.fs.fd? handle.fd = some pico)
      (hne : x.fileOf fd ≠ some handle.number) : fd ≠ pico := by
    rintro rfl
    exact hne (hown fd hfd)
  have hread {result : ℤ × List UInt8 × FsContext}
      (hresult : ReadsFrom x.fs handle.fd result) :
      OnlyFile x { x with fs := result.2.2 } handle.number ∧
        (x.fs.fd? handle.fd = none → result.2.2 = x.fs ∧ result.1 = -1) := by
    obtain ⟨-, hfail, hsame⟩ | ⟨pico, hfd, hopen, hunread⟩ := hresult
    · rw [hsame]
      exact ⟨⟨fun _ _ => rfl, fun _ _ => rfl, fun _ _ => rfl,
        fun _ _ hi _ => hi⟩, fun _ => ⟨rfl, hfail⟩⟩
    · refine ⟨⟨fun fd hne => hunread fd (hother hfd hne), fun _ _ => rfl,
        fun _ _ => rfl, fun i fd hi _ => hopen ▸ hi⟩, fun hnone => ?_⟩
      exact nomatch hnone.symm.trans hfd
  cases e with
  | «open» _ _ | closeAll => exact nomatch he
  | close g =>
      obtain rfl := Option.some.inj he
      simp only [FsWorld.call, fsClose]
      cases hfd : x.fs.fd? g.fd with
      | none =>
          exact ⟨⟨fun _ _ => rfl, fun _ _ => rfl, fun _ _ => rfl,
            fun _ _ hi _ => hi⟩, fun _ => ⟨rfl, fun hne => (hne rfl).elim⟩⟩
      | some pico =>
          refine ⟨⟨fun _ _ => rfl, fun _ _ => rfl, fun fd hne => ?_,
            fun i fd hi hne => ?_⟩, nofun⟩
          · exact Function.update_of_ne (hother hfd hne) _ _
          · have hig : g.fd ≠ i := by
              rintro rfl
              have hpico := (FsContext.fd?_eq_some.mp hfd).1
              exact hother hfd hne (Option.some.inj (hi.symm.trans hpico))
            rw [Int.toNat_natCast, List.getElem?_set_ne hig]
            exact hi
  | read g buff buffSize =>
      obtain rfl := Option.some.inj he
      obtain ⟨honly, hfails⟩ := hread (fsRead_readsFrom x.fs g.fd buff buffSize)
      exact ⟨honly, fun hnone => ⟨(hfails hnone).1, fun _ => (hfails hnone).2⟩⟩
  | gets g buff buffSize =>
      obtain rfl := Option.some.inj he
      obtain ⟨honly, hfails⟩ := hread (fsGets_readsFrom x.fs g.fd buff buffSize)
      exact ⟨honly, fun hnone => ⟨(hfails hnone).1, fun _ => (hfails hnone).2⟩⟩
  | write g data wrote =>
      obtain rfl := Option.some.inj he
      simp only [FsWorld.call, fsWrite]
      cases hfd : x.fs.fd? g.fd with
      | none =>
          exact ⟨⟨fun _ _ => rfl, fun _ _ => rfl, fun _ _ => rfl,
            fun _ _ hi _ => hi⟩, fun _ => ⟨trivial, fun _ => rfl⟩⟩
      | some pico =>
          refine ⟨⟨fun _ _ => rfl, fun fd hne => ?_, fun _ _ => rfl,
            fun _ _ hi _ => hi⟩, nofun⟩
          exact Function.update_of_ne (hother hfd hne) _ _

theorem handleSafe_iff {x : FsWorld} (h : TableInv x) (e : FsEvent) :
    HandleSafe x e ↔ NoReusedHandle x e := by
  constructor
  · intro hsafe handle he hclosed hvalid
    obtain ⟨fd, hfd⟩ := Option.ne_none_iff_exists'.mp hvalid
    obtain ⟨-, n, hlast, hn⟩ := h.fd?_file hfd
    rw [hlast, ← hn]
    exact (hsafe handle he hclosed).own fd hfd
  · intro hlatest handle he hclosed
    have hown (fd : ℤ) (hfd : x.fs.fd? handle.fd = some fd) :
        x.fileOf fd = some handle.number := by
      obtain ⟨-, n, hlast, hn⟩ := h.fd?_file hfd
      rw [hn, ← hlast]
      exact hlatest handle he hclosed (by simp [hfd])
    obtain ⟨honly, hfails⟩ := onlyFile_call he hown
    refine ⟨hown, honly, hfails, fun hswept => ?_⟩
    cases hfd : x.fs.fd? handle.fd with
    | none => rfl
    | some fd =>
        have := h.numbers fd _ (hown fd hfd)
        omega

/-! ## The run -/

theorem tableInv_run {es : List FsEvent} (hes : fsMachine.Admits .init es) :
    TableInv (fsMachine.run .init es) :=
  EventMachine.Along.invariant (I := TableInv)
    (fun _ _ hx he => tableInv_step hx he) hes tableInv_init

/-- In every run the table is safe in every state, and every handle acts on its
own file until its user closes it and fails after `fs_close_all`, if and only
if no handle is used while its index belongs to a later file. -/
theorem handle_safety_iff (es : List FsEvent) (hes : fsMachine.Admits .init es) :
    ((∀ before, before <+: es → TableSafe (fsMachine.run .init before)) ∧
      fsMachine.Along HandleSafe .init es) ↔
      fsMachine.Along NoReusedHandle .init es := by
  have hsafe (before : List FsEvent) (hbefore : before <+: es) :
      TableSafe (fsMachine.run .init before) :=
    (tableInv_run (EventMachine.Along.of_prefix hes hbefore)).tableSafe
  rw [and_iff_right hsafe]
  constructor
  · intro h
    have hboth := EventMachine.along_and.mpr ⟨hes, h⟩
    exact hboth.mono_of_invariant (I := TableInv)
      (fun _ _ hx he => tableInv_step hx he.1)
      (fun _ e hx he => (handleSafe_iff hx e).mp he.2) tableInv_init
  · intro h
    have hboth := EventMachine.along_and.mpr ⟨hes, h⟩
    exact hboth.mono_of_invariant (I := TableInv)
      (fun _ _ hx he => tableInv_step hx he.1)
      (fun _ e hx he => (handleSafe_iff hx e).mpr he.2) tableInv_init

/-! ## A transfer and a script -/

/-- A script opens its file, and reads a line of it. -/
def scriptReads : List FsEvent :=
  [.open 7 [108, 115, 10, 114, 109], .gets ⟨0, 0⟩ [0, 0, 0, 0] 4]

theorem handle_safety_iff_scriptReads :
    (∀ before, before <+: scriptReads →
        TableSafe (fsMachine.run .init before)) ∧
      fsMachine.Along HandleSafe .init scriptReads := by
  refine (handle_safety_iff scriptReads ?_).mpr ?_
  · exact ⟨.inr rfl, List.mem_singleton.mpr rfl, trivial⟩
  · refine ⟨nofun, ?_, trivial⟩
    intro handle he _ _
    obtain rfl := Option.some.inj he
    rfl

/-- All files are closed while a transfer holds a handle; then a script opens
its file. -/
def sweptTransfer : List FsEvent :=
  [.open 7 [], .closeAll, .open 7 [108, 115], .write ⟨0, 0⟩ [120] 1]

/-- The transfer writes into the file of the script. -/
theorem swept_transfer_writes_script :
    fsMachine.Admits .init sweptTransfer ∧
      (fsMachine.run .init sweptTransfer).fileOf 7 = some 1 ∧
      (fsMachine.run .init sweptTransfer).written 7 = [120] ∧
      ¬fsMachine.Along HandleSafe .init sweptTransfer := by
  refine ⟨?_, by decide +kernel, by decide +kernel, fun h => ?_⟩
  · exact ⟨.inr rfl, trivial, .inr rfl, .tail _ (List.mem_singleton.mpr rfl),
      trivial⟩
  · have hown := (h.2.2.2.1 ⟨0, 0⟩ rfl rfl).own 7 (by decide +kernel)
    exact absurd hown (by decide +kernel)

end Herak.Fs
