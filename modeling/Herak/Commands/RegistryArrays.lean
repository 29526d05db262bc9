import Mathlib.Data.List.Nodup
import Herak.Commands.Registry
import Herak.Support.EventMachine

/-!
# The registry in memory

`cmd_handler_add` on the arrays of `cmd_context_t`: the loop over the entries,
the entry that is linked before its table is there, and the table.  Every
access is inside its array and every pointer that is followed is set, and the
arrays are those of the registry as a list.  Only a new module whose table
cannot be allocated leaves something behind a call that fails.
-/

namespace Herak.Commands

open CString

variable {Cb UserData : Type*}

/-- `struct cmd_mod_handler_t`; a slot that is not used is `NULL`. -/
@[ext]
structure ModHandlerEntry (Cb UserData : Type*) where
  module : CStr
  count : ℕ
  modCb : Fin maxCmdModHooks → Option (CmdHandler Cb UserData)

/-- The entry with a table in the slot behind the last one. -/
def ModHandlerEntry.addTable (e : ModHandlerEntry Cb UserData)
    (t : CmdHandler Cb UserData) : ModHandlerEntry Cb UserData where
  module := e.module
  count := e.count + 1
  modCb := fun j => if j.val = e.count then some t else e.modCb j

/-- `struct cmd_context_t` -/
@[ext]
structure CmdContextArrays (Cb UserData : Type*) where
  count : ℕ
  handlers : Fin maxCmdModHandlers → Option (ModHandlerEntry Cb UserData)
  debug : UInt32

namespace CmdContextArrays

/-- The context that `calloc` returns. -/
def init : CmdContextArrays Cb UserData where
  count := 0
  handlers := fun _ => none
  debug := 0

/-- `ctx->handlers[i]` where it is followed: `none` is an index outside the
array, or `NULL`. -/
def entryAt (a : CmdContextArrays Cb UserData) (i : ℕ) :
    Option (ModHandlerEntry Cb UserData) :=
  if hi : i < maxCmdModHandlers then a.handlers ⟨i, hi⟩ else none

/-- The loop of `cmd_handler_add` over the `n` entries from `i` on; `none` is
an access that fails. -/
def findEntry (a : CmdContextArrays Cb UserData) (module : CStr) :
    ℕ → ℕ → Option (Option ℕ)
  | 0, _ => some none
  | n + 1, i =>
      match a.entryAt i with
      | none => none
      | some e =>
          if strlen module ≠ strlen e.module then a.findEntry module n (i + 1)
          else if strncmp module e.module (strlen module) ≠ 0 then
            a.findEntry module n (i + 1)
          else some (some i)

/-- Write the slot `i` of the entries. -/
def setEntry (a : CmdContextArrays Cb UserData) (i : ℕ)
    (e : ModHandlerEntry Cb UserData) : CmdContextArrays Cb UserData :=
  { a with handlers := fun k => if k.val = i then some e else a.handlers k }

/-- The part of `cmd_handler_add` behind the entry `i` of its module. -/
def handlerAdd (a : CmdContextArrays Cb UserData) (i : ℕ)
    (r : Registration Cb UserData) :
    Option (ℤ × CmdContextArrays Cb UserData) :=
  match a.entryAt i with
  | none => none
  | some e =>
      if maxCmdModHooks ≤ e.count then some (-1, a)
      else if r.tableAllocated = false then some (-1, a)
      else some (0, a.setEntry i (e.addTable r.table))

/-- The registry with an entry for a new module, which has no table yet. -/
def link (a : CmdContextArrays Cb UserData) (module : CStr) :
    CmdContextArrays Cb UserData :=
  { a.setEntry a.count
      { module := module, count := 0, modCb := fun _ => none } with
    count := a.count + 1 }

/-- `cmd_handler_add` -/
def cmdHandlerAdd (a : CmdContextArrays Cb UserData)
    (r : Registration Cb UserData) :
    Option (ℤ × CmdContextArrays Cb UserData) :=
  match a.findEntry r.module a.count 0 with
  | none => none
  | some (some i) => a.handlerAdd i r
  | some none =>
      if maxCmdModHandlers ≤ a.count then some (-1, a)
      else if r.moduleAllocated = false then some (-1, a)
      else (a.link r.module).handlerAdd a.count r

end CmdContextArrays

/-! ## The arrays of a registry -/

def CmdModHandler.entry (h : CmdModHandler Cb UserData) :
    ModHandlerEntry Cb UserData where
  module := h.module
  count := h.modCb.length
  modCb := fun j => h.modCb[j.val]?

def CmdContext.arrays (ctx : CmdContext Cb UserData) :
    CmdContextArrays Cb UserData where
  count := ctx.handlers.length
  handlers := fun i => ctx.handlers[i.val]?.map CmdModHandler.entry
  debug := ctx.debug

theorem CmdContext.init_arrays :
    (CmdContext.init : CmdContext Cb UserData).arrays =
      CmdContextArrays.init := rfl

theorem CmdContext.entryAt_arrays (ctx : CmdContext Cb UserData) {i : ℕ}
    (hi : i < ctx.handlers.length) :
    ctx.arrays.entryAt i = some ctx.handlers[i].entry := by
  rw [CmdContextArrays.entryAt, dif_pos (hi.trans_le ctx.handlers_le)]
  change ctx.handlers[i]?.map CmdModHandler.entry = _
  rw [List.getElem?_eq_getElem hi, Option.map_some]

/-- A list with an element at one place, and the same elements elsewhere. -/
theorem getElem?_concat_eq {α : Type*} (l : List α) (x : α) (k : ℕ) :
    (l ++ [x])[k]? = if k = l.length then some x else l[k]? := by
  rw [List.getElem?_append]
  split
  next hlt => rw [if_neg (by omega)]
  next hge =>
    by_cases hk : k = l.length
    · simp [hk]
    · rw [if_neg hk, List.getElem?_eq_none (by simp; omega),
        List.getElem?_eq_none (by omega)]

/-! ## The loop -/

variable {ctx : CmdContext Cb UserData} {module : CStr}

theorem CmdContext.findEntry_step (ctx : CmdContext Cb UserData)
    (module : CStr) {n i : ℕ} (hi : i < ctx.handlers.length) :
    ctx.arrays.findEntry module (n + 1) i =
      if ctx.handlers[i].module = module then some (some i)
      else ctx.arrays.findEntry module n (i + 1) := by
  have htests := strlen_strncmp_eq_iff module ctx.handlers[i].module
  simp only [CmdContextArrays.findEntry, ctx.entryAt_arrays hi,
    CmdModHandler.entry]
  by_cases hname : ctx.handlers[i].module = module
  · obtain ⟨hlen, hcmp⟩ := htests.mpr hname.symm
    rw [if_neg (not_not.mpr hlen), if_neg (not_not.mpr hcmp), if_pos hname]
  · rw [if_neg hname]
    split
    · rfl
    next hlen =>
      rw [if_pos]
      exact fun hcmp => hname (htests.mp ⟨not_not.mp hlen, hcmp⟩).symm

theorem CmdContext.eq_of_module_eq (ctx : CmdContext Cb UserData) {i j : ℕ}
    (hi : i < ctx.handlers.length) (hj : j < ctx.handlers.length)
    (h : ctx.handlers[i].module = ctx.handlers[j].module) : i = j := by
  have hi' : i < (ctx.handlers.map (·.module)).length := by simpa using hi
  have hj' : j < (ctx.handlers.map (·.module)).length := by simpa using hj
  have hmap : (ctx.handlers.map (·.module))[i] =
      (ctx.handlers.map (·.module))[j] := by
    simpa using h
  exact (List.Nodup.getElem_inj_iff ctx.handlers_nodup).mp hmap

/-- The loop finds no module that is not there. -/
theorem CmdContext.findEntry_eq_none {n : ℕ} :
    ∀ i, i + n = ctx.handlers.length →
      (∀ k (hk : k < ctx.handlers.length), ctx.handlers[k].module ≠ module) →
      ctx.arrays.findEntry module n i = some none := by
  induction n with
  | zero => exact fun _ _ _ => rfl
  | succ n ih =>
      intro i hi hnone
      have hlt : i < ctx.handlers.length := by omega
      rw [ctx.findEntry_step module hlt, if_neg (hnone i hlt)]
      exact ih (i + 1) (by omega) hnone

/-- The loop finds the entry of a module, which has no other one. -/
theorem CmdContext.findEntry_eq_some {n : ℕ} {k : Fin ctx.handlers.length} :
    ∀ i, i + n = ctx.handlers.length → i ≤ k →
      ctx.arrays.findEntry (ctx.handlers.get k).module n i =
        some (some k.val) := by
  induction n with
  | zero =>
      intro i hi hk
      have := k.isLt
      omega
  | succ n ih =>
      intro i hi hk
      have hlt : i < ctx.handlers.length := by omega
      rw [ctx.findEntry_step _ hlt]
      by_cases hik : i = k.val
      · subst hik
        exact if_pos rfl
      · have hother : ctx.handlers[i].module ≠ (ctx.handlers.get k).module :=
          fun hsame => hik (ctx.eq_of_module_eq hlt k.isLt hsame)
        rw [if_neg hother]
        exact ih (i + 1) (by omega) (by omega)

/-! ## The two halves of an addition -/

theorem CmdContext.arrays_link (ctx : CmdContext Cb UserData) (module : CStr)
    (hroom : ctx.handlers.length < maxCmdModHandlers)
    (hnew : module ∉ ctx.handlers.map (·.module)) :
    ctx.arrays.link module = (ctx.addModule module hroom hnew).arrays := by
  have hcount : (ctx.addModule module hroom hnew).handlers.length =
      ctx.handlers.length + 1 := by simp [addModule]
  have hentries : (fun k : Fin maxCmdModHandlers =>
      if k.val = ctx.handlers.length then
        some { module := module, count := 0, modCb := fun _ => none }
      else ctx.handlers[k.val]?.map CmdModHandler.entry) =
        (ctx.addModule module hroom hnew).arrays.handlers := by
    funext k
    change _ = (ctx.handlers ++ [_])[k.val]?.map CmdModHandler.entry
    rw [getElem?_concat_eq]
    split
    · rfl
    · rfl
  exact CmdContextArrays.ext hcount.symm hentries rfl

theorem CmdContext.arrays_addTable (ctx : CmdContext Cb UserData)
    (i : Fin ctx.handlers.length) (t : CmdHandler Cb UserData)
    (hroom : (ctx.handlers.get i).modCb.length < maxCmdModHooks) :
    ctx.arrays.setEntry i ((ctx.handlers.get i).entry.addTable t) =
      (ctx.addTable i t hroom).arrays := by
  simp only [CmdContextArrays.setEntry, arrays, addTable, List.length_set,
    CmdContextArrays.mk.injEq, true_and, and_true]
  funext k
  rw [List.getElem?_set]
  by_cases hk : k.val = i.val
  · rw [if_pos hk, if_pos hk.symm, if_pos i.isLt, Option.map_some]
    simp only [ModHandlerEntry.addTable, CmdModHandler.entry,
      List.length_append, List.length_singleton]
    refine congrArg some ?_
    rw [ModHandlerEntry.mk.injEq]
    refine ⟨rfl, rfl, funext fun j => ?_⟩
    rw [getElem?_concat_eq]
    rfl
  · rw [if_neg hk, if_neg (Ne.symm hk)]

theorem CmdContext.arrays_handlerAdd (ctx : CmdContext Cb UserData)
    (i : Fin ctx.handlers.length) (r : Registration Cb UserData) :
    ctx.arrays.handlerAdd i r =
      some ((ctx.handlerAdd i r).1, (ctx.handlerAdd i r).2.arrays) := by
  simp only [CmdContextArrays.handlerAdd, ctx.entryAt_arrays i.isLt, handlerAdd]
  have hcount : ctx.handlers[i.val].entry.count =
      ctx.handlers[i].modCb.length := rfl
  by_cases hroom : ctx.handlers[i].modCb.length < maxCmdModHooks
  · rw [if_neg (hcount ▸ Nat.not_le.mpr hroom), dif_pos hroom]
    by_cases halloc : r.tableAllocated = true
    · rw [if_neg (by simp [halloc]), if_pos halloc,
        ← ctx.arrays_addTable i r.table hroom]
      rfl
    · rw [if_pos (by simpa using halloc), if_neg halloc]
  · rw [if_pos (hcount ▸ Nat.not_lt.mp hroom), dif_neg hroom]

open CmdContext

theorem cmdHandlerAdd_of_some {r : Registration Cb UserData}
    {i : Fin ctx.handlers.length} (h : ctx.findModule r.module = some i) :
    cmdHandlerAdd ctx r = ctx.handlerAdd i r := by
  rw [cmdHandlerAdd]
  split
  next j hj =>
    rw [h] at hj
    rw [Option.some_inj.mp hj]
  next hnone =>
    rw [h] at hnone
    contradiction

theorem CmdContext.length_lt_addModule
    (hroom : ctx.handlers.length < maxCmdModHandlers)
    (hnew : module ∉ ctx.handlers.map (·.module)) :
    ctx.handlers.length < (ctx.addModule module hroom hnew).handlers.length := by
  simp [addModule]

theorem cmdHandlerAdd_of_none {r : Registration Cb UserData}
    (h : ctx.findModule r.module = none) :
    cmdHandlerAdd ctx r =
      if hroom : ctx.handlers.length < maxCmdModHandlers then
        if r.moduleAllocated then
          (ctx.addModule r.module hroom (findModule_eq_none h)).handlerAdd
            ⟨ctx.handlers.length,
              length_lt_addModule hroom (findModule_eq_none h)⟩ r
        else (-1, ctx)
      else (-1, ctx) := by
  rw [cmdHandlerAdd]
  split
  next j hj =>
    rw [h] at hj
    contradiction
  next => rfl

/-- The loop finds what the registry finds. -/
theorem CmdContext.findEntry_arrays (ctx : CmdContext Cb UserData)
    (module : CStr) :
    ctx.arrays.findEntry module ctx.handlers.length 0 =
      some ((ctx.findModule module).map Fin.val) := by
  cases hfind : ctx.findModule module with
  | some i =>
      have hfound := ctx.findEntry_eq_some (k := i) 0
        (Nat.zero_add ctx.handlers.length) (Nat.zero_le _)
      have hmodule : (ctx.handlers.get i).module = module := findModule_spec hfind
      rwa [hmodule] at hfound
  | none =>
      refine ctx.findEntry_eq_none 0 (Nat.zero_add ctx.handlers.length) ?_
      intro k hk hname
      exact findModule_eq_none hfind
        (List.mem_map.mpr ⟨_, List.getElem_mem hk, hname⟩)

/-- The arrays follow the registry: every access is inside its array and every
pointer that is followed is set. -/
theorem CmdContext.arrays_cmdHandlerAdd (ctx : CmdContext Cb UserData)
    (r : Registration Cb UserData) :
    ctx.arrays.cmdHandlerAdd r =
      some ((cmdHandlerAdd ctx r).1, (cmdHandlerAdd ctx r).2.arrays) := by
  have hcount : ctx.arrays.count = ctx.handlers.length := rfl
  simp only [CmdContextArrays.cmdHandlerAdd, hcount, ctx.findEntry_arrays]
  cases hfind : ctx.findModule r.module with
  | some i =>
      rw [cmdHandlerAdd_of_some hfind]
      exact ctx.arrays_handlerAdd i r
  | none =>
      rw [cmdHandlerAdd_of_none hfind, Option.map_none]
      by_cases hroom : ctx.handlers.length < maxCmdModHandlers
      · simp only [if_neg (Nat.not_le.mpr hroom), dif_pos hroom]
        by_cases halloc : r.moduleAllocated = true
        · rw [if_neg (by simp [halloc]), if_pos halloc,
            ctx.arrays_link r.module hroom (findModule_eq_none hfind)]
          exact CmdContext.arrays_handlerAdd _
            ⟨ctx.handlers.length, length_lt_addModule hroom _⟩ r
        · rw [if_pos (by simpa using halloc), if_neg halloc]
      · simp only [if_pos (Nat.not_lt.mp hroom), dif_neg hroom]

/-! ## What an addition does -/

/-- A new module gets its entry, but no table. -/
def CmdContext.HalfAdds (ctx : CmdContext Cb UserData)
    (r : Registration Cb UserData) : Prop :=
  ctx.findModule r.module = none ∧ ctx.handlers.length < maxCmdModHandlers ∧
    r.moduleAllocated = true ∧ r.tableAllocated = false

/-- The entries of a registry, each with a table. -/
def CmdContext.Filled (ctx : CmdContext Cb UserData) : Prop :=
  ∀ h ∈ ctx.handlers, h.modCb ≠ []

theorem CmdContext.addTable_filled {i : Fin ctx.handlers.length}
    {t : CmdHandler Cb UserData}
    (hroom : (ctx.handlers.get i).modCb.length < maxCmdModHooks)
    (h : ∀ k (hk : k < ctx.handlers.length), k ≠ i →
      ctx.handlers[k].modCb ≠ []) :
    (ctx.addTable i t hroom).Filled := by
  intro e he
  obtain ⟨k, hk, rfl⟩ := List.getElem_of_mem he
  simp only [addTable, List.length_set] at hk ⊢
  rw [List.getElem_set]
  split
  · simp
  next hne => exact h k hk (Ne.symm hne)

/-- The entry of a new module has room for a table. -/
theorem CmdContext.addModule_last_room
    (hroom : ctx.handlers.length < maxCmdModHandlers)
    (hnew : module ∉ ctx.handlers.map (·.module))
    {i : Fin (ctx.addModule module hroom hnew).handlers.length}
    (hi : i.val = ctx.handlers.length) :
    (ctx.addModule module hroom hnew).handlers[i].modCb.length <
      maxCmdModHooks := by
  have hempty : (ctx.addModule module hroom hnew).handlers[i] =
      { module := module, modCb := [], modCb_le := Nat.zero_le _ } :=
    List.getElem_concat_length hi _
  rw [hempty]
  exact Nat.zero_lt_succ _

/-- An addition that fails changes nothing unless it half adds a module; one
that succeeds leaves a table in its entry. -/
theorem cmdHandlerAdd_cases (ctx : CmdContext Cb UserData)
    (r : Registration Cb UserData) :
    (ctx.HalfAdds r ∧ (cmdHandlerAdd ctx r).1 = -1 ∧
        (cmdHandlerAdd ctx r).2.handlers.length = ctx.handlers.length + 1) ∨
      (¬ctx.HalfAdds r ∧ cmdHandlerAdd ctx r = (-1, ctx)) ∨
      (¬ctx.HalfAdds r ∧ (cmdHandlerAdd ctx r).1 = 0 ∧
        (ctx.Filled → (cmdHandlerAdd ctx r).2.Filled)) := by
  cases hfind : ctx.findModule r.module with
  | some i =>
      have hnot : ¬ctx.HalfAdds r := by simp [HalfAdds, hfind]
      rw [cmdHandlerAdd_of_some hfind, handlerAdd]
      refine Or.inr ?_
      split
      next hroom =>
        split
        · exact Or.inr ⟨hnot, rfl, fun hfilled =>
            addTable_filled hroom fun k hk _ =>
              hfilled _ (List.getElem_mem hk)⟩
        · exact Or.inl ⟨hnot, rfl⟩
      · exact Or.inl ⟨hnot, rfl⟩
  | none =>
      rw [cmdHandlerAdd_of_none hfind]
      split
      next hroom =>
        split
        next hmodule =>
          have htables := addModule_last_room hroom
            (findModule_eq_none hfind)
            (i := ⟨ctx.handlers.length, length_lt_addModule hroom _⟩) rfl
          rw [handlerAdd, dif_pos htables]
          split
          next htable =>
            have hnot : ¬ctx.HalfAdds r := by simp [HalfAdds, htable]
            refine Or.inr (Or.inr ⟨hnot, rfl, fun hfilled => ?_⟩)
            refine addTable_filled htables fun k hk hne => ?_
            simp only [addModule, List.length_append,
              List.length_singleton] at hk
            have hlt : k < ctx.handlers.length := by
              simp only at hne
              omega
            simp only [addModule, List.getElem_append_left hlt]
            exact hfilled _ (List.getElem_mem hlt)
          next htable =>
            refine Or.inl ⟨⟨hfind, hroom, hmodule, by simpa using htable⟩, rfl,
              ?_⟩
            simp [addModule]
        next hmodule =>
          exact Or.inr (Or.inl ⟨by simp [HalfAdds, hmodule], rfl⟩)
      next hroom =>
        exact Or.inr (Or.inl ⟨by simp [HalfAdds, hroom], rfl⟩)

/-! ## Runs -/

namespace CmdContextArrays

/-- The names of the modules are distinct, the arrays are not overrun, and
every module has a table in each slot that its count covers, and at least
one. -/
structure Sound (a : CmdContextArrays Cb UserData) : Prop where
  count_le : a.count ≤ maxCmdModHandlers
  entries : ∀ i < a.count, ∃ e, a.entryAt i = some e ∧ 1 ≤ e.count ∧
    e.count ≤ maxCmdModHooks ∧
    ∀ j : Fin maxCmdModHooks, j.val < e.count → (e.modCb j).isSome
  distinct : ∀ i j e e', i < a.count → j < a.count → a.entryAt i = some e →
    a.entryAt j = some e' → e.module = e'.module → i = j

/-- A call for a module that is not there, with room for it, whose first
allocation succeeds and whose second fails. -/
def HalfAdds (a : CmdContextArrays Cb UserData)
    (r : Registration Cb UserData) : Prop :=
  a.findEntry r.module a.count 0 = some none ∧
    a.count < maxCmdModHandlers ∧
    r.moduleAllocated = true ∧ r.tableAllocated = false

/-- The registry under a sequence of calls; `none` is an access that failed. -/
def machine : EventMachine (Option (CmdContextArrays Cb UserData))
    (Registration Cb UserData) where
  step := fun s r => s.bind fun a => (a.cmdHandlerAdd r).map Prod.snd
  enabled := fun _ _ => True

/-- The call returns, leaves a sound registry, and if it fails, the one it
found. -/
def KeepsIntegrity (s : Option (CmdContextArrays Cb UserData))
    (r : Registration Cb UserData) : Prop :=
  ∃ a ∈ s, ∃ result ∈ a.cmdHandlerAdd r,
    result.2.Sound ∧ (result.1 = -1 → result.2 = a)

/-- The call does not half add a module. -/
def AddsWhole (s : Option (CmdContextArrays Cb UserData))
    (r : Registration Cb UserData) : Prop :=
  ∀ a ∈ s, ¬a.HalfAdds r

end CmdContextArrays

theorem CmdContext.sound_arrays_iff (ctx : CmdContext Cb UserData) :
    ctx.arrays.Sound ↔ ctx.Filled := by
  constructor
  · intro h e he
    obtain ⟨i, hi, rfl⟩ := List.getElem_of_mem he
    obtain ⟨e, hentry, hcount, -, -⟩ := h.entries i hi
    rw [ctx.entryAt_arrays hi] at hentry
    obtain rfl := Option.some_inj.mp hentry
    exact List.ne_nil_of_length_pos hcount
  · intro h
    refine ⟨ctx.handlers_le, fun i hi => ?_, ?_⟩
    · refine ⟨_, ctx.entryAt_arrays hi, ?_, ctx.handlers[i].modCb_le, ?_⟩
      · exact List.length_pos_of_ne_nil (h _ (List.getElem_mem hi))
      · intro j hj
        simp only [CmdModHandler.entry] at hj ⊢
        rw [List.getElem?_eq_getElem hj]
        rfl
    · intro i j e e' hi hj he he' hsame
      rw [ctx.entryAt_arrays hi] at he
      rw [ctx.entryAt_arrays hj] at he'
      obtain rfl := Option.some_inj.mp he
      obtain rfl := Option.some_inj.mp he'
      exact ctx.eq_of_module_eq hi hj hsame

theorem CmdContext.halfAdds_arrays_iff (ctx : CmdContext Cb UserData)
    (r : Registration Cb UserData) :
    ctx.arrays.HalfAdds r ↔ ctx.HalfAdds r := by
  have hcount : ctx.arrays.count = ctx.handlers.length := rfl
  unfold CmdContextArrays.HalfAdds HalfAdds
  rw [hcount, ctx.findEntry_arrays]
  simp

/-- The arrays of a registry whose entries all have a table. -/
def ShowsFilled (s : Option (CmdContextArrays Cb UserData)) : Prop :=
  ∃ ctx : CmdContext Cb UserData, s = some ctx.arrays ∧ ctx.Filled

/-- On such a registry a call keeps the integrity exactly if it adds a whole
module, and then it leaves such a registry. -/
theorem keepsIntegrity_iff {s : Option (CmdContextArrays Cb UserData)}
    (h : ShowsFilled s) (r : Registration Cb UserData) :
    (CmdContextArrays.KeepsIntegrity s r ↔ CmdContextArrays.AddsWhole s r) ∧
      (CmdContextArrays.AddsWhole s r →
        ShowsFilled (CmdContextArrays.machine.step s r)) := by
  obtain ⟨ctx, rfl, hfilled⟩ := h
  have hadd := ctx.arrays_cmdHandlerAdd r
  have hstep : CmdContextArrays.machine.step (some ctx.arrays) r =
      some (cmdHandlerAdd ctx r).2.arrays := by
    simp [CmdContextArrays.machine, hadd]
  have hkeeps : CmdContextArrays.KeepsIntegrity (some ctx.arrays) r ↔
      (cmdHandlerAdd ctx r).2.Filled ∧ ((cmdHandlerAdd ctx r).1 = -1 →
        (cmdHandlerAdd ctx r).2.arrays = ctx.arrays) := by
    simp [CmdContextArrays.KeepsIntegrity, hadd, sound_arrays_iff]
  have hwhole : CmdContextArrays.AddsWhole (some ctx.arrays) r ↔
      ¬ctx.HalfAdds r := by
    simp [CmdContextArrays.AddsWhole, halfAdds_arrays_iff]
  rw [hkeeps, hwhole, hstep]
  rcases cmdHandlerAdd_cases ctx r with
    ⟨hhalf, hret, hcount⟩ | ⟨hnot, hsame⟩ | ⟨hnot, hret, hnext⟩
  · refine ⟨iff_of_false (fun hkeep => ?_) (not_not.mpr hhalf),
      fun hnot => absurd hhalf hnot⟩
    have hchanged := congrArg CmdContextArrays.count (hkeep.2 hret)
    simp only [arrays, hcount] at hchanged
    omega
  · rw [hsame]
    exact ⟨iff_of_true ⟨hfilled, fun _ => rfl⟩ hnot,
      fun _ => ⟨ctx, rfl, hfilled⟩⟩
  · have hzero : (cmdHandlerAdd ctx r).1 ≠ -1 := by
      rw [hret]
      decide
    exact ⟨iff_of_true ⟨hnext hfilled, fun h => absurd h hzero⟩ hnot,
      fun _ => ⟨_, rfl, hnext hfilled⟩⟩

theorem registry_integrity_iff (rs : List (Registration Cb UserData)) :
    CmdContextArrays.machine.Along CmdContextArrays.KeepsIntegrity
        (some CmdContextArrays.init) rs ↔
      CmdContextArrays.machine.Along CmdContextArrays.AddsWhole
        (some CmdContextArrays.init) rs := by
  have hinit : ShowsFilled
      (some (CmdContextArrays.init : CmdContextArrays Cb UserData)) :=
    ⟨CmdContext.init, by rw [CmdContext.init_arrays], by
      simp [Filled, CmdContext.init]⟩
  constructor
  · intro h
    refine h.mono_of_invariant (I := ShowsFilled) ?_ ?_ hinit
    · intro s r hs hkeeps
      exact (keepsIntegrity_iff hs r).2 ((keepsIntegrity_iff hs r).1.mp hkeeps)
    · exact fun s r hs hkeeps => (keepsIntegrity_iff hs r).1.mp hkeeps
  · intro h
    refine h.mono_of_invariant (I := ShowsFilled) ?_ ?_ hinit
    · exact fun s r hs hwhole => (keepsIntegrity_iff hs r).2 hwhole
    · exact fun s r hs hwhole => (keepsIntegrity_iff hs r).1.mpr hwhole

/-- A module whose table cannot be allocated. -/
def tablelessRegistration : Registration Unit Unit where
  module := lit "ssr"
  commands := []
  description := lit "Relays"
  userData := ()
  moduleAllocated := true
  tableAllocated := false

/-- The failed call leaves an entry without a table. -/
theorem not_registry_integrity :
    ¬∀ rs : List (Registration Unit Unit),
      CmdContextArrays.machine.Along CmdContextArrays.KeepsIntegrity
        (some CmdContextArrays.init) rs := by
  intro h
  obtain ⟨⟨a, ha, result, hresult, -, hfailed⟩, -⟩ := h [tablelessRegistration]
  obtain rfl := Option.some_inj.mp ha
  have hadd : (CmdContextArrays.init).cmdHandlerAdd tablelessRegistration =
      some (-1, (CmdContextArrays.init).link (lit "ssr")) := rfl
  rw [hadd] at hresult
  obtain rfl := Option.some_inj.mp hresult
  have hcount := congrArg CmdContextArrays.count (hfailed rfl)
  contradiction

end Herak.Commands
