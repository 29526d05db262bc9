import Herak.Cfg.Store

/-!
# Reset of the configuration

`cfgs_reset_all` opens the directory of the parameters anew in every round and
removes the first entry that it reads.  The first entry of a directory is the
directory itself.
-/

namespace Herak.Cfg

open CString

/-- The name of a file: not one of the two entries that every directory has. -/
structure FileName where
  name : CStr
  ne_dot : name ≠ lit "."
  ne_dots : name ≠ lit ".."
  deriving DecidableEq

/-- The directory of the parameters with its files, if there is one, and the
handles of directories that are open. -/
structure CfgFlash where
  dir : Option (List FileName)
  openDirs : ℕ

namespace CfgFlash

/-- The files of the configuration. -/
def files (f : CfgFlash) : List FileName :=
  f.dir.getD []

/-- What the reader of the directory yields. -/
def entries (files : List FileName) : List CStr :=
  [lit ".", lit ".."] ++ files.map (·.name)

/-- `pico_remove`; the two entries of every directory are not removed. -/
def picoRemove (f : CfgFlash) (path : CStr) : CfgFlash :=
  { f with dir := f.dir.map (·.filter fun file => cfgPath file.name ≠ path) }

/-- A round of the loop of `cfgs_reset_all`, and whether it is the last one. -/
def resetRound (f : CfgFlash) : Bool × CfgFlash :=
  match f.dir with
  | none => (true, f)
  | some files =>
      let f := { f with openDirs := f.openDirs + 1 }
      match entries files with
      | [] => (true, f)
      | name :: _ =>
          let f := f.picoRemove (cfgPath name)
          (false, { f with openDirs := f.openDirs - 1 })

/-- `cfgs_reset_all` in at most `rounds` rounds. -/
def cfgsResetAll : ℕ → CfgFlash → Option CfgFlash
  | 0, _ => none
  | rounds + 1, f =>
      if f.resetRound.1 then some f.resetRound.2
      else cfgsResetAll rounds f.resetRound.2

/-- What is asked of the reset: it ends, and no file and no open handle is
left. -/
def ResetRight (f : CfgFlash) : Prop :=
  ∃ rounds f', cfgsResetAll rounds f = some f' ∧ f'.files = [] ∧
    f'.openDirs = f.openDirs

/-- The path of the directory itself is not the path of a file. -/
theorem cfgPath_ne_dot (file : FileName) :
    cfgPath file.name ≠ cfgPath (lit ".") := by
  have hprefix : (cfgDir ++ lit "/").length = 12 := by decide +kernel
  have hbuff : buffSize - 1 = 12 + 287 := rfl
  have hsplit : ∀ name : CStr,
      cfgPath name = (cfgDir ++ lit "/") ++ name.take 287 := by
    intro name
    rw [cfgPath, snprintf, hbuff, ← hprefix, List.take_length_add_append]
  intro heq
  rw [hsplit, hsplit] at heq
  have htake := List.append_cancel_left heq
  have hdot : (lit ".").take 287 = lit "." := by decide +kernel
  have hlen := congrArg List.length htake
  rw [hdot, List.length_take] at hlen
  have hone : (lit ".").length = 1 := by decide +kernel
  rw [List.take_of_length_le (by omega), hdot] at htake
  exact file.ne_dot htake

/-- A round in an existing directory changes nothing. -/
theorem resetRound_of_some {f : CfgFlash} {files : List FileName}
    (h : f.dir = some files) : f.resetRound = (false, f) := by
  obtain ⟨dir, openDirs⟩ := f
  obtain rfl : dir = some files := h
  have hkeep : files.filter
      (fun file => cfgPath file.name ≠ cfgPath (lit ".")) = files := by
    rw [List.filter_eq_self]
    intro file _
    exact decide_eq_true (cfgPath_ne_dot file)
  have hremove : (CfgFlash.picoRemove ⟨some files, openDirs + 1⟩
      (cfgPath (lit "."))) = ⟨some files, openDirs + 1⟩ := by
    rw [picoRemove, Option.map_some, hkeep]
  change (false, _) = _
  rw [hremove]
  rfl

theorem cfgsResetAll_of_some {f : CfgFlash} {files : List FileName}
    (h : f.dir = some files) (rounds : ℕ) : cfgsResetAll rounds f = none := by
  induction rounds with
  | zero => rfl
  | succ rounds ih =>
      rw [cfgsResetAll, resetRound_of_some h]
      exact ih

/-- The reset ends only where there is no directory. -/
theorem resetRight_iff (f : CfgFlash) : f.ResetRight ↔ f.dir = none := by
  constructor
  · rintro ⟨rounds, f', hrun, -⟩
    cases hdir : f.dir with
    | none => rfl
    | some files =>
        rw [cfgsResetAll_of_some hdir] at hrun
        cases hrun
  · intro hdir
    have hround : f.resetRound = (true, f) := by
      rw [resetRound, hdir]
    refine ⟨1, f, ?_, ?_, rfl⟩
    · rw [cfgsResetAll, hround]
      rfl
    · rw [files, hdir]
      rfl

/-- A directory with one file is never emptied. -/
theorem not_resetRight :
    ¬∀ files : List FileName, ResetRight ⟨some files, 0⟩ := by
  intro h
  obtain ⟨rounds, f', hrun, -⟩ :=
    h [⟨lit "HOST", by decide +kernel, by decide +kernel⟩]
  rw [cfgsResetAll_of_some rfl] at hrun
  cases hrun

end CfgFlash

end Herak.Cfg
