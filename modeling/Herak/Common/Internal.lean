import Herak.Support.CFloat

/-!
# What the modules share

Types of `common_internal.h`, and `sys_strtof` of `sys_utils.c`.
-/

namespace Herak

open BinaryFloat CFloat CString

/-- `ip_resolve_state_t` -/
inductive IpResolveState
  | notResolved
  | resolving
  | resolved
  deriving DecidableEq

/-- `ip_addr_t` -/
abbrev IpAddr := UInt32

/-- `sys_strtof` -/
def sysStrtof (s : CStr) : Option CFloat32 :=
  let result := strtof s
  if result.1.eq (Value.zero _) && result.2 = s then none
  else
    match result.1 with
    | .nan => none
    | .inf _ => none
    | v => some v

def IsFinite (x : CFloat32) : Prop :=
  ∃ units h, x = .finite units h

theorem sysStrtof_finite {s : CStr} {v : CFloat32}
    (h : sysStrtof s = some v) : IsFinite v ∧ v = (strtof s).1 := by
  simp only [sysStrtof] at h
  split at h
  · cases h
  · split at h
    · cases h
    · cases h
    next hnan hinf =>
      have hv := Option.some.inj h
      refine ⟨?_, hv.symm⟩
      cases hvalue : (strtof s).1 with
      | nan => exact (hnan hvalue).elim
      | inf negative => exact (hinf negative hvalue).elim
      | finite units hrep => exact ⟨units, hrep, by rw [← hv, hvalue]⟩

end Herak
