import Mathlib.Data.Int.Order.Basic
import Mathlib.Tactic.Ring
import Mathlib.Data.List.Chain
import Herak.Wifi.Config

/-!
# WiFi networks in rotation

The main loop asks the driver for one network at a time.  A request that fails,
or is not answered in 30 seconds, and a link that goes down pass the turn to the
next network.
-/

namespace Herak.Wifi

open CString

/-- `CONNECT_TIMEOUT_MS` -/
def connectTimeoutMs : ℤ := 30000

/-- `struct wifi_context_t`; `connect_time` is in microseconds, and the list has
the entries of `all_nets` that are not null. -/
structure WifiContext where
  connectTime : ℤ
  connectInProgress : Bool
  netId : ℤ
  allNets : List WifiNet

/-- `sys_wifi_init` -/
def sysWifiInit (allNets : List WifiNet) : WifiContext where
  connectTime := 0
  connectInProgress := false
  netId := -1
  allNets := allNets

/-- What a call asks of the driver and of the other modules. -/
inductive WifiAction
  | connect (net : ℕ) (ssid : CStr) (pass : Option CStr) (ret time : ℤ)
  | reconnect (net : ℕ)

/-- What a call reads: whether the link is up, the result of the driver, and the
clock in microseconds. -/
structure WifiInput where
  up : Bool
  ret : ℤ
  now : ℤ

/-- An entry of `all_nets` that exists and is not null. -/
def WifiContext.net? (ctx : WifiContext) (i : ℤ) : Option WifiNet :=
  if 0 ≤ i ∧ i < maxWifiNets then ctx.allNets[i.toNat]? else none

def WifiContext.setConnected (ctx : WifiContext) (value : Bool) : List WifiNet :=
  ctx.allNets.modify ctx.netId.toNat fun net => { net with connected := value }

/-- `sys_wifi_connect`; nothing when it uses an entry of `all_nets` that is not
there. -/
def sysWifiConnect (ctx : WifiContext) (input : WifiInput) :
    Option (WifiContext × List WifiAction) :=
  if input.up then
    match ctx.net? ctx.netId with
    | none => none
    | some _ =>
        some ({ ctx with
            connectInProgress := false
            allNets := ctx.setConnected true },
          if ctx.connectInProgress then [.reconnect ctx.netId.toNat] else [])
  else if ctx.connectInProgress then
    if ctx.connectTime - input.now < 0 then
      some ({ ctx with connectInProgress := false }, [])
    else some (ctx, [])
  else
    let allNets :=
      if (ctx.net? ctx.netId).isSome then ctx.setConnected false else ctx.allNets
    let netId := if (ctx.net? (ctx.netId + 1)).isSome then ctx.netId + 1 else 0
    match ctx.net? netId with
    | none => none
    | some net =>
        some (if input.ret ≠ 0 then { ctx with netId, allNets }
          else
            { connectTime := input.now + connectTimeoutMs * 1000
              connectInProgress := true, netId, allNets },
          [.connect netId.toNat net.ssid net.pass input.ret input.now])

/-- A call, and the actions of all calls. -/
def wifiStep (s : WifiContext × List WifiAction) (input : WifiInput) :
    Option (WifiContext × List WifiAction) :=
  (sysWifiConnect s.1 input).map fun r => (r.1, s.2 ++ r.2)

def wifiRun (s : WifiContext × List WifiAction) (inputs : List WifiInput) :
    Option (WifiContext × List WifiAction) :=
  inputs.foldlM wifiStep s

/-! ## What the actions of a run look like -/

/-- The networks that are asked for. -/
def requested : List WifiAction → List ℕ
  | [] => []
  | .connect net _ _ _ _ :: rest => net :: requested rest
  | .reconnect _ :: rest => requested rest

/-- A request names the network of its number. -/
def WifiAction.Fits (nets : List WifiNet) : WifiAction → Prop
  | .connect net ssid pass _ _ =>
      ∃ entry, nets[net]? = some entry ∧ entry.ssid = ssid ∧ entry.pass = pass
  | .reconnect net => net < nets.length

/-- After a request that the driver takes, the next one comes when the link was
up, or 30 seconds are over.  The other modules reconnect right after a request
that the driver took, once. -/
def Follows : WifiAction → WifiAction → Prop
  | .connect _ _ _ ret time, .connect _ _ _ _ time' =>
      ret = 0 → time + connectTimeoutMs * 1000 < time'
  | .connect net _ _ ret _, .reconnect net' => ret = 0 ∧ net' = net
  | .reconnect _, .connect _ _ _ _ _ => True
  | .reconnect _, .reconnect _ => False

/-- What is left of the last action. -/
def Pending (ctx : WifiContext) (now : ℤ) : Option WifiAction → Prop
  | none => ctx.connectInProgress = false
  | some (.connect net _ _ ret time) =>
      ctx.netId = net ∧
        if ctx.connectInProgress then
          ret = 0 ∧ ctx.connectTime = time + connectTimeoutMs * 1000
        else ret = 0 → time + connectTimeoutMs * 1000 < now
  | some (.reconnect net) => ctx.netId = net ∧ ctx.connectInProgress = false

/-- The networks after a call: those of the configuration, of which the current
one is flagged if the link was up. -/
structure Flagged (nets : List WifiNet) (up : Bool) (ctx : WifiContext) : Prop where
  same : ctx.allNets.map (fun net => (net.ssid, net.pass)) =
    nets.map fun net => (net.ssid, net.pass)
  flags : ∀ (i : ℕ) (net : WifiNet), ctx.allNets[i]? = some net →
    (net.connected = true ↔ up = true ∧ ctx.netId = i)
  calm : up = true → ctx.connectInProgress = false

/-- The actions up to a call. -/
structure Traced (nets : List WifiNet) (now : ℤ)
    (s : WifiContext × List WifiAction) : Prop where
  cursor : s.1.netId =
    if requested s.2 = [] then (-1 : ℤ)
    else (((requested s.2).length - 1) % nets.length : ℕ)
  start : requested s.2 = [] → s.2 = []
  rotation : requested s.2 =
    (List.range (requested s.2).length).map (· % nets.length)
  chain : s.2.IsChain Follows
  fits : ∀ a ∈ s.2, a.Fits nets
  pending : Pending s.1 now s.2.getLast?

theorem requested_append (as bs : List WifiAction) :
    requested (as ++ bs) = requested as ++ requested bs := by
  induction as with
  | nil => rfl
  | cons a as ih =>
      cases a with
      | connect => rw [List.cons_append, requested, ih, requested, List.cons_append]
      | reconnect => rw [List.cons_append, requested, ih, requested]

theorem getElem?_setConnected (ctx : WifiContext) (value : Bool) (i : ℕ) :
    (ctx.setConnected value)[i]? = ctx.allNets[i]?.map fun net =>
      if ctx.netId.toNat = i then { net with connected := value } else net :=
  List.getElem?_modify _ _ _ _

theorem map_setConnected {β : Type} (ctx : WifiContext) (value : Bool)
    (f : WifiNet → β) (hf : ∀ net, f { net with connected := value } = f net) :
    (ctx.setConnected value).map f = ctx.allNets.map f := by
  apply List.ext_getElem?
  intro i
  rw [List.getElem?_map, List.getElem?_map, getElem?_setConnected]
  cases ctx.allNets[i]? with
  | none => rfl
  | some net =>
      simp only [Option.map_some]
      split
      · rw [hf]
      · rfl

theorem net?_eq_some {ctx : WifiContext} {i : ℕ}
    (hlen : ctx.allNets.length ≤ maxWifiNets) (hi : i < ctx.allNets.length) :
    ctx.net? i = some ctx.allNets[i] := by
  rw [WifiContext.net?, if_pos ⟨Int.natCast_nonneg i, by omega⟩, Int.toNat_natCast,
    List.getElem?_eq_getElem hi]

theorem net?_isSome_iff {ctx : WifiContext} {i : ℕ}
    (hlen : ctx.allNets.length ≤ maxWifiNets) :
    (ctx.net? i).isSome ↔ i < ctx.allNets.length := by
  constructor
  · intro h
    rw [WifiContext.net?] at h
    split at h
    · rwa [Int.toNat_natCast, isSome_getElem?] at h
    · cases h
  · intro hi
    rw [net?_eq_some hlen hi]
    rfl

variable {nets : List WifiNet} {up : Bool} {now : ℤ} {ctx : WifiContext}
  {s : WifiContext × List WifiAction} {input : WifiInput}

theorem Flagged.length_eq (h : Flagged nets up ctx) :
    ctx.allNets.length = nets.length := by
  have := congrArg List.length h.same
  rwa [List.length_map, List.length_map] at this

theorem Flagged.getElem?_eq (h : Flagged nets up ctx) {i : ℕ} {net : WifiNet}
    (hnet : ctx.allNets[i]? = some net) :
    ∃ entry, nets[i]? = some entry ∧ entry.ssid = net.ssid ∧
      entry.pass = net.pass := by
  have hsame := congrArg (fun l => l[i]?) h.same
  rw [List.getElem?_map, List.getElem?_map, hnet] at hsame
  cases hentry : nets[i]? with
  | none =>
      rw [hentry] at hsame
      cases hsame
  | some entry =>
      rw [hentry] at hsame
      have hpair := Option.some.inj hsame
      exact ⟨entry, rfl, (congrArg Prod.fst hpair).symm,
        (congrArg Prod.snd hpair).symm⟩

/-- The flag of the current network is set or cleared. -/
theorem Flagged.set (h : Flagged nets up ctx) {k : ℕ} (hk : ctx.netId = k)
    {ctx' : WifiContext} {value : Bool}
    (hnets : ctx'.allNets = ctx.setConnected value)
    (hcursor : value = true → ctx'.netId = k)
    (hcalm : value = true → ctx'.connectInProgress = false) :
    Flagged nets value ctx' := by
  refine ⟨?_, fun i net hnet => ?_, hcalm⟩
  · rw [hnets]
    exact (map_setConnected _ _ _ fun _ => rfl).trans h.same
  · rw [hnets, getElem?_setConnected] at hnet
    cases hold : ctx.allNets[i]? with
    | none =>
        rw [hold] at hnet
        cases hnet
    | some old =>
        rw [hold] at hnet
        cases hnet
        have hflag := h.flags i old hold
        split
        next hcur =>
          dsimp only
          refine ⟨fun hvalue => ⟨hvalue, ?_⟩, And.left⟩
          rw [hcursor hvalue]
          omega
        next hother =>
          have hclear : ¬old.connected = true := fun hset => by
            have := (hflag.mp hset).2
            omega
          refine iff_of_false hclear fun hset => ?_
          have := hcursor hset.1
          omega

theorem Traced.exists_cursor (h : Traced nets now s) (hne : nets ≠ [])
    (hsome : s.2 ≠ []) :
    ∃ k, s.1.netId = (k : ℕ) ∧ k < nets.length ∧
      k = ((requested s.2).length - 1) % nets.length := by
  refine ⟨_, ?_, Nat.mod_lt _ (List.length_pos_of_ne_nil hne), rfl⟩
  rw [h.cursor, if_neg fun hnone => hsome (h.start hnone)]

/-- A call without an action. -/
theorem Traced.keep (h : Traced nets now s) {ctx' : WifiContext} {now' : ℤ}
    (hcursor : ctx'.netId = s.1.netId)
    (hpending : Pending ctx' now' s.2.getLast?) : Traced nets now' (ctx', s.2) :=
  ⟨hcursor.trans h.cursor, h.start, h.rotation, h.chain, h.fits, hpending⟩

theorem Traced.reconnect (h : Traced nets now s) {k : ℕ} (hk : s.1.netId = k)
    (hlt : k < nets.length) (hprogress : s.1.connectInProgress = true)
    {ctx' : WifiContext} {now' : ℤ} (hcursor : ctx'.netId = s.1.netId)
    (hcalm : ctx'.connectInProgress = false) :
    Traced nets now' (ctx', s.2 ++ [.reconnect k]) := by
  have hreq : requested (s.2 ++ [.reconnect k]) = requested s.2 := by
    rw [requested_append]
    exact List.append_nil _
  have hpending := h.pending
  refine ⟨?_, ?_, ?_, ?_, ?_, ?_⟩
  · rw [hreq]
    exact hcursor.trans h.cursor
  · intro hnone
    rw [hreq] at hnone
    rw [h.start hnone] at hpending
    exact (Bool.false_ne_true (hpending.symm.trans hprogress)).elim
  · rw [hreq]
    exact h.rotation
  · refine List.isChain_append.mpr ⟨h.chain, List.isChain_singleton _, ?_⟩
    rintro a ha b hb
    obtain rfl := Option.some.inj hb
    rw [Option.mem_def.mp ha] at hpending
    cases a with
    | connect net ssid pass ret time =>
        obtain ⟨hnet, hopen⟩ := hpending
        rw [if_pos hprogress] at hopen
        exact ⟨hopen.1, by omega⟩
    | reconnect net =>
        exact (Bool.false_ne_true (hpending.2.symm.trans hprogress)).elim
  · intro a ha
    rcases List.mem_append.mp ha with ha | ha
    · exact h.fits a ha
    · obtain rfl := List.mem_singleton.mp ha
      exact hlt
  · rw [List.getLast?_concat]
    exact ⟨hcursor.trans hk, hcalm⟩

theorem Traced.request (h : Traced nets now s) {now' : ℤ} (hnow : now ≤ now')
    (hcalm : s.1.connectInProgress = false) {k : ℕ}
    (hk : k = (requested s.2).length % nets.length) {ssid : CStr}
    {pass : Option CStr} {ret : ℤ}
    (hfits : (WifiAction.connect k ssid pass ret now').Fits nets)
    {ctx' : WifiContext} (hcursor : ctx'.netId = k)
    (hopen : if ctx'.connectInProgress then
        ret = 0 ∧ ctx'.connectTime = now' + connectTimeoutMs * 1000
      else ret ≠ 0) :
    Traced nets now' (ctx', s.2 ++ [.connect k ssid pass ret now']) := by
  have hreq : requested (s.2 ++ [.connect k ssid pass ret now']) =
      requested s.2 ++ [k] := requested_append _ _
  have hpending := h.pending
  refine ⟨?_, ?_, ?_, ?_, ?_, ?_⟩
  · rw [hreq, if_neg (List.append_ne_nil_of_right_ne_nil _ (List.cons_ne_nil _ _)),
      List.length_append, List.length_singleton, Nat.add_sub_cancel, ← hk]
    exact hcursor
  · intro hnone
    rw [hreq] at hnone
    exact (List.append_ne_nil_of_right_ne_nil _ (List.cons_ne_nil _ _) hnone).elim
  · rw [hreq, List.length_append, List.length_singleton, List.range_succ,
      List.map_append, ← h.rotation, hk]
    rfl
  · refine List.isChain_append.mpr ⟨h.chain, List.isChain_singleton _, ?_⟩
    rintro a ha b hb
    obtain rfl := Option.some.inj hb
    rw [Option.mem_def.mp ha] at hpending
    cases a with
    | connect net ssid pass ret time =>
        have hopen := hpending.2
        rw [hcalm, if_neg Bool.false_ne_true] at hopen
        exact fun hret => (hopen hret).trans_le hnow
    | reconnect net => trivial
  · intro a ha
    rcases List.mem_append.mp ha with ha | ha
    · exact h.fits a ha
    · obtain rfl := List.mem_singleton.mp ha
      exact hfits
  · rw [List.getLast?_concat]
    refine ⟨hcursor, ?_⟩
    split at hopen
    next hprogress =>
      rw [if_pos hprogress]
      exact hopen
    next hprogress =>
      rw [if_neg hprogress]
      exact fun hret => (hopen hret).elim

/-! ## Steps -/

/-- What every call of a run keeps, and the next one relies on. -/
def Rotating (nets : List WifiNet) (up : Bool) (now : ℤ)
    (s : WifiContext × List WifiAction) : Prop :=
  Flagged nets up s.1 ∧ Traced nets now s

theorem step_linkUp (h : Rotating nets up now s) (hne : nets ≠ [])
    (hlen : nets.length ≤ maxWifiNets) (hsome : s.2 ≠ []) (hnow : now ≤ input.now)
    (hup : input.up = true) :
    ∃ s', wifiStep s input = some s' ∧ Rotating nets true input.now s' ∧
      s'.2 ≠ [] := by
  obtain ⟨hflagged, htraced⟩ := h
  obtain ⟨k, hk, hlt, -⟩ := htraced.exists_cursor hne hsome
  have hlength := hflagged.length_eq
  have hnet : s.1.net? s.1.netId = some s.1.allNets[k] := by
    rw [hk]
    exact net?_eq_some (by omega) (by omega)
  have hnum : s.1.netId.toNat = k := by omega
  let ctx : WifiContext :=
    { s.1 with connectInProgress := false, allNets := s.1.setConnected true }
  have hset : Flagged nets true ctx :=
    hflagged.set hk rfl (fun _ => hk) fun _ => rfl
  cases hprogress : s.1.connectInProgress with
  | true =>
      refine ⟨(ctx, s.2 ++ [.reconnect k]), ?_, ⟨hset, ?_⟩, ?_⟩
      · rw [wifiStep, sysWifiConnect, if_pos hup, hnet]
        simp only [hprogress, if_true, hnum, Option.map_some]
        rfl
      · exact htraced.reconnect hk hlt hprogress rfl rfl
      · exact List.append_ne_nil_of_right_ne_nil _ (List.cons_ne_nil _ _)
  | false =>
      refine ⟨(ctx, s.2), ?_, ⟨hset, ?_⟩, hsome⟩
      · rw [wifiStep, sysWifiConnect, if_pos hup, hnet]
        simp only [hprogress, Bool.false_eq_true, if_false, Option.map_some,
          List.append_nil]
        rfl
      · refine htraced.keep rfl ?_
        have hpending := htraced.pending
        cases hlast : s.2.getLast? with
        | none => rfl
        | some a =>
            rw [hlast] at hpending
            cases a with
            | connect net ssid pass ret time =>
                obtain ⟨hcur, hopen⟩ := hpending
                rw [hprogress, if_neg Bool.false_ne_true] at hopen
                exact ⟨hcur, fun hret => (hopen hret).trans_le hnow⟩
            | reconnect net => exact ⟨hpending.1, rfl⟩

theorem wifiStep_late (hup : input.up = false)
    (hprogress : s.1.connectInProgress = true)
    (hlate : s.1.connectTime - input.now < 0) :
    wifiStep s input = some ({ s.1 with connectInProgress := false }, s.2) := by
  rw [wifiStep, sysWifiConnect, hup, if_neg Bool.false_ne_true, if_pos hprogress,
    if_pos hlate, Option.map_some, List.append_nil]

theorem wifiStep_wait (hup : input.up = false)
    (hprogress : s.1.connectInProgress = true)
    (hwait : ¬s.1.connectTime - input.now < 0) : wifiStep s input = some s := by
  rw [wifiStep, sysWifiConnect, hup, if_neg Bool.false_ne_true, if_pos hprogress,
    if_neg hwait, Option.map_some, List.append_nil]

theorem step_waiting (h : Rotating nets up now s) (hup : input.up = false)
    (hprogress : s.1.connectInProgress = true) :
    ∃ s', wifiStep s input = some s' ∧ Rotating nets false input.now s' ∧
      s'.2 ≠ [] := by
  obtain ⟨hflagged, htraced⟩ := h
  have hpending := htraced.pending
  have hdark : up = false := by
    cases hlit : up with
    | false => rfl
    | true =>
        have hcalm := hflagged.calm hlit
        exact (Bool.false_ne_true (hcalm.symm.trans hprogress)).elim
  have hflags : ∀ ctx : WifiContext, ctx.allNets = s.1.allNets →
      ctx.netId = s.1.netId → Flagged nets false ctx := by
    intro ctx hnets hcursor
    refine ⟨by rw [hnets]; exact hflagged.same, fun i net hnet => ?_, nofun⟩
    rw [hnets] at hnet
    rw [hcursor, hflagged.flags i net hnet, hdark]
  -- The last action is a request that the driver took.
  obtain ⟨net, ssid, pass, time, hlast, hnet, htime⟩ :
      ∃ net ssid pass time, s.2.getLast? = some (.connect net ssid pass 0 time) ∧
        s.1.netId = (net : ℕ) ∧
          s.1.connectTime = time + connectTimeoutMs * 1000 := by
    cases hlast : s.2.getLast? with
    | none =>
        rw [hlast] at hpending
        exact (Bool.false_ne_true (hpending.symm.trans hprogress)).elim
    | some a =>
        rw [hlast] at hpending
        cases a with
        | connect net ssid pass ret time =>
            obtain ⟨hnet, hopen⟩ := hpending
            rw [if_pos hprogress] at hopen
            obtain ⟨rfl, htime⟩ := hopen
            exact ⟨net, ssid, pass, time, rfl, hnet, htime⟩
        | reconnect net =>
            exact (Bool.false_ne_true (hpending.2.symm.trans hprogress)).elim
  have hsome : s.2 ≠ [] := by
    intro hnone
    rw [hnone] at hlast
    cases hlast
  by_cases hlate : s.1.connectTime - input.now < 0
  · refine ⟨_, wifiStep_late hup hprogress hlate,
      ⟨hflags _ rfl rfl, htraced.keep rfl ?_⟩, hsome⟩
    rw [hlast]
    refine ⟨hnet, ?_⟩
    rw [if_neg Bool.false_ne_true]
    exact fun _ => by omega
  · refine ⟨_, wifiStep_wait hup hprogress hlate,
      ⟨hflags _ rfl rfl, htraced.keep rfl ?_⟩, hsome⟩
    rw [hlast]
    refine ⟨hnet, ?_⟩
    rw [if_pos hprogress]
    exact ⟨rfl, htime⟩

/-- The network after the current one, and the first one after the last one. -/
theorem next_cursor (h : Rotating nets up now s) (hne : nets ≠ [])
    (hlen : nets.length ≤ maxWifiNets) :
    (if (s.1.net? (s.1.netId + 1)).isSome then s.1.netId + 1 else 0) =
      ((requested s.2).length % nets.length : ℕ) := by
  obtain ⟨hflagged, htraced⟩ := h
  have hlength := hflagged.length_eq
  have hpos := List.length_pos_of_ne_nil hne
  have hcursor := htraced.cursor
  by_cases hnone : requested s.2 = []
  · rw [if_pos hnone] at hcursor
    rw [hcursor, hnone, List.length_nil, Nat.zero_mod]
    split
    · rfl
    · rfl
  · rw [if_neg hnone] at hcursor
    obtain ⟨k, hk⟩ : ∃ k, (requested s.2).length = k + 1 :=
      ⟨_, (Nat.sub_add_cancel (List.length_pos_of_ne_nil hnone)).symm⟩
    rw [hk, Nat.add_sub_cancel] at hcursor
    have hsucc : s.1.netId + 1 = ((k % nets.length + 1 : ℕ) : ℤ) := by
      rw [hcursor]
      rfl
    have hlt := Nat.mod_lt k hpos
    rw [hk, hsucc, ← Nat.mod_add_mod]
    by_cases hlast : k % nets.length + 1 < nets.length
    · have hisSome : (s.1.net? ((k % nets.length + 1 : ℕ) : ℤ)).isSome :=
        (net?_isSome_iff (by omega)).mpr (by omega)
      rw [if_pos hisSome, Nat.mod_eq_of_lt hlast]
    · have hisSome : ¬(s.1.net? ((k % nets.length + 1 : ℕ) : ℤ)).isSome := by
        rw [net?_isSome_iff (by omega)]
        omega
      rw [if_neg hisSome, show k % nets.length + 1 = nets.length by omega,
        Nat.mod_self]
      rfl

theorem step_request (h : Rotating nets up now s) (hne : nets ≠ [])
    (hlen : nets.length ≤ maxWifiNets) (hnow : now ≤ input.now)
    (hup : input.up = false) (hcalm : s.1.connectInProgress = false) :
    ∃ s', wifiStep s input = some s' ∧ Rotating nets false input.now s' ∧
      (∃ k ssid pass, s'.2 =
        s.2 ++ [.connect k ssid pass input.ret input.now]) ∧
        (s'.1.connectInProgress = true →
          s'.1.connectTime = input.now + connectTimeoutMs * 1000) := by
  have hnext := next_cursor h hne hlen
  obtain ⟨hflagged, htraced⟩ := h
  have hlength := hflagged.length_eq
  have hdown : ¬input.up = true := by
    rw [hup]
    exact Bool.false_ne_true
  have hidle : ¬s.1.connectInProgress = true := by
    rw [hcalm]
    exact Bool.false_ne_true
  obtain ⟨k, hk⟩ : ∃ k, (requested s.2).length % nets.length = k := ⟨_, rfl⟩
  have hlt : k < nets.length := by
    rw [← hk]
    exact Nat.mod_lt _ (List.length_pos_of_ne_nil hne)
  rw [hk] at hnext
  have hnet : s.1.net? k = some s.1.allNets[k] :=
    net?_eq_some (by omega) (by omega)
  have hentry := hflagged.getElem?_eq (List.getElem?_eq_getElem
    (show k < s.1.allNets.length by omega))
  obtain ⟨allNets, hnets⟩ : ∃ allNets, (if (s.1.net? s.1.netId).isSome then
    s.1.setConnected false else s.1.allNets) = allNets := ⟨_, rfl⟩
  have hflags : ∀ ctx : WifiContext, ctx.allNets = allNets →
      Flagged nets false ctx := by
    intro ctx hctx
    by_cases hnone : s.2 = []
    · have hcursor := htraced.cursor
      rw [hnone, if_pos (show requested [] = [] from rfl)] at hcursor
      rw [hcursor, show s.1.net? (-1) = none from rfl, Option.isSome_none,
        if_neg Bool.false_ne_true] at hnets
      refine ⟨by rw [hctx, ← hnets]; exact hflagged.same, fun i net hnet => ?_,
        nofun⟩
      rw [hctx, ← hnets] at hnet
      rw [hflagged.flags i net hnet, hcursor]
      exact iff_of_false (fun hset => by have := hset.2; omega) nofun
    · obtain ⟨j, hj, hjlt, -⟩ := htraced.exists_cursor hne hnone
      have hisSome : (s.1.net? s.1.netId).isSome := by
        rw [hj]
        exact (net?_isSome_iff (by omega)).mpr (by omega)
      rw [if_pos hisSome] at hnets
      exact hflagged.set hj (hctx.trans hnets.symm) nofun nofun
  have hstep : wifiStep s input = some
      (if input.ret ≠ 0 then { s.1 with netId := k, allNets }
        else ⟨input.now + connectTimeoutMs * 1000, true, k, allNets⟩,
      s.2 ++ [.connect k s.1.allNets[k].ssid s.1.allNets[k].pass input.ret
        input.now]) := by
    rw [wifiStep, sysWifiConnect, if_neg hdown, if_neg hidle]
    simp only [hnext, hnets, hnet, Option.map_some, Int.toNat_natCast]
  refine ⟨_, hstep, ⟨hflags _ ?_, ?_⟩, ⟨_, _, _, rfl⟩, ?_⟩
  · split
    · rfl
    · rfl
  · refine htraced.request hnow hcalm hk.symm hentry ?_ ?_
    · split
      · rfl
      · rfl
    · by_cases hret : input.ret = 0
      · rw [if_neg (not_not.mpr hret)]
        exact ⟨hret, rfl⟩
      · rw [if_pos hret, if_neg hidle]
        exact hret
  · split
    · exact fun hprogress => (hidle hprogress).elim
    · exact fun _ => rfl

theorem step_rotating (h : Rotating nets up now s) (hne : nets ≠ [])
    (hlen : nets.length ≤ maxWifiNets) (hnow : now ≤ input.now)
    (hlink : s.2 = [] → input.up = false) :
    ∃ s', wifiStep s input = some s' ∧ Rotating nets input.up input.now s' ∧
      s'.2 ≠ [] := by
  cases hup : input.up with
  | true =>
      refine step_linkUp h hne hlen (fun hnone => ?_) hnow hup
      exact Bool.false_ne_true ((hlink hnone).symm.trans hup)
  | false =>
      cases hprogress : s.1.connectInProgress with
      | true => exact step_waiting h hup hprogress
      | false =>
          obtain ⟨s', hstep, hrotating, ⟨k, ssid, pass, htrace⟩, -⟩ :=
            step_request h hne hlen hnow hup hprogress
          refine ⟨s', hstep, hrotating, ?_⟩
          rw [htrace]
          exact List.append_ne_nil_of_right_ne_nil _ (List.cons_ne_nil _ _)

/-! ## Runs -/

theorem wifiRun_cons (input : WifiInput) (inputs : List WifiInput) :
    wifiRun s (input :: inputs) =
      (wifiStep s input).bind fun s => wifiRun s inputs :=
  List.foldlM_cons

theorem run_rotating {inputs : List WifiInput} (h : Rotating nets up now s)
    (hne : nets ≠ []) (hlen : nets.length ≤ maxWifiNets)
    (hlink : s.2 = [] → ∀ input ∈ inputs.head?, input.up = false)
    (hnow : ∀ input ∈ inputs, now ≤ input.now)
    (hclock : inputs.Pairwise fun a b => a.now ≤ b.now) :
    ∃ s' now', wifiRun s inputs = some s' ∧
      Rotating nets ((inputs.getLast?.map WifiInput.up).getD up) now' s' := by
  induction inputs generalizing up now s with
  | nil => exact ⟨s, now, rfl, h⟩
  | cons input inputs ih =>
      obtain ⟨hhead, htail⟩ := List.pairwise_cons.mp hclock
      obtain ⟨s', hstep, hrotating, hsome⟩ := step_rotating h hne hlen
        (hnow input List.mem_cons_self) fun hnone => hlink hnone input rfl
      obtain ⟨s'', now'', hrun, hlast⟩ := ih hrotating
        (fun hnone => (hsome hnone).elim) hhead htail
      refine ⟨s'', now'', ?_, ?_⟩
      · rw [wifiRun_cons, hstep]
        exact hrun
      · rw [List.getLast?_cons, Option.map_some, Option.getD_some]
        rwa [Option.getD_map] at hlast

theorem rotating_init {nets : List WifiNet}
    (hfresh : ∀ net ∈ nets, net.connected = false) (now : ℤ) :
    Rotating nets false now (sysWifiInit nets, []) := by
  refine ⟨⟨rfl, fun i net hnet => ?_, nofun⟩,
    ⟨rfl, fun _ => rfl, rfl, List.isChain_nil, nofun, rfl⟩⟩
  rw [hfresh net (List.mem_of_getElem? hnet)]
  exact iff_of_false Bool.false_ne_true fun hset => Bool.false_ne_true hset.1

/-- In every run that does not begin with a link, each request goes to the
network after the one before.  It comes only after a request that failed or is
30 seconds old, or after a link, and the flags tell which network has a link. -/
theorem wifi_rotation {alloc : ℕ → Bool} {ssd pass : Option CStr}
    {nets : List WifiNet} (hcfg : getWifiCfg alloc ssd pass = .nets nets)
    {inputs : List WifiInput}
    (hlink : ∀ input ∈ inputs.head?, input.up = false)
    (hclock : inputs.Pairwise fun a b => a.now ≤ b.now) :
    ∃ ctx trace, wifiRun (sysWifiInit nets, []) inputs = some (ctx, trace) ∧
      requested trace =
        (List.range (requested trace).length).map (· % nets.length) ∧
      trace.IsChain Follows ∧ (∀ a ∈ trace, a.Fits nets) ∧
      ∀ last ∈ inputs.getLast?, ∀ (i : ℕ) (net : WifiNet),
        ctx.allNets[i]? = some net →
          (net.connected = true ↔ last.up = true ∧ ctx.netId = i) := by
  obtain ⟨hne, hlen, hfresh⟩ := getWifiCfg_nets hcfg
  obtain ⟨now, hnow⟩ : ∃ now : ℤ, ∀ input ∈ inputs, now ≤ input.now := by
    cases inputs with
    | nil => exact ⟨0, fun input hinput => (List.not_mem_nil hinput).elim⟩
    | cons input inputs =>
        refine ⟨input.now, fun input' hinput => ?_⟩
        rcases List.mem_cons.mp hinput with rfl | hinput
        · exact le_rfl
        · exact (List.pairwise_cons.mp hclock).1 input' hinput
  obtain ⟨⟨ctx, trace⟩, now', hrun, hflagged, htraced⟩ := run_rotating
    (rotating_init hfresh now) hne hlen (fun _ => hlink) hnow hclock
  refine ⟨ctx, trace, hrun, htraced.rotation, htraced.chain, htraced.fits,
    fun last hlast => ?_⟩
  rw [Option.mem_def.mp hlast] at hflagged
  exact hflagged.flags

/-- Two networks, of which only the first has a password. -/
theorem getWifiCfg_twoNets :
    getWifiCfg (fun _ => true) (some [65, 59, 66]) (some [67]) =
      .nets [⟨[65], some [67], false⟩, ⟨[66], none, false⟩] := by decide

/-- The first network is not reached in time, the request for the second one
fails, and a link comes up. -/
def twoNetsInputs : List WifiInput :=
  [⟨false, 0, 0⟩, ⟨false, 0, 30000001⟩, ⟨false, -1, 30000002⟩,
    ⟨true, 0, 30000003⟩]

theorem wifi_rotation_twoNets :
    ∃ ctx trace, wifiRun (sysWifiInit [⟨[65], some [67], false⟩,
        ⟨[66], none, false⟩], []) twoNetsInputs = some (ctx, trace) ∧
      requested trace = (List.range (requested trace).length).map (· % 2) ∧
      trace.IsChain Follows ∧
      (∀ a ∈ trace, a.Fits [⟨[65], some [67], false⟩, ⟨[66], none, false⟩]) ∧
      ∀ last ∈ twoNetsInputs.getLast?, ∀ (i : ℕ) (net : WifiNet),
        ctx.allNets[i]? = some net →
          (net.connected = true ↔ last.up = true ∧ ctx.netId = i) := by
  refine wifi_rotation getWifiCfg_twoNets ?_ (by decide)
  rintro input ⟨⟩
  rfl

/-! ## Networks out of reach -/

/-- While the link stays down, a request is at most 30 seconds and two calls
younger than the one before. -/
def Due (begin gap now : ℤ) (s : WifiContext × List WifiAction) : Prop :=
  ∃ time, time ≤ begin + ((requested s.2).length - 1) *
      (connectTimeoutMs * 1000 + 2 * gap) ∧
    if s.1.connectInProgress then
      s.1.connectTime = time + connectTimeoutMs * 1000 ∧ now ≤ s.1.connectTime
    else now ≤ time + connectTimeoutMs * 1000 + gap

theorem Due.request {begin gap time : ℤ} (hgap : 0 ≤ gap)
    {s' : WifiContext × List WifiAction} {k : ℕ} {ssid : CStr}
    {pass : Option CStr} {ret : ℤ}
    (htrace : s'.2 = s.2 ++ [.connect k ssid pass ret time])
    (hprogress : s'.1.connectInProgress = true →
      s'.1.connectTime = time + connectTimeoutMs * 1000)
    (hdue : time ≤ begin + (requested s.2).length *
      (connectTimeoutMs * 1000 + 2 * gap)) : Due begin gap time s' := by
  have hreq : requested s'.2 = requested s.2 ++ [k] := by
    rw [htrace]
    exact requested_append _ _
  refine ⟨time, ?_, ?_⟩
  · rw [hreq, List.length_append, List.length_singleton]
    push_cast
    rwa [add_sub_cancel_right]
  · split
    next hopen =>
      have htime := hprogress hopen
      refine ⟨htime, ?_⟩
      rw [htime, connectTimeoutMs]
      omega
    next =>
      rw [connectTimeoutMs]
      omega

theorem step_due {begin gap : ℤ} (h : Rotating nets up now s) (hne : nets ≠ [])
    (hlen : nets.length ≤ maxWifiNets) (hsome : requested s.2 ≠ [])
    (hdue : Due begin gap now s) (hnow : now ≤ input.now)
    (hgap : input.now ≤ now + gap) (hup : input.up = false) :
    ∃ s', wifiStep s input = some s' ∧ Rotating nets false input.now s' ∧
      requested s'.2 ≠ [] ∧ Due begin gap input.now s' := by
  obtain ⟨time, htime, hopen⟩ := hdue
  cases hprogress : s.1.connectInProgress with
  | true =>
      rw [if_pos hprogress] at hopen
      obtain ⟨s', hstep, hrotating, -⟩ := step_waiting h hup hprogress
      by_cases hlate : s.1.connectTime - input.now < 0
      · have hend := wifiStep_late hup hprogress hlate
        obtain rfl := Option.some.inj (hstep.symm.trans hend)
        refine ⟨_, hstep, hrotating, hsome, time, htime, ?_⟩
        rw [if_neg Bool.false_ne_true]
        omega
      · have hwait := wifiStep_wait hup hprogress hlate
        obtain rfl := Option.some.inj (hstep.symm.trans hwait)
        refine ⟨_, hstep, hrotating, hsome, time, htime, ?_⟩
        rw [if_pos hprogress]
        exact ⟨hopen.1, by omega⟩
  | false =>
      rw [if_neg (by rw [hprogress]; exact Bool.false_ne_true)] at hopen
      obtain ⟨s', hstep, hrotating, ⟨k, ssid, pass, htrace⟩, hnext⟩ :=
        step_request h hne hlen hnow hup hprogress
      refine ⟨s', hstep, hrotating, ?_, Due.request (by omega) htrace hnext ?_⟩
      · rw [htrace, requested_append]
        exact List.append_ne_nil_of_right_ne_nil _ (List.cons_ne_nil _ _)
      · calc
          input.now ≤ time + (connectTimeoutMs * 1000 + 2 * gap) := by omega
          _ ≤ begin + ((requested s.2).length - 1) *
                (connectTimeoutMs * 1000 + 2 * gap) +
                (connectTimeoutMs * 1000 + 2 * gap) := by omega
          _ = _ := by ring

theorem run_due {begin gap : ℤ} {inputs : List WifiInput}
    (h : Rotating nets up now s) (hne : nets ≠ [])
    (hlen : nets.length ≤ maxWifiNets) (hsome : requested s.2 ≠ [])
    (hdue : Due begin gap now s) (hdown : ∀ input ∈ inputs, input.up = false)
    (hclock : (now :: inputs.map WifiInput.now).IsChain fun a b =>
      a ≤ b ∧ b ≤ a + gap) :
    ∃ s', wifiRun s inputs = some s' ∧
      Traced nets ((inputs.getLast?.map WifiInput.now).getD now) s' ∧
      Due begin gap ((inputs.getLast?.map WifiInput.now).getD now) s' := by
  induction inputs generalizing up now s with
  | nil => exact ⟨s, rfl, h.2, hdue⟩
  | cons input inputs ih =>
      rw [List.map_cons, List.isChain_cons_cons] at hclock
      obtain ⟨⟨hnow, hgap⟩, hrest⟩ := hclock
      obtain ⟨s', hstep, hrotating, hsome', hdue'⟩ := step_due h hne hlen hsome
        hdue hnow hgap (hdown input List.mem_cons_self)
      obtain ⟨s'', hrun, hlast⟩ := ih hrotating hsome' hdue'
        (fun i hi => hdown i (List.mem_cons_of_mem _ hi)) hrest
      refine ⟨s'', ?_, ?_⟩
      · rw [wifiRun_cons, hstep]
        exact hrun
      · rw [List.getLast?_cons, Option.map_some, Option.getD_some]
        rwa [Option.getD_map] at hlast

/-- While no link comes up, every network has its turn in time: all of them are
asked for in `n` times 30 seconds and two calls. -/
theorem wifi_tries_all {alloc : ℕ → Bool} {ssd pass : Option CStr}
    {nets : List WifiNet} (hcfg : getWifiCfg alloc ssd pass = .nets nets)
    (gap : ℤ) {first last : WifiInput} {inputs : List WifiInput}
    (hdown : ∀ input ∈ first :: inputs, input.up = false)
    (hclock : ((first :: inputs).map WifiInput.now).IsChain fun a b =>
      a ≤ b ∧ b ≤ a + gap)
    (hlast : inputs.getLast? = some last)
    (hlong : first.now + nets.length * (connectTimeoutMs * 1000 + 2 * gap) ≤
      last.now) :
    ∃ ctx trace, wifiRun (sysWifiInit nets, []) (first :: inputs) =
        some (ctx, trace) ∧ ∀ k < nets.length, k ∈ requested trace := by
  obtain ⟨hne, hlen, hfresh⟩ := getWifiCfg_nets hcfg
  have hgap : 0 ≤ gap := by
    obtain ⟨input, inputs', rfl⟩ : ∃ input inputs', inputs = input :: inputs' :=
      List.exists_cons_of_ne_nil fun hnil => by
        rw [hnil] at hlast
        cases hlast
    have hstep := (List.isChain_cons_cons.mp hclock).1
    omega
  obtain ⟨s, hstep, hrotating, ⟨k, ssid, pass', htrace⟩, hnext⟩ := step_request
    (rotating_init hfresh first.now) hne hlen le_rfl
    (hdown first List.mem_cons_self) rfl
  have hsome : requested s.2 ≠ [] := by
    rw [htrace]
    exact List.cons_ne_nil _ _
  have hdue : Due first.now gap first.now s :=
    Due.request hgap htrace hnext (by simp [requested])
  obtain ⟨s', hrun, htraced, time, htime, hopen⟩ := run_due hrotating hne hlen
    hsome hdue (fun i hi => hdown i (List.mem_cons_of_mem _ hi)) hclock
  rw [hlast, Option.map_some, Option.getD_some] at hopen
  have hmany : nets.length ≤ (requested s'.2).length := by
    by_contra hfew
    have hround : ((requested s'.2).length : ℤ) *
        (connectTimeoutMs * 1000 + 2 * gap) ≤
          ((nets.length : ℤ) - 1) * (connectTimeoutMs * 1000 + 2 * gap) := by
      refine Int.mul_le_mul_of_nonneg_right (by omega) ?_
      rw [connectTimeoutMs]
      omega
    have hend : last.now ≤ time + connectTimeoutMs * 1000 + gap := by
      split at hopen
      · omega
      · exact hopen
    rw [sub_mul, one_mul] at htime hround
    rw [connectTimeoutMs] at *
    omega
  refine ⟨s'.1, s'.2, ?_, fun k hk => ?_⟩
  · rw [wifiRun_cons, hstep]
    exact hrun
  · rw [htraced.rotation]
    exact List.mem_map.mpr ⟨k, List.mem_range.mpr (hk.trans_le hmany),
      Nat.mod_eq_of_lt hk⟩

theorem wifi_tries_all_twoNets :
    ∃ ctx trace, wifiRun (sysWifiInit [⟨[65], some [67], false⟩,
        ⟨[66], none, false⟩], []) (⟨false, 0, 0⟩ ::
          [⟨false, 0, 30000000⟩, ⟨false, -1, 60000000⟩, ⟨false, 0, 90000000⟩,
            ⟨false, 0, 120000000⟩, ⟨false, 0, 150000000⟩,
            ⟨false, 0, 180000000⟩]) = some (ctx, trace) ∧
      ∀ k < 2, k ∈ requested trace :=
  wifi_tries_all getWifiCfg_twoNets 30000000 (by decide) (by decide) rfl
    (by decide)

end Herak.Wifi
