import Herak.Webhook.Client

/-!
# The lock of the webhook client

Every function takes the lock and gives it back, but two paths take it while it
is held: `webhook_send` opens a connection, and the error callback is called
when a connection that is being opened is aborted.
-/

namespace Herak.Wh

open CString MutexM

/-- The call returns, and the lock is free then. -/
def LockSafe (x : Bool × Webhook) (e : WebhookEvent) : Prop :=
  (e.entry x).map (fun result => result.2.1) = some false

/-- No message is sent without a connection, and the periodic run finds no
connection that has been opening for longer than `IP_TIMEOUT_MS`. -/
def NoReentry (x : Bool × Webhook) : WebhookEvent → Prop
  | .send _ _ => x.2.sending = true ∨ x.2.tcpState = .connected
  | .run turn =>
      turn.wifi = true → x.2.tcpState = .connecting →
        turn.connectNow - x.2.lastSend ≤ ipTimeoutMs
  | .reconnect | .logStatus | .serverFound | .recvCb _ | .errCb
  | .connectCb _ _ => True

/-- What the state of the connection tells: one that is being opened has the
error callback, and the address of its server is known. -/
structure ConnInv (wh : Webhook) : Prop where
  keepOpen : wh.keepOpen = true
  connecting : wh.tcpState = .connecting →
    wh.tcpConn.isSome = true ∧ wh.errCb = true ∧ wh.ipResolve = .resolved
  disconnected : wh.tcpState = .disconnected → wh.errCb = false

theorem ConnInv.init (config : WebhookConfig) : ConnInv (.init config) :=
  ⟨rfl, nofun, fun _ => rfl⟩

namespace ConnInv

variable {wh : Webhook}

theorem disconnect (h : ConnInv wh) : ConnInv wh.disconnect :=
  ⟨h.keepOpen, nofun, fun _ => rfl⟩

theorem timeoutCheck (h : ConnInv wh) (now : ℕ) :
    ConnInv (wh.timeoutCheck now) := by
  unfold Webhook.timeoutCheck
  split
  · exact ⟨h.keepOpen, h.connecting, h.disconnected⟩
  · exact h

theorem tcpSend (h : ConnInv wh) (tcp : Web.TcpWrite) :
    ConnInv (wh.tcpSend tcp).1 := by
  unfold Webhook.tcpSend
  simp only []
  split_ifs
  · exact h
  · exact ⟨h.keepOpen, h.connecting, h.disconnected⟩
  · exact ⟨h.keepOpen, h.connecting, h.disconnected⟩
  · exact h

theorem fill (h : ConnInv wh) (message : CStr) (now : ℕ) :
    ConnInv (wh.fill message now).2 := by
  unfold Webhook.fill
  simp only []
  split
  · exact ⟨h.keepOpen, h.connecting, h.disconnected⟩
  · exact ⟨h.keepOpen, h.connecting, h.disconnected⟩

theorem «open» (h : ConnInv wh) (hres : wh.ipResolve = .resolved)
    (hdis : wh.tcpState = .disconnected) (now : ℕ) (connect : TcpConnect) :
    ConnInv (wh.open now connect) := by
  unfold Webhook.open
  simp only []
  split
  · rename_i hok
    exact ⟨h.keepOpen, fun _ => ⟨hok.1, rfl, hres⟩, nofun⟩
  · refine ⟨h.keepOpen, fun hconn => ?_, fun _ => rfl⟩
    exact nomatch hconn.symm.trans hdis

end ConnInv

/-! ## The functions -/

theorem webhookDisconnect_returns (wh : Webhook) :
    webhookDisconnect.Returns wh () wh.disconnect :=
  locked_update_returns _ wh

theorem whTcpErrCb_returns (wh : Webhook) :
    whTcpErrCb.Returns wh () wh.disconnect :=
  (locked_update_returns _ wh).bind (webhookDisconnect_returns _)

theorem whTcpErrCb_blocks : whTcpErrCb.Blocks :=
  (locked_blocks _).bind _

/-- The client after `wh_abort` of a connection without the error callback. -/
def Webhook.aborted (wh : Webhook) : Webhook :=
  { wh with tcpConn := none, errCb := false, tcpState := .disconnected }

theorem whAbort_returns {wh : Webhook} (h : wh.errCb = false) :
    whAbort.Returns wh () wh.aborted := by
  apply locked_returns
  cases hconn : wh.tcpConn with
  | none => simp [bind_apply, hconn, Webhook.aborted, h]
  | some pcb => simp [bind_apply, hconn, altcpAbort, h, Webhook.aborted]

/-- The error callback waits for the lock that `wh_abort` holds. -/
theorem whAbort_blocks_of_errCb {wh : Webhook} (h : wh.errCb = true)
    (hconn : wh.tcpConn.isSome = true) : whAbort (false, wh) = none := by
  apply locked_apply_of_none
  simp [bind_apply, hconn, altcpAbort, h, whTcpErrCb_blocks wh]

theorem webhookConnect_blocks (now : ℕ) (connect : TcpConnect) :
    (webhookConnect now connect).Blocks :=
  (locked_blocks _).bind _

/-- What `webhook_connect` does if it does not wait for a connection that has
been opening for too long. -/
theorem webhookConnect_ensures {wh : Webhook} (h : ConnInv wh) {now : ℕ}
    (connect : TcpConnect)
    (htime : wh.tcpState = .connecting → now - wh.lastSend ≤ ipTimeoutMs) :
    (webhookConnect now connect).Ensures wh fun _ wh' =>
      wh' = wh ∨ wh.ipResolve = .resolved ∧ wh.tcpState = .disconnected ∧
        wh' = wh.aborted.open now connect := by
  apply (locked_read_returns _ wh).bind_ensures
  by_cases hres : wh.ipResolve = .resolved
  · simp only [hres, ne_eq, not_true_eq_false, if_false]
    cases hst : wh.tcpState with
    | disconnected =>
        apply (whAbort_returns (h.disconnected hst)).bind_ensures
        exact ensures_locked_update (.inr ⟨trivial, rfl, rfl⟩)
    | connecting =>
        simp only [not_lt.mpr (htime hst), if_false]
        exact ensures_pure (.inl rfl)
    | connected => exact ensures_pure (.inl rfl)
  · simp only [hres, ne_eq, not_false_eq_true, if_true]
    exact ensures_pure (.inl rfl)

theorem webhookConnect_connInv {wh : Webhook} (h : ConnInv wh) {now : ℕ}
    (connect : TcpConnect)
    (htime : wh.tcpState = .connecting → now - wh.lastSend ≤ ipTimeoutMs) :
    (webhookConnect now connect).Ensures wh fun _ wh' => ConnInv wh' := by
  apply (webhookConnect_ensures h connect htime).mono
  rintro _ wh' (rfl | ⟨hres, -, rfl⟩)
  · exact h
  · have habort : ConnInv wh.aborted := ⟨h.keepOpen, nofun, fun _ => rfl⟩
    exact habort.open hres rfl now connect

theorem webhookConnect_blocks_of_timeout {wh : Webhook} (h : ConnInv wh)
    {now : ℕ} (connect : TcpConnect) (hconn : wh.tcpState = .connecting)
    (htime : ipTimeoutMs < now - wh.lastSend) :
    webhookConnect now connect (false, wh) = none := by
  obtain ⟨hsome, herr, hres⟩ := h.connecting hconn
  apply (locked_read_returns _ wh).bind_none
  simp only [hres, hconn, ne_eq, not_true_eq_false, if_false, htime, if_true]
  exact whAbort_blocks_of_errCb herr hsome

/-- `webhook_resolve` leaves everything but the state of the resolver and its
time, and does nothing when the address is known. -/
theorem webhookResolve_ensures (wh : Webhook) (turn : WebhookTurn) :
    (webhookResolve turn).Ensures wh fun _ wh' =>
      wh' = wh ∨ wh.ipResolve ≠ .resolved ∧ ∃ last st,
        wh' = { wh with lastSend := last, ipResolve := st } := by
  apply (locked_read_returns _ wh).bind_ensures
  cases hst : wh.ipResolve with
  | notResolved =>
      cases turn.dns with
      | inProgress =>
          exact ensures_locked_update (.inr ⟨nofun, _, _, rfl⟩)
      | ok => exact ensures_locked_update (.inr ⟨nofun, wh.lastSend, _, rfl⟩)
      | failed => exact ensures_pure (.inl rfl)
  | resolving =>
      by_cases htime : ipTimeoutMs < turn.resolveNow - wh.lastSend
      · simp only [htime, if_true]
        exact ensures_locked_update (.inr ⟨nofun, wh.lastSend, _, rfl⟩)
      · simp only [htime, if_false]
        exact ensures_pure (.inl rfl)
  | resolved => exact ensures_pure (.inl rfl)

theorem webhookResolve_connInv {wh : Webhook} (h : ConnInv wh)
    (turn : WebhookTurn) :
    (webhookResolve turn).Ensures wh fun _ wh' =>
      ConnInv wh' ∧ wh'.tcpState = wh.tcpState ∧
        (wh.tcpState = .connecting → wh' = wh) := by
  apply (webhookResolve_ensures wh turn).mono
  rintro _ wh' (rfl | ⟨hres, last, st, rfl⟩)
  · exact ⟨h, rfl, fun _ => rfl⟩
  · have hnot : wh.tcpState ≠ .connecting := by
      intro hconn
      exact hres (h.connecting hconn).2.2
    refine ⟨⟨h.keepOpen, fun hconn => (hnot hconn).elim, h.disconnected⟩, rfl, ?_⟩
    intro hconn
    exact (hnot hconn).elim

/-! ## Entry points -/

theorem sysWebhookRun_ensures {wh : Webhook} (h : ConnInv wh)
    {turn : WebhookTurn} (hre : NoReentry (false, wh) (.run turn)) :
    (sysWebhookRun turn).Ensures wh fun _ wh' => ConnInv wh' := by
  unfold sysWebhookRun
  cases hwifi : turn.wifi with
  | true =>
      have hset : ConnInv { wh with wifi := true } :=
        ⟨h.keepOpen, h.connecting, h.disconnected⟩
      apply (update_returns _ wh).bind_ensures
      apply (webhookResolve_connInv hset turn).bind
      rintro _ wh' ⟨hinv, hstate, hsame⟩
      apply (read_returns _ wh').bind_ensures
      rw [if_pos hinv.keepOpen]
      apply Ensures.bind (Q := fun _ wh' => ConnInv wh')
      · apply webhookConnect_connInv hinv
        intro hconn
        have hconn' := hstate.symm.trans hconn
        rw [hsame hconn']
        exact hre hwifi hconn'
      · intro _ wh'' hinv'
        exact ensures_locked_update (hinv'.timeoutCheck turn.checkNow)
  | false =>
      apply (read_returns _ wh).bind_ensures
      cases wh.wifi with
      | true =>
          apply (webhookDisconnect_returns wh).bind_ensures
          have hdis := h.disconnect
          exact ⟨(), _, rfl, hdis.keepOpen, hdis.connecting, hdis.disconnected⟩
      | false => exact ensures_pure h

theorem sysWebhookRun_blocks {wh : Webhook} (h : ConnInv wh)
    {turn : WebhookTurn} (hre : ¬NoReentry (false, wh) (.run turn)) :
    sysWebhookRun turn (false, wh) = none := by
  simp only [NoReentry, not_forall, not_le] at hre
  obtain ⟨hwifi, hconn, htime⟩ := hre
  unfold sysWebhookRun
  rw [if_pos hwifi]
  have hset : ConnInv { wh with wifi := true } :=
    ⟨h.keepOpen, h.connecting, h.disconnected⟩
  apply (update_returns _ wh).bind_none
  obtain ⟨_, wh', hreturns, -, -, hsame⟩ := webhookResolve_connInv hset turn
  obtain rfl := hsame hconn
  apply hreturns.bind_none
  apply (read_returns _ _).bind_none
  rw [if_pos h.keepOpen, bind_apply,
    webhookConnect_blocks_of_timeout hset turn.connect hconn htime]
  rfl

theorem whTcpSend_returns (wh : Webhook) (tcp : Web.TcpWrite) :
    (whTcpSend tcp).Returns wh (wh.tcpSend tcp).2 (wh.tcpSend tcp).1 :=
  locked_returns rfl

theorem webhookSend_of_sending {wh : Webhook} (h : wh.sending = true)
    (message : CStr) (turn : SendTurn) :
    (webhookSend message turn).Returns wh (-1, []) wh := by
  simp [webhookSend, Returns, bind_apply, map_apply, h]

theorem webhookSend_of_fits {wh : Webhook} {message : CStr} {turn : SendTurn}
    (hidle : wh.sending = false) (hconn : wh.tcpState = .connected)
    (hfits : (wh.fill message turn.now).1 = true) :
    (webhookSend message turn).Returns wh
      (0, ((wh.fill message turn.now).2.tcpSend turn.tcp).2)
      ((wh.fill message turn.now).2.tcpSend turn.tcp).1 := by
  have hsend := whTcpSend_returns (wh.fill message turn.now).2 turn.tcp
  rw [Returns] at hsend ⊢
  simp [webhookSend, bind_apply, map_apply, hidle, hconn, hfits, hsend]

theorem webhookSend_of_not_fits {wh : Webhook} {message : CStr}
    {turn : SendTurn} (hidle : wh.sending = false)
    (hconn : wh.tcpState = .connected)
    (hfits : (wh.fill message turn.now).1 = false) :
    (webhookSend message turn).Returns wh (-1, [])
      (wh.fill message turn.now).2 := by
  simp [webhookSend, Returns, bind_apply, hidle, hconn, hfits]

theorem webhookSend_ensures {wh : Webhook} (h : ConnInv wh) {message : CStr}
    {turn : SendTurn} (hre : NoReentry (false, wh) (.send message turn)) :
    (webhookSend message turn).Ensures wh fun _ wh' => ConnInv wh' := by
  cases hsending : wh.sending with
  | true => exact (webhookSend_of_sending hsending message turn).ensures h
  | false =>
      have hconn : wh.tcpState = .connected :=
        hre.resolve_left (Bool.eq_false_iff.mp hsending)
      have hfill := h.fill message turn.now
      cases hfits : (wh.fill message turn.now).1 with
      | true =>
          exact (webhookSend_of_fits hsending hconn hfits).ensures
            (hfill.tcpSend turn.tcp)
      | false =>
          exact (webhookSend_of_not_fits hsending hconn hfits).ensures hfill

theorem webhookSend_blocks {wh : Webhook} {message : CStr} {turn : SendTurn}
    (hre : ¬NoReentry (false, wh) (.send message turn)) :
    webhookSend message turn (false, wh) = none := by
  obtain ⟨hsending, hconn⟩ := not_or.mp hre
  simp only [Bool.not_eq_true] at hsending hconn
  simp [webhookSend, bind_apply, hsending, hconn,
    webhookConnect_blocks turn.connectNow turn.connect wh]

theorem entry_ensures {wh : Webhook} (h : ConnInv wh) {e : WebhookEvent}
    (hre : NoReentry (false, wh) e) :
    e.entry.Ensures wh fun _ wh' => ConnInv wh' := by
  have hreturn : ∀ {p : MutexM Webhook Unit},
      p.Ensures wh (fun _ wh' => ConnInv wh') →
      (do p; return ((0 : ℤ), ([] : List UInt8))).Ensures wh
        fun _ wh' => ConnInv wh' :=
    fun hp => hp.bind fun _ _ h' => ensures_pure h'
  have hdisconnect := (webhookDisconnect_returns wh).ensures
    (Q := fun _ wh' => ConnInv wh') h.disconnect
  cases e with
  | send message turn => exact webhookSend_ensures h hre
  | run turn => exact hreturn (sysWebhookRun_ensures h hre)
  | reconnect => exact hreturn hdisconnect
  | logStatus => exact hreturn (ensures_locked_update h)
  | serverFound =>
      apply hreturn
      apply ensures_locked_update
      refine ⟨h.keepOpen, fun hconn => ?_, h.disconnected⟩
      obtain ⟨hsome, herr, -⟩ := h.connecting hconn
      exact ⟨hsome, herr, rfl⟩
  | recvCb received =>
      apply hreturn
      cases received with
      | closed => exact hdisconnect
      | error => exact ensures_pure h
      | data hcode =>
          apply (locked_update_returns _ wh).bind_ensures
          split
          · exact ensures_locked_update
              ⟨h.keepOpen, h.connecting, h.disconnected⟩
          · exact ensures_pure h
  | errCb =>
      exact hreturn ((whTcpErrCb_returns wh).ensures h.disconnect)
  | connectCb ok now =>
      apply hreturn
      unfold whTcpConnectCb
      split
      · exact ensures_locked_update ⟨h.keepOpen, nofun, nofun⟩
      · exact ensures_pure h

theorem entry_blocks {wh : Webhook} (h : ConnInv wh) {e : WebhookEvent}
    (hre : ¬NoReentry (false, wh) e) : e.entry (false, wh) = none := by
  cases e with
  | send message turn => exact webhookSend_blocks hre
  | run turn =>
      rw [WebhookEvent.entry, bind_apply, sysWebhookRun_blocks h hre]
      rfl
  | _ => exact (hre trivial).elim

/-! ## Runs -/

/-- The lock is free between the calls. -/
structure LockInv (x : Bool × Webhook) : Prop where
  free : x.1 = false
  conn : ConnInv x.2

theorem lockSafe_iff {x : Bool × Webhook} (h : LockInv x) (e : WebhookEvent) :
    LockSafe x e ↔ NoReentry x e := by
  obtain ⟨held, wh⟩ := x
  obtain rfl : held = false := h.free
  constructor
  · intro hsafe
    by_contra hre
    rw [LockSafe, entry_blocks h.conn hre] at hsafe
    exact nomatch hsafe
  · intro hre
    obtain ⟨a, t, hreturns, -⟩ := entry_ensures h.conn hre
    rw [LockSafe, hreturns]
    rfl

theorem LockInv.step {x : Bool × Webhook} (h : LockInv x) {e : WebhookEvent}
    (hre : NoReentry x e) : LockInv (webhookMachine.step x e) := by
  obtain ⟨held, wh⟩ := x
  obtain rfl : held = false := h.free
  obtain ⟨a, t, hreturns, hinv⟩ := entry_ensures h.conn hre
  change LockInv (e.step (false, wh))
  rw [WebhookEvent.step, hreturns]
  exact ⟨rfl, hinv⟩

/-- In every run the calls take the lock once and return without it, if and
only if none of them finds the client as `NoReentry` excludes. -/
theorem lock_discipline_iff (config : WebhookConfig) (es : List WebhookEvent) :
    webhookMachine.Along LockSafe (false, .init config) es ↔
      webhookMachine.Along NoReentry (false, .init config) es := by
  have hinit : LockInv (false, .init config) := ⟨rfl, .init config⟩
  constructor
  · intro h
    exact h.mono_of_invariant (I := LockInv)
      (fun _ _ hx hsafe => hx.step ((lockSafe_iff hx _).mp hsafe))
      (fun _ e hx => (lockSafe_iff hx e).mp) hinit
  · intro h
    exact h.mono_of_invariant (I := LockInv)
      (fun _ _ hx hre => hx.step hre)
      (fun _ e hx => (lockSafe_iff hx e).mpr) hinit

/-- A message is sent before there is a connection: `webhook_connect` waits for
the lock that `webhook_send` holds. -/
theorem not_lock_discipline :
    ¬∀ config es, webhookMachine.Admits (false, .init config) es →
      webhookMachine.Along LockSafe (false, .init config) es := by
  intro h
  have hrun := h ⟨lit "host", lit "/api", 80, lit "herak"⟩
    [.send (lit "hello") ⟨7, 7, ⟨some 0, true⟩, ⟨1000, true⟩⟩]
    ⟨trivial, trivial⟩
  rcases (lockSafe_iff ⟨rfl, .init _⟩ _).mp hrun.1 with hsending | hconn
  · exact nomatch hsending
  · exact nomatch hconn

end Herak.Wh
