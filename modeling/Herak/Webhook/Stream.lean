import Herak.Support.Outbox
import Herak.Webhook.Lock

/-!
# What is written to a connection

A request is put into the buffer and written as far as TCP has space for it.
The periodic run discards what is left when it gets too old, and leaves the
connection open, so that the next request would follow a part of another.
-/

namespace Herak.Wh

open CString Memory MutexM

/-- What is still to be written of the request in the buffer. -/
def Webhook.rest (wh : Webhook) : List UInt8 :=
  if wh.sending then (wh.buff.drop wh.buffP).take (wh.buffLen - wh.buffP)
  else []

/-- The client with the requests that it has accepted on its connection, what
was written to the connection, and whether some of a request was discarded
while the connection was open. -/
structure StreamWorld where
  lock : Bool × Webhook
  accepted : List (List UInt8)
  written : List UInt8
  dropped : Bool

/-- TCP has opened a connection. -/
def WebhookEvent.opens : WebhookEvent → Bool
  | .connectCb ok _ => ok
  | .send _ _ | .run _ | .reconnect | .logStatus | .serverFound | .recvCb _
  | .errCb => false

/-- The request that is accepted when the call returns `ret`. -/
def WebhookEvent.takes (e : WebhookEvent) (wh : Webhook) (ret : ℤ) :
    List (List UInt8) :=
  match e with
  | .send message _ => if ret = 0 then [wh.request message] else []
  | _ => []

/-- A call that sends nothing has discarded bytes and left the connection
open. -/
def WebhookEvent.drops (e : WebhookEvent) (wh wh' : Webhook) : Bool :=
  match e with
  | .send _ _ => false
  | _ => wh.rest ≠ [] ∧ wh'.rest = [] ∧ wh'.tcpState = .connected

namespace StreamWorld

def init (config : WebhookConfig) : StreamWorld :=
  ⟨(false, .init config), [], [], false⟩

def step (x : StreamWorld) (e : WebhookEvent) : StreamWorld :=
  match e.entry x.lock with
  | none => x
  | some (result, lock) =>
      if e.opens then ⟨lock, [], [], false⟩
      else
        { lock := lock
          accepted := x.accepted ++ e.takes x.lock.2 result.1
          written := x.written ++ result.2
          dropped := x.dropped || e.drops x.lock.2 lock.2 }

def outbox (x : StreamWorld) : Outbox UInt8 :=
  ⟨x.accepted, x.written, x.lock.2.rest⟩

end StreamWorld

def streamMachine : EventMachine StreamWorld WebhookEvent where
  step := StreamWorld.step
  enabled := fun x e => e.Enabled x.lock

/-- Once a part of a request was discarded, nothing more is written to the
connection: the client is sending or not connected, the request is too long, or
TCP does not take anything. -/
def NothingAfterDrop (x : StreamWorld) : WebhookEvent → Prop
  | .send message turn => x.dropped = true →
      x.lock.2.sending = true ∨ x.lock.2.tcpState ≠ .connected ∨
        packetBuffSize ≤ (x.lock.2.request message).length ∨
        turn.tcp.sndbuf = 0 ∨ turn.tcp.ok = false
  | .run _ | .reconnect | .logStatus | .serverFound | .recvCb _ | .errCb
  | .connectCb _ _ => True

/-! ## The buffer -/

/-- The buffer and its indices; nothing is pending without a connection. -/
structure BuffInv (wh : Webhook) : Prop where
  buff : wh.buff.length = packetBuffSize
  idle : wh.sending = false → wh.buffP = 0
  closed : wh.tcpState ≠ .connected → wh.rest = []

theorem BuffInv.init (config : WebhookConfig) : BuffInv (.init config) :=
  ⟨List.length_replicate, fun _ => rfl, fun _ => rfl⟩

theorem rest_of_idle {wh : Webhook} (h : wh.sending = false) :
    wh.rest = [] := by
  rw [Webhook.rest, h]
  rfl

theorem rest_of_empty {wh : Webhook} (h : wh.buffLen = 0) : wh.rest = [] := by
  simp [Webhook.rest, h]

namespace BuffInv

variable {wh : Webhook}

theorem disconnect (h : BuffInv wh) : BuffInv wh.disconnect :=
  ⟨h.buff, fun _ => rfl, fun _ => rest_of_empty rfl⟩

theorem timeoutCheck (h : BuffInv wh) (now : ℕ) :
    BuffInv (wh.timeoutCheck now) := by
  unfold Webhook.timeoutCheck
  split
  · exact ⟨h.buff, fun _ => rfl, fun _ => rfl⟩
  · exact h

end BuffInv

/-- A write hands on the next bytes. -/
theorem tcpSend_spec {wh : Webhook} (h : BuffInv wh)
    (hconn : wh.tcpState = .connected) (tcp : Web.TcpWrite) :
    ∃ n, (wh.tcpSend tcp).2 = wh.rest.take n ∧
      (wh.tcpSend tcp).1.rest = wh.rest.drop n ∧
      BuffInv (wh.tcpSend tcp).1 ∧
      (wh.tcpSend tcp).1.tcpState = .connected ∧
      (tcp.sndbuf = 0 ∨ tcp.ok = false → n = 0) := by
  have hnothing : ∃ n, ([] : List UInt8) = wh.rest.take n ∧
      wh.rest = wh.rest.drop n ∧ BuffInv wh ∧ wh.tcpState = .connected ∧
      (tcp.sndbuf = 0 ∨ tcp.ok = false → n = 0) :=
    ⟨0, rfl, rfl, h, hconn, fun _ => rfl⟩
  unfold Webhook.tcpSend
  by_cases hready : wh.sending = false ∨ tcp.sndbuf = 0 ∨
      wh.buffLen - wh.buffP = 0
  · simp only [hready, if_true]
    exact hnothing
  · simp only [hready, if_false]
    obtain ⟨hsending, hspace, hdata⟩ := by
      simpa only [not_or, Bool.not_eq_false] using hready
    cases hok : tcp.ok with
    | false =>
        rw [hok] at hnothing
        exact hnothing
    | true =>
        have hn : ¬(tcp.sndbuf = 0 ∨ true = false) := by simp [hspace]
        have hrest : wh.rest =
            (wh.buff.drop wh.buffP).take (wh.buffLen - wh.buffP) := by
          rw [Webhook.rest, hsending]
          rfl
        refine ⟨min tcp.sndbuf (wh.buffLen - wh.buffP), ?_⟩
        rw [hrest, List.take_take, min_eq_left (Nat.min_le_right _ _)]
        simp only [if_true]
        split
        · rename_i hall
          refine ⟨rfl, ?_, ⟨h.buff, fun _ => rfl, fun hne => (hne hconn).elim⟩,
            hconn, fun hno => (hn hno).elim⟩
          rw [rest_of_idle rfl, eq_comm, List.drop_eq_nil_iff, List.length_take]
          omega
        · refine ⟨rfl, ?_, ⟨h.buff, ?_, fun hne => (hne hconn).elim⟩, hconn,
            fun hno => (hn hno).elim⟩
          · rw [Webhook.rest, hsending, List.drop_take, List.drop_drop,
              Nat.sub_add_eq]
            rfl
          · exact fun hidle => nomatch hsending.symm.trans hidle

theorem fill_fst (wh : Webhook) (message : CStr) (now : ℕ) :
    (wh.fill message now).1 = true ↔
      (wh.request message).length < packetBuffSize := by
  simp only [Webhook.fill, Webhook.request, List.length_append]
  split
  · rename_i hlong
    simp [hlong]
  · rename_i hshort
    simpa using hshort

theorem length_whHttpHead (config : WebhookConfig) (keepOpen : Bool)
    (payload : CStr) :
    (whHttpHead config keepOpen payload).length < packetBuffSize := by
  rw [whHttpHead, List.length_take]
  exact (Nat.min_le_left _ _).trans_lt (by decide)

/-- A request that fits is what is pending then. -/
theorem fill_of_fits {wh : Webhook} (h : BuffInv wh)
    (hidle : wh.sending = false) (hconn : wh.tcpState = .connected)
    {message : CStr} {now : ℕ} (hfits : (wh.fill message now).1 = true) :
    BuffInv (wh.fill message now).2 ∧
      (wh.fill message now).2.rest = wh.request message ∧
      (wh.fill message now).2.tcpState = .connected := by
  have hlen := (fill_fst wh message now).mp hfits
  clear hfits
  simp only [Webhook.fill, Webhook.request] at hlen ⊢
  generalize whPayload wh.config message = payload at hlen ⊢
  generalize whHttpHead wh.config wh.keepOpen payload = head at hlen ⊢
  rw [List.length_append] at hlen
  simp only [not_le.mpr hlen, if_false]
  have hhead : (memcpy wh.buff 0 head).length = packetBuffSize := by
    rw [length_memcpy (by rw [h.buff]; omega), h.buff]
  refine ⟨⟨?_, nofun, fun hne => (hne hconn).elim⟩, ?_, hconn⟩
  · rw [length_memcpy (by rw [hhead]; omega), hhead]
  · have htake : (memcpy wh.buff 0 head).take head.length = head := by
      rw [memcpy_zero, List.take_left]
    simp only [Webhook.rest, if_true, h.idle hidle, List.drop_zero,
      Nat.sub_zero]
    rw [take_memcpy (by rw [hhead]; omega), htake]

theorem fill_of_not_fits {wh : Webhook} (h : BuffInv wh)
    (hidle : wh.sending = false) {message : CStr} {now : ℕ}
    (hfits : (wh.fill message now).1 = false) :
    BuffInv (wh.fill message now).2 ∧ (wh.fill message now).2.rest = [] ∧
      (wh.fill message now).2.tcpState = wh.tcpState := by
  have hlen := length_whHttpHead wh.config wh.keepOpen
    (whPayload wh.config message)
  simp only [Webhook.fill] at hfits ⊢
  generalize whPayload wh.config message = payload at hlen hfits ⊢
  generalize whHttpHead wh.config wh.keepOpen payload = head at hlen hfits ⊢
  split at hfits
  · rename_i hlong
    rw [if_pos hlong]
    refine ⟨⟨?_, fun _ => h.idle hidle, fun _ => rest_of_idle hidle⟩,
      rest_of_idle hidle, rfl⟩
    rw [length_memcpy (by rw [h.buff]; omega), h.buff]
  · exact nomatch hfits

/-! ## Calls that send nothing -/

/-- What a call that neither sends nor connects does: it leaves what is pending
or discards all of it. -/
structure Quiet (wh wh' : Webhook) : Prop where
  buff : BuffInv wh'
  connected : wh'.tcpState = .connected →
    wh.tcpState = .connected ∧ (wh'.rest = wh.rest ∨ wh'.rest = [])

namespace Quiet

variable {wh wh' wh'' : Webhook}

theorem refl (h : BuffInv wh) : Quiet wh wh :=
  ⟨h, fun hconn => ⟨hconn, .inl rfl⟩⟩

theorem trans (h : Quiet wh wh') (h' : Quiet wh' wh'') : Quiet wh wh'' := by
  refine ⟨h'.buff, fun hconn => ?_⟩
  obtain ⟨hconn', hrest'⟩ := h'.connected hconn
  obtain ⟨hconn'', hrest⟩ := h.connected hconn'
  refine ⟨hconn'', ?_⟩
  rcases hrest' with hsame | hnil
  · rwa [hsame]
  · exact .inr hnil

theorem disconnect (h : BuffInv wh) : Quiet wh wh.disconnect :=
  ⟨h.disconnect, nofun⟩

theorem timeoutCheck (h : BuffInv wh) (now : ℕ) :
    Quiet wh (wh.timeoutCheck now) := by
  refine ⟨h.timeoutCheck now, ?_⟩
  unfold Webhook.timeoutCheck
  split
  · exact fun hconn => ⟨hconn, .inr rfl⟩
  · exact fun hconn => ⟨hconn, .inl rfl⟩

theorem «open» (h : BuffInv wh) (hdis : wh.tcpState = .disconnected)
    (now : ℕ) (connect : TcpConnect) :
    Quiet wh (wh.aborted.open now connect) := by
  have hclosed : wh.rest = [] := h.closed (by simp [hdis])
  unfold Webhook.open
  simp only []
  split
  · exact ⟨⟨h.buff, h.idle, fun _ => hclosed⟩, nofun⟩
  · exact ⟨⟨h.buff, h.idle, fun _ => hclosed⟩, nofun⟩

end Quiet

theorem webhookResolve_quiet {wh : Webhook} (h : BuffInv wh)
    (turn : WebhookTurn) :
    (webhookResolve turn).Ensures wh fun _ wh' => Quiet wh wh' := by
  apply (webhookResolve_ensures wh turn).mono
  rintro _ wh' (rfl | ⟨-, last, st, rfl⟩)
  · exact .refl h
  · exact ⟨⟨h.buff, h.idle, h.closed⟩, fun hconn => ⟨hconn, .inl rfl⟩⟩

theorem webhookConnect_quiet {wh : Webhook} (hconn : ConnInv wh)
    (h : BuffInv wh) {now : ℕ} (connect : TcpConnect)
    (htime : wh.tcpState = .connecting → now - wh.lastSend ≤ ipTimeoutMs) :
    (webhookConnect now connect).Ensures wh fun _ wh' => Quiet wh wh' := by
  apply (webhookConnect_ensures hconn connect htime).mono
  rintro _ wh' (rfl | ⟨-, hdis, rfl⟩)
  · exact .refl h
  · exact .open h hdis now connect

theorem sysWebhookRun_quiet {wh : Webhook} (hconn : ConnInv wh)
    (h : BuffInv wh) {turn : WebhookTurn}
    (hre : NoReentry (false, wh) (.run turn)) :
    (sysWebhookRun turn).Ensures wh fun _ wh' => Quiet wh wh' := by
  unfold sysWebhookRun
  cases hwifi : turn.wifi with
  | true =>
      have hset : ConnInv { wh with wifi := true } :=
        ⟨hconn.keepOpen, hconn.connecting, hconn.disconnected⟩
      have hbuff : BuffInv { wh with wifi := true } :=
        ⟨h.buff, h.idle, h.closed⟩
      apply (update_returns _ wh).bind_ensures
      apply ((webhookResolve_connInv hset turn).and
        (webhookResolve_quiet hbuff turn)).bind
      rintro _ wh' ⟨⟨hinv, hstate, hsame⟩, hquiet⟩
      apply (read_returns _ wh').bind_ensures
      rw [if_pos hinv.keepOpen]
      have htime : wh'.tcpState = .connecting →
          turn.connectNow - wh'.lastSend ≤ ipTimeoutMs := by
        intro hopening
        have hopening' := hstate.symm.trans hopening
        rw [hsame hopening']
        exact hre hwifi hopening'
      apply (webhookConnect_quiet hinv hquiet.buff turn.connect htime).bind
      intro _ wh'' hquiet'
      apply ensures_locked_update
      have hall := (hquiet.trans hquiet').trans
        (.timeoutCheck hquiet'.buff turn.checkNow)
      exact ⟨hall.buff, hall.connected⟩
  | false =>
      apply (read_returns _ wh).bind_ensures
      cases wh.wifi with
      | true =>
          apply (webhookDisconnect_returns wh).bind_ensures
          have hdis := h.disconnect
          exact ⟨(), _, rfl, ⟨hdis.buff, hdis.idle, hdis.closed⟩, nofun⟩
      | false => exact ensures_pure (.refl h)

theorem entry_quiet {wh : Webhook} (hconn : ConnInv wh) (h : BuffInv wh)
    {e : WebhookEvent} (hre : NoReentry (false, wh) e)
    (hsend : ∀ message turn, e ≠ .send message turn)
    (hopens : e.opens = false) :
    e.entry.Ensures wh fun result wh' => result.2 = [] ∧ Quiet wh wh' := by
  have hreturn : ∀ {p : MutexM Webhook Unit},
      p.Ensures wh (fun _ wh' => Quiet wh wh') →
      (do p; return ((0 : ℤ), ([] : List UInt8))).Ensures wh
        fun result wh' => result.2 = [] ∧ Quiet wh wh' :=
    fun hp => hp.bind fun _ _ h' => ensures_pure ⟨rfl, h'⟩
  have hsame : ∀ {wh' : Webhook}, wh'.tcpState = wh.tcpState →
      wh'.sending = wh.sending → wh'.buff = wh.buff → wh'.buffP = wh.buffP →
      wh'.buffLen = wh.buffLen → Quiet wh wh' := by
    intro wh' hst hs hb hp hl
    have hrest : wh'.rest = wh.rest := by
      simp only [Webhook.rest, hs, hb, hp, hl]
    refine ⟨⟨?_, ?_, ?_⟩, fun hopen => ⟨hst ▸ hopen, .inl hrest⟩⟩
    · rw [hb, h.buff]
    · rw [hs, hp]
      exact h.idle
    · rw [hst, hrest]
      exact h.closed
  have hdisconnect := (webhookDisconnect_returns wh).ensures
    (Q := fun _ wh' => Quiet wh wh') (.disconnect h)
  cases e with
  | send message turn => exact (hsend message turn rfl).elim
  | run turn => exact hreturn (sysWebhookRun_quiet hconn h hre)
  | reconnect => exact hreturn hdisconnect
  | logStatus => exact hreturn (ensures_locked_update (.refl h))
  | serverFound =>
      exact hreturn (ensures_locked_update (hsame rfl rfl rfl rfl rfl))
  | recvCb received =>
      apply hreturn
      cases received with
      | closed => exact hdisconnect
      | error => exact ensures_pure (.refl h)
      | data hcode =>
          apply (locked_update_returns _ wh).bind_ensures
          split
          · exact ensures_locked_update (hsame rfl rfl rfl rfl rfl)
          · exact ensures_pure (.refl h)
  | errCb =>
      exact hreturn ((whTcpErrCb_returns wh).ensures (.disconnect h))
  | connectCb ok now =>
      obtain rfl : ok = false := hopens
      exact hreturn (ensures_pure (.refl h))

/-! ## Runs -/

/-- All that was accepted was written or is pending, unless a part of a request
was discarded. -/
structure StreamInv (x : StreamWorld) : Prop where
  lock : LockInv x.lock
  buff : BuffInv x.lock.2
  inOrder : x.outbox.InOrder
  complete : x.lock.2.tcpState = .connected → x.dropped = false →
    x.outbox.Complete

theorem StreamInv.init (config : WebhookConfig) : StreamInv (.init config) :=
  ⟨⟨rfl, .init config⟩, .init config, List.prefix_rfl, fun _ _ => rfl⟩

namespace StreamInv

variable {x : StreamWorld}

/-- A call that waits for ever changes nothing. -/
theorem step_of_reentry (h : StreamInv x) {e : WebhookEvent}
    (hre : ¬NoReentry x.lock e) : x.step e = x := by
  obtain ⟨⟨held, wh⟩, accepted, written, dropped⟩ := x
  obtain rfl : held = false := h.lock.free
  rw [StreamWorld.step, entry_blocks h.lock.conn hre]

theorem step_quiet (h : StreamInv x) {e : WebhookEvent}
    (hre : NoReentry x.lock e)
    (hsend : ∀ message turn, e ≠ .send message turn)
    (hopens : e.opens = false) : StreamInv (x.step e) := by
  obtain ⟨⟨held, wh⟩, accepted, written, dropped⟩ := x
  obtain rfl : held = false := h.lock.free
  obtain ⟨result, wh', hreturns, hconn, hempty, hquiet⟩ :=
    (entry_ensures h.lock.conn hre).and
      (entry_quiet h.lock.conn h.buff hre hsend hopens)
  have htakes : e.takes wh result.1 = [] := by
    cases e <;> first | rfl | exact (hsend _ _ rfl).elim
  rw [StreamWorld.step, show e.entry (false, wh) = _ from hreturns]
  simp only [hopens, Bool.false_eq_true, if_false, hempty, htakes,
    List.append_nil]
  refine ⟨⟨rfl, hconn⟩, hquiet.buff, h.inOrder, ?_⟩
  intro hopen hdropped
  obtain ⟨hopen', hrest⟩ := hquiet.connected hopen
  obtain ⟨hkept, hnodrop⟩ := Bool.or_eq_false_iff.mp hdropped
  have hsame : wh'.rest = wh.rest := by
    rcases hrest with hsame | hnil
    · exact hsame
    · by_contra hne
      have hdrop : e.drops wh wh' = true := by
        have hpending : wh.rest ≠ [] := fun hnil' => hne (hnil.trans hnil'.symm)
        cases e <;>
          first
          | exact (hsend _ _ rfl).elim
          | exact decide_eq_true ⟨hpending, hnil, hopen⟩
      exact nomatch hdrop.symm.trans hnodrop
  have hcomplete := h.complete hopen' hkept
  rw [Outbox.Complete, StreamWorld.outbox] at hcomplete ⊢
  rw [hsame]
  exact hcomplete

variable {wh : Webhook} {accepted : List (List UInt8)} {written : List UInt8}
  {dropped : Bool} {message : CStr} {turn : SendTurn}

theorem send_step {wh' : Webhook} {ret : ℤ} {data : List UInt8}
    (hreturns : (webhookSend message turn).Returns wh (ret, data) wh') :
    StreamWorld.step ⟨(false, wh), accepted, written, dropped⟩
        (.send message turn) =
      ⟨(false, wh'),
        accepted ++ if ret = 0 then [wh.request message] else [],
        written ++ data, dropped⟩ := by
  rw [StreamWorld.step,
    show WebhookEvent.entry (.send message turn) (false, wh) = _
      from hreturns]
  simp [WebhookEvent.opens, WebhookEvent.drops, WebhookEvent.takes]

/-- A request that fits is the next one of the stream, and a first piece of it
is written. -/
theorem step_send_fits
    (h : StreamInv ⟨(false, wh), accepted, written, dropped⟩)
    (hdrop : NothingAfterDrop ⟨(false, wh), accepted, written, dropped⟩
      (.send message turn))
    (hsending : wh.sending = false) (hopen : wh.tcpState = .connected)
    (hfits : (wh.fill message turn.now).1 = true) :
    StreamInv (StreamWorld.step ⟨(false, wh), accepted, written, dropped⟩
      (.send message turn)) := by
  have hfillConn := h.lock.conn.fill message turn.now
  obtain ⟨hbuff, hrest, hstate⟩ := fill_of_fits h.buff hsending hopen hfits
  obtain ⟨n, hdata, hleft, hbuff', hstate', hn⟩ :=
    tcpSend_spec hbuff hstate turn.tcp
  rw [send_step (webhookSend_of_fits hsending hopen hfits), hdata, hrest]
  have houtbox : StreamWorld.outbox
      ⟨(false, ((wh.fill message turn.now).2.tcpSend turn.tcp).1),
        accepted ++ [wh.request message],
        written ++ (wh.request message).take n, dropped⟩ =
      (Outbox.accept ⟨accepted, written, wh.rest⟩
        (wh.request message)).write n := by
    simp [StreamWorld.outbox, Outbox.accept, Outbox.write, hleft, hrest]
  have hcomplete : dropped = false →
      ((Outbox.accept ⟨accepted, written, wh.rest⟩
        (wh.request message)).write n).Complete := by
    intro hkept
    apply Outbox.Complete.write
    exact (h.complete hopen hkept).accept (rest_of_idle hsending) _
  refine ⟨⟨rfl, hfillConn.tcpSend turn.tcp⟩, hbuff', ?_, ?_⟩
  · rw [if_pos rfl, houtbox]
    by_cases hkept : dropped = true
    · have hlen := (fill_fst wh message turn.now).mp hfits
      have hzero : n = 0 := by
        apply hn
        rcases hdrop hkept with hbusy | hshut | hlong | hnone
        · exact absurd (hsending.symm.trans hbusy) Bool.false_ne_true
        · exact (hshut hopen).elim
        · exact (hlong.not_gt hlen).elim
        · exact hnone
      have horder : Outbox.InOrder ⟨accepted, written, wh.rest⟩ := h.inOrder
      have haccept := horder.accept (wh.request message)
      subst hzero
      rw [Outbox.InOrder, Outbox.write, List.take_zero, List.append_nil]
      exact haccept
    · exact (hcomplete (Bool.eq_false_iff.mpr hkept)).inOrder
  · intro _ hkept
    rw [if_pos rfl, houtbox]
    exact hcomplete hkept

theorem step_send (h : StreamInv x)
    (hdrop : NothingAfterDrop x (.send message turn)) :
    StreamInv (x.step (.send message turn)) := by
  by_cases hre : NoReentry x.lock (.send message turn)
  · obtain ⟨⟨held, wh⟩, accepted, written, dropped⟩ := x
    obtain rfl : held = false := h.lock.free
    have hrefused : accepted ++ (if (-1 : ℤ) = 0 then [wh.request message]
        else []) = accepted := by simp
    cases hsending : wh.sending with
    | true =>
        rw [send_step (webhookSend_of_sending hsending message turn), hrefused,
          List.append_nil]
        exact h
    | false =>
        have hopen : wh.tcpState = .connected :=
          hre.resolve_left (Bool.eq_false_iff.mp hsending)
        cases hfits : (wh.fill message turn.now).1 with
        | false =>
            obtain ⟨hbuff, hrest, hstate⟩ :=
              fill_of_not_fits h.buff hsending hfits
            rw [send_step (webhookSend_of_not_fits hsending hopen hfits),
              hrefused, List.append_nil]
            refine ⟨⟨rfl, h.lock.conn.fill message turn.now⟩, hbuff, h.inOrder,
              fun hopen' hkept => ?_⟩
            have hcomplete := h.complete hopen hkept
            rw [Outbox.Complete, StreamWorld.outbox] at hcomplete ⊢
            rw [hrest, ← rest_of_idle hsending]
            exact hcomplete
        | true => exact step_send_fits h hdrop hsending hopen hfits
  · rw [h.step_of_reentry hre]
    exact h

theorem step_connect (h : StreamInv x) {now : ℕ}
    (hopening : x.lock.2.tcpState = .connecting) :
    StreamInv (x.step (.connectCb true now)) := by
  obtain ⟨⟨held, wh⟩, accepted, written, dropped⟩ := x
  obtain rfl : held = false := h.lock.free
  have hrest : wh.rest = [] := h.buff.closed fun hopen =>
    nomatch hopening.symm.trans hopen
  have hconn : ConnInv { wh with tcpState := .connected, lastSend := now } :=
    ⟨h.lock.conn.keepOpen, nofun, nofun⟩
  refine ⟨⟨rfl, hconn⟩, ⟨h.buff.buff, h.buff.idle, fun hne => (hne rfl).elim⟩,
    List.prefix_rfl, fun _ _ => ?_⟩
  exact hrest

theorem step (h : StreamInv x) {e : WebhookEvent}
    (hen : e.Enabled x.lock) (hdrop : NothingAfterDrop x e) :
    StreamInv (x.step e) := by
  by_cases hsend : ∃ message turn, e = .send message turn
  · obtain ⟨message, turn, rfl⟩ := hsend
    exact h.step_send hdrop
  · cases hopens : e.opens with
    | false =>
        by_cases hre : NoReentry x.lock e
        · exact h.step_quiet hre (fun message turn he =>
            hsend ⟨message, turn, he⟩) hopens
        · rw [h.step_of_reentry hre]
          exact h
    | true =>
        cases e with
        | connectCb ok now =>
            obtain rfl : ok = true := hopens
            exact h.step_connect hen.2
        | _ => exact nomatch hopens

end StreamInv

/-- In every run that writes nothing to a connection after a part of a request
was discarded, what was written is a beginning of the requests that were
accepted, in their order. -/
theorem stream_integrity (config : WebhookConfig) (es : List WebhookEvent)
    (hadmits : streamMachine.Admits (.init config) es)
    (hdrop : streamMachine.Along NothingAfterDrop (.init config) es) :
    (streamMachine.run (.init config) es).written <+:
      (streamMachine.run (.init config) es).accepted.flatten := by
  have hboth := EventMachine.along_and.mpr ⟨hadmits, hdrop⟩
  exact (hboth.invariant (I := StreamInv)
    (fun _ _ hx hstep => hx.step hstep.1 hstep.2) (.init config)).inOrder

/-- A request that is written in two pieces, the second of which is never
written. -/
theorem stream_integrity_partial :
    (streamMachine.run (.init ⟨lit "host", lit "/api", 80, lit "herak"⟩)
      [.run ⟨true, 5, .ok, 5, 5, ⟨some 0, true⟩, 5⟩, .connectCb true 10,
        .send (lit "first") ⟨20, 20, ⟨none, false⟩, ⟨20, true⟩⟩]).written <+:
      (streamMachine.run (.init ⟨lit "host", lit "/api", 80, lit "herak"⟩)
        [.run ⟨true, 5, .ok, 5, 5, ⟨some 0, true⟩, 5⟩, .connectCb true 10,
          .send (lit "first")
            ⟨20, 20, ⟨none, false⟩, ⟨20, true⟩⟩]).accepted.flatten :=
  stream_integrity _ _
    ⟨trivial, And.intro (by decide +kernel) (by decide +kernel), trivial,
      trivial⟩
    ⟨trivial, trivial, (fun hdropped => nomatch hdropped), trivial⟩

/-- The rest of a request is discarded after twenty seconds, and the next
request follows the part that was written. -/
theorem not_stream_integrity :
    ¬∀ config es, streamMachine.Admits (.init config) es →
      (streamMachine.run (.init config) es).written <+:
        (streamMachine.run (.init config) es).accepted.flatten := by
  intro h
  have hrun := h ⟨lit "host", lit "/api", 80, lit "herak"⟩
    [.run ⟨true, 5, .ok, 5, 5, ⟨some 0, true⟩, 5⟩, .connectCb true 10,
      .send (lit "first") ⟨20, 20, ⟨none, false⟩, ⟨20, true⟩⟩,
      .run ⟨true, 30000, .ok, 30000, 30000, ⟨none, false⟩, 30000⟩,
      .send (lit "second") ⟨30010, 30010, ⟨none, false⟩, ⟨512, true⟩⟩]
    ⟨trivial, And.intro (by decide +kernel) (by decide +kernel), trivial,
      trivial, trivial, trivial⟩
  exact absurd hrun (by decide +kernel)

end Herak.Wh
