import Herak.Web.Server

/-!
# Web clients and connections

An index of a client names the connection that has it.  The log forwarder, a
copy and an update keep an index for as long as they run, and the connection
may be another one when they use it.  A close of any client stops the
forwarding of the log, whichever client it is forwarded to.
-/

namespace Herak.Web

open CString

/-! ## Who has asked -/

/-- A connection that has asked for something, with its client; it is `gone`
when the connection has ended since. -/
structure Asker where
  client : Fin maxClients
  conn : Option ℕ
  gone : Bool

/-- Who has asked for the lines of the log, for a copy and for an update, and
whether a status has been asked for. -/
structure Asked where
  log : Option Asker
  copy : Option Asker
  update : Option Asker
  status : Bool

/-- A client takes no line without a connection, while it is sending, and of an
empty line. -/
def WebClient.Refuses (client : WebClient) (logBuff : CStr) : Prop :=
  client.tcpClient = none ∨ client.sending = true ∨ logBuff = []

instance (client : WebClient) (logBuff : CStr) :
    Decidable (client.Refuses logBuff) :=
  inferInstanceAs (Decidable (_ ∨ _ ∨ _))

def ServerWorld.asker (x : ServerWorld) (i : Fin maxClients) : Asker where
  client := i
  conn := x.conn i
  gone := x.conn i = none

namespace Asked

def init : Asked := ⟨none, none, none, false⟩

/-- Who has asked for the close that the event is; a request asks for the close
of its own client. -/
def closes (a : Asked) (x : ServerWorld) : ServerEvent → Option Asker
  | .logOff => a.log
  | .commandsRun inProgress =>
      if a.status ∧ inProgress = false then a.log else none
  | .copyReset => a.copy
  | .updateReset => a.update
  | .endRequest i => some (x.asker i)
  | _ => none

/-- The lines of the log are for the last request with a command, until a
connection is closed or a line is refused. -/
def logAfter (a : Asked) (x : ServerWorld) : ServerEvent → Option Asker
  | .command i => some (x.asker i)
  | .log logBuff _ _ =>
      a.log.filter fun t => ¬(x.server.client t.client).Refuses logBuff
  | e => if (a.closes x e).all fun t => x.conn t.client = none then a.log else none

def copyAfter (a : Asked) (x : ServerWorld) : ServerEvent → Option Asker
  | .copyStart i => i.map x.asker
  | .copyReset => none
  | _ => a.copy

def updateAfter (a : Asked) (x : ServerWorld) : ServerEvent → Option Asker
  | .updateStart i => i.map x.asker
  | .updateReset => none
  | _ => a.update

def statusAfter (a : Asked) : ServerEvent → Bool
  | .status => true
  | .commandsRun inProgress => a.status && inProgress
  | _ => a.status

end Asked

/-- The connection of the asker may have ended in the event. -/
def Asker.after (x : ServerWorld) (e : ServerEvent) (t : Asker) : Asker :=
  { t with
    gone := t.gone || decide ((x.step e).conn t.client ≠ x.conn t.client) }

/-- Who has asked, after the event. -/
def Asked.after (a : Asked) (x : ServerWorld) (e : ServerEvent) : Asked where
  log := (a.logAfter x e).map (Asker.after x e)
  copy := (a.copyAfter x e).map (Asker.after x e)
  update := (a.updateAfter x e).map (Asker.after x e)
  status := a.statusAfter e

/-- The server, and who has asked it. -/
def askedMachine : EventMachine (ServerWorld × Asked) ServerEvent :=
  serverMachine.recording fun x e a => a.after x e

/-! ## The property and the condition -/

/-- The events that close a client. -/
def ServerEvent.isClose : ServerEvent → Bool
  | .logOff | .commandsRun _ | .copyReset | .updateReset | .endRequest _
  | .remoteClosed _ | .tcpError _ | .closeCheck _ => true
  | .accept | .send _ _ _ _ _ _ | .sendData _ _ _ _ | .sendPoll _ _
  | .command _ | .status | .copyStart _ | .updateStart _ | .log _ _ _ => false

/-- The event closes the client: it marks it, or it ends its connection. -/
def ClosedBy (x : ServerWorld × Asked) (e : ServerEvent) (i : Fin maxClients) :
    Prop :=
  (x.2.closes x.1 e).map Asker.client = some i ∨
    (x.1.step e).conn i ≠ x.1.conn i

/-- The lines of the log go to the client. -/
def WebServer.Forwards (s : WebServer) (i : Fin maxClients) : Prop :=
  s.httpLog = true ∧ s.clientLog = some i

/-- A close and a line of the log affect no connection but the one that has
asked, and the close of a client leaves the forwarding to another that has
asked. -/
structure ClientIsolated (x : ServerWorld × Asked) (e : ServerEvent) : Prop where
  close : ∀ t ∈ x.2.closes x.1 e, ∀ j, x.1.conn j ≠ none →
    x.1.conn j ≠ t.conn → (x.1.call e).client j = x.1.server.client j
  log : ∀ logBuff now tcp, e = .log logBuff now tcp →
    ∀ j, x.1.conn j ≠ none → (∀ t ∈ x.2.log, x.1.conn j ≠ t.conn) →
      (x.1.call e).client j = x.1.server.client j ∧
        x.1.lineTo logBuff now tcp j = []
  forwarding : e.isClose = true → ∀ t ∈ x.2.log,
    x.1.conn t.client ≠ none → x.1.conn t.client = t.conn →
      ¬ClosedBy x e t.client → (x.1.step e).server.Forwards t.client

/-- The connection that has asked is still there when its client is closed or
gets a line, or the client has no connection, or one that is closing or refuses
the line; and no connection is closed while another that has asked for the log
is there. -/
structure NoneReplaced (x : ServerWorld × Asked) (e : ServerEvent) : Prop where
  close : ∀ t ∈ x.2.closes x.1 e,
    t.gone = false ∨ x.1.conn t.client = none ∨
      (x.1.server.client t.client).close = true
  log : ∀ logBuff now tcp, e = .log logBuff now tcp → ∀ t ∈ x.2.log,
    t.gone = false ∨ (x.1.server.client t.client).Refuses logBuff
  forwarding : ∀ t ∈ x.2.closes x.1 e, x.1.conn t.client ≠ none →
    ∀ u ∈ x.2.log, u.gone = false → u.client = t.client

/-! ## Closes -/

namespace WebServer

variable {s : WebServer} {i : Fin maxClients}

theorem webservClientClose_of_none (h : (s.client i).tcpClient = none) :
    s.webservClientClose i = s :=
  if_pos h

theorem webservClientClose_of_some (h : (s.client i).tcpClient ≠ none) :
    s.webservClientClose i =
      (s.setClient i { s.client i with close := true }).debugLogForward none := by
  rw [webservClientClose, if_neg h, Web.webservClientClose, if_neg h]

theorem webservClientClose_client_of_ne {j : Fin maxClients} (h : j ≠ i) :
    (s.webservClientClose i).client j = s.client j := by
  by_cases hnone : (s.client i).tcpClient = none
  · rw [webservClientClose_of_none hnone]
  · rw [webservClientClose_of_some hnone]
    exact setClient_client_of_ne h ..

/-- A close changes the client unless there is no connection or it is closing
already. -/
theorem webservClientClose_client_eq_iff :
    (s.webservClientClose i).client i = s.client i ↔
      (s.client i).tcpClient = none ∨ (s.client i).close = true := by
  by_cases hnone : (s.client i).tcpClient = none
  · simp [webservClientClose_of_none hnone, hnone]
  · rw [webservClientClose_of_some hnone]
    simp only [hnone, false_or]
    constructor
    · intro h
      have hclose := congrArg WebClient.close h
      simpa [debugLogForward] using hclose.symm
    · intro h
      simp [debugLogForward, ← h]

end WebServer

/-! ## Lines of the log -/

/-- What TCP is given is sent, or the client waits for the rest to be sent. -/
theorem wsTcpSend_written_or_sending {client : WebClient} {tcp : TcpWrite}
    (hsending : client.sending = true)
    (hlen : client.buffLen ≤ client.buff.length) :
    (wsTcpSend client tcp).2 ≠ [] ∨
      (wsTcpSend client tcp).1.sending = true := by
  unfold wsTcpSend
  by_cases hnothing : client.buffLen - client.buffP = 0
  · rw [if_pos (.inr hnothing)]
    exact .inr hsending
  · rw [if_neg (by simp [hsending, hnothing])]
    split
    · exact .inr hsending
    · rename_i hspace
      cases tcp.ok with
      | false => exact .inr hsending
      | true =>
          left
          have hne : (client.buff.drop client.buffP).take
              (min tcp.sndbuf (client.buffLen - client.buffP)) ≠ [] := by
            apply List.ne_nil_of_length_pos
            rw [List.length_take, List.length_drop]
            omega
          rw [if_pos rfl]
          simp only []
          split <;> exact hne

/-- A message is sent or waits in the buffer, unless it is refused. -/
theorem webservClientSendData_unchanged_iff {client : WebClient}
    {data : List UInt8} {now : ℕ} {tcp : TcpWrite} :
    ((webservClientSendData client data now tcp).2.1 = client ∧
        (webservClientSendData client data now tcp).2.2 = []) ↔
      client.tcpClient = none ∨ client.sending = true ∨ data = [] := by
  unfold webservClientSendData
  by_cases hrefused : client.tcpClient = none ∨ data = []
  · rw [if_pos hrefused]
    rcases hrefused with hnone | hdata
    · simp [hnone]
    · simp [hdata]
  · rw [if_neg hrefused]
    obtain ⟨hsome, hdata⟩ := not_or.mp hrefused
    cases hsending : client.sending with
    | true => simp [hsome]
    | false =>
        simp only [Bool.false_eq_true, if_false, hsome, hdata, or_self,
          iff_false]
        rintro ⟨hclient, hwritten⟩
        have hfill : (client.fill (data.take packetBuffSize) now).buffLen ≤
            (client.fill (data.take packetBuffSize) now).buff.length := by
          simp only [WebClient.fill, Memory.memcpy, List.length_append]
          omega
        have hsend := @wsTcpSend_written_or_sending _ tcp rfl hfill
        rcases hsend with hne | hstill
        · exact hne hwritten
        · rw [hclient, hsending] at hstill
          cases hstill

theorem webservClientSendData_refuses {client : WebClient} {logBuff : CStr}
    {now : ℕ} {tcp : TcpWrite} :
    (webservClientSendData client logBuff now tcp).1 ≤ 0 ↔
      client.Refuses logBuff := by
  unfold webservClientSendData WebClient.Refuses
  by_cases hrefused : client.tcpClient = none ∨ logBuff = []
  · rw [if_pos hrefused]
    rcases hrefused with hnone | hdata
    · simp [hnone]
    · simp [hdata]
  · rw [if_neg hrefused]
    obtain ⟨hsome, hdata⟩ := not_or.mp hrefused
    have hlen := List.length_pos_iff.mpr hdata
    cases hsending : client.sending with
    | true => simp
    | false => simp [hsome, hdata, packetBuffSize]

namespace WebServer

variable {logBuff : CStr} {now : ℕ} {tcp : TcpWrite}

/-- Without forwarding a line changes no client. -/
theorem hlogAny_of_not {s : WebServer}
    (h : s.httpLog = true → s.clientLog = none) :
    (s.hlogAny logBuff now tcp).1.client = s.client ∧
      (s.hlogAny logBuff now tcp).2 = [] := by
  unfold WebServer.hlogAny
  cases hhttp : s.httpLog with
  | false => exact ⟨rfl, rfl⟩
  | true =>
      rw [WebServer.syscmdLogSend, h hhttp]
      exact ⟨rfl, rfl⟩

/-- A line that is forwarded is a message to the client. -/
theorem hlogAny_of_forwarded {s : WebServer} {i : Fin maxClients}
    (hhttp : s.httpLog = true) (hlog : s.clientLog = some i) :
    (s.hlogAny logBuff now tcp).1.client =
        Function.update s.client i
          (webservClientSendData (s.client i) logBuff now tcp).2.1 ∧
      (s.hlogAny logBuff now tcp).2 =
        (webservClientSendData (s.client i) logBuff now tcp).2.2 := by
  rw [WebServer.hlogAny, if_pos hhttp, WebServer.syscmdLogSend, hlog]
  simp only []
  by_cases hrefused : (webservClientSendData (s.client i) logBuff now tcp).1 ≤ 0
  · rw [if_pos hrefused]
    exact ⟨rfl, rfl⟩
  · rw [if_neg hrefused]
    exact ⟨rfl, rfl⟩

end WebServer

/-! ## Connections -/

theorem wsTcpSend_tcpClient (client : WebClient) (tcp : TcpWrite) :
    (wsTcpSend client tcp).1.tcpClient = client.tcpClient := by
  unfold wsTcpSend
  simp only []
  split_ifs <;> rfl

theorem webservClientSend_tcpClient (client : WebClient) (data : List UInt8)
    (rep : HttpResponseId) (date : CStr) (now : ℕ) (tcp : TcpWrite) :
    (webservClientSend client data rep date now tcp).2.1.tcpClient =
      client.tcpClient := by
  unfold webservClientSend
  simp only []
  split_ifs
  · rfl
  · rfl
  · rfl
  · exact wsTcpSend_tcpClient ..

theorem webservClientSendData_tcpClient (client : WebClient)
    (data : List UInt8) (now : ℕ) (tcp : TcpWrite) :
    (webservClientSendData client data now tcp).2.1.tcpClient =
      client.tcpClient := by
  unfold webservClientSendData
  split_ifs
  · rfl
  · rfl
  · exact wsTcpSend_tcpClient ..

theorem webclientSendPoll_tcpClient (client : WebClient) (tcp : TcpWrite) :
    (webclientSendPoll client tcp).1.tcpClient = client.tcpClient := by
  unfold webclientSendPoll
  split_ifs
  · rfl
  · exact wsTcpSend_tcpClient ..
  · rfl

theorem webservClientClose_tcpClient (client : WebClient) :
    (webservClientClose client).tcpClient = client.tcpClient := by
  unfold webservClientClose
  split <;> rfl

theorem webclientDisconnect_tcpClient (client : WebClient) :
    (webclientDisconnect client).tcpClient = client.tcpClient ∨
      (webclientDisconnect client).tcpClient = none := by
  unfold webclientDisconnect
  split
  · exact .inl rfl
  · exact .inr rfl

theorem webclientCloseCheck_tcpClient (client : WebClient) (now : ℕ) :
    (webclientCloseCheck client now).tcpClient = client.tcpClient ∨
      (webclientCloseCheck client now).tcpClient = none := by
  unfold webclientCloseCheck
  split_ifs
  · exact .inl rfl
  · exact webclientDisconnect_tcpClient client
  · exact .inl rfl

namespace WebServer

/-- A server whose clients have the connections that they had, or none. -/
def Keeps (s t : WebServer) : Prop :=
  ∀ i, (t.client i).tcpClient = (s.client i).tcpClient ∨
    (t.client i).tcpClient = none

variable {s : WebServer}

theorem keeps_of_client_eq {t : WebServer} (h : t.client = s.client) :
    s.Keeps t := by
  intro i
  rw [h]
  exact .inl rfl

theorem keeps_setClient {j : Fin maxClients} {client : WebClient}
    (h : client.tcpClient = (s.client j).tcpClient ∨ client.tcpClient = none) :
    s.Keeps (s.setClient j client) := by
  intro i
  by_cases hij : i = j
  · subst hij
    simpa using h
  · rw [setClient_client_of_ne hij]
    exact .inl rfl

theorem keeps_webservClientClose (i : Fin maxClients) :
    s.Keeps (s.webservClientClose i) := by
  intro j
  left
  by_cases hji : j = i
  · subst hji
    rw [webservClientClose_client_self, webservClientClose_tcpClient]
  · rw [webservClientClose_client_of_ne hji]

theorem keeps_closeIdx (idx : Option (Fin maxClients)) :
    s.Keeps (s.closeIdx idx) := by
  cases idx with
  | none => exact keeps_of_client_eq rfl
  | some i => exact keeps_webservClientClose i

theorem keeps_sysCommandsRun (inProgress : Bool) :
    s.Keeps (s.sysCommandsRun inProgress) := by
  unfold sysCommandsRun
  split
  · exact keeps_closeIdx (s := { s with statusLog := false }) s.clientLog
  · exact keeps_of_client_eq rfl

theorem keeps_hlogAny (logBuff : CStr) (now : ℕ) (tcp : TcpWrite) :
    s.Keeps (s.hlogAny logBuff now tcp).1 := by
  by_cases hnot : s.httpLog = true → s.clientLog = none
  · exact keeps_of_client_eq (hlogAny_of_not hnot).1
  · obtain ⟨hhttp, hsome⟩ := not_forall.mp hnot
    obtain ⟨i, hlog⟩ := Option.ne_none_iff_exists'.mp hsome
    have hset := keeps_setClient (s := s) (j := i) (.inl
      (webservClientSendData_tcpClient (s.client i) logBuff now tcp))
    rw [Keeps, (hlogAny_of_forwarded hhttp hlog).1]
    exact hset

end WebServer

namespace ServerWorld

/-- An event other than an accept gives no client a connection. -/
theorem keeps_call (x : ServerWorld) {e : ServerEvent} (he : e ≠ .accept) :
    x.server.Keeps (x.call e) := by
  cases e with
  | accept => exact (he rfl).elim
  | send i data rep date now tcp =>
      exact WebServer.keeps_setClient (.inl (webservClientSend_tcpClient ..))
  | sendData i data now tcp =>
      exact WebServer.keeps_setClient (.inl (webservClientSendData_tcpClient ..))
  | sendPoll i tcp =>
      exact WebServer.keeps_setClient (.inl (webclientSendPoll_tcpClient ..))
  | command i | status | copyStart i | updateStart i =>
      exact WebServer.keeps_of_client_eq rfl
  | logOff => exact WebServer.keeps_closeIdx x.server.clientLog
  | endRequest i => exact WebServer.keeps_webservClientClose i
  | copyReset => exact WebServer.keeps_closeIdx x.server.copyIdx
  | updateReset => exact WebServer.keeps_closeIdx x.server.updateIdx
  | commandsRun inProgress => exact WebServer.keeps_sysCommandsRun inProgress
  | log logBuff now tcp => exact WebServer.keeps_hlogAny logBuff now tcp
  | remoteClosed i =>
      exact WebServer.keeps_setClient (webclientDisconnect_tcpClient _)
  | tcpError i =>
      apply WebServer.keeps_setClient
      right
      rcases webclientDisconnect_tcpClient
          { x.server.client i with tcpClient := none } with h | h
      · exact h
      · exact h
  | closeCheck now =>
      intro i
      exact webclientCloseCheck_tcpClient (x.server.client i) now

end ServerWorld

/-! ## What the other modules know -/

/-- An accept gives a free client the next number. -/
theorem ServerWorld.conn_webservAccept (x : ServerWorld) :
    x.server.webservAccept x.conns = x.server ∨
      ∃ i, x.conn i = none ∧ x.server.webservAccept x.conns =
        x.server.setClient i (Web.webservAccept (x.server.client i) x.conns) := by
  unfold WebServer.webservAccept
  cases hfind : (List.finRange maxClients).find?
      fun i => (x.server.client i).tcpClient = none with
  | none => exact .inl rfl
  | some i =>
      have hfree := List.find?_some hfind
      exact .inr ⟨i, of_decide_eq_true hfree, rfl⟩

/-- A client keeps its connection, or has none, or has a new one. -/
theorem ServerWorld.conn_step (x : ServerWorld) (e : ServerEvent)
    (i : Fin maxClients) :
    (x.step e).conn i = x.conn i ∨ (x.step e).conn i = none ∨
      (x.step e).conn i = some x.conns ∧ (x.step e).conns = x.conns + 1 := by
  by_cases he : e = .accept
  · subst he
    rcases x.conn_webservAccept with hfull | ⟨k, -, hset⟩
    · exact .inl (congrArg (fun s => (s.client i).tcpClient) hfull)
    · by_cases hik : i = k
      · subst hik
        refine .inr (.inr ⟨?_, rfl⟩)
        simp [conn, step, call, hset, Web.webservAccept]
      · left
        simp [conn, step, call, hset, WebServer.setClient_client_of_ne hik]
  · rcases x.keeps_call he i with hsame | hnone
    · exact .inl hsame
    · exact .inr (.inl hnone)

/-- The asker has one of the connections so far, and it is gone when its client
has no connection, or another. -/
structure Asker.Known (t : Asker) (x : ServerWorld) : Prop where
  lt : ∀ pcb ∈ t.conn, pcb < x.conns
  gone : t.gone = false ↔ x.conn t.client ≠ none ∧ x.conn t.client = t.conn

/-- The indices of the other modules are the clients of those who have asked. -/
structure Tracks (x : ServerWorld × Asked) : Prop where
  log : x.1.server.clientLog = x.2.log.map Asker.client
  httpLog : x.1.server.httpLog = x.2.log.isSome
  copy : x.1.server.copyIdx = x.2.copy.map Asker.client
  update : x.1.server.updateIdx = x.2.update.map Asker.client
  status : x.1.server.statusLog = x.2.status
  conns : ∀ i pcb, x.1.conn i = some pcb → pcb < x.1.conns
  askers : ∀ t, (x.2.log = some t ∨ x.2.copy = some t ∨ x.2.update = some t) →
    t.Known x.1

theorem tracks_init : Tracks (.init, .init) where
  log := rfl
  httpLog := rfl
  copy := rfl
  update := rfl
  status := rfl
  conns := by simp [ServerWorld.conn, ServerWorld.init, WebServer.init, WebClient.zero]
  askers := by simp [Asked.init]

theorem ServerWorld.conns_le_step (x : ServerWorld) (e : ServerEvent) :
    x.conns ≤ (x.step e).conns := by
  cases e <;> first | exact Nat.le_refl _ | exact Nat.le_succ _

theorem Asker.Known.after {t : Asker} {x : ServerWorld} (h : t.Known x)
    (e : ServerEvent) : (t.after x e).Known (x.step e) := by
  refine ⟨fun pcb hpcb => (h.lt pcb hpcb).trans_le (x.conns_le_step e), ?_⟩
  by_cases hsame : (x.step e).conn t.client = x.conn t.client
  · simpa [Asker.after, hsame] using h.gone
  · have hgone : (t.after x e).gone = true := by simp [Asker.after, hsame]
    rw [hgone]
    refine ⟨fun hfalse => (Bool.false_ne_true hfalse.symm).elim, ?_⟩
    rintro ⟨hsome, hown⟩
    rcases x.conn_step e t.client with heq | hnone | ⟨hnew, -⟩
    · exact (hsame heq).elim
    · exact (hsome hnone).elim
    · have hlt := h.lt x.conns (hown.symm.trans hnew)
      exact (Nat.lt_irrefl _ hlt).elim

theorem known_asker {x : ServerWorld}
    (hconns : ∀ i pcb, x.conn i = some pcb → pcb < x.conns) (i : Fin maxClients) :
    (x.asker i).Known x where
  lt := fun pcb hpcb => hconns i pcb hpcb
  gone := by simp [ServerWorld.asker]

theorem WebServer.closeIdx_log (s : WebServer) (idx : Option (Fin maxClients)) :
    (s.closeIdx idx).clientLog =
        (if idx.all fun i => (s.client i).tcpClient = none then s.clientLog
          else none) ∧
      (s.closeIdx idx).httpLog =
        (if idx.all fun i => (s.client i).tcpClient = none then s.httpLog
          else false) := by
  cases idx with
  | none => exact ⟨rfl, rfl⟩
  | some i =>
      by_cases hnone : (s.client i).tcpClient = none
      · simp [closeIdx, webservClientClose_of_none hnone, hnone]
      · simp [closeIdx, webservClientClose_of_some hnone, debugLogForward, hnone]

theorem WebServer.closeIdx_other (s : WebServer) (idx : Option (Fin maxClients)) :
    (s.closeIdx idx).copyIdx = s.copyIdx ∧
      (s.closeIdx idx).updateIdx = s.updateIdx ∧
      (s.closeIdx idx).statusLog = s.statusLog := by
  cases idx with
  | none => exact ⟨rfl, rfl, rfl⟩
  | some i =>
      by_cases hnone : (s.client i).tcpClient = none
      · rw [closeIdx, webservClientClose_of_none hnone]
        exact ⟨rfl, rfl, rfl⟩
      · rw [closeIdx, webservClientClose_of_some hnone]
        exact ⟨rfl, rfl, rfl⟩

section

variable {x : ServerWorld × Asked} {e : ServerEvent}

theorem all_closes (x : ServerWorld × Asked) (t : Option Asker) :
    (t.map Asker.client).all (fun i => (x.1.server.client i).tcpClient = none) =
      t.all fun t => x.1.conn t.client = none := by
  cases t <;> rfl

/-- A close leaves the lines of the log to who has asked, or to none. -/
theorem Tracks.log_close (h : Tracks x) (t : Option Asker) :
    (x.1.server.closeIdx (t.map Asker.client)).clientLog =
        (if t.all fun t => x.1.conn t.client = none then x.2.log
          else none).map Asker.client ∧
      (x.1.server.closeIdx (t.map Asker.client)).httpLog =
        (if t.all fun t => x.1.conn t.client = none then x.2.log
          else none).isSome := by
  obtain ⟨hlog, hhttp⟩ := x.1.server.closeIdx_log (t.map Asker.client)
  rw [all_closes] at hlog hhttp
  rw [hlog, hhttp]
  split
  · exact ⟨h.log, h.httpLog⟩
  · exact ⟨rfl, rfl⟩

/-- A line that is refused is the last one for who has asked. -/
theorem Tracks.log_line (h : Tracks x) (logBuff : CStr) (now : ℕ) (tcp : TcpWrite) :
    (x.1.server.hlogAny logBuff now tcp).1.clientLog =
        (x.2.log.filter fun t =>
          ¬(x.1.server.client t.client).Refuses logBuff).map Asker.client ∧
      (x.1.server.hlogAny logBuff now tcp).1.httpLog =
        (x.2.log.filter fun t =>
          ¬(x.1.server.client t.client).Refuses logBuff).isSome := by
  cases hasked : x.2.log with
  | none =>
      have hhttp : x.1.server.httpLog = false := by
        rw [h.httpLog, hasked, Option.isSome_none]
      simp [WebServer.hlogAny, hhttp, hasked, h.log]
  | some t =>
      have hlog : x.1.server.clientLog = some t.client := by
        rw [h.log, hasked, Option.map_some]
      have hhttp : x.1.server.httpLog = true := by
        rw [h.httpLog, hasked, Option.isSome_some]
      have hrefuses := @webservClientSendData_refuses
        (x.1.server.client t.client) logBuff now tcp
      simp only [WebServer.hlogAny, hhttp, if_true, WebServer.syscmdLogSend, hlog]
      by_cases hrefused : (x.1.server.client t.client).Refuses logBuff
      · simp [if_pos (hrefuses.mpr hrefused), hrefused]
      · simp [if_neg (mt hrefuses.mp hrefused), hrefused,
          WebServer.setClient, hlog, hhttp]

/-- The lines of the log go to the client of the connection that has asked. -/
theorem Tracks.log_step (h : Tracks x) (e : ServerEvent) :
    (x.1.call e).clientLog = (x.2.logAfter x.1 e).map Asker.client ∧
      (x.1.call e).httpLog = (x.2.logAfter x.1 e).isSome := by
  have hkeep := And.intro h.log h.httpLog
  cases e with
  | command i => exact ⟨rfl, rfl⟩
  | log logBuff now tcp => exact h.log_line logBuff now tcp
  | logOff =>
      have hclose := h.log_close x.2.log
      rw [← h.log] at hclose
      exact hclose
  | commandsRun inProgress =>
      simp only [ServerWorld.call, WebServer.sysCommandsRun, Asked.logAfter,
        Asked.closes, ← h.status]
      split
      · obtain ⟨hlog, hhttp⟩ := WebServer.closeIdx_log
          { x.1.server with statusLog := false } x.1.server.clientLog
        have hclose := h.log_close x.2.log
        rw [← h.log, (x.1.server.closeIdx_log _).1,
          (x.1.server.closeIdx_log _).2] at hclose
        rw [hlog, hhttp]
        exact hclose
      · exact hkeep
  | copyReset =>
      have hclose := h.log_close x.2.copy
      rw [← h.copy] at hclose
      exact hclose
  | updateReset =>
      have hclose := h.log_close x.2.update
      rw [← h.update] at hclose
      exact hclose
  | endRequest i => exact h.log_close (some (x.1.asker i))
  | accept =>
      rcases x.1.conn_webservAccept with hfull | ⟨i, -, hset⟩
      · rw [ServerWorld.call, hfull]
        exact hkeep
      · rw [ServerWorld.call, hset]
        exact hkeep
  | send | sendData | sendPoll | status | copyStart | updateStart | remoteClosed
  | tcpError | closeCheck => exact hkeep

/-- A line of the log changes none of the other indices. -/
theorem hlogAny_other (s : WebServer) (logBuff : CStr) (now : ℕ) (tcp : TcpWrite) :
    (s.hlogAny logBuff now tcp).1.copyIdx = s.copyIdx ∧
      (s.hlogAny logBuff now tcp).1.updateIdx = s.updateIdx ∧
      (s.hlogAny logBuff now tcp).1.statusLog = s.statusLog := by
  cases hhttp : s.httpLog with
  | false => simp [WebServer.hlogAny, hhttp]
  | true =>
      cases hlog : s.clientLog with
      | none => simp [WebServer.hlogAny, WebServer.syscmdLogSend, hhttp, hlog]
      | some i =>
          by_cases hrefused :
              (webservClientSendData (s.client i) logBuff now tcp).1 ≤ 0
          · simp [WebServer.hlogAny, WebServer.syscmdLogSend, hhttp, hlog,
              hrefused, WebServer.setClient]
          · simp [WebServer.hlogAny, WebServer.syscmdLogSend, hhttp, hlog,
              hrefused, WebServer.setClient]

theorem Tracks.other_step (h : Tracks x) (e : ServerEvent) :
    (x.1.call e).copyIdx = (x.2.copyAfter x.1 e).map Asker.client ∧
      (x.1.call e).updateIdx = (x.2.updateAfter x.1 e).map Asker.client ∧
      (x.1.call e).statusLog = x.2.statusAfter e := by
  have hkeep := And.intro h.copy (And.intro h.update h.status)
  have hclose := fun idx => x.1.server.closeIdx_other idx
  have hmap : ∀ i : Option (Fin maxClients),
      i = (i.map x.1.asker).map Asker.client := by
    rintro (_ | i) <;> rfl
  cases e with
  | copyStart i => exact ⟨hmap i, h.update, h.status⟩
  | updateStart i => exact ⟨h.copy, hmap i, h.status⟩
  | status => exact ⟨h.copy, h.update, rfl⟩
  | copyReset =>
      obtain ⟨-, hupdate, hstatus⟩ := hclose x.1.server.copyIdx
      exact ⟨rfl, hupdate.trans h.update, hstatus.trans h.status⟩
  | updateReset =>
      obtain ⟨hcopy, -, hstatus⟩ := hclose x.1.server.updateIdx
      exact ⟨hcopy.trans h.copy, rfl, hstatus.trans h.status⟩
  | logOff =>
      obtain ⟨hcopy, hupdate, hstatus⟩ := hclose x.1.server.clientLog
      exact ⟨hcopy.trans h.copy, hupdate.trans h.update, hstatus.trans h.status⟩
  | endRequest i =>
      obtain ⟨hcopy, hupdate, hstatus⟩ := hclose (some i)
      exact ⟨hcopy.trans h.copy, hupdate.trans h.update, hstatus.trans h.status⟩
  | commandsRun inProgress =>
      simp only [ServerWorld.call, WebServer.sysCommandsRun, Asked.statusAfter,
        ← h.status]
      split
      next hend =>
        obtain ⟨hcopy, hupdate, hstatus⟩ := WebServer.closeIdx_other
          { x.1.server with statusLog := false } x.1.server.clientLog
        refine ⟨hcopy.trans h.copy, hupdate.trans h.update, hstatus.trans ?_⟩
        simp [hend.2]
      next hgoing =>
        refine ⟨h.copy, h.update, ?_⟩
        cases hstatus : x.1.server.statusLog with
        | false => rfl
        | true => simpa [hstatus] using hgoing
  | log logBuff now tcp =>
      obtain ⟨hcopy, hupdate, hstatus⟩ := hlogAny_other x.1.server logBuff now tcp
      exact ⟨hcopy.trans h.copy, hupdate.trans h.update, hstatus.trans h.status⟩
  | accept =>
      rcases x.1.conn_webservAccept with hfull | ⟨i, -, hset⟩
      · rw [ServerWorld.call, hfull]
        exact hkeep
      · rw [ServerWorld.call, hset]
        exact hkeep
  | command | send | sendData | sendPoll | remoteClosed | tcpError | closeCheck =>
      exact hkeep

/-- Whoever has asked after an event has asked before it, or in it. -/
theorem known_after (h : Tracks x) {t : Asker}
    (ht : x.2.logAfter x.1 e = some t ∨ x.2.copyAfter x.1 e = some t ∨
      x.2.updateAfter x.1 e = some t) : t.Known x.1 := by
  have hnew := known_asker h.conns
  have hmap : ∀ i : Option (Fin maxClients), i.map x.1.asker = some t →
      t.Known x.1 := by
    intro i hi
    obtain ⟨k, -, rfl⟩ := Option.map_eq_some_iff.mp hi
    exact hnew k
  have hlog : x.2.log = some t → t.Known x.1 := fun hl => h.askers t (.inl hl)
  have hcopy : x.2.copy = some t → t.Known x.1 :=
    fun hc => h.askers t (.inr (.inl hc))
  have hupdate : x.2.update = some t → t.Known x.1 :=
    fun hu => h.askers t (.inr (.inr hu))
  rcases ht with ht | ht | ht
  · cases e with
    | command i =>
        obtain rfl := Option.some.inj ht
        exact hnew i
    | log => exact hlog (Option.filter_eq_some_iff.mp ht).1
    | _ =>
        simp only [Asked.logAfter] at ht
        split at ht
        · exact hlog ht
        · cases ht
  · cases e with
    | copyStart i => exact hmap i ht
    | copyReset => cases ht
    | _ => exact hcopy ht
  · cases e with
    | updateStart i => exact hmap i ht
    | updateReset => cases ht
    | _ => exact hupdate ht

theorem tracks_step (h : Tracks x) (e : ServerEvent) :
    Tracks (askedMachine.step x e) := by
  obtain ⟨hlog, hhttp⟩ := h.log_step e
  obtain ⟨hcopy, hupdate, hstatus⟩ := h.other_step e
  have hclient : ∀ t : Option Asker,
      (t.map (Asker.after x.1 e)).map Asker.client = t.map Asker.client := by
    rintro (_ | t) <;> rfl
  refine
    { log := hlog.trans (hclient _).symm
      httpLog := hhttp.trans (Option.isSome_map ..).symm
      copy := hcopy.trans (hclient _).symm
      update := hupdate.trans (hclient _).symm
      status := hstatus
      conns := fun i pcb hi => ?_
      askers := fun t ht => ?_ }
  · have hle := x.1.conns_le_step e
    change (x.1.step e).conn i = some pcb at hi
    change pcb < (x.1.step e).conns
    rcases x.1.conn_step e i with hsame | hnone | ⟨hnew, hconns⟩
    · exact (h.conns i pcb (hsame.symm.trans hi)).trans_le hle
    · exact nomatch hnone.symm.trans hi
    · obtain rfl := Option.some.inj (hnew.symm.trans hi)
      rw [hconns]
      exact Nat.lt_succ_self _
  · have hknown : ∀ asked : Option Asker, asked.map (Asker.after x.1 e) = some t →
        (∀ u, asked = some u → u.Known x.1) → t.Known (x.1.step e) := by
      intro asked ht hu
      obtain ⟨u, hasked, rfl⟩ := Option.map_eq_some_iff.mp ht
      exact (hu u hasked).after e
    rcases ht with ht | ht | ht
    · exact hknown _ ht fun u hu => known_after h (.inl hu)
    · exact hknown _ ht fun u hu => known_after h (.inr (.inl hu))
    · exact hknown _ ht fun u hu => known_after h (.inr (.inr hu))

/-! ## One event -/

theorem closes_known (h : Tracks x) {t : Asker}
    (ht : x.2.closes x.1 e = some t) : t.Known x.1 := by
  have hlog : x.2.log = some t → t.Known x.1 := fun hl => h.askers t (.inl hl)
  cases e with
  | logOff => exact hlog ht
  | commandsRun inProgress =>
      simp only [Asked.closes] at ht
      split at ht
      · exact hlog ht
      · cases ht
  | copyReset => exact h.askers t (.inr (.inl ht))
  | updateReset => exact h.askers t (.inr (.inr ht))
  | endRequest i =>
      obtain rfl := Option.some.inj ht
      exact known_asker h.conns i
  | _ => cases ht

/-- The asker is there exactly if its client has its connection. -/
theorem Asker.Known.present_iff {t : Asker} {y : ServerWorld} (h : t.Known y)
    (c : Prop) :
    t.gone = false ∨ y.conn t.client = none ∨ c ↔
      y.conn t.client = none ∨ y.conn t.client = t.conn ∨ c := by
  rw [h.gone]
  by_cases hnone : y.conn t.client = none
  · simp [hnone]
  · simp [hnone]

/-- An event that closes an index does to the clients what the close of the
client does. -/
theorem call_client_of_closes (h : Tracks x) {t : Asker}
    (ht : x.2.closes x.1 e = some t) :
    (x.1.call e).client = (x.1.server.webservClientClose t.client).client := by
  have hidx : ∀ asked : Option Asker, asked = some t →
      x.1.server.closeIdx (asked.map Asker.client) =
        x.1.server.webservClientClose t.client := by
    rintro asked rfl
    rfl
  cases e with
  | logOff =>
      rw [ServerWorld.call, WebServer.sysLogOff, h.log, hidx x.2.log ht]
  | commandsRun inProgress =>
      simp only [Asked.closes, ← h.status] at ht
      split at ht
      next hend =>
        rw [ServerWorld.call, WebServer.sysCommandsRun, if_pos hend, h.log, ht]
        by_cases hnone : (x.1.server.client t.client).tcpClient = none
        · simp [WebServer.closeIdx, WebServer.webservClientClose, hnone]
        · simp [WebServer.closeIdx, WebServer.webservClientClose, hnone,
            WebServer.debugLogForward, WebServer.setClient]
      next => cases ht
  | copyReset =>
      rw [ServerWorld.call, WebServer.fsCpReset, h.copy, hidx x.2.copy ht]
  | updateReset =>
      rw [ServerWorld.call, WebServer.otaUpdateReset, h.update,
        hidx x.2.update ht]
  | endRequest i =>
      obtain rfl := Option.some.inj ht
      rfl
  | _ => cases ht

theorem close_iff (h : Tracks x) {t : Asker} (ht : x.2.closes x.1 e = some t) :
    (∀ j, x.1.conn j ≠ none → x.1.conn j ≠ t.conn →
        (x.1.call e).client j = x.1.server.client j) ↔
      t.gone = false ∨ x.1.conn t.client = none ∨
        (x.1.server.client t.client).close = true := by
  rw [call_client_of_closes h ht, (closes_known h ht).present_iff]
  constructor
  · intro hothers
    by_cases hnone : x.1.conn t.client = none
    · exact .inl hnone
    · by_cases howner : x.1.conn t.client = t.conn
      · exact .inr (.inl howner)
      · have hsame := hothers t.client hnone howner
        rcases WebServer.webservClientClose_client_eq_iff.mp hsame with
          hnone' | hclose
        · exact .inl hnone'
        · exact .inr (.inr hclose)
  · intro hi j hj hne
    by_cases hji : j = t.client
    · subst hji
      apply WebServer.webservClientClose_client_eq_iff.mpr
      rcases hi with hnone | howner | hclose
      · exact .inl hnone
      · exact (hne howner).elim
      · exact .inr hclose
    · exact WebServer.webservClientClose_client_of_ne hji

theorem step_conn_of_closes (h : Tracks x) {t : Asker}
    (ht : x.2.closes x.1 e = some t) (j : Fin maxClients) :
    (x.1.step e).conn j = x.1.conn j := by
  have hclient : (x.1.step e).server.client = _ := call_client_of_closes h ht
  rw [ServerWorld.conn, hclient, ServerWorld.conn]
  by_cases hj : j = t.client
  · subst hj
    rw [WebServer.webservClientClose_client_self, Web.webservClientClose]
    split <;> rfl
  · rw [WebServer.webservClientClose_client_of_ne hj]

theorem logAfter_of_isClose (a : Asked) (y : ServerWorld)
    (hclose : e.isClose = true) :
    a.logAfter y e =
      if (a.closes y e).all fun t => y.conn t.client = none then a.log
      else none := by
  cases e <;> first | rfl | exact nomatch hclose

/-- A close stops the forwarding unless there is no connection or nothing is
forwarded to another client. -/
theorem forwarding_iff (h : Tracks x) (hclose : e.isClose = true) :
    (∀ u ∈ x.2.log, x.1.conn u.client ≠ none → x.1.conn u.client = u.conn →
        ¬ClosedBy x e u.client → (x.1.step e).server.Forwards u.client) ↔
      ∀ t ∈ x.2.closes x.1 e, x.1.conn t.client ≠ none →
        ∀ u ∈ x.2.log, u.gone = false → u.client = t.client := by
  obtain ⟨hlog, hhttp⟩ := h.log_step e
  rw [logAfter_of_isClose _ _ hclose] at hlog hhttp
  constructor
  · intro hkeep t ht hconn u hu hthere
    by_contra hne
    obtain ⟨hsome, hown⟩ := (h.askers u (.inl hu)).gone.mp hthere
    have hnot : ¬ClosedBy x e u.client := by
      rintro (hclosed | hended)
      · rw [Option.mem_def.mp ht] at hclosed
        exact hne (Option.some.inj hclosed).symm
      · exact hended (step_conn_of_closes h ht u.client)
    have hforwards := (hkeep u hu hsome hown hnot).1
    rw [Option.mem_def.mp ht] at hhttp
    have hstopped : (x.1.call e).httpLog = false := by simpa [hconn] using hhttp
    exact Bool.false_ne_true (hstopped.symm.trans hforwards)
  · intro hsame u hu hsome hown hnot
    have hthere := (h.askers u (.inl hu)).gone.mpr ⟨hsome, hown⟩
    have hall : (x.2.closes x.1 e).all (fun t => x.1.conn t.client = none) =
        true := by
      cases ht : x.2.closes x.1 e with
      | none => rfl
      | some t =>
          by_contra hconn
          have hne := hsame t ht (by simpa using hconn) u hu hthere
          exact hnot (.inl (by rw [ht, hne]; rfl))
    rw [if_pos hall, Option.mem_def.mp hu] at hlog hhttp
    exact ⟨hhttp, hlog⟩

theorem log_iff (h : Tracks x) {logBuff : CStr} {now : ℕ} {tcp : TcpWrite} :
    (∀ j, x.1.conn j ≠ none → (∀ t ∈ x.2.log, x.1.conn j ≠ t.conn) →
        (x.1.call (.log logBuff now tcp)).client j = x.1.server.client j ∧
          x.1.lineTo logBuff now tcp j = []) ↔
      ∀ t ∈ x.2.log, t.gone = false ∨
        (x.1.server.client t.client).Refuses logBuff := by
  cases hasked : x.2.log with
  | none =>
      have hnone : x.1.server.clientLog = none := by rw [h.log, hasked]; rfl
      have hsame := (@WebServer.hlogAny_of_not logBuff now tcp x.1.server
        fun _ => hnone).1
      simp [ServerWorld.call, ServerWorld.lineTo, hnone, hsame]
  | some t =>
      have hlog : x.1.server.clientLog = some t.client := by
        rw [h.log, hasked, Option.map_some]
      have hhttp : x.1.server.httpLog = true := by
        rw [h.httpLog, hasked, Option.isSome_some]
      obtain ⟨hclient, hwritten⟩ :=
        @WebServer.hlogAny_of_forwarded logBuff now tcp _ _ hhttp hlog
      have hpresent := (h.askers t (.inl hasked)).present_iff
      simp only [Option.mem_some_iff, forall_eq', WebClient.Refuses]
      rw [show (x.1.server.client t.client).tcpClient = x.1.conn t.client from rfl,
        hpresent]
      constructor
      · intro hothers
        by_cases hnone : x.1.conn t.client = none
        · exact .inl hnone
        · by_cases howner : x.1.conn t.client = t.conn
          · exact .inr (.inl howner)
          · obtain ⟨hsame, hempty⟩ := hothers t.client hnone howner
            rw [ServerWorld.call, hclient, Function.update_self] at hsame
            rw [ServerWorld.lineTo, if_pos hlog, hwritten] at hempty
            rcases webservClientSendData_unchanged_iff.mp ⟨hsame, hempty⟩ with
              hnone' | hrefused
            · exact .inl hnone'
            · exact .inr (.inr hrefused)
      · intro hi j hj hne
        rw [ServerWorld.call, hclient]
        by_cases hji : j = t.client
        · subst hji
          have hrefused : (x.1.server.client t.client).tcpClient = none ∨
              (x.1.server.client t.client).sending = true ∨ logBuff = [] := by
            rcases hi with hnone | howner | hrefused
            · exact .inl hnone
            · exact (hne howner).elim
            · exact .inr hrefused
          obtain ⟨hsame, hempty⟩ :=
            (@webservClientSendData_unchanged_iff _ _ now tcp).mpr hrefused
          rw [Function.update_self, ServerWorld.lineTo, if_pos hlog, hwritten]
          exact ⟨hsame, hempty⟩
        · refine ⟨Function.update_of_ne hji .., ?_⟩
          rw [ServerWorld.lineTo, if_neg]
          intro hlog'
          exact hji (Option.some.inj (hlog'.symm.trans hlog))

/-! ## Runs -/

/-- A step isolates the clients exactly when no asker has been replaced. -/
theorem clientIsolated_iff (h : Tracks x) (e : ServerEvent) :
    ClientIsolated x e ↔ NoneReplaced x e := by
  constructor
  · intro hi
    refine ⟨fun t ht => ?_, ?_, fun t ht => ?_⟩
    · exact (close_iff h ht).mp (hi.close t ht)
    · rintro logBuff now tcp rfl
      exact (log_iff h).mp (hi.log logBuff now tcp rfl)
    · have hclose : e.isClose = true := by
        cases e <;> first | rfl | exact nomatch ht
      exact (forwarding_iff h hclose).mp (hi.forwarding hclose) t ht
  · intro hn
    refine ⟨fun t ht => ?_, ?_, fun hclose => ?_⟩
    · exact (close_iff h ht).mpr (hn.close t ht)
    · rintro logBuff now tcp rfl
      exact (log_iff h).mpr (hn.log logBuff now tcp rfl)
    · exact (forwarding_iff h hclose).mpr hn.forwarding

end

/-- In every run the clients are isolated if and only if no connection is used
in the place of another that has asked and ended since, and none is closed while
another that has asked for the log is there. -/
theorem client_isolation_iff (es : List ServerEvent) :
    askedMachine.Along ClientIsolated (.init, .init) es ↔
      askedMachine.Along NoneReplaced (.init, .init) es := by
  have hrun : ∀ (es : List ServerEvent) (x : ServerWorld × Asked), Tracks x →
      (askedMachine.Along ClientIsolated x es ↔
        askedMachine.Along NoneReplaced x es) := by
    intro es
    induction es with
    | nil => exact fun _ _ => Iff.rfl
    | cons e es ih =>
        exact fun x h =>
          and_congr (clientIsolated_iff h e) (ih _ (tracks_step h e))
  exact hrun es _ tracks_init

/-- A client closes its connection while the log is forwarded to it, and the
next connection gets the log. -/
theorem not_client_isolation :
    ¬∀ es, serverMachine.Admits .init es →
      askedMachine.Along ClientIsolated (.init, .init) es := by
  intro h
  have hrun := h
    [.accept, .send 0 webCmdNr .ok (lit "date") 5 ⟨1000, true⟩, .command 0,
      .remoteClosed 0, .accept, .log (lit "line") 7 ⟨1000, true⟩]
    ⟨trivial, Option.some_ne_none 0,
      by change ServerWorld.conn _ _ ≠ none; decide +kernel,
      by change ServerWorld.conn _ _ ≠ none; decide +kernel,
      trivial, trivial, trivial⟩
  have hlog := hrun.2.2.2.2.2.1.log (lit "line") 7 ⟨1000, true⟩ rfl 0
    (by decide +kernel) (by decide +kernel)
  exact absurd hlog.2 (by decide +kernel)

end Herak.Web
