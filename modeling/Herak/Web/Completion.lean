import Herak.Support.EventMachine
import Herak.Support.Outbox
import Herak.Web.Client

/-!
# Messages to a web client

A client is an outbox: it takes a message when it is not sending, and hands the
message to TCP.  The write that follows a message hands on what TCP has space
for, and it depends on the poll of the main loop whether the rest is.
-/

namespace Herak.Web

open CString Memory

/-- What happens on one connection: the two functions that send, and the poll,
with what TCP does. -/
inductive SendEvent
  | send (data : List UInt8) (rep : HttpResponseId) (date : CStr) (now : ℕ)
      (tcp : TcpWrite)
  | sendData (data : List UInt8) (now : ℕ) (tcp : TcpWrite)
  | poll (tcp : TcpWrite)

/-- A client with the messages that it has taken and what TCP has taken from
it. -/
structure WebStream where
  client : WebClient
  accepted : List (List UInt8)
  written : List UInt8

namespace WebStream

/-- A connection that was accepted for a free client; its buffer holds what an
earlier connection has left there. -/
def init (pcb : ℕ) (buff : {buff : List UInt8 // buff.length = packetBuffSize}) :
    WebStream :=
  ⟨webservAccept { WebClient.zero with buff := buff.1 } pcb, [], []⟩

/-- The message that the call takes. -/
def takes (x : WebStream) : SendEvent → Option (List UInt8)
  | .send data rep date now tcp =>
      if 0 ≤ (webservClientSend x.client data rep date now tcp).1 then
        some (httpResponceHead rep date ++ data)
      else none
  | .sendData data now tcp =>
      if 0 ≤ (webservClientSendData x.client data now tcp).1 then
        some (data.take packetBuffSize)
      else none
  | .poll _ => none

/-- The client after the call, and what TCP has taken. -/
def call (x : WebStream) : SendEvent → WebClient × List UInt8
  | .send data rep date now tcp =>
      (webservClientSend x.client data rep date now tcp).2
  | .sendData data now tcp => (webservClientSendData x.client data now tcp).2
  | .poll tcp => webclientSendPoll x.client tcp

def step (x : WebStream) (e : SendEvent) : WebStream where
  client := (x.call e).1
  accepted := x.accepted ++ (x.takes e).toList
  written := x.written ++ (x.call e).2

end WebStream

def sendMachine : EventMachine WebStream SendEvent where
  step := WebStream.step
  enabled := fun _ _ => True

/-! ## The property and the condition -/

/-- A message is pending. -/
def WebClient.Pending (client : WebClient) : Prop :=
  client.sending = true ∧ client.buffP < client.buffLen

/-- What is still to be sent of the message in the buffer. -/
def WebClient.rest (client : WebClient) : List UInt8 :=
  (client.buff.drop client.buffP).take (client.buffLen - client.buffP)

/-- The indices are within the buffer, TCP has got a beginning of the messages,
and the poll hands over the next pending bytes. -/
structure SendSafe (x : WebStream) : Prop where
  buffP : x.client.buffP ≤ x.client.buffLen
  buffLen : x.client.buffLen ≤ packetBuffSize
  inOrder : x.written <+: x.accepted.flatten
  poll : x.client.Pending → ∀ sndbuf, 0 < sndbuf →
    (webclientSendPoll x.client ⟨sndbuf, true⟩).2 = x.client.rest.take sndbuf

def SendEvent.tcp : SendEvent → TcpWrite
  | .send _ _ _ _ tcp | .sendData _ _ tcp | .poll tcp => tcp

/-- The write of a message that is taken succeeds, and TCP has space for the
whole message. -/
def WrittenAtOnce (x : WebStream) (e : SendEvent) : Prop :=
  ∀ message, x.takes e = some message →
    e.tcp.ok = true ∧ message.length ≤ e.tcp.sndbuf

/-! ## One write -/

/-- What a client has to do with an outbox. -/
def WebStream.outbox (x : WebStream) : Outbox UInt8 where
  accepted := x.accepted
  written := x.written
  pending := if x.client.sending then x.client.rest else []

/-- The buffer of an open connection. -/
structure BuffInv (client : WebClient) : Prop where
  init : client.init = true
  tcpClient : client.tcpClient ≠ none
  buff : client.buff.length = packetBuffSize
  buffP : client.buffP ≤ client.buffLen
  buffLen : client.buffLen ≤ packetBuffSize
  idle : client.sending = false → client.buffP = 0
  busy : client.sending = true → client.buffP < client.buffLen

namespace BuffInv

variable {client : WebClient}

theorem pending_iff (h : BuffInv client) :
    client.Pending ↔ client.sending = true :=
  and_iff_left_of_imp h.busy

theorem length_rest (h : BuffInv client) :
    client.rest.length = client.buffLen - client.buffP := by
  have := h.buff
  have := h.buffLen
  simp only [WebClient.rest, List.length_take, List.length_drop]
  omega

/-- A write hands on some of the pending bytes, or all of them if TCP has space
for them and the write succeeds. -/
theorem wsTcpSend_cases (h : BuffInv client) (hs : client.sending = true)
    (tcp : TcpWrite) :
    (¬(tcp.ok = true ∧ client.rest.length ≤ tcp.sndbuf) ∧
      ∃ n < client.rest.length, wsTcpSend client tcp =
        ({ client with buffP := client.buffP + n }, client.rest.take n)) ∨
    ((tcp.ok = true ∧ client.rest.length ≤ tcp.sndbuf) ∧
      wsTcpSend client tcp =
        ({ client with sending := false, buffP := 0, buffLen := 0 },
          client.rest)) := by
  have hbusy := h.busy hs
  have hlen := h.length_rest
  have hready : ¬(client.sending = false ∨
      client.buffLen - client.buffP = 0) := by
    rintro (hidle | hzero)
    · exact nomatch hs.symm.trans hidle
    · omega
  have hnothing : (client, ([] : List UInt8)) =
      ({ client with buffP := client.buffP + 0 }, client.rest.take 0) := rfl
  unfold wsTcpSend
  rw [if_neg hready]
  by_cases hspace : tcp.sndbuf = 0
  · rw [if_pos hspace, hnothing]
    exact .inl ⟨fun hall => by omega, 0, by omega, rfl⟩
  · rw [if_neg hspace]
    cases hok : tcp.ok with
    | false =>
        rw [if_neg Bool.false_ne_true, hnothing]
        exact .inl ⟨fun hall => Bool.noConfusion hall.1, 0, by omega, rfl⟩
    | true =>
        rw [if_pos rfl]
        dsimp only
        by_cases hall : client.rest.length ≤ tcp.sndbuf
        · rw [if_pos (by omega), min_eq_right (by omega)]
          exact .inr ⟨⟨rfl, hall⟩, rfl⟩
        · rw [if_neg (by omega), min_eq_left (by omega)]
          refine .inl ⟨fun h => hall h.2, tcp.sndbuf, by omega, ?_⟩
          rw [WebClient.rest, List.take_take, min_eq_left (by omega)]

/-- The next write goes on behind what was handed on. -/
theorem rest_of_written (n : ℕ) :
    ({ client with buffP := client.buffP + n } : WebClient).rest =
      client.rest.drop n := by
  rw [WebClient.rest, WebClient.rest, List.drop_take, List.drop_drop,
    Nat.sub_add_eq]

theorem of_written (h : BuffInv client) {n : ℕ} (hs : client.sending = true)
    (hn : n < client.rest.length) :
    BuffInv { client with buffP := client.buffP + n } := by
  have := h.length_rest
  refine ⟨h.init, h.tcpClient, h.buff, ?_, h.buffLen, ?_, ?_⟩
  · show client.buffP + n ≤ client.buffLen
    omega
  · exact fun hidle => nomatch hs.symm.trans hidle
  · intro _
    show client.buffP + n < client.buffLen
    omega

theorem of_sent (h : BuffInv client) :
    BuffInv { client with sending := false, buffP := 0, buffLen := 0 } where
  init := h.init
  tcpClient := h.tcpClient
  buff := h.buff
  buffP := Nat.le_refl _
  buffLen := Nat.zero_le _
  idle := fun _ => rfl
  busy := nofun

theorem fill (h : BuffInv client) (hs : client.sending = false)
    {message : List UInt8} (hne : message ≠ [])
    (hle : message.length ≤ packetBuffSize) (now : ℕ) :
    BuffInv (client.fill message now) ∧
      (client.fill message now).rest = message := by
  have hbuff : (memcpy client.buff 0 message).length = packetBuffSize := by
    rw [length_memcpy (by rw [h.buff]; omega), h.buff]
  have hidle := h.idle hs
  have hpos := List.length_pos_of_ne_nil hne
  refine ⟨⟨h.init, h.tcpClient, hbuff, ?_, hle, nofun, ?_⟩, ?_⟩
  · show client.buffP ≤ message.length
    omega
  · intro _
    show client.buffP < message.length
    omega
  · show ((memcpy client.buff 0 message).drop client.buffP).take
      (message.length - client.buffP) = message
    rw [hidle, List.drop_zero, Nat.sub_zero, memcpy_zero]
    exact List.take_left

end BuffInv

theorem httpResponceHead_ne_nil (rep : HttpResponseId) (date : CStr) :
    httpResponceHead rep date ≠ [] := by
  have hlit : lit "HTTP/1.1 " = [72, 84, 84, 80, 47, 49, 46, 49, 32] := rfl
  simp [httpResponceHead, hlit, packetBuffSize]

theorem length_httpResponceHead (rep : HttpResponseId) (date : CStr) :
    (httpResponceHead rep date).length < packetBuffSize := by
  rw [httpResponceHead, List.length_take]
  exact Nat.lt_of_le_of_lt (Nat.min_le_left _ _) (by decide)

/-! ## One call -/

/-- A call that takes no message. -/
structure Refused (client : WebClient) (result : ℤ × WebClient × List UInt8) :
    Prop where
  ret : result.1 < 0
  data : result.2.2 = []
  inv : BuffInv result.2.1
  sending : result.2.1.sending = client.sending
  rest : client.sending = true → result.2.1.rest = client.rest

theorem BuffInv.refused {client : WebClient} (h : BuffInv client) :
    Refused client (-1, client, []) :=
  ⟨Int.negSucc_lt_zero 0, rfl, h, rfl, fun _ => rfl⟩

/-- A call that takes a message and writes some of it. -/
def Taken (client : WebClient) (message : List UInt8) (tcp : TcpWrite)
    (result : ℤ × WebClient × List UInt8) : Prop :=
  client.sending = false ∧ message ≠ [] ∧ message.length ≤ packetBuffSize ∧
    0 ≤ result.1 ∧ ∃ now, result.2 = wsTcpSend (client.fill message now) tcp

theorem webservClientSend_cases {client : WebClient} (h : BuffInv client)
    (data : List UInt8) (rep : HttpResponseId) (date : CStr) (now : ℕ)
    (tcp : TcpWrite) :
    Refused client (webservClientSend client data rep date now tcp) ∨
      Taken client (httpResponceHead rep date ++ data) tcp
        (webservClientSend client data rep date now tcp) := by
  unfold webservClientSend
  have hne := httpResponceHead_ne_nil rep date
  have hhead := length_httpResponceHead rep date
  generalize httpResponceHead rep date = head at hne hhead ⊢
  rw [if_neg h.tcpClient]
  by_cases hs : client.sending = true
  · rw [if_pos hs]
    exact .inl h.refused
  · have hidle := Bool.eq_false_iff.mpr hs
    rw [if_neg hs]
    dsimp only
    split
    · have hfill := (h.fill hidle hne hhead.le now).1
      have hinv : BuffInv { client with
          buff := memcpy client.buff 0 head, buffLen := head.length } :=
        ⟨h.init, h.tcpClient, hfill.buff, hfill.buffP, hhead.le,
          fun _ => h.idle hidle, fun hbusy => (hs hbusy).elim⟩
      exact .inl ⟨Int.negSucc_lt_zero 0, rfl, hinv, rfl,
        fun hbusy => (hs hbusy).elim⟩
    next hfits =>
      refine .inr ⟨hidle, List.append_ne_nil_of_left_ne_nil hne data, ?_,
        Int.natCast_nonneg _, now, rfl⟩
      rw [List.length_append]
      by_cases hdata : data = []
      · subst hdata
        exact hhead.le
      · have := not_and.mp hfits hdata
        omega

theorem webservClientSendData_cases {client : WebClient} (h : BuffInv client)
    (data : List UInt8) (now : ℕ) (tcp : TcpWrite) :
    Refused client (webservClientSendData client data now tcp) ∨
      Taken client (data.take packetBuffSize) tcp
        (webservClientSendData client data now tcp) := by
  unfold webservClientSendData
  split
  · exact .inl h.refused
  next hgo =>
    split
    · exact .inl h.refused
    next hs =>
      refine .inr ⟨Bool.eq_false_iff.mpr hs, ?_, List.length_take_le _ _,
        Int.natCast_nonneg _, now, rfl⟩
      rw [ne_eq, List.take_eq_nil_iff, not_or]
      exact ⟨by decide, fun hdata => hgo (.inr hdata)⟩

/-- The poll asks for a client that is not sending, and the write for one that
is: nothing is ever written. -/
theorem webclientSendPoll_eq (client : WebClient) (tcp : TcpWrite) :
    webclientSendPoll client tcp = (client, []) := by
  unfold webclientSendPoll
  split
  · rfl
  · split
    next hpoll => rw [wsTcpSend, if_pos (.inl hpoll.2.1)]
    · rfl

/-- The call, seen from the stream: a message is taken or refused. -/
theorem call_cases {x : WebStream} (h : BuffInv x.client) (e : SendEvent) :
    (x.takes e = none ∧ ∃ ret, Refused x.client (ret, x.call e)) ∨
      ∃ message ret, x.takes e = some message ∧
        Taken x.client message e.tcp (ret, x.call e) := by
  cases e with
  | send data rep date now tcp =>
      obtain hcall | hcall := webservClientSend_cases h data rep date now tcp
      · exact .inl ⟨if_neg (by have := hcall.ret; omega), _, hcall⟩
      · exact .inr ⟨_, _, if_pos hcall.2.2.2.1, hcall⟩
  | sendData data now tcp =>
      obtain hcall | hcall := webservClientSendData_cases h data now tcp
      · exact .inl ⟨if_neg (by have := hcall.ret; omega), _, hcall⟩
      · exact .inr ⟨_, _, if_pos hcall.2.2.2.1, hcall⟩
  | poll tcp =>
      refine .inl ⟨rfl, -1, ?_⟩
      rw [WebStream.call, webclientSendPoll_eq]
      exact h.refused

/-- The outbox after a call: a message is accepted and some of it is handed
on. -/
theorem outbox_step {x : WebStream} (h : BuffInv x.client) (e : SendEvent) :
    BuffInv (x.step e).client ∧
      ((x.takes e = none ∧ (x.step e).client.sending = x.client.sending ∧
          (x.step e).outbox = x.outbox) ∨
        ∃ message n, x.takes e = some message ∧ x.client.sending = false ∧
          (x.step e).outbox = (x.outbox.accept message).write n ∧
          ((x.step e).client.sending = false ↔
            e.tcp.ok = true ∧ message.length ≤ e.tcp.sndbuf)) := by
  obtain ⟨htakes, ret, hret, hdata, hinv, hsending, hrest⟩ |
    ⟨message, ret, htakes, hidle, hne, hle, -, now, hcall⟩ := call_cases h e
  · refine ⟨hinv, .inl ⟨htakes, hsending, ?_⟩⟩
    simp only [WebStream.outbox, WebStream.step, htakes, Option.toList_none,
      List.append_nil]
    have hdata : (x.call e).2 = [] := hdata
    have hsending : (x.call e).1.sending = x.client.sending := hsending
    rw [hdata, List.append_nil, hsending]
    congr 1
    split
    next hs => exact hrest hs
    · rfl
  · have hcall : x.call e = wsTcpSend (x.client.fill message now) e.tcp := hcall
    obtain ⟨hfill, hrest⟩ := h.fill hidle hne hle now
    have hbox (c : WebClient) (w : List UInt8) (hstep : x.call e = (c, w)) :
        (x.step e).outbox =
          ⟨x.accepted ++ [message], x.written ++ w,
            if c.sending then c.rest else []⟩ := by
      simp only [WebStream.outbox, WebStream.step, htakes, hstep,
        Option.toList_some]
    obtain ⟨hnot, n, hn, hsend⟩ | ⟨hall, hsend⟩ :=
      hfill.wsTcpSend_cases rfl e.tcp
    · rw [hrest] at hnot hn
      have hstep := hcall.trans hsend
      have hinv := hfill.of_written rfl (hrest ▸ hn)
      refine ⟨?_, .inr ⟨message, n, htakes, hidle, ?_, ?_⟩⟩
      · rw [WebStream.step, hstep]
        exact hinv
      · rw [hbox _ _ hstep, BuffInv.rest_of_written, hrest]
        rfl
      · rw [WebStream.step, hstep]
        exact iff_of_false nofun hnot
    · rw [hrest] at hall
      have hstep := hcall.trans hsend
      refine ⟨?_, .inr ⟨message, message.length, htakes, hidle, ?_, ?_⟩⟩
      · rw [WebStream.step, hstep]
        exact hfill.of_sent
      · rw [hbox _ _ hstep, hrest]
        simp [Outbox.accept, Outbox.write, WebStream.outbox]
      · rw [WebStream.step, hstep]
        exact iff_of_true rfl hall

/-! ## The run -/

/-- The stream of one connection. -/
structure StreamInv (x : WebStream) : Prop where
  buff : BuffInv x.client
  complete : x.outbox.Complete

theorem streamInv_init (pcb : ℕ)
    (buff : {buff : List UInt8 // buff.length = packetBuffSize}) :
    StreamInv (.init pcb buff) where
  buff :=
    { init := rfl
      tcpClient := Option.some_ne_none pcb
      buff := buff.2
      buffP := Nat.le_refl _
      buffLen := Nat.zero_le _
      idle := fun _ => rfl
      busy := nofun }
  complete := Outbox.complete_empty

theorem streamInv_step {x : WebStream} (h : StreamInv x) (e : SendEvent) :
    StreamInv (x.step e) := by
  obtain ⟨hbuff, hbox⟩ := outbox_step h.buff e
  refine ⟨hbuff, ?_⟩
  obtain ⟨-, -, hsame⟩ | ⟨message, n, -, hidle, hwrite, -⟩ := hbox
  · rw [hsame]
    exact h.complete
  · have hp : x.outbox.pending = [] := by
      rw [WebStream.outbox, hidle]
      rfl
    rw [hwrite]
    exact (h.complete.accept hp message).write n

/-- A pending message keeps the poll from doing its work. -/
theorem sendSafe_iff {x : WebStream} (h : StreamInv x) :
    SendSafe x ↔ x.client.sending = false := by
  constructor
  · intro hsafe
    by_contra hs
    have hpending := h.buff.pending_iff.mpr (eq_true_of_ne_false hs)
    have hpoll := hsafe.poll hpending 1 Nat.one_pos
    rw [webclientSendPoll_eq] at hpoll
    have hlen := congrArg List.length hpoll
    rw [List.length_take, h.buff.length_rest, List.length_nil] at hlen
    have := hpending.2
    omega
  · intro hidle
    refine ⟨h.buff.buffP, h.buff.buffLen, h.complete.inOrder, fun hpending => ?_⟩
    exact nomatch hidle.symm.trans hpending.1

/-- Once a message is pending, it stays so. -/
theorem sending_step {x : WebStream} (h : StreamInv x) (e : SendEvent) :
    (x.step e).client.sending = false ↔
      x.client.sending = false ∧ WrittenAtOnce x e := by
  obtain ⟨-, ⟨htakes, hsame, -⟩ | ⟨message, n, htakes, hidle, -, hall⟩⟩ :=
    outbox_step h.buff e
  · rw [hsame, iff_self_and]
    intro _ message hmessage
    exact nomatch htakes.symm.trans hmessage
  · rw [hall, and_iff_right hidle]
    constructor
    · intro hok message' hmessage'
      obtain rfl := Option.some.inj (htakes.symm.trans hmessage')
      exact hok
    · exact fun hall => hall message htakes

/-- In every run on a connection, the messages are sent completely and in order
in every state, if and only if each message that is taken is written at
once. -/
theorem send_completion_iff (pcb : ℕ)
    (buff : {buff : List UInt8 // buff.length = packetBuffSize})
    (es : List SendEvent) :
    (∀ before, before <+: es →
        SendSafe (sendMachine.run (.init pcb buff) before)) ↔
      sendMachine.Along WrittenAtOnce (.init pcb buff) es := by
  have hinv (before : List SendEvent) :
      StreamInv (sendMachine.run (.init pcb buff) before) :=
    EventMachine.invariant (I := StreamInv) (m := sendMachine)
      (fun _ e hx => streamInv_step hx e) (streamInv_init pcb buff) before
  constructor
  · intro hsafe
    by_contra hnot
    obtain ⟨before, e, after, rfl, -, hfail⟩ :=
      EventMachine.exists_first_failure hnot
    have hstep := (sendSafe_iff (hinv (before ++ [e]))).mp
      (hsafe (before ++ [e]) (by simp))
    rw [EventMachine.run_append] at hstep
    exact hfail ((sending_step (hinv before) e).mp hstep).2
  · intro hall before hbefore
    rw [sendSafe_iff (hinv before)]
    have hidle : StreamInv (sendMachine.run (.init pcb buff) before) ∧
        (sendMachine.run (.init pcb buff) before).client.sending = false :=
      EventMachine.Along.invariant
        (I := fun x => StreamInv x ∧ x.client.sending = false)
        (fun x e hx he => ⟨streamInv_step hx.1 e,
          (sending_step hx.1 e).mpr ⟨hx.2, he⟩⟩)
        (hall.of_prefix hbefore) ⟨streamInv_init pcb buff, rfl⟩
    exact hidle.2

/-! ## A message that does not fit into the buffer of TCP -/

def freshStream : WebStream :=
  .init 1 ⟨List.replicate packetBuffSize 0, List.length_replicate⟩

/-- TCP has space for two of four bytes, and later for all. -/
def halfWritten : List SendEvent :=
  [.sendData [112, 111, 110, 103] 1000 ⟨2, true⟩, .poll ⟨2048, true⟩]

/-- The poll leaves the other two where they are. -/
theorem half_written_not_completed :
    (sendMachine.run freshStream halfWritten).accepted =
        [[112, 111, 110, 103]] ∧
      (sendMachine.run freshStream halfWritten).written = [112, 111] ∧
      ¬SendSafe (sendMachine.run freshStream halfWritten) := by
  refine ⟨by decide +kernel, by decide +kernel, fun hsafe => ?_⟩
  have hpoll := hsafe.poll ⟨by decide +kernel, by decide +kernel⟩ 1 Nat.one_pos
  exact absurd hpoll (by decide +kernel)

end Herak.Web
