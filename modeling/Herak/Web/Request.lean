import Herak.Support.EventMachine
import Herak.Web.Client

/-!
# HTTP requests

`webserv.c`: what a client sends is parsed as it arrives.  Each call of the
receive callback has a chain of `pbuf`s, and its first line is taken for a
request line, whose second word is the command.
-/

namespace Herak.Web

open CString

/-- `HTTP_REPLY_SIZE` -/
def httpReplySize : ℕ := 128
/-- `HTTP_CMD_LEN` -/
def httpCmdLen : ℕ := 10
/-- `HTTP_URL_LEN` -/
def httpUrlLen : ℕ := 128

def blank : UInt8 := 32
def slash : UInt8 := 47

def isEol (byte : UInt8) : Bool :=
  byte = 10 || byte = 13

/-- The inner loop of `parse_http_request`: whether it has stopped before the
end of the `pbuf`, and the line read so far. -/
def scanPbuf : List UInt8 → List UInt8 → Bool × List UInt8
  | line, [] => (false, line)
  | line, byte :: data =>
      if isEol byte then (true, line)
      else if httpReplySize - 1 ≤ line.length then (true, line)
      else scanPbuf (line ++ [byte]) data

/-- The outer loop, over the chain. -/
def scanChain : List UInt8 → List (List UInt8) → Bool × List UInt8
  | line, [] => (false, line)
  | line, payload :: chain =>
      let result := scanPbuf line payload
      if result.1 then result else scanChain result.2 chain

/-- The first two words of a line. -/
def requestWords (line : CStr) : Option (CStr × CStr) :=
  match strtokR (some line) [blank] with
  | (none, _) => none
  | (some cmd, rest) =>
      match strtokR rest [blank] with
      | (none, _) => none
      | (some url, _) => some (cmd, url)

/-- `parse_http_request`, with the terminators that its caller sets: the words
of the line if it returns `true`. -/
def parseHttpRequest (p : List (List UInt8)) : Option (CStr × CStr) :=
  let result := scanChain [] p
  if result.1 ∧ result.2.length < httpReplySize - 1 then
    (requestWords (cstrAt result.2 0)).map fun words =>
      (words.1.take (httpCmdLen - 1), words.2.take (httpUrlLen - 1))
  else none

/-- What `cmd_exec` returns, what it sets in the context of the client, and the
replies that the command sends to the client. -/
structure CmdResult where
  ok : Bool
  keepOpen : Bool
  keepSilent : Bool
  hret : Bool
  replies : List (List UInt8)

/-- What the receive callback reads: the time, its text, what TCP does with
each of the messages, and what the commands do. -/
structure HttpTurn where
  now : ℕ
  date : CStr
  tcp : ℕ → TcpWrite
  exec : CStr → CmdResult

/-- The command that `web_cmd_exec` passes to `cmd_exec`. -/
def webCmd (url : CStr) : Option CStr :=
  if strlen url < 1 ∨ url.head? ≠ some slash then none else some (url.drop 1)

/-- `web_cmd_exec`: the response, and what the command did. -/
def webCmdExec (url : CStr) (turn : HttpTurn) : HttpResponseId × CmdResult :=
  match webCmd url with
  | none => (.bad, ⟨false, false, false, false, []⟩)
  | some cmd =>
      (if (turn.exec cmd).ok then .ok else .bad, turn.exec cmd)

/-- `webserv_client_close` -/
def webservClientClose (client : WebClient) : WebClient :=
  if client.tcpClient = none then client else { client with close := true }

/-- The replies of a command; the `n`-th message of the turn is the first. -/
def sendReplies (turn : HttpTurn) :
    ℕ → WebClient → List (List UInt8) → ℕ × WebClient
  | n, client, [] => (n, client)
  | n, client, reply :: replies =>
      sendReplies turn (n + 1)
        (webservClientSendData client reply turn.now (turn.tcp n)).2.1 replies

/-- `client_parse_incoming`: the client, the response and the command that was
executed. -/
def clientParseIncoming (client : WebClient) (p : List (List UInt8))
    (turn : HttpTurn) : WebClient × HttpResponseId × Option CStr :=
  let client := (webservClientSend client webCmdNr .ok turn.date turn.now
    (turn.tcp 0)).2.1
  let words := parseHttpRequest p
  let result :=
    match words with
    | some words => webCmdExec words.2 turn
    | none => (.internalError, ⟨false, false, false, false, []⟩)
  let sent := sendReplies turn 1 client result.2.replies
  let client :=
    if result.2.keepSilent then sent.2
    else
      let client := (webservClientSendData sent.2 webCmdNr turn.now
        (turn.tcp sent.1)).2.1
      if result.2.hret then
        (webservClientSend client HttpResponseId.bad.desc.2 .bad turn.date
          turn.now (turn.tcp (sent.1 + 1))).2.1
      else
        (webservClientSend client webCmdNr result.1 turn.date turn.now
          (turn.tcp (sent.1 + 1))).2.1
  let client :=
    if result.2.keepOpen then client else webservClientClose client
  (client, result.1, words.bind fun words => webCmd words.2)

/-- `ws_tcp_recv_cb` for data that was received. -/
def wsTcpRecvCb (client : WebClient) (p : List (List UInt8))
    (turn : HttpTurn) : WebClient × Option CStr :=
  let result := clientParseIncoming client p turn
  (if result.2.1 = .ok then result.1 else webservClientClose result.1,
    result.2.2)

/-! ## What is taken for a request -/

/-- A line whose second word begins with a slash. -/
def CommandLine (line : CStr) : Prop :=
  ∃ pre word gap rest, line = pre ++ word ++ gap ++ slash :: rest ∧
    (∀ byte ∈ pre, byte = blank) ∧ word ≠ [] ∧ blank ∉ word ∧
    (∀ byte ∈ gap, byte = blank) ∧ gap ≠ []

/-- The data begins with a line whose second word begins with a slash. -/
def LooksLikeRequest (data : List UInt8) : Prop :=
  ∃ line eol rest, data = line ++ eol :: rest ∧ isEol eol = true ∧
    (∀ byte ∈ line, isEol byte = false) ∧ line.length < httpReplySize - 1 ∧
    CommandLine (cstrAt line 0)

end Herak.Web
