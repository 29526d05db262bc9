import Herak.Support.CString
import Herak.Support.Memory

/-!
# Web clients

`webserv.c`: the buffer of one client of the web server, what puts a message
into it and what hands it to TCP, and how a connection is closed.  What TCP
does is an input: the space in its buffer, and whether a write succeeds.
-/

namespace Herak.Web

open CString Memory

/-- `PACKET_BUFF_SIZE` -/
def packetBuffSize : ℕ := 1024
/-- `IP_TIMEOUT_MS` -/
def ipTimeoutMs : ℕ := 20000
/-- `WEB_CMD_NR` -/
def webCmdNr : CStr := [13, 10]
/-- `HTTP_USER_AGENT` -/
def httpUserAgent : CStr := lit "PicoW"

inductive HttpResponseId
  | ok
  | bad
  | notFound
  | internalError
  | tooManyError
  deriving DecidableEq

/-- `http_responses` -/
def HttpResponseId.desc : HttpResponseId → CStr × CStr
  | .ok => (lit "200", lit "OK")
  | .bad => (lit "400", lit "Bad Request")
  | .notFound => (lit "404", lit "Not Found")
  | .internalError => (lit "500", lit "Internal Server Error")
  | .tooManyError => (lit "429", lit "Too Many Requests")

/-- `HTTP_RESPONCE_HEAD` as `snprintf` writes it into the buffer; `date` is the
text of the current time. -/
def httpResponceHead (rep : HttpResponseId) (date : CStr) : CStr :=
  (lit "HTTP/1.1 " ++ rep.desc.1 ++ lit " " ++ rep.desc.2 ++ webCmdNr ++
    lit "Date: " ++ date ++ webCmdNr ++
    lit "User-Agent: " ++ httpUserAgent ++ webCmdNr ++
    lit "Content-Type: text/plain; charset=UTF-8" ++ webCmdNr ++
    lit "Connection: keep-alive" ++ webCmdNr ++ webCmdNr).take
      (packetBuffSize - 1)

/-- `webclient_t`; `tcpClient` numbers the connections. -/
structure WebClient where
  init : Bool
  sending : Bool
  close : Bool
  buff : List UInt8
  buffP : ℕ
  buffLen : ℕ
  lastSend : ℕ
  tcpClient : Option ℕ
  deriving DecidableEq

/-- A client of the context after `calloc`. -/
def WebClient.zero : WebClient where
  init := false
  sending := false
  close := false
  buff := List.replicate packetBuffSize 0
  buffP := 0
  buffLen := 0
  lastSend := 0
  tcpClient := none

/-- What TCP does when data is passed to it: the space in its buffer, and the
result of the write. -/
structure TcpWrite where
  sndbuf : ℕ
  ok : Bool

/-- `ws_tcp_send`: the client, and what TCP has taken. -/
def wsTcpSend (client : WebClient) (tcp : TcpWrite) :
    WebClient × List UInt8 :=
  let dataLen := client.buffLen - client.buffP
  if client.sending = false ∨ dataLen = 0 then (client, [])
  else if tcp.sndbuf = 0 then (client, [])
  else
    let sendLen := min tcp.sndbuf dataLen
    if tcp.ok then
      let data := (client.buff.drop client.buffP).take sendLen
      let buffP := client.buffP + sendLen
      if client.buffLen ≤ buffP then
        ({ client with sending := false, buffP := 0, buffLen := 0 }, data)
      else ({ client with buffP := buffP }, data)
    else (client, [])

/-- The client with a message that was put into its buffer. -/
def WebClient.fill (client : WebClient) (message : List UInt8) (now : ℕ) :
    WebClient :=
  { client with
    buff := memcpy client.buff 0 message
    buffLen := message.length
    sending := true
    lastSend := now }

/-- `webserv_client_send`: what it returns, the client, and what TCP has
taken. -/
def webservClientSend (client : WebClient) (data : List UInt8)
    (rep : HttpResponseId) (date : CStr) (now : ℕ) (tcp : TcpWrite) :
    ℤ × WebClient × List UInt8 :=
  if client.tcpClient = none then (-1, client, [])
  else if client.sending then (-1, client, [])
  else
    let head := httpResponceHead rep date
    if data ≠ [] ∧ packetBuffSize ≤ head.length + data.length then
      -- the head stays in the buffer
      (-1, { client with
        buff := memcpy client.buff 0 head
        buffLen := head.length }, [])
    else
      let client := client.fill (head ++ data) now
      let result := wsTcpSend client tcp
      (result.1.buffLen, result)

/-- `webserv_client_send_data` -/
def webservClientSendData (client : WebClient) (data : List UInt8) (now : ℕ)
    (tcp : TcpWrite) : ℤ × WebClient × List UInt8 :=
  if client.tcpClient = none ∨ data = [] then (-1, client, [])
  else if client.sending then (-1, client, [])
  else
    let data := data.take packetBuffSize
    (data.length, wsTcpSend (client.fill data now) tcp)

/-- One client in `webclient_send_poll`. -/
def webclientSendPoll (client : WebClient) (tcp : TcpWrite) :
    WebClient × List UInt8 :=
  if client.init = false then (client, [])
  else if client.tcpClient ≠ none ∧ client.sending = false ∧
      client.buffP < client.buffLen then
    wsTcpSend client tcp
  else (client, [])

def webclientDisconnect (client : WebClient) : WebClient :=
  if client.init = false then client
  else
    { client with
      tcpClient := none
      buffP := 0
      buffLen := 0
      close := false
      init := false
      sending := false }

/-- One client in `webclient_close_check`. -/
def webclientCloseCheck (client : WebClient) (now : ℕ) : WebClient :=
  if client.init = false then client
  else if client.close ∨
      client.sending ∧ ipTimeoutMs < now - client.lastSend then
    webclientDisconnect client
  else client

/-- A client of `webserv_accept`. -/
def webservAccept (client : WebClient) (pcb : ℕ) : WebClient :=
  { client with init := true, tcpClient := some pcb }

end Herak.Web
