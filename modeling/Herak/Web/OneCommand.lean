import Herak.Web.Request

/-!
# One command for each request

A request of one connection, split in any way into segments and chains, with
the turns of the main loop between them.  The parser starts anew with each
segment, so that a request line may be missed and a line of the body may be
taken for one.
-/

namespace Herak.Web

open CString

/-! ## Scanning -/

theorem scanPbuf_append (line data data' : List UInt8) :
    scanPbuf line (data ++ data') =
      if (scanPbuf line data).1 then scanPbuf line data
      else scanPbuf (scanPbuf line data).2 data' := by
  induction data generalizing line with
  | nil => rfl
  | cons byte data ih =>
      rw [List.cons_append, scanPbuf, scanPbuf]
      by_cases heol : isEol byte = true
      · simp only [heol, if_true]
      · simp only [heol]
        by_cases hfull : httpReplySize - 1 ≤ line.length
        · simp only [hfull, if_true, if_false, Bool.false_eq_true]
        · simp only [hfull, if_false, Bool.false_eq_true, ih]

/-- A chain is read as if it were one piece. -/
theorem scanChain_eq (line : List UInt8) (p : List (List UInt8)) :
    scanChain line p = scanPbuf line p.flatten := by
  induction p generalizing line with
  | nil => rfl
  | cons payload chain ih =>
      rw [scanChain, List.flatten_cons, scanPbuf_append, ih]

/-- A line that fits has been read if and only if it stands at the beginning
and has an end. -/
theorem scanPbuf_iff {line data found : List UInt8}
    (hfound : found.length < httpReplySize - 1) :
    scanPbuf line data = (true, found) ↔
      ∃ new eol rest, data = new ++ eol :: rest ∧ isEol eol = true ∧
        (∀ byte ∈ new, isEol byte = false) ∧ found = line ++ new := by
  induction data generalizing line with
  | nil =>
      constructor
      · exact nofun
      · rintro ⟨new, eol, rest, hdata, -⟩
        exact nomatch (List.append_eq_nil_iff.mp hdata.symm).2
  | cons byte data ih =>
      rw [scanPbuf]
      by_cases heol : isEol byte = true
      · rw [if_pos heol]
        constructor
        · intro h
          exact ⟨[], byte, data, rfl, heol, nofun,
            (Prod.mk.inj h).2.symm.trans (List.append_nil line).symm⟩
        · rintro ⟨new, eol, rest, hdata, -, hnew, rfl⟩
          cases new with
          | nil => rw [List.append_nil]
          | cons b new =>
              obtain ⟨rfl, -⟩ := List.cons.inj hdata
              exact nomatch heol.symm.trans (hnew byte List.mem_cons_self)
      · rw [if_neg heol]
        split
        next hfull =>
          constructor
          · rintro h
            obtain rfl := (Prod.mk.inj h).2
            omega
          · rintro ⟨new, eol, rest, -, -, -, rfl⟩
            rw [List.length_append] at hfound
            omega
        · rw [ih]
          constructor
          · rintro ⟨new, eol, rest, rfl, hend, hnew, rfl⟩
            refine ⟨byte :: new, eol, rest, rfl, hend, ?_, by simp⟩
            intro b hb
            obtain rfl | hb := List.mem_cons.mp hb
            · exact Bool.eq_false_iff.mpr heol
            · exact hnew b hb
          · rintro ⟨new, eol, rest, hdata, hend, hnew, rfl⟩
            cases new with
            | nil =>
                obtain ⟨rfl, -⟩ := List.cons.inj hdata
                exact (heol hend).elim
            | cons b new =>
                obtain ⟨rfl, rfl⟩ := List.cons.inj hdata
                exact ⟨new, eol, rest, rfl, hend,
                  fun c hc => hnew c (List.mem_cons_of_mem _ hc), by simp⟩

/-! ## Words -/

theorem requestWords_eq_some {line word url : CStr} :
    requestWords line = some (word, url) ↔
      ∃ rest rest', strtokR (some line) [blank] = (some word, some rest) ∧
        strtokR (some rest) [blank] = (some url, rest') := by
  unfold requestWords
  constructor
  · intro h
    split at h
    · exact nomatch h
    next cmd rest hfirst =>
      split at h
      · exact nomatch h
      next url' rest' hsecond =>
        obtain ⟨rfl, rfl⟩ := Prod.mk.inj (Option.some.inj h)
        cases rest with
        | none => exact nomatch hsecond
        | some rest => exact ⟨rest, rest', hfirst, hsecond⟩
  · rintro ⟨rest, rest', hfirst, hsecond⟩
    rw [hfirst]
    dsimp only
    rw [hsecond]

/-- The command of a line. -/
def lineCommand (line : CStr) : Option CStr :=
  (requestWords line).bind fun words =>
    webCmd (words.2.take (httpUrlLen - 1))

theorem webCmd_eq_some {url cmd : CStr} :
    webCmd url = some cmd ↔ url = slash :: cmd := by
  cases url with
  | nil => simp [webCmd, strlen]
  | cons c url =>
      by_cases hc : c = slash
      · simp [webCmd, strlen, hc]
      · simp [webCmd, hc]

/-- A line is a command line if and only if it has a command. -/
theorem lineCommand_isSome_iff (line : CStr) :
    (lineCommand line).isSome ↔ CommandLine line := by
  rw [Option.isSome_iff_exists, lineCommand]
  constructor
  · rintro ⟨cmd, hcmd⟩
    obtain ⟨⟨word, url⟩, hwords, hurl⟩ := Option.bind_eq_some_iff.mp hcmd
    obtain ⟨rest, rest', hfirst, hsecond⟩ := requestWords_eq_some.mp hwords
    obtain ⟨pre, hpre, hne, hword, ⟨hnone, -⟩ | ⟨r, hr, hline⟩⟩ :=
      strtokR_some_cases hfirst
    · exact nomatch hnone
    obtain rfl := Option.some.inj hr
    obtain ⟨gap, hgap, -, -, hrest⟩ := strtokR_some_cases hsecond
    obtain ⟨c, url, rfl⟩ : ∃ c u, url = c :: u :=
      List.exists_cons_of_ne_nil fun hnil => by simp [hnil, webCmd] at hurl
    obtain rfl : c = slash := (List.cons.inj (webCmd_eq_some.mp hurl)).1
    have hgap' : ∀ byte ∈ blank :: gap, byte = blank := by
      simpa using hgap
    obtain ⟨-, hrest⟩ | ⟨r, -, hrest⟩ := hrest
    · refine ⟨pre, word, blank :: gap, url, ?_, hpre, hne, hword, hgap',
        List.cons_ne_nil _ _⟩
      rw [hline, hrest]
      simp
    · refine ⟨pre, word, blank :: gap, url ++ blank :: r, ?_, hpre, hne, hword,
        hgap', List.cons_ne_nil _ _⟩
      rw [hline, hrest]
      simp
  · rintro ⟨pre, word, gap, rest, rfl, hpre, hne, hword, hgap, hgapne⟩
    obtain ⟨b, gap, rfl⟩ := List.exists_cons_of_ne_nil hgapne
    obtain rfl := hgap b List.mem_cons_self
    have hgap' (byte : UInt8) (hb : byte ∈ gap) : byte = blank :=
      hgap byte (List.mem_cons_of_mem _ hb)
    obtain ⟨tok, rest', hsecond⟩ :=
      strtokR_cons hgap' (by decide : slash ≠ blank) rest
    have hfirst := strtokR_word hpre hne hword (gap ++ slash :: rest)
    have hwords := requestWords_eq_some.mpr ⟨_, _, hfirst, hsecond⟩
    refine ⟨tok.take (httpUrlLen - 2), ?_⟩
    have hsame : pre ++ word ++ blank :: gap ++ slash :: rest =
        pre ++ word ++ blank :: (gap ++ slash :: rest) := by simp
    rw [hsame, hwords, Option.bind_some, webCmd_eq_some]
    rfl

/-- The command that the data of a callback gives. -/
def chainCommand (p : List (List UInt8)) : Option CStr :=
  (parseHttpRequest p).bind fun words => webCmd words.2

/-- The command is that of the first line, if this fits and has an end. -/
theorem chainCommand_of_line {p : List (List UInt8)}
    {line rest : List UInt8} {eol : UInt8} (hdata : p.flatten = line ++ eol :: rest)
    (hend : isEol eol = true) (hline : ∀ byte ∈ line, isEol byte = false)
    (hfits : line.length < httpReplySize - 1) :
    chainCommand p = lineCommand (cstrAt line 0) := by
  have hscan : scanChain [] p = (true, line) := by
    rw [scanChain_eq, scanPbuf_iff hfits]
    exact ⟨line, eol, rest, hdata, hend, hline, rfl⟩
  simp only [chainCommand, parseHttpRequest, hscan, hfits, and_self, if_true,
    lineCommand, Option.bind_map]
  rfl

theorem chainCommand_isSome_iff (p : List (List UInt8)) :
    (chainCommand p).isSome ↔ LooksLikeRequest p.flatten := by
  constructor
  · intro h
    by_cases hread : (scanChain [] p).1 = true ∧
        (scanChain [] p).2.length < httpReplySize - 1
    · obtain ⟨hstop, hfits⟩ := hread
      have hscan : scanPbuf [] p.flatten = (true, (scanChain [] p).2) := by
        rw [← scanChain_eq, ← hstop]
      obtain ⟨line, eol, rest, hdata, hend, hline, hfound⟩ :=
        (scanPbuf_iff hfits).mp hscan
      rw [List.nil_append] at hfound
      rw [hfound] at hfits
      refine ⟨line, eol, rest, hdata, hend, hline, hfits, ?_⟩
      rw [← lineCommand_isSome_iff, ← chainCommand_of_line hdata hend hline hfits]
      exact h
    · rw [chainCommand, parseHttpRequest] at h
      simp only [hread, if_false, Option.bind_none, Option.isSome_none] at h
      exact nomatch h
  · rintro ⟨line, eol, rest, hdata, hend, hline, hfits, hcommand⟩
    rw [chainCommand_of_line hdata hend hline hfits, lineCommand_isSome_iff]
    exact hcommand

/-! ## Requests -/

/-- A piece of a request line. -/
def IsWord (word : List UInt8) : Prop :=
  ∀ byte ∈ word, byte ≠ blank ∧ byte ≠ 0 ∧ isEol byte = false

/-- The protocol at the end of a request line. -/
def httpVersion (version : List UInt8) : List UInt8 :=
  lit "HTTP/" ++ version

def requestLine (method url version : List UInt8) : List UInt8 :=
  method ++ blank :: slash :: url ++ blank :: httpVersion version

/-- An HTTP request whose request line fits the limits; `url` is what follows
the slash, and `tail` is what follows the request line: the headers and the
body. -/
structure HttpRequest where
  method : List UInt8
  url : List UInt8
  version : List UInt8
  tail : List UInt8
  method_ne_nil : method ≠ []
  method_isWord : IsWord method
  url_isWord : IsWord url
  version_isWord : IsWord version
  fits : (requestLine method url version).length < httpReplySize - 1

namespace HttpRequest

def line (r : HttpRequest) : List UInt8 := requestLine r.method r.url r.version

def bytes (r : HttpRequest) : List UInt8 := r.line ++ 13 :: 10 :: r.tail

end HttpRequest

/-! ## The connection -/

/-- What happens on a connection: data is received, the main loop looks for
connections to close, or another module asks for the connection to be
closed. -/
inductive HttpEvent
  | recv (p : List (List UInt8)) (turn : HttpTurn)
  | closeCheck (now : ℕ)
  | close

/-- A connection with the number of bytes that have arrived, and the commands
that were executed, each with the number of the first byte of its segment. -/
structure HttpConn where
  client : WebClient
  received : ℕ
  executed : List (ℕ × CStr)

namespace HttpConn

def init (client : WebClient) (pcb : ℕ) : HttpConn :=
  ⟨webservAccept client pcb, 0, []⟩

/-- A closed connection has no receive callback. -/
def step (x : HttpConn) : HttpEvent → HttpConn
  | .recv p turn =>
      if x.client.tcpClient = none then
        { x with received := x.received + p.flatten.length }
      else
        let result := wsTcpRecvCb x.client p turn
        { client := result.1
          received := x.received + p.flatten.length
          executed := x.executed ++
            (result.2.map fun cmd => (x.received, cmd)).toList }
  | .closeCheck now => { x with client := webclientCloseCheck x.client now }
  | .close => { x with client := webservClientClose x.client }

end HttpConn

def httpMachine : EventMachine HttpConn HttpEvent where
  step := HttpConn.step
  enabled := fun _ _ => True

/-- The bytes that arrive. -/
def delivered (es : List HttpEvent) : List UInt8 :=
  es.flatMap fun e =>
    match e with
    | .recv p _ => p.flatten
    | .closeCheck _ | .close => []

/-- One command was executed, that of the request line, and it was read from a
line that begins within the request line. -/
def OneCommand (r : HttpRequest) (x : HttpConn) : Prop :=
  x.executed.map (·.2) = [r.url] ∧ ∀ c ∈ x.executed, c.1 ≤ r.line.length

/-- The segment with the end of the request line begins within the method and
finds the connection open, and no later segment that finds it open begins like
a request. -/
def LineWhole (r : HttpRequest) (x : HttpConn) : HttpEvent → Prop
  | .recv p _ =>
      (x.received ≤ r.line.length →
        r.line.length < x.received + p.flatten.length →
        x.client.tcpClient ≠ none ∧ x.received < r.method.length) ∧
      (r.line.length < x.received → x.client.tcpClient ≠ none →
        ¬LooksLikeRequest p.flatten)
  | .closeCheck _ | .close => True

/-! ## The request line -/

theorem IsWord.blank_notMem {word : List UInt8} (h : IsWord word) :
    blank ∉ word :=
  fun hmem => (h blank hmem).1 rfl

theorem IsWord.drop {word : List UInt8} (h : IsWord word) (k : ℕ) :
    IsWord (word.drop k) :=
  fun byte hbyte => h byte (List.mem_of_mem_drop hbyte)

theorem isWord_slash {url : List UInt8} (h : IsWord url) :
    IsWord (slash :: url) := by
  intro byte hbyte
  obtain rfl | hbyte := List.mem_cons.mp hbyte
  · exact ⟨by decide, by decide, by decide⟩
  · exact h byte hbyte

theorem isWord_httpVersion {version : List UInt8} (h : IsWord version) :
    IsWord (httpVersion version) := by
  intro byte hbyte
  obtain hbyte | hbyte := List.mem_append.mp hbyte
  · have hlit : ∀ b ∈ lit "HTTP/", b ≠ blank ∧ b ≠ 0 ∧ isEol b = false := by
      decide +kernel
    exact hlit byte hbyte
  · exact h byte hbyte

theorem no_blanks : ∀ byte ∈ ([] : CStr), byte = blank := nofun

theorem one_blank : ∀ byte ∈ [blank], byte = blank := by
  simp

theorem httpVersion_cons (version : List UInt8) :
    ∃ rest, httpVersion version = 72 :: rest :=
  ⟨[84, 84, 80, 47] ++ version, rfl⟩

section

variable {pre word version : List UInt8}

/-- The protocol is no command. -/
theorem lineCommand_word_version (hpre : ∀ byte ∈ pre, byte = blank)
    (hne : word ≠ []) (hword : blank ∉ word) (hversion : IsWord version) :
    lineCommand (pre ++ word ++ blank :: httpVersion version) = none := by
  obtain ⟨rest, hrest⟩ := httpVersion_cons version
  have hblank := (isWord_httpVersion hversion).blank_notMem
  rw [hrest] at hblank ⊢
  have hsecond := strtokR_last no_blanks (List.cons_ne_nil 72 rest) hblank
  rw [List.nil_append] at hsecond
  have hwords := requestWords_eq_some.mpr
    ⟨_, _, strtokR_word hpre hne hword _, hsecond⟩
  rw [lineCommand, hwords, Option.bind_some, Option.eq_none_iff_forall_ne_some]
  intro cmd hcmd
  exact absurd (List.cons.inj (webCmd_eq_some.mp hcmd)).1 (by decide)

theorem lineCommand_word (hpre : ∀ byte ∈ pre, byte = blank)
    (hword : blank ∉ word) : lineCommand (pre ++ word) = none := by
  by_cases hne : word = []
  · rw [hne, List.append_nil, lineCommand, requestWords, strtokR_blanks hpre]
    rfl
  · rw [lineCommand, requestWords, strtokR_last hpre hne hword]
    rfl

end

namespace HttpRequest

variable (r : HttpRequest)

theorem length_line : r.line.length =
    r.method.length + r.url.length + r.version.length + 8 := by
  have hlit : (lit "HTTP/").length = 5 := rfl
  simp only [line, requestLine, httpVersion, List.length_append,
    List.length_cons, hlit]
  omega

theorem line_bytes (byte : UInt8) (h : byte ∈ r.line) :
    byte ≠ 0 ∧ isEol byte = false := by
  have hblank : blank ≠ 0 ∧ isEol blank = false := by decide
  simp only [line, requestLine, List.append_assoc, List.cons_append,
    List.mem_append, List.mem_cons] at h
  obtain h | rfl | rfl | h | rfl | h := h
  · exact (r.method_isWord byte h).2
  · exact hblank
  · decide
  · exact (r.url_isWord byte h).2
  · exact hblank
  · exact (isWord_httpVersion r.version_isWord byte h).2

/-- The command of what is left of the request line. -/
theorem lineCommand_drop (k : ℕ) :
    lineCommand (r.line.drop k) =
      if k < r.method.length then some r.url else none := by
  have hurl := isWord_slash r.url_isWord
  have hversion := (isWord_httpVersion r.version_isWord).blank_notMem
  have hline : r.line = r.method ++ blank :: (slash :: r.url ++
      blank :: httpVersion r.version) := by
    simp [line, requestLine]
  by_cases hk : k < r.method.length
  · have hdrop : r.line.drop k = [] ++ r.method.drop k ++ blank ::
        (slash :: r.url ++ blank :: httpVersion r.version) := by
      rw [hline, List.drop_append_of_le_length hk.le, List.nil_append]
    have hne : r.method.drop k ≠ [] := by
      simpa using hk
    have hsecond := strtokR_word no_blanks (List.cons_ne_nil slash r.url)
      hurl.blank_notMem (httpVersion r.version)
    rw [List.nil_append] at hsecond
    have hwords := requestWords_eq_some.mpr ⟨_, _,
      strtokR_word no_blanks hne (r.method_isWord.drop k).blank_notMem _,
      hsecond⟩
    have hlen := r.length_line
    have hfits : r.line.length < 127 := r.fits
    have htake : (slash :: r.url).take (httpUrlLen - 1) = slash :: r.url :=
      List.take_of_length_le (by
        rw [List.length_cons]
        show r.url.length + 1 ≤ 127
        omega)
    rw [if_pos hk, hdrop, lineCommand, hwords, Option.bind_some, htake]
    exact webCmd_eq_some.mpr rfl
  · rw [if_neg hk, hline, List.drop_append, List.drop_eq_nil_of_le (by omega),
      List.nil_append]
    generalize k - r.method.length = j
    cases j with
    | zero =>
        exact lineCommand_word_version one_blank
          (List.cons_ne_nil slash r.url) hurl.blank_notMem r.version_isWord
    | succ j =>
        rw [List.drop_succ_cons]
        by_cases hj : j < (slash :: r.url).length
        · rw [List.drop_append_of_le_length hj.le]
          have hne : (slash :: r.url).drop j ≠ [] := by
            simpa using hj
          exact lineCommand_word_version no_blanks hne
            (hurl.drop j).blank_notMem r.version_isWord
        · rw [List.drop_append, List.drop_eq_nil_of_le (by omega),
            List.nil_append]
          cases j - (slash :: r.url).length with
          | zero => exact lineCommand_word one_blank hversion
          | succ i =>
              rw [List.drop_succ_cons]
              exact lineCommand_word no_blanks
                fun h => hversion (List.mem_of_mem_drop h)

/-- The request goes on from within its line. -/
theorem bytes_drop {k : ℕ} (hk : k ≤ r.line.length) :
    r.bytes.drop k = r.line.drop k ++ 13 :: 10 :: r.tail :=
  List.drop_append_of_le_length hk

/-- A segment that the request line goes on behind. -/
theorem segment_within {data rest : List UInt8} {k : ℕ}
    (hall : data ++ rest = r.bytes.drop k)
    (hend : k + data.length ≤ r.line.length) : ∀ byte ∈ data, byte ∈ r.line := by
  have hle : data.length ≤ (r.line.drop k).length := by
    rw [List.length_drop]
    omega
  have hdata : data = (r.line.drop k).take data.length := by
    calc
      data = (r.bytes.drop k).take data.length := by rw [← hall, List.take_left]
      _ = (r.line.drop k).take data.length := by
          rw [r.bytes_drop (by omega), List.take_append_of_le_length hle]
  intro byte hb
  rw [hdata] at hb
  exact List.mem_of_mem_drop (List.mem_of_mem_take hb)

/-- A segment with the end of the request line. -/
theorem segment_end {data rest : List UInt8} {k : ℕ}
    (hall : data ++ rest = r.bytes.drop k) (hk : k ≤ r.line.length)
    (hend : r.line.length < k + data.length) :
    ∃ more, data = r.line.drop k ++ 13 :: more := by
  have hlen : (r.line.drop k).length = r.line.length - k := List.length_drop
  obtain ⟨n, hn⟩ : ∃ n, data.length = (r.line.drop k).length + (n + 1) :=
    ⟨data.length - (r.line.drop k).length - 1, by omega⟩
  refine ⟨(10 :: r.tail).take n, ?_⟩
  calc
    data = (r.bytes.drop k).take data.length := by rw [← hall, List.take_left]
    _ = r.line.drop k ++ 13 :: (10 :: r.tail).take n := by
        rw [r.bytes_drop hk, hn, List.take_length_add_append,
          List.take_succ_cons]

/-- A segment that ends before the request line does gives no command. -/
theorem chainCommand_before {p : List (List UInt8)}
    (h : ∀ byte ∈ p.flatten, byte ∈ r.line) : chainCommand p = none := by
  rw [← Option.not_isSome_iff_eq_none, chainCommand_isSome_iff]
  rintro ⟨line, eol, rest, hdata, hend, -⟩
  have hmem : eol ∈ p.flatten := by
    rw [hdata]
    exact List.mem_append_right _ List.mem_cons_self
  exact nomatch hend.symm.trans (r.line_bytes eol (h eol hmem)).2

/-- The segment with the end of the request line gives the command if it begins
within the method. -/
theorem chainCommand_end {p : List (List UInt8)} {k : ℕ} {rest : List UInt8}
    (h : p.flatten = r.line.drop k ++ 13 :: rest) :
    chainCommand p = if k < r.method.length then some r.url else none := by
  have hbytes (byte : UInt8) (hb : byte ∈ r.line.drop k) :=
    r.line_bytes byte (List.mem_of_mem_drop hb)
  have hfits : (r.line.drop k).length < httpReplySize - 1 := by
    rw [List.length_drop]
    exact Nat.lt_of_le_of_lt (Nat.sub_le _ _) r.fits
  have hcstr : cstrAt (r.line.drop k) 0 = r.line.drop k := by
    rw [cstrAt, List.drop_zero, List.takeWhile_eq_self_iff]
    exact fun byte hb => decide_eq_true (hbytes byte hb).1
  rw [chainCommand_of_line h (by decide) (fun byte hb => (hbytes byte hb).2)
    hfits, hcstr, r.lineCommand_drop]

end HttpRequest

/-! ## The run -/

theorem wsTcpRecvCb_command (client : WebClient) (p : List (List UInt8))
    (turn : HttpTurn) : (wsTcpRecvCb client p turn).2 = chainCommand p := rfl

/-- The commands that a segment adds. -/
def HttpConn.added (x : HttpConn) (p : List (List UInt8)) : List (ℕ × CStr) :=
  if x.client.tcpClient = none then []
  else ((chainCommand p).map fun cmd => (x.received, cmd)).toList

theorem recv_executed (x : HttpConn) (p : List (List UInt8))
    (turn : HttpTurn) :
    (x.step (.recv p turn)).executed = x.executed ++ x.added p ∧
      (x.step (.recv p turn)).received = x.received + p.flatten.length := by
  simp only [HttpConn.step, HttpConn.added]
  split
  · exact ⟨(List.append_nil _).symm, rfl⟩
  · exact ⟨by rw [← wsTcpRecvCb_command x.client p turn], rfl⟩

theorem added_eq_nil_iff (x : HttpConn) (p : List (List UInt8)) :
    x.added p = [] ↔
      (x.client.tcpClient ≠ none → chainCommand p = none) := by
  rw [HttpConn.added]
  split
  next hclosed => exact iff_of_true rfl fun hopen => (hopen hclosed).elim
  next hopen =>
    cases chainCommand p with
    | none => exact iff_of_true rfl fun _ => rfl
    | some cmd => exact iff_of_false nofun fun h => nomatch h hopen

variable {r : HttpRequest}

/-- Behind the request line: more commands are executed if and only if a
segment begins like a request. -/
theorem executed_after {x : HttpConn} (hx : r.line.length < x.received)
    (es : List HttpEvent) :
    ∃ more, (httpMachine.run x es).executed = x.executed ++ more ∧
      (∀ c ∈ more, r.line.length < c.1) ∧
      (more = [] ↔ httpMachine.Along (LineWhole r) x es) := by
  induction es generalizing x with
  | nil => exact ⟨[], (List.append_nil _).symm, nofun, iff_of_true rfl trivial⟩
  | cons e es ih =>
      -- an event that leaves the commands and the bytes alone
      have hquiet (hsame : (x.step e).executed = x.executed)
          (hrec : (x.step e).received = x.received) (he : LineWhole r x e) :
          ∃ more, (httpMachine.run x (e :: es)).executed = x.executed ++ more ∧
            (∀ c ∈ more, r.line.length < c.1) ∧
            (more = [] ↔ httpMachine.Along (LineWhole r) x (e :: es)) := by
        obtain ⟨more, hmore, hlate, hiff⟩ := ih (x := x.step e) (hrec ▸ hx)
        refine ⟨more, ?_, hlate, ?_⟩
        · rw [← hsame]
          exact hmore
        · rw [hiff, EventMachine.along_cons, and_iff_right he]
          rfl
      cases e with
      | closeCheck now => exact hquiet rfl rfl trivial
      | close => exact hquiet rfl rfl trivial
      | recv p turn =>
          obtain ⟨hexec, hrec⟩ := recv_executed x p turn
          obtain ⟨more, hmore, hlate, hiff⟩ :=
            ih (x := x.step (.recv p turn)) (by omega)
          refine ⟨x.added p ++ more, ?_, ?_, ?_⟩
          · exact hmore.trans (by rw [hexec, List.append_assoc])
          · intro c hc
            obtain hc | hc := List.mem_append.mp hc
            · rw [HttpConn.added] at hc
              split at hc
              · exact nomatch hc
              · obtain ⟨cmd, -, rfl⟩ := Option.map_eq_some_iff.mp
                  (Option.mem_toList.mp hc)
                exact hx
            · exact hlate c hc
          · rw [List.append_eq_nil_iff, hiff, EventMachine.along_cons]
            refine and_congr_left fun _ => ?_
            rw [added_eq_nil_iff, LineWhole, ← chainCommand_isSome_iff,
              Option.not_isSome_iff_eq_none]
            constructor
            · exact fun hnone => ⟨fun hle => by omega, fun _ => hnone⟩
            · exact fun h => h.2 hx

/-- Up to the end of the request line: one command is executed if and only if
the segment with the end gives it and none behind it gives another. -/
theorem executed_before {x : HttpConn} (hx : x.received ≤ r.line.length)
    (hnone : x.executed = []) (es : List HttpEvent)
    (hes : delivered es = r.bytes.drop x.received) :
    OneCommand r (httpMachine.run x es) ↔
      httpMachine.Along (LineWhole r) x es := by
  induction es generalizing x with
  | nil =>
      have hlen := congrArg List.length hes
      simp only [delivered, List.flatMap_nil, List.length_nil, List.length_drop,
        HttpRequest.bytes, List.length_append, List.length_cons] at hlen
      omega
  | cons e es ih =>
      cases e with
      | closeCheck now =>
          exact (ih (x := x.step (.closeCheck now)) hx hnone hes).trans
            (and_iff_right trivial).symm
      | close =>
          exact (ih (x := x.step .close) hx hnone hes).trans
            (and_iff_right trivial).symm
      | recv p turn =>
          obtain ⟨hexec, hrec⟩ := recv_executed x p turn
          have hall : p.flatten ++ delivered es = r.bytes.drop x.received := hes
          have hrest : delivered es =
              r.bytes.drop (x.received + p.flatten.length) := by
            rw [← List.drop_drop, ← hall, List.drop_left]
          by_cases hend : x.received + p.flatten.length ≤ r.line.length
          · -- the request line goes on behind the segment
            have hadded : x.added p = [] :=
              (added_eq_nil_iff x p).mpr fun _ =>
                r.chainCommand_before (r.segment_within hall hend)
            have hwhole : LineWhole r x (.recv p turn) :=
              ⟨fun _ hlt => by omega, fun hlt => by omega⟩
            rw [hadded, List.append_nil, hnone] at hexec
            exact (ih (x := x.step (.recv p turn)) (by omega) hexec
              (hrec ▸ hrest)).trans (and_iff_right hwhole).symm
          · obtain ⟨_, hline⟩ := r.segment_end hall hx (Nat.lt_of_not_le hend)
            have hcommand := r.chainCommand_end hline
            obtain ⟨more, hmore, hlate, hiff⟩ :=
              executed_after (r := r) (x := x.step (.recv p turn))
                (by omega) es
            have hrun : (httpMachine.run x (.recv p turn :: es)).executed =
                x.added p ++ more := by
              rw [← List.nil_append (x.added p), ← hnone, ← hexec]
              exact hmore
            rw [EventMachine.along_cons]
            by_cases hgood : x.client.tcpClient ≠ none ∧
                x.received < r.method.length
            · have hwhole : LineWhole r x (.recv p turn) :=
                ⟨fun _ _ => hgood, fun hlt => by omega⟩
              have hadded : x.added p = [(x.received, r.url)] := by
                rw [HttpConn.added, if_neg hgood.1, hcommand, if_pos hgood.2]
                rfl
              rw [and_iff_right hwhole]
              refine Iff.trans ?_ hiff
              rw [OneCommand, hrun, hadded]
              constructor
              · rintro ⟨hone, -⟩
                simpa using hone
              · rintro rfl
                simpa using hx
            · have hadded : x.added p = [] := by
                rw [added_eq_nil_iff, hcommand]
                exact fun hopen => if_neg fun hlt => hgood ⟨hopen, hlt⟩
              refine iff_of_false ?_ fun h => hgood (h.1.1 hx (by omega))
              rintro ⟨hone, hearly⟩
              rw [hrun, hadded, List.nil_append] at hone hearly
              cases more with
              | nil => exact nomatch hone
              | cons c more =>
                  have := hlate c List.mem_cons_self
                  have := hearly c List.mem_cons_self
                  omega

/-- However a request is split into segments and chains, and whenever the main
loop or another module closes the connection: exactly its command is executed
if and only if the segment with the end of the request line begins within the
method and finds the connection open, and no later segment that finds it open
begins like a request. -/
theorem one_command_iff (r : HttpRequest) (client : WebClient) (pcb : ℕ)
    (es : List HttpEvent) (hes : delivered es = r.bytes) :
    OneCommand r (httpMachine.run (.init client pcb) es) ↔
      httpMachine.Along (LineWhole r) (.init client pcb) es :=
  executed_before (Nat.zero_le _) rfl es hes

/-! ## A request in one segment and in two -/

instance (word : List UInt8) : Decidable (IsWord word) :=
  inferInstanceAs (Decidable (∀ byte ∈ word, _))

/-- A request with a body that has a command in its first line. -/
def pingRequest : HttpRequest where
  method := lit "POST"
  url := lit "sys?ping"
  version := lit "1.1"
  tail := [13, 10] ++ lit "run /sys?reboot" ++ [10]
  method_ne_nil := by decide
  method_isWord := by decide +kernel
  url_isWord := by decide +kernel
  version_isWord := by decide +kernel
  fits := by decide

/-- TCP has space, and every command succeeds. -/
def quickTurn : HttpTurn :=
  ⟨1000, [], fun _ => ⟨2048, true⟩, fun _ => ⟨true, false, false, false, []⟩⟩

/-- The whole request in a chain of two. -/
def inOneSegment : List HttpEvent :=
  [.recv [pingRequest.bytes.take 30, pingRequest.bytes.drop 30] quickTurn]

theorem one_command_iff_inOneSegment :
    OneCommand pingRequest (httpMachine.run (.init .zero 1) inOneSegment) := by
  refine (one_command_iff pingRequest .zero 1 inOneSegment
    (by decide +kernel)).mpr ⟨⟨fun _ _ => ?_, fun hlt => ?_⟩, trivial⟩
  · exact ⟨Option.some_ne_none 1, by decide +kernel⟩
  · exact absurd hlt (by decide +kernel)

/-- The headers in one segment, and the body in another. -/
def inTwoSegments : List HttpEvent :=
  [.recv [pingRequest.bytes.take 27] quickTurn,
    .recv [pingRequest.bytes.drop 27] quickTurn]

/-- The first line of the body is executed, too. -/
theorem in_two_segments_body_executed :
    delivered inTwoSegments = pingRequest.bytes ∧
      (httpMachine.run (.init .zero 1) inTwoSegments).executed =
        [(0, lit "sys?ping"), (27, lit "sys?reboot")] ∧
      ¬OneCommand pingRequest
        (httpMachine.run (.init .zero 1) inTwoSegments) := by
  refine ⟨by decide +kernel, by decide +kernel, fun h => ?_⟩
  exact absurd h.1 (by decide +kernel)

end Herak.Web
