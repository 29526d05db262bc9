import Herak.Ota.Internal
import Herak.Support.Decimal

/-!
# TFTP URLs

`tftp://<server>[:<port>]/<file>`, as the commands of the OTA module and of the
file system name a file.  The parser drops a file name of one character, takes
a port with leading zeros for an octal number, and skips slashes and colons in
front of a host, so that what follows them becomes the host.
-/

namespace Herak.Tftp

open CString Ota

def tftpUrl : CStr := lit "tftp://"

def ianaPortTftp : ℤ := 69

/-- Whether there is memory for the copies of the file name and of the host. -/
structure UrlMemory where
  fname : Bool
  peer : Bool

/-- What a call of the parser comes to: it returns, it returns -1 with the file
pointing to a name that was freed, or it copies a null pointer. -/
inductive UrlResult
  | returned (ret : ℤ) (file : TftpFile)
  | dangling
  | undefined
  deriving DecidableEq

/-- The copies that `tftp_url_parse` makes of the parts of the url, after it
has cleared the file. -/
def tftpUrlCopy (addr fname port : Option CStr) (mem : UrlMemory) : UrlResult :=
  let name := fname.filter fun fname => 1 < strlen fname
  if name.isSome && !mem.fname then .returned (-1) noFile
  else
    match addr with
    | none => .undefined
    | some addr =>
        if !mem.peer then
          if name.isSome then .dangling else .returned (-1) noFile
        else
          .returned 0
            { fname := name
              peer := some addr
              port :=
                match port with
                | some port => strtol port 0
                | none => ianaPortTftp }

/-- `tftp_url_parse`, with the memory there is for each copy. -/
def tftpUrlParseIn (url : CStr) (file : TftpFile) (mem : UrlMemory) :
    UrlResult :=
  if strlen url ≤ strlen tftpUrl then .returned (-1) file
  else if strncmp url tftpUrl (strlen tftpUrl) ≠ 0 then .returned (-1) file
  else
    match strtokR (some (url.drop (strlen tftpUrl))) (lit "/") with
    | (none, _) => .returned (-1) file
    | (some addr, fname) =>
        match strtokR (some addr) (lit ":") with
        | (addr, port) => tftpUrlCopy addr fname port mem

/-- `tftp_url_parse` when the copies succeed or fail together; a null pointer
is taken for a copy that fails. -/
def tftpUrlParse (url : CStr) (file : TftpFile) (allocated : Bool) :
    ℤ × TftpFile :=
  match tftpUrlParseIn url file { fname := allocated, peer := allocated } with
  | .returned ret file => (ret, file)
  | .dangling | .undefined => (-1, noFile)

/-! ## Addresses -/

/-- A decimal port, with any number of leading zeros. -/
structure UrlPort where
  zeros : ℕ
  number : ℕ
  pos : 0 < number
  le : number ≤ 65535

def UrlPort.text (port : UrlPort) : CStr :=
  List.replicate port.zeros 48 ++ decimal port.number

/-- A host without `/` and `:`, and the port if one is given. -/
structure TftpServer where
  host : CStr
  port : Option UrlPort
  ne_nil : host ≠ []
  slash : 47 ∉ host
  colon : 58 ∉ host

namespace TftpServer

def address (server : TftpServer) : CStr :=
  server.host ++ server.port.elim [] fun port => 58 :: port.text

/-- The url of the server, with a path if one is given. -/
def url (server : TftpServer) (path : Option CStr) : CStr :=
  tftpUrl ++ (server.address ++ path.elim [] (47 :: ·))

def portNumber (server : TftpServer) : ℤ :=
  server.port.elim ianaPortTftp fun port => port.number

end TftpServer

/-- What stands behind the scheme begins with a host. -/
def HasHost (rest : CStr) : Prop :=
  ∃ c s, rest = c :: s ∧ c ≠ 47 ∧ c ≠ 58

/-- What stands behind the first slash. -/
def pathOf (rest : CStr) : CStr :=
  (rest.dropWhile (· ≠ 47)).drop 1

/-- There is memory for the copies of a host and of a path. -/
def UrlMemory.Serves (mem : UrlMemory) (path : CStr) : Prop :=
  mem.peer = true ∧ (1 < path.length → mem.fname = true)

/-! ## The property and the condition -/

/-- The urls of the documented form are read back, those without the scheme or
without a host are rejected, and a call that rejects leaves the file alone. -/
structure UrlRight (url : CStr) (mem : UrlMemory) : Prop where
  documented : ∀ (file : TftpFile) (server : TftpServer) path,
    path ≠ some [] → url = server.url path →
      tftpUrlParseIn url file mem =
        .returned 0
          { fname := path, peer := some server.host
            port := server.portNumber }
  rejects : ∀ file, (∀ rest, url = tftpUrl ++ rest → ¬HasHost rest) →
    tftpUrlParseIn url file mem = .returned (-1) file
  unchanged : ∀ file ret file', ret ≠ 0 →
    tftpUrlParseIn url file mem = .returned ret file' → file' = file
  kept : ∀ file, tftpUrlParseIn url file mem ≠ .dangling

/-- No file name has one character, no port from 8 on has leading zeros,
nothing but slashes stands in the place of a host, and there is memory for the
copies. -/
structure UrlCondition (url : CStr) (mem : UrlMemory) : Prop where
  documented : ∀ (server : TftpServer) path, path ≠ some [] →
    url = server.url path →
      (∀ name ∈ path, name.length ≠ 1) ∧
        ∀ port ∈ server.port, port.zeros = 0 ∨ port.number < 8
  hostless : ∀ rest, url = tftpUrl ++ rest → ¬HasHost rest → ∀ c ∈ rest, c = 47
  memory : ∀ rest, url = tftpUrl ++ rest → HasHost rest →
    mem.Serves (pathOf rest)

/-! ## Parsing -/

theorem lit_slash : lit "/" = [47] := rfl

theorem lit_colon : lit ":" = [58] := rfl

/-- A string without the scheme. -/
theorem parse_noScheme {url : CStr} (h : ∀ rest, url ≠ tftpUrl ++ rest)
    (file : TftpFile) (mem : UrlMemory) :
    tftpUrlParseIn url file mem = .returned (-1) file := by
  have hcmp : strncmp url tftpUrl (strlen tftpUrl) = 0 →
      strlen url ≤ strlen tftpUrl := by
    intro hcmp
    rw [strncmp_eq_zero_iff, strlen_eq, List.take_length] at hcmp
    exact absurd (List.take_append_drop _ url).symm (hcmp ▸ h _)
  unfold tftpUrlParseIn
  by_cases hlen : strlen url ≤ strlen tftpUrl
  · rw [if_pos hlen]
  · rw [if_neg hlen, if_pos fun heq => hlen (hcmp heq)]

/-- What stands behind the scheme is split at the first slash, and its first
part at the first colon. -/
theorem parse_scheme {rest : CStr} (hne : rest ≠ []) (file : TftpFile)
    (mem : UrlMemory) :
    tftpUrlParseIn (tftpUrl ++ rest) file mem =
      match strtokR (some rest) [47] with
      | (none, _) => .returned (-1) file
      | (some addr, fname) =>
          match strtokR (some addr) [58] with
          | (addr, port) => tftpUrlCopy addr fname port mem := by
  have hlen : ¬strlen (tftpUrl ++ rest) ≤ strlen tftpUrl := by
    have := List.length_pos_iff.mpr hne
    rw [strlen_eq, strlen_eq, List.length_append]
    omega
  have hcmp : ¬strncmp (tftpUrl ++ rest) tftpUrl (strlen tftpUrl) ≠ 0 := by
    rw [not_not, strncmp_eq_zero_iff, strlen_eq, List.take_left,
      List.take_length]
  rw [tftpUrlParseIn, if_neg hlen, if_neg hcmp, strlen_eq, List.drop_left]
  rfl

/-- Nothing but slashes behind the scheme. -/
theorem parse_slashes {rest : CStr} (h : ∀ c ∈ rest, c = 47)
    (file : TftpFile) (mem : UrlMemory) :
    tftpUrlParseIn (tftpUrl ++ rest) file mem = .returned (-1) file := by
  by_cases hne : rest = []
  · rw [tftpUrlParseIn, if_pos]
    rw [hne, List.append_nil]
  · rw [parse_scheme hne, strtokR_blanks h]

/-- Something else behind the scheme is copied. -/
theorem parse_other {rest : CStr} (h : ∃ c ∈ rest, c ≠ 47) (file : TftpFile)
    (mem : UrlMemory) :
    ∃ addr fname port, tftpUrlParseIn (tftpUrl ++ rest) file mem =
      tftpUrlCopy addr fname port mem := by
  obtain ⟨b, hb, hne⟩ := h
  have hrest : rest ≠ [] := List.ne_nil_of_mem hb
  have hsome : rest.dropWhile (· = 47) ≠ [] := by
    intro hnil
    exact hne (of_decide_eq_true (List.dropWhile_eq_nil_iff.mp hnil b hb))
  obtain ⟨c, s, hdrop⟩ := List.exists_cons_of_ne_nil hsome
  have hpre : ∀ c ∈ rest.takeWhile (· = 47), c = 47 := by
    intro c hc
    simpa using List.mem_takeWhile_imp hc
  have hc : c ≠ 47 := by
    have hhead := List.head_dropWhile_not (· = (47 : UInt8)) hsome
    simpa [hdrop] using hhead
  obtain ⟨tok, fname, htok⟩ := strtokR_cons hpre hc s
  rw [← hdrop, List.takeWhile_append_dropWhile] at htok
  rw [parse_scheme hrest, htok]
  exact ⟨_, fname, _, rfl⟩

/-- A call that fails while it copies leaves a cleared file. -/
theorem tftpUrlCopy_failed {addr fname port : Option CStr} {mem : UrlMemory}
    {ret : ℤ} {file : TftpFile} (hret : ret ≠ 0)
    (h : tftpUrlCopy addr fname port mem = .returned ret file) :
    file = noFile := by
  unfold tftpUrlCopy at h
  dsimp only at h
  split at h
  · cases h
    rfl
  · split at h
    · cases h
    · split at h
      · split at h
        · cases h
        · cases h
          rfl
      · cases h
        exact absurd rfl hret

/-- With a host behind the scheme, copies are made of it and of the path. -/
theorem parse_host {rest : CStr} (h : HasHost rest) (file : TftpFile)
    (mem : UrlMemory) :
    ∃ addr fname port, tftpUrlParseIn (tftpUrl ++ rest) file mem =
        tftpUrlCopy (some addr) fname port mem ∧
      fname.getD [] = pathOf rest := by
  obtain ⟨c, s, rfl, hslash, hcolon⟩ := h
  have hport : ∀ tok : CStr, ∃ addr port,
      strtokR (some (c :: tok)) [58] = (some addr, port) := by
    intro tok
    obtain ⟨addr, port, haddr⟩ := @strtokR_cons 58 c [] nofun hcolon tok
    exact ⟨_, port, haddr⟩
  by_cases hpath : 47 ∈ s
  · obtain ⟨tok, path, rfl, htok⟩ := List.eq_append_cons_of_mem hpath
    have hword : 47 ∉ c :: tok := by
      simpa [htok] using Ne.symm hslash
    have hsplit : strtokR (some (c :: tok ++ 47 :: path)) [47] =
        (some (c :: tok), some path) :=
      @strtokR_word 47 [] _ nofun (List.cons_ne_nil c tok) hword path
    have hpathOf : pathOf (c :: tok ++ 47 :: path) = path := by
      have hall : ∀ b ∈ c :: tok, decide (b ≠ 47) = true := by
        intro b hb
        exact decide_eq_true fun heq => hword (heq ▸ hb)
      rw [pathOf, List.dropWhile_append_of_pos hall]
      simp
    obtain ⟨addr, port, haddr⟩ := hport tok
    refine ⟨addr, some path, port, ?_, ?_⟩
    · rw [parse_scheme (List.cons_ne_nil _ _), ← List.cons_append, hsplit]
      dsimp only
      rw [haddr]
    · rw [← List.cons_append, hpathOf]
      rfl
  · have hword : 47 ∉ c :: s := by
      simpa [hpath] using Ne.symm hslash
    have hsplit : strtokR (some (c :: s)) [47] = (some (c :: s), none) :=
      @strtokR_last 47 [] _ nofun (List.cons_ne_nil c s) hword
    have hpathOf : pathOf (c :: s) = [] := by
      have hall : ∀ b ∈ c :: s, decide (b ≠ 47) = true := by
        intro b hb
        exact decide_eq_true fun heq => hword (heq ▸ hb)
      rw [pathOf, List.dropWhile_eq_nil_iff.mpr hall, List.drop_nil]
    obtain ⟨addr, port, haddr⟩ := hport s
    refine ⟨addr, none, port, ?_, ?_⟩
    · rw [parse_scheme (List.cons_ne_nil _ _), hsplit]
      dsimp only
      rw [haddr]
    · rw [hpathOf]
      rfl

theorem isSome_filter_long (fname : Option CStr) :
    (fname.filter fun name => 1 < strlen name).isSome =
      decide (1 < (fname.getD []).length) := by
  cases fname with
  | none => rfl
  | some name => exact Option.isSome_filter

theorem tftpUrlCopy_of_serves (addr : CStr) {fname : Option CStr}
    (port : Option CStr) {mem : UrlMemory} (h : mem.Serves (fname.getD [])) :
    tftpUrlCopy (some addr) fname port mem =
      .returned 0
        { fname := fname.filter fun name => 1 < strlen name
          peer := some addr
          port :=
            match port with
            | some port => strtol port 0
            | none => ianaPortTftp } := by
  have hcopied : ((fname.filter fun name => 1 < strlen name).isSome &&
      !mem.fname) = false := by
    rw [isSome_filter_long]
    by_cases hlong : 1 < (fname.getD []).length
    · rw [h.2 hlong, Bool.not_true, Bool.and_false]
    · rw [decide_eq_false hlong, Bool.false_and]
  unfold tftpUrlCopy
  dsimp only
  rw [hcopied, h.1]
  rfl

theorem tftpUrlCopy_of_not_serves (addr : CStr) {fname : Option CStr}
    (port : Option CStr) {mem : UrlMemory} (h : ¬mem.Serves (fname.getD [])) :
    tftpUrlCopy (some addr) fname port mem = .dangling ∨
      tftpUrlCopy (some addr) fname port mem = .returned (-1) noFile := by
  unfold tftpUrlCopy
  dsimp only
  rw [isSome_filter_long]
  by_cases hlong : 1 < (fname.getD []).length
  · rw [decide_eq_true hlong]
    cases hfname : mem.fname with
    | false => exact .inr rfl
    | true =>
        have hpeer : mem.peer = false :=
          Bool.eq_false_iff.mpr fun hpeer => h ⟨hpeer, fun _ => hfname⟩
        rw [hpeer]
        exact .inl rfl
  · rw [decide_eq_false hlong]
    have hpeer : mem.peer = false :=
      Bool.eq_false_iff.mpr fun hpeer => h ⟨hpeer, fun hlt => absurd hlt hlong⟩
    rw [hpeer]
    exact .inr rfl

theorem slash_notMem_text (port : UrlPort) : 47 ∉ port.text := by
  intro h
  rcases List.mem_append.mp h with hzero | hdigit
  · exact absurd (List.eq_of_mem_replicate hzero) (by decide)
  · obtain ⟨d, hd, hslash⟩ := mem_decimal hdigit
    have hnat := congrArg UInt8.toNat hslash
    rw [digit_toNat hd] at hnat
    have hfortySeven : UInt8.toNat 47 = 47 := rfl
    omega

theorem strtol_text_iff (port : UrlPort) :
    strtol port.text 0 = port.number ↔ port.zeros = 0 ∨ port.number < 8 := by
  have hle := port.le
  exact strtol_zeros_decimal_iff port.pos (by
    rw [longMax]
    omega)

namespace TftpServer

variable (server : TftpServer)

theorem slash_notMem_address : 47 ∉ server.address := by
  rw [address, List.mem_append, not_or]
  refine ⟨server.slash, ?_⟩
  cases server.port with
  | none => exact List.not_mem_nil
  | some port =>
      rw [Option.elim_some, List.mem_cons, not_or]
      exact ⟨by decide, slash_notMem_text port⟩

theorem hasHost (s : CStr) : HasHost (server.address ++ s) := by
  obtain ⟨c, host, hhost⟩ := List.exists_cons_of_ne_nil server.ne_nil
  have hmem : c ∈ server.host := hhost ▸ List.mem_cons_self
  refine ⟨c, host ++ (server.port.elim [] fun port => 58 :: port.text) ++ s,
    ?_, ?_, ?_⟩
  · rw [address, hhost]
    rfl
  · rintro rfl
    exact server.slash hmem
  · rintro rfl
    exact server.colon hmem

theorem address_ne_nil : server.address ≠ [] :=
  List.append_ne_nil_of_left_ne_nil server.ne_nil _

theorem strtokR_address (path : Option CStr) :
    strtokR (some (server.address ++ path.elim [] (47 :: ·))) [47] =
      (some server.address, path) := by
  cases path with
  | none =>
      rw [Option.elim_none, List.append_nil]
      exact @strtokR_last 47 [] _ nofun server.address_ne_nil
        server.slash_notMem_address
  | some path =>
      exact @strtokR_word 47 [] _ nofun server.address_ne_nil
        server.slash_notMem_address path

theorem strtokR_host :
    strtokR (some server.address) [58] =
      (some server.host, server.port.map UrlPort.text) := by
  unfold address
  cases server.port with
  | none =>
      rw [Option.elim_none, List.append_nil]
      exact @strtokR_last 58 [] _ nofun server.ne_nil server.colon
  | some port =>
      exact @strtokR_word 58 [] _ nofun server.ne_nil server.colon
        port.text

/-- A url of the documented form is taken apart as it was put together. -/
theorem parse_url (path : Option CStr) (file : TftpFile) (mem : UrlMemory) :
    tftpUrlParseIn (server.url path) file mem =
      tftpUrlCopy (some server.host) path (server.port.map UrlPort.text) mem := by
  have hne : server.address ++ path.elim [] (47 :: ·) ≠ [] :=
    List.append_ne_nil_of_left_ne_nil server.address_ne_nil _
  rw [url, parse_scheme hne, server.strtokR_address]
  dsimp only
  rw [server.strtokR_host]

theorem pathOf_url (path : Option CStr) :
    pathOf (server.address ++ path.elim [] (47 :: ·)) = path.getD [] := by
  have hall : ∀ b ∈ server.address, decide (b ≠ 47) = true := by
    intro b hb
    exact decide_eq_true fun heq => server.slash_notMem_address (heq ▸ hb)
  rw [pathOf, List.dropWhile_append_of_pos hall]
  cases path with
  | none => rfl
  | some path => simp

end TftpServer

/-! ## When the parser is right -/

theorem portNumber_eq_iff (server : TftpServer) :
    (match server.port.map UrlPort.text with
      | some port => strtol port 0
      | none => ianaPortTftp) = server.portNumber ↔
      ∀ port ∈ server.port, port.zeros = 0 ∨ port.number < 8 := by
  unfold TftpServer.portNumber
  cases server.port with
  | none => simp
  | some port => simp [strtol_text_iff]

/-- With memory, the copies are right unless a name or a port is misread. -/
theorem tftpUrlCopy_eq_iff (server : TftpServer) {path : Option CStr}
    (hpath : path ≠ some []) {mem : UrlMemory}
    (hmem : mem.Serves (path.getD [])) :
    tftpUrlCopy (some server.host) path (server.port.map UrlPort.text) mem =
        .returned 0
          { fname := path, peer := some server.host
            port := server.portNumber } ↔
      (∀ name ∈ path, name.length ≠ 1) ∧
        ∀ port ∈ server.port, port.zeros = 0 ∨ port.number < 8 := by
  have hfilter : (path.filter fun name => 1 < strlen name) = path ↔
      ∀ name ∈ path, name.length ≠ 1 := by
    cases path with
    | none => simp
    | some name =>
        have hne : name.length ≠ 0 := by
          intro hnil
          exact hpath (congrArg some (List.length_eq_zero_iff.mp hnil))
        simp only [Option.filter, strlen_eq, Option.mem_def, Option.some.injEq,
          forall_eq']
        by_cases hlong : 1 < name.length
        · simp [hlong, hlong.ne']
        · simp [hlong]
          omega
  rw [tftpUrlCopy_of_serves server.host _ hmem, ← hfilter, ← portNumber_eq_iff]
  simp

/-- With a host, the copies are made as far as there is memory. -/
theorem parse_host_cases {rest : CStr} (h : HasHost rest) (file : TftpFile)
    (mem : UrlMemory) :
    (mem.Serves (pathOf rest) ∧
        ∃ file', tftpUrlParseIn (tftpUrl ++ rest) file mem =
          .returned 0 file') ∨
      ¬mem.Serves (pathOf rest) ∧
        (tftpUrlParseIn (tftpUrl ++ rest) file mem = .dangling ∨
          tftpUrlParseIn (tftpUrl ++ rest) file mem =
            .returned (-1) noFile) := by
  obtain ⟨addr, fname, port, hparse, hname⟩ := parse_host h file mem
  rw [hparse, ← hname]
  by_cases hmem : mem.Serves (fname.getD [])
  · exact .inl ⟨hmem, _, tftpUrlCopy_of_serves addr port hmem⟩
  · exact .inr ⟨hmem, tftpUrlCopy_of_not_serves addr port hmem⟩

/-- The parser is right if and only if the condition holds. -/
theorem tftp_url_parse_iff (url : CStr) (mem : UrlMemory) :
    UrlRight url mem ↔ UrlCondition url mem := by
  constructor
  · intro h
    let other : TftpFile := { noFile with port := 1 }
    have hother : other ≠ noFile := by decide
    have hmemory : ∀ rest, url = tftpUrl ++ rest → HasHost rest →
        mem.Serves (pathOf rest) := by
      rintro rest rfl hhost
      rcases parse_host_cases hhost other mem with
        ⟨hserves, -⟩ | ⟨-, hdangling | hfailed⟩
      · exact hserves
      · exact absurd hdangling (h.kept other)
      · exact absurd (h.unchanged other (-1) noFile (by decide) hfailed).symm
          hother
    refine ⟨?_, ?_, hmemory⟩
    · rintro server path hpath rfl
      have hserves := hmemory _ rfl (server.hasHost _)
      rw [server.pathOf_url] at hserves
      have hparse := h.documented noFile server path hpath rfl
      rw [server.parse_url] at hparse
      exact (tftpUrlCopy_eq_iff server hpath hserves).mp hparse
    · rintro rest rfl hhost
      by_contra hslashes
      push Not at hslashes
      obtain ⟨addr, fname, port, hcopy⟩ := parse_other hslashes other mem
      have hrejected := h.rejects other fun rest' hrest' =>
        List.append_cancel_left hrest' ▸ hhost
      rw [hcopy] at hrejected
      exact hother (tftpUrlCopy_failed (by decide) hrejected)
  · intro h
    have hresult : ∀ file, tftpUrlParseIn url file mem = .returned (-1) file ∨
        ∃ file', tftpUrlParseIn url file mem = .returned 0 file' := by
      intro file
      by_cases hscheme : ∃ rest, url = tftpUrl ++ rest
      · obtain ⟨rest, rfl⟩ := hscheme
        by_cases hhost : HasHost rest
        · right
          rcases parse_host_cases hhost file mem with
            ⟨-, hcopied⟩ | ⟨hserves, -⟩
          · exact hcopied
          · exact absurd (h.memory rest rfl hhost) hserves
        · left
          exact parse_slashes (h.hostless rest rfl hhost) file mem
      · left
        exact parse_noScheme (fun rest hurl => hscheme ⟨rest, hurl⟩) file mem
    refine ⟨?_, ?_, ?_, ?_⟩
    · rintro file server path hpath rfl
      have hserves := h.memory _ rfl (server.hasHost _)
      rw [server.pathOf_url] at hserves
      rw [server.parse_url]
      exact (tftpUrlCopy_eq_iff server hpath hserves).mpr
        (h.documented server path hpath rfl)
    · intro file hhost
      by_cases hscheme : ∃ rest, url = tftpUrl ++ rest
      · obtain ⟨rest, rfl⟩ := hscheme
        exact parse_slashes (h.hostless rest rfl (hhost rest rfl)) file mem
      · exact parse_noScheme (fun rest hurl => hscheme ⟨rest, hurl⟩) file mem
    · intro file ret file' hret hparse
      rcases hresult file with hkept | ⟨new, hcopied⟩
      · rw [hkept] at hparse
        cases hparse
        rfl
      · rw [hcopied] at hparse
        cases hparse
        exact absurd rfl hret
    · intro file hdangling
      rcases hresult file with hkept | ⟨new, hcopied⟩
      · rw [hkept] at hdangling
        cases hdangling
      · rw [hcopied] at hdangling
        cases hdangling

/-- A file name of one character is not read back. -/
theorem not_tftp_url_parse :
    ¬∀ url, UrlRight url { fname := true, peer := true } := by
  intro h
  let server : TftpServer :=
    { host := lit "h", port := none, ne_nil := by decide
      slash := by decide, colon := by decide }
  have hparse := (h (lit "tftp://h/x")).documented noFile server
    (some (lit "x")) (by decide) rfl
  have hdropped : tftpUrlParseIn (lit "tftp://h/x") noFile
      { fname := true, peer := true } =
        .returned 0 { fname := none, peer := some (lit "h"), port := 69 } := by
    decide +kernel
  rw [hdropped] at hparse
  have hfile := (UrlResult.returned.inj hparse).2
  exact absurd (congrArg TftpFile.fname hfile) (by decide)

end Herak.Tftp
