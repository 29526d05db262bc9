import Mathlib.Data.List.DropRight
import Herak.Fs.Copy
import Herak.Tftp.Url

/-!
# Parameters of `cp` and `mv`

`fsCpParamsParse` reads `source?destination`, where each is a local path or a
tftp url, and puts the name of the source behind a destination that is a
directory.  A local destination that is no directory is never stored, and the
scan for the name of the source does not look at its first character.
-/

namespace Herak.Fs

open CString Ota Tftp

/-- What `strtok_r` leaves of a string, which ends behind the token. -/
def strtokLeft (s delim : CStr) : CStr :=
  s.takeWhile (delim.contains ·) ++
    (s.dropWhile (delim.contains ·)).takeWhile (!delim.contains ·)

/-- What `tftp_url_parse` leaves of the url. -/
def tftpUrlLeft (url : CStr) : CStr :=
  if strlen url ≤ strlen tftpUrl then url
  else if strncmp url tftpUrl (strlen tftpUrl) ≠ 0 then url
  else
    let rest := url.drop (strlen tftpUrl)
    match strtokR (some rest) (lit "/") with
    | (none, _) => url
    | (some addr, _) =>
        tftpUrl ++ rest.takeWhile ((lit "/").contains ·) ++
          strtokLeft addr (lit ":")

/-- Whether there is memory for the copy of a local source, for those of the
two urls, and for the name behind a directory. -/
structure CopyMemory where
  src : Bool
  srcUrl : UrlMemory
  dstUrl : UrlMemory
  joined : Bool

/-- The loop of `fs_get_basename`, from index `i` down. -/
def basenameIndex (path : CStr) : ℕ → ℕ
  | 0 => 0
  | i + 1 => if path[i + 1]? = some 47 then i + 1 else basenameIndex path i

def fsGetBasename (path : CStr) : Option CStr :=
  let i := basenameIndex path (strlen path)
  if i = strlen path then none
  else
    let fname := path.drop (i + 1)
    some (if fname.head? = some 47 then fname.drop 1 else fname)

/-- The source of `fs_cp_params_parse`; `opened` is what `pico_open` returns for
a path. -/
def fsCpSource (src : CStr) (opened : CStr → ℤ) (mem : CopyMemory) :
    UrlResult :=
  if src.head? = some 47 then
    if opened src < 0 then .returned (-1) noFile
    else
      .returned 0
        { noFile with fname := if mem.src then some src else none }
  else tftpUrlParseIn src noFile mem.srcUrl

/-- `fs_cp_params_parse` once the source and the destination were read; `dst` is
what is left of the destination. -/
def fsCpDestination (copy : FsFileCopy) (dst : CStr) (joined : Bool) :
    ℤ × FsFileCopy :=
  let finish (fname : Option CStr) : ℤ × FsFileCopy :=
    (if fname.isSome then 0 else -1,
      { copy with dst := { copy.dst with fname := fname } })
  match copy.src.fname with
  | none => (-1, copy)
  | some src =>
      if copy.src.peer.isSome ∧ copy.dst.peer.isSome then (-1, copy)
      else
        match copy.dst.fname with
        | none | some [] =>
            if dst.getLast? = some 47 then
              match fsGetBasename src with
              | none => (-1, copy)
              | some src =>
                  if joined then finish (some (dst ++ src)) else (-1, copy)
            else finish copy.dst.fname
        | some fname =>
            if fname.getLast? = some 47 then
              match fsGetBasename src with
              | none => (-1, copy)
              | some src =>
                  finish (if joined then some (fname ++ src) else none)
            else finish (some fname)

/-- `fs_cp_params_parse` from the destination on. -/
def fsCpTarget (copy : FsFileCopy) (dst : CStr) (mem : CopyMemory) :
    Option (ℤ × FsFileCopy) :=
  match tftpUrlParseIn dst noFile mem.dstUrl with
  | .dangling | .undefined => none
  | .returned _ file =>
      some (fsCpDestination { copy with dst := file } (tftpUrlLeft dst)
        mem.joined)

/-- `fs_cp_params_parse` for a job that was reset: the result and the job, unless
the job is left with a name that was freed or a null pointer was copied. -/
def fsCpParamsRead (copy : FsFileCopy) (params : CStr) (opened : CStr → ℤ)
    (mem : CopyMemory) : Option (ℤ × FsFileCopy) :=
  match strtokR (some params) (lit "?") with
  | (none, _) | (some _, none) => some (-1, copy)
  | (some src, some dst) =>
      match fsCpSource src opened mem with
      | .dangling | .undefined => none
      | .returned ret file =>
          let copy := { copy with src := file }
          if ret ≠ 0 then some (-1, copy) else fsCpTarget copy dst mem

/-- `fs_cp_params_parse`, with the table of opened files and the web client
whose connection is closed. -/
def fsCpParamsParse (copy : FsFileCopy) (fs : FsContext) (params : CStr)
    (opened : CStr → ℤ) (mem : CopyMemory) :
    Option (ℤ × FsFileCopy) × FsContext × Option ℤ :=
  let reset := fsCpReset copy fs
  (fsCpParamsRead reset.1 params opened mem, reset.2)

/-! ## Sources and destinations -/

inductive CopySource
  | file (path : CStr)
  | remote (server : TftpServer) (name : CStr)

inductive CopyTarget
  | file (path : CStr)
  | directory (path : CStr)
  | remoteFile (server : TftpServer) (name : CStr)
  | remoteDirectory (server : TftpServer) (dir : CStr)

namespace CopySource

def text : CopySource → CStr
  | file path => path
  | remote server name => server.url (some name)

def name : CopySource → CStr
  | file path => path
  | remote _ name => name

def host : CopySource → Option CStr
  | file _ => none
  | remote server _ => some server.host

/-- An absolute path that can be opened, or a url with a file name. -/
def Documented (opened : CStr → ℤ) : CopySource → Prop
  | file path => path.head? = some 47 ∧ 0 ≤ opened path
  | remote _ name => name ≠ []

end CopySource

/-- The part of a name behind its last slash. -/
def baseName (name : CStr) : CStr :=
  name.rtakeWhile (· ≠ 47)

namespace CopyTarget

def text : CopyTarget → CStr
  | file path | directory path => path
  | remoteFile server name => server.url (some name)
  | remoteDirectory server dir => server.url (some dir)

def host : CopyTarget → Option CStr
  | file _ | directory _ => none
  | remoteFile server _ | remoteDirectory server _ => some server.host

/-- The name of the destination of a source. -/
def nameFor (src : CStr) : CopyTarget → CStr
  | file path => path
  | directory path => path ++ baseName src
  | remoteFile _ name => name
  | remoteDirectory _ dir => dir ++ baseName src

/-- A local path does not begin like a url, a directory ends in a slash, and a
url may name the root of the server. -/
def Documented : CopyTarget → Prop
  | file path => ¬tftpUrl <+: path ∧ path ≠ [] ∧ path.getLast? ≠ some 47
  | directory path => ¬tftpUrl <+: path ∧ path.getLast? = some 47
  | remoteFile _ name => name ≠ [] ∧ name.getLast? ≠ some 47
  | remoteDirectory _ dir => dir = [] ∨ dir.getLast? = some 47

end CopyTarget

/-- Both are of a documented form, and not both are remote. -/
structure DocumentedCopy (opened : CStr → ℤ) (source : CopySource)
    (target : CopyTarget) : Prop where
  src : source.Documented opened
  dst : target.Documented
  remote : source.host = none ∨ target.host = none

/-! ## The property and the condition -/

/-- The parameters are accepted, with the names and hosts that were given. -/
def CopyParamsRight (opened : CStr → ℤ) (mem : CopyMemory) (source : CopySource)
    (target : CopyTarget) : Prop :=
  ∀ copy fs, ∃ copy',
    (fsCpParamsParse copy fs (source.text ++ 63 :: target.text) opened
        mem).1 = some (0, copy') ∧
      (copy'.src.fname = some source.name ∧ copy'.src.peer = source.host) ∧
      copy'.dst.fname = some (target.nameFor source.name) ∧
      copy'.dst.peer = target.host

/-- There is memory for the names and the hosts of a url. -/
def UrlMemory.Both (mem : UrlMemory) : Prop :=
  mem.fname = true ∧ mem.peer = true

/-- The source is read back: its name is longer than one character if it is
remote, and there is memory for it. -/
def SourceReads (mem : CopyMemory) : CopySource → Prop
  | .file _ => mem.src = true
  | .remote _ name => 1 < name.length ∧ UrlMemory.Both mem.srcUrl

/-- The destination is no local file, its name is longer than one character if
it is remote, the name of a source that is copied to a directory has a slash,
and there is memory for the destination. -/
def TargetReads (mem : CopyMemory) (src : CStr) : CopyTarget → Prop
  | .file _ => False
  | .directory _ => 47 ∈ src ∧ mem.joined = true
  | .remoteFile _ name => 1 < name.length ∧ UrlMemory.Both mem.dstUrl
  | .remoteDirectory _ dir =>
      1 < dir.length ∧ UrlMemory.Both mem.dstUrl ∧ mem.joined = true

/-- The source has no question mark, and both are read back. -/
structure CopyCondition (mem : CopyMemory) (source : CopySource)
    (target : CopyTarget) : Prop where
  mark : 63 ∉ source.text
  src : SourceReads mem source
  dst : TargetReads mem source.name target

/-! ## Names behind the last slash -/

theorem baseName_append {path name : CStr} (h : 47 ∉ name) :
    baseName (path ++ 47 :: name) = name := by
  have hall : ∀ c ∈ name.reverse, decide (c ≠ 47) = true := by
    intro c hc
    exact decide_eq_true fun heq => h (heq ▸ List.mem_reverse.mp hc)
  rw [baseName, List.rtakeWhile, List.reverse_append, List.reverse_cons,
    List.append_assoc, List.takeWhile_append_of_pos hall]
  simp

theorem baseName_of_notMem {name : CStr} (h : 47 ∉ name) :
    baseName name = name := by
  rw [baseName, List.rtakeWhile_eq_self_iff]
  intro c hc
  exact decide_eq_true fun heq => h (heq ▸ hc)

/-- The scan stops at the last slash, or at the first character. -/
theorem basenameIndex_spec (path : CStr) (n : ℕ) :
    basenameIndex path n ≤ n ∧
      (basenameIndex path n = 0 ∨
        path[basenameIndex path n]? = some 47) ∧
      ∀ j, basenameIndex path n < j → j ≤ n → path[j]? ≠ some 47 := by
  induction n with
  | zero =>
      refine ⟨le_rfl, .inl rfl, ?_⟩
      intro j hj hj0
      exact absurd hj0 (not_le.mpr hj)
  | succ n ih =>
      unfold basenameIndex
      split
      next hslash =>
        refine ⟨le_rfl, .inr hslash, ?_⟩
        intro j hj hjn
        exact absurd hjn (not_le.mpr hj)
      next hother =>
        obtain ⟨hle, hstop, hbehind⟩ := ih
        refine ⟨hle.trans (Nat.le_succ n), hstop, ?_⟩
        intro j hj hjn
        rcases Nat.lt_or_eq_of_le hjn with hlt | rfl
        · exact hbehind j hj (Nat.le_of_lt_succ hlt)
        · exact hother

/-- The characters behind the index have no slash. -/
theorem slash_notMem_drop (path : CStr) :
    47 ∉ path.drop (basenameIndex path path.length + 1) := by
  intro hmem
  obtain ⟨k, hk⟩ := List.mem_iff_getElem?.mp hmem
  rw [List.getElem?_drop] at hk
  have hlt := (List.getElem?_eq_some_iff.mp hk).1
  exact (basenameIndex_spec path path.length).2.2 _ (by omega) hlt.le hk

theorem basenameIndex_lt {path : CStr} (hne : path ≠ []) :
    basenameIndex path path.length < path.length := by
  have hpos := List.length_pos_iff.mpr hne
  rcases (basenameIndex_spec path path.length).2.1 with hzero | hslash
  · omega
  · exact (List.getElem?_eq_some_iff.mp hslash).1

theorem fsGetBasename_eq {path : CStr} (hne : path ≠ []) :
    fsGetBasename path =
      some (path.drop (basenameIndex path path.length + 1)) := by
  have hhead : (path.drop (basenameIndex path path.length + 1)).head? ≠
      some 47 := fun h => slash_notMem_drop path (List.mem_of_mem_head? h)
  rw [fsGetBasename, strlen_eq, if_neg (basenameIndex_lt hne).ne]
  dsimp only
  rw [if_neg hhead]

theorem fsGetBasename_slash {path : CStr} (h : 47 ∈ path) :
    fsGetBasename path = some (baseName path) := by
  have hne := List.ne_nil_of_mem h
  have hlt := basenameIndex_lt hne
  obtain ⟨-, hstop, hbehind⟩ := basenameIndex_spec path path.length
  have hslash : path[basenameIndex path path.length] = 47 := by
    rcases hstop with hzero | hslash
    · obtain ⟨j, hj⟩ := List.mem_iff_getElem?.mp h
      have hjlt := (List.getElem?_eq_some_iff.mp hj).1
      have hj0 : ¬basenameIndex path path.length < j :=
        fun hlt => hbehind j hlt hjlt.le hj
      have hsame : j = basenameIndex path path.length := by omega
      subst hsame
      exact (List.getElem?_eq_some_iff.mp hj).2
    · exact (List.getElem?_eq_some_iff.mp hslash).2
  have hsplit : path = path.take (basenameIndex path path.length) ++
      47 :: path.drop (basenameIndex path path.length + 1) := by
    rw [← hslash, ← List.drop_eq_getElem_cons hlt, List.take_append_drop]
  rw [fsGetBasename_eq hne]
  conv_rhs => rw [hsplit]
  rw [baseName_append (slash_notMem_drop path)]

/-- Without a slash, the first character is lost. -/
theorem fsGetBasename_plain {name : CStr} (hne : name ≠ []) (h : 47 ∉ name) :
    fsGetBasename name = some (name.drop 1) := by
  have hzero : basenameIndex name name.length = 0 := by
    rcases (basenameIndex_spec name name.length).2.1 with hzero | hslash
    · exact hzero
    · exact absurd (List.mem_of_getElem? hslash) h
  rw [fsGetBasename_eq hne, hzero]

theorem fsGetBasename_iff {name : CStr} (hne : name ≠ []) :
    fsGetBasename name = some (baseName name) ↔ 47 ∈ name := by
  constructor
  · intro h
    by_contra hslash
    rw [fsGetBasename_plain hne hslash, baseName_of_notMem hslash] at h
    have hlen := congrArg List.length (Option.some.inj h)
    have hpos := List.length_pos_iff.mpr hne
    rw [List.length_drop] at hlen
    omega
  · exact fsGetBasename_slash

/-! ## Reading the two ends -/

/-- A url with a path is read back up to a path of one character, if there is
memory for it. -/
theorem parse_path (server : TftpServer) (path : CStr) (file : TftpFile)
    (mem : UrlMemory) :
    (mem.Serves path ∧ ∃ port,
      tftpUrlParseIn (server.url (some path)) file mem = .returned 0
        { fname := (some path).filter fun name => 1 < strlen name
          peer := some server.host, port := port }) ∨
      ¬mem.Serves path ∧
        (tftpUrlParseIn (server.url (some path)) file mem = .dangling ∨
          tftpUrlParseIn (server.url (some path)) file mem =
            .returned (-1) noFile) := by
  rw [server.parse_url]
  by_cases hmem : mem.Serves path
  · exact .inl ⟨hmem, _, @tftpUrlCopy_of_serves server.host
      (some path) _ mem hmem⟩
  · exact .inr ⟨hmem, @tftpUrlCopy_of_not_serves server.host
      (some path) _ mem hmem⟩

theorem filter_long {name : CStr} (h : 1 < name.length) :
    ((some name).filter fun name => 1 < strlen name) = some name :=
  Option.filter_some_pos (decide_eq_true h)

theorem filter_short {name : CStr} (h : ¬1 < name.length) :
    ((some name).filter fun name => 1 < strlen name) = none :=
  Option.filter_some_neg (decide_eq_false h)

theorem serves_iff_both {mem : UrlMemory} {name : CStr}
    (h : 1 < name.length) : mem.Serves name ↔ UrlMemory.Both mem :=
  ⟨fun hmem => ⟨hmem.2 h, hmem.1⟩, fun hmem => ⟨hmem.2, fun _ => hmem.1⟩⟩

section Ends

variable {opened : CStr → ℤ} {mem : CopyMemory} {source : CopySource}
  {target : CopyTarget}

theorem source_reads (h : source.Documented opened)
    (hreads : SourceReads mem source) :
    ∃ port, fsCpSource source.text opened mem = .returned 0
      { fname := some source.name, peer := source.host, port := port } := by
  cases source with
  | file path =>
      obtain ⟨hslash, hopened⟩ := h
      have hmem : mem.src = true := hreads
      refine ⟨0, ?_⟩
      rw [fsCpSource, CopySource.text, if_pos hslash,
        if_neg (not_lt.mpr hopened), hmem]
      rfl
  | remote server name =>
      obtain ⟨hlong, hboth⟩ := hreads
      rcases parse_path server name noFile mem.srcUrl with
        ⟨-, port, hparse⟩ | ⟨hserves, -⟩
      · refine ⟨port, ?_⟩
        rw [filter_long hlong] at hparse
        exact hparse
      · exact absurd ((serves_iff_both hlong).mpr hboth) hserves

/-- A source that is not read back has no name. -/
theorem source_fails (h : source.Documented opened)
    (hreads : ¬SourceReads mem source) :
    fsCpSource source.text opened mem = .dangling ∨
      ∃ ret file, fsCpSource source.text opened mem = .returned ret file ∧
        (ret = 0 → file.fname = none) := by
  cases source with
  | file path =>
      obtain ⟨hslash, hopened⟩ := h
      have hmem : mem.src = false := Bool.eq_false_iff.mpr hreads
      right
      refine ⟨0, noFile, ?_, fun _ => rfl⟩
      rw [fsCpSource, CopySource.text, if_pos hslash,
        if_neg (not_lt.mpr hopened), hmem]
      rfl
  | remote server name =>
      rcases parse_path server name noFile mem.srcUrl with
        ⟨hserves, port, hparse⟩ | ⟨-, hdangling | hfailed⟩
      · have hshort : ¬1 < name.length := fun hlong =>
          hreads ⟨hlong, (serves_iff_both hlong).mp hserves⟩
        right
        rw [filter_short hshort] at hparse
        exact ⟨0, _, hparse, fun _ => rfl⟩
      · exact .inl hdangling
      · exact .inr ⟨-1, noFile, hfailed, fun h => absurd h (by decide)⟩

theorem left_noScheme {url : CStr} (h : ¬tftpUrl <+: url) :
    tftpUrlLeft url = url := by
  unfold tftpUrlLeft
  split
  · rfl
  next hlen =>
    rw [if_pos]
    intro hcmp
    rw [strncmp_eq_zero_iff, strlen_eq, List.take_length] at hcmp
    exact h (hcmp ▸ List.take_prefix _ _)

/-- Of a url with a host, the string that is left ends behind the host. -/
theorem left_url (server : TftpServer) (path : Option CStr) :
    (tftpUrlLeft (server.url path)).getLast? ≠ some 47 := by
  have hne : server.address ++ path.elim [] (47 :: ·) ≠ [] :=
    List.append_ne_nil_of_left_ne_nil server.address_ne_nil _
  have hlen : ¬strlen (server.url path) ≤ strlen tftpUrl := by
    have := List.length_pos_iff.mpr hne
    rw [TftpServer.url, strlen_eq, strlen_eq, List.length_append]
    omega
  have hcmp : ¬strncmp (server.url path) tftpUrl (strlen tftpUrl) ≠ 0 := by
    rw [TftpServer.url, not_not, strncmp_eq_zero_iff, strlen_eq,
      List.take_left, List.take_length]
  have hdrop : (server.url path).drop (strlen tftpUrl) =
      server.address ++ path.elim [] (47 :: ·) := by
    rw [TftpServer.url, strlen_eq, List.drop_left]
  obtain ⟨c, host, hhost⟩ := List.exists_cons_of_ne_nil server.ne_nil
  have hcolon : ¬c = 58 := by
    rintro rfl
    exact server.colon (hhost ▸ List.mem_cons_self)
  have hleft : strtokLeft server.address [58] = server.host := by
    have hnot := not_delim server.colon
    have htake : server.address.takeWhile ([58].contains ·) = [] := by
      rw [TftpServer.address, hhost, List.cons_append,
        List.takeWhile_cons_of_neg (by simpa using hcolon)]
    have hskip : server.address.dropWhile ([58].contains ·) =
        server.address := by
      rw [TftpServer.address, hhost, List.cons_append,
        List.dropWhile_cons_of_neg (by simpa using hcolon)]
    rw [strtokLeft, htake, hskip, List.nil_append, TftpServer.address,
      List.takeWhile_append_of_pos hnot]
    cases server.port with
    | none => simp
    | some port => simp
  rw [tftpUrlLeft, if_neg hlen, if_neg hcmp, hdrop]
  dsimp only
  rw [lit_slash, server.strtokR_address, lit_colon]
  dsimp only
  rw [hleft, List.getLast?_append_of_ne_nil _ server.ne_nil]
  intro hlast
  exact server.slash (List.mem_of_getLast? hlast)

section Destination

variable {copy : FsFileCopy} {name base fname : CStr}

variable (copy) in
/-- Without a name of its own, a destination is right only as a directory. -/
theorem destination_unnamed (hname : copy.src.fname = some name)
    (hbase : fsGetBasename name = some base)
    (hremote : ¬(copy.src.peer.isSome ∧ copy.dst.peer.isSome))
    (hdst : copy.dst.fname = none) (dst : CStr) (joined : Bool) :
    (dst.getLast? = some 47 ∧ joined = true ∧
        fsCpDestination copy dst joined =
          (0, { copy with
            dst := { copy.dst with fname := some (dst ++ base) } })) ∨
      ¬(dst.getLast? = some 47 ∧ joined = true) ∧
        (fsCpDestination copy dst joined).1 = -1 := by
  unfold fsCpDestination
  simp only [hname, if_neg hremote, hdst]
  by_cases hlast : dst.getLast? = some 47
  · cases joined <;> simp [hlast, hbase]
  · simp [hlast]

variable (copy) in
/-- A destination with a name keeps it, unless it is a directory. -/
theorem destination_named (hname : copy.src.fname = some name)
    (hbase : fsGetBasename name = some base)
    (hremote : ¬(copy.src.peer.isSome ∧ copy.dst.peer.isSome))
    (hdst : copy.dst.fname = some fname) (hne : fname ≠ []) (dst : CStr)
    (joined : Bool) :
    (fname.getLast? ≠ some 47 ∧ fsCpDestination copy dst joined = (0, copy)) ∨
      (fname.getLast? = some 47 ∧ joined = true ∧
        fsCpDestination copy dst joined =
          (0, { copy with
            dst := { copy.dst with fname := some (fname ++ base) } })) ∨
      fname.getLast? = some 47 ∧ joined = false ∧
        (fsCpDestination copy dst joined).1 = -1 := by
  obtain ⟨c, fname, rfl⟩ := List.exists_cons_of_ne_nil hne
  unfold fsCpDestination
  simp only [hname, if_neg hremote, hdst]
  by_cases hlast : (c :: fname).getLast? = some 47
  · cases joined <;> simp [hlast, hbase]
  · left
    have hsome : copy.dst.fname.isSome = true := by rw [hdst, Option.isSome_some]
    refine ⟨hlast, ?_⟩
    rw [if_neg hlast, ← hdst, if_pos hsome]

end Destination

/-- The destination is accepted with the name and the host that were given. -/
def TargetRight (mem : CopyMemory) (target : CopyTarget) (copy : FsFileCopy)
    (name : CStr) : Prop :=
  ∃ copy', fsCpTarget copy target.text mem = some (0, copy') ∧
    copy'.src = copy.src ∧ copy'.dst.fname = some (target.nameFor name) ∧
    copy'.dst.peer = target.host

section Target

variable {copy : FsFileCopy} {name path : CStr}

variable (mem copy) in
theorem target_local (hname : copy.src.fname = some name) (hne : name ≠ [])
    (hlocal : ¬tftpUrl <+: path) :
    (path.getLast? = some 47 ∧ mem.joined = true ∧
        ∃ base, fsGetBasename name = some base ∧
          fsCpTarget copy path mem = some (0, { copy with
            dst := { noFile with fname := some (path ++ base) } })) ∨
      ¬(path.getLast? = some 47 ∧ mem.joined = true) ∧
        ∃ copy', fsCpTarget copy path mem = some (-1, copy') := by
  have hparse := parse_noScheme (fun rest heq => hlocal ⟨rest, heq.symm⟩)
    noFile mem.dstUrl
  have hbase := fsGetBasename_eq hne
  have htarget : fsCpTarget copy path mem = some
      (fsCpDestination { copy with dst := noFile } path mem.joined) := by
    simp only [fsCpTarget, hparse, left_noScheme hlocal]
  rw [htarget]
  rcases destination_unnamed { copy with dst := noFile } hname hbase
      (by simp [noFile]) rfl path mem.joined with
    ⟨hlast, hjoined, hresult⟩ | ⟨hnot, hresult⟩
  · exact .inl ⟨hlast, hjoined, _, hbase, congrArg some hresult⟩
  · exact .inr ⟨hnot, _, congrArg some (Prod.ext hresult rfl)⟩

theorem target_file (hname : copy.src.fname = some name) (hne : name ≠ [])
    (h : (CopyTarget.file path).Documented) :
    ¬TargetRight mem (.file path) copy name := by
  obtain ⟨hlocal, -, hlast⟩ := h
  rintro ⟨copy', hresult, -⟩
  rcases target_local mem copy hname hne hlocal with
    ⟨hslash, -⟩ | ⟨-, new, hfails⟩
  · exact hlast hslash
  · rw [CopyTarget.text, hfails] at hresult
    cases hresult

theorem target_directory (hname : copy.src.fname = some name) (hne : name ≠ [])
    (h : (CopyTarget.directory path).Documented) :
    TargetRight mem (.directory path) copy name ↔
      47 ∈ name ∧ mem.joined = true := by
  obtain ⟨hlocal, hlast⟩ := h
  rcases target_local mem copy hname hne hlocal with
    ⟨-, hjoined, base, hbase, hresult⟩ | ⟨hnot, new, hfails⟩
  · rw [← fsGetBasename_iff hne, hbase, Option.some.injEq]
    simp only [TargetRight, CopyTarget.text, hresult, CopyTarget.nameFor,
      CopyTarget.host]
    constructor
    · rintro ⟨copy', heq, -, hdst, -⟩
      obtain rfl := (Prod.mk.inj (Option.some.inj heq)).2
      exact ⟨List.append_cancel_left (Option.some.inj hdst), hjoined⟩
    · rintro ⟨rfl, -⟩
      exact ⟨_, rfl, rfl, rfl, rfl⟩
  · constructor
    · rintro ⟨copy', hresult, -⟩
      rw [CopyTarget.text, hfails] at hresult
      cases hresult
    · rintro ⟨-, hjoined⟩
      exact absurd ⟨hlast, hjoined⟩ hnot

variable (mem) in
/-- A remote destination is named by a path that is long enough, if there is
memory for it, and it has no name otherwise. -/
theorem target_remote (hname : copy.src.fname = some name) (hne : name ≠ [])
    (hpeer : copy.src.peer = none) (server : TftpServer) (path : CStr) :
    ((1 < path.length ∧ UrlMemory.Both mem.dstUrl) ∧ ∃ port,
      fsCpTarget copy (server.url (some path)) mem = some
        (fsCpDestination
          { copy with
            dst := { fname := some path, peer := some server.host
                     port := port } }
          (tftpUrlLeft (server.url (some path))) mem.joined)) ∨
      ¬(1 < path.length ∧ UrlMemory.Both mem.dstUrl) ∧
        ∀ copy', fsCpTarget copy (server.url (some path)) mem ≠
          some (0, copy') := by
  have hunnamed : ∀ ret file,
      tftpUrlParseIn (server.url (some path)) noFile mem.dstUrl =
        .returned ret file → file.fname = none →
      ∀ copy', fsCpTarget copy (server.url (some path)) mem ≠
        some (0, copy') := by
    intro ret file hparse hfile copy' hresult
    simp only [fsCpTarget, hparse, Option.some.injEq] at hresult
    rcases destination_unnamed { copy with dst := file } hname
        (fsGetBasename_eq hne) (by simp [hpeer]) hfile
        (tftpUrlLeft (server.url (some path))) mem.joined with
      ⟨hlast, -⟩ | ⟨-, hfails⟩
    · exact left_url server (some path) hlast
    · rw [hresult] at hfails
      cases hfails
  rcases parse_path server path noFile mem.dstUrl with
    ⟨hserves, port, hparse⟩ | ⟨hserves, hdangling | hfailed⟩
  · by_cases hlong : 1 < path.length
    · rw [filter_long hlong] at hparse
      refine .inl ⟨⟨hlong, (serves_iff_both hlong).mp hserves⟩, port, ?_⟩
      simp only [fsCpTarget, hparse]
    · rw [filter_short hlong] at hparse
      exact .inr ⟨fun h => hlong h.1, hunnamed _ _ hparse rfl⟩
  · refine .inr ⟨fun h => hserves ((serves_iff_both h.1).mpr h.2), ?_⟩
    intro copy' hresult
    simp only [fsCpTarget, hdangling] at hresult
    cases hresult
  · exact .inr ⟨fun h => hserves ((serves_iff_both h.1).mpr h.2),
      hunnamed _ _ hfailed rfl⟩

theorem target_remoteFile (hname : copy.src.fname = some name)
    (hne : name ≠ []) (hpeer : copy.src.peer = none) {server : TftpServer}
    (h : (CopyTarget.remoteFile server path).Documented) :
    TargetRight mem (.remoteFile server path) copy name ↔
      1 < path.length ∧ UrlMemory.Both mem.dstUrl := by
  obtain ⟨hpath, hlast⟩ := h
  rcases target_remote mem hname hne hpeer server path with
    ⟨hread, port, hresult⟩ | ⟨hnot, hfails⟩
  · refine iff_of_true ?_ hread
    rcases destination_named { copy with
        dst := { fname := some path, peer := some server.host, port := port } }
        hname (fsGetBasename_eq hne) (by simp [hpeer]) rfl hpath
        (tftpUrlLeft (server.url (some path))) mem.joined with
      ⟨-, hkept⟩ | ⟨hslash, -⟩ | ⟨hslash, -⟩
    · exact ⟨_, hresult.trans (congrArg some hkept), rfl, rfl, rfl⟩
    · exact absurd hslash hlast
    · exact absurd hslash hlast
  · refine iff_of_false ?_ hnot
    rintro ⟨copy', hresult, -⟩
    exact hfails copy' hresult

theorem target_remoteDirectory (hname : copy.src.fname = some name)
    (hslash : 47 ∈ name) (hpeer : copy.src.peer = none) {server : TftpServer}
    (h : (CopyTarget.remoteDirectory server path).Documented) :
    TargetRight mem (.remoteDirectory server path) copy name ↔
      1 < path.length ∧ UrlMemory.Both mem.dstUrl ∧ mem.joined = true := by
  have hne := List.ne_nil_of_mem hslash
  rw [← and_assoc]
  rcases target_remote mem hname hne hpeer server path with
    ⟨hread, port, hresult⟩ | ⟨hnot, hfails⟩
  · have hpath : path ≠ [] :=
      List.ne_nil_of_length_pos (Nat.zero_lt_one.trans hread.1)
    have hlast := h.resolve_left hpath
    rcases destination_named { copy with
        dst := { fname := some path, peer := some server.host, port := port } }
        hname (fsGetBasename_slash hslash) (by simp [hpeer]) rfl hpath
        (tftpUrlLeft (server.url (some path))) mem.joined with
      ⟨hplain, -⟩ | ⟨-, hjoined, hdone⟩ | ⟨-, hjoined, hfailed⟩
    · exact absurd hlast hplain
    · exact iff_of_true ⟨_, hresult.trans (congrArg some hdone), rfl, rfl, rfl⟩
        ⟨hread, hjoined⟩
    · refine iff_of_false ?_ fun h => absurd (hjoined.symm.trans h.2) (by decide)
      rintro ⟨copy', hdone, -⟩
      rw [CopyTarget.text, hresult, Option.some.injEq] at hdone
      rw [hdone] at hfailed
      cases hfailed
  · refine iff_of_false ?_ fun h => hnot h.1
    rintro ⟨copy', hresult, -⟩
    exact hfails copy' hresult

/-- The destination is read as it should be exactly if it can be. -/
theorem target_iff (hdoc : target.Documented)
    (hname : copy.src.fname = some name) (hne : name ≠ [])
    (hlocal : copy.src.peer = none → 47 ∈ name)
    (hremote : copy.src.peer = none ∨ target.host = none) :
    TargetRight mem target copy name ↔ TargetReads mem name target := by
  cases target with
  | file path => exact iff_of_false (target_file hname hne hdoc) id
  | directory path => exact target_directory hname hne hdoc
  | remoteFile server path =>
      exact target_remoteFile hname hne
        (hremote.resolve_right (Option.some_ne_none _)) hdoc
  | remoteDirectory server path =>
      have hpeer := hremote.resolve_right (Option.some_ne_none _)
      exact target_remoteDirectory hname (hlocal hpeer) hpeer hdoc

end Target

end Ends

/-! ## The whole parameters -/

theorem fsCpDestination_src (copy : FsFileCopy) (dst : CStr) (joined : Bool) :
    (fsCpDestination copy dst joined).2.src = copy.src := by
  unfold fsCpDestination
  repeat' split
  all_goals rfl

theorem fsCpTarget_src {copy copy' : FsFileCopy} {dst : CStr}
    {mem : CopyMemory} {ret : ℤ}
    (h : fsCpTarget copy dst mem = some (ret, copy')) :
    copy'.src = copy.src := by
  unfold fsCpTarget at h
  split at h
  · cases h
  · cases h
  next file _ =>
    have hsrc := fsCpDestination_src { copy with dst := file }
      (tftpUrlLeft dst) mem.joined
    rwa [Option.some.inj h] at hsrc

/-- The source of an accepted job is what was read of the first token. -/
theorem fsCpParamsRead_src {copy copy' : FsFileCopy} {params : CStr}
    {opened : CStr → ℤ} {mem : CopyMemory} {src dst : CStr}
    (htok : strtokR (some params) (lit "?") = (some src, some dst))
    (h : fsCpParamsRead copy params opened mem = some (0, copy')) :
    fsCpSource src opened mem = .returned 0 copy'.src ∧
      fsCpTarget { copy with src := copy'.src } dst mem = some (0, copy') := by
  simp only [fsCpParamsRead, htok] at h
  split at h
  · cases h
  · cases h
  next ret file hsource =>
    split at h
    · cases h
    next hret =>
      have hsrc : copy'.src = file := fsCpTarget_src h
      rw [not_not] at hret
      subst hret
      rw [hsrc]
      exact ⟨hsource, h⟩

theorem tftpUrlCopy_returned {addr fname port : Option CStr} {mem : UrlMemory}
    {file : TftpFile} (h : tftpUrlCopy addr fname port mem = .returned 0 file) :
    file.peer = addr ∧ file.fname = fname.filter fun name => 1 < strlen name := by
  unfold tftpUrlCopy at h
  dsimp only at h
  split at h
  · cases h
  · split at h
    · cases h
    · split at h
      · split at h <;> cases h
      · cases h
        exact ⟨rfl, rfl⟩

theorem token_subset {d : UInt8} {s tok : CStr} {rest : Option CStr}
    (h : strtokR (some s) [d] = (some tok, rest)) :
    tok ⊆ s ∧ ∀ r ∈ rest, r ⊆ s := by
  obtain ⟨pre, -, -, -, ⟨rfl, rfl⟩ | ⟨r, rfl, rfl⟩⟩ := strtokR_some_cases h
  · exact ⟨List.subset_append_right _ _, nofun⟩
  · refine ⟨fun c hc => by simp [hc], ?_⟩
    rintro r' hr'
    obtain rfl := Option.some.inj hr'
    exact fun c hc => by simp [hc]

/-- The names of a url are made of its characters. -/
theorem parse_subset {url : CStr} {file file' : TftpFile} {mem : UrlMemory}
    (h : tftpUrlParseIn url file mem = .returned 0 file') :
    (∀ name ∈ file'.fname, name ⊆ url) ∧ ∀ host ∈ file'.peer, host ⊆ url := by
  by_cases hscheme : ∃ rest, url = tftpUrl ++ rest
  · obtain ⟨rest, rfl⟩ := hscheme
    by_cases hslashes : ∀ c ∈ rest, c = 47
    · rw [parse_slashes hslashes] at h
      cases h
    · push Not at hslashes
      obtain ⟨c, hc, -⟩ := hslashes
      rw [parse_scheme (List.ne_nil_of_mem hc)] at h
      split at h
      · cases h
      next addr fname haddr =>
        obtain ⟨haddrSub, hfnameSub⟩ := token_subset haddr
        obtain ⟨hpeer, hfname⟩ := tftpUrlCopy_returned h
        constructor
        · intro name hname
          rw [hfname] at hname
          exact List.Subset.trans
            (hfnameSub name (Option.mem_filter_iff.mp hname).1)
            (List.subset_append_right _ _)
        · intro host hhost
          have htok : strtokR (some addr) [58] =
              (some host, (strtokR (some addr) [58]).2) :=
            Prod.ext (hpeer.symm.trans hhost) rfl
          exact List.Subset.trans
            (List.Subset.trans (token_subset htok).1 haddrSub)
            (List.subset_append_right _ _)
  · rw [parse_noScheme fun rest hurl => hscheme ⟨rest, hurl⟩] at h
    cases h

theorem source_text_cons {opened : CStr → ℤ} {source : CopySource}
    (h : source.Documented opened) :
    ∃ c s, source.text = c :: s ∧ c ≠ 63 := by
  cases source with
  | file path =>
      obtain ⟨hslash, -⟩ := h
      cases path with
      | nil => cases hslash
      | cons c s =>
          obtain rfl := Option.some.inj hslash
          exact ⟨47, s, rfl, by decide⟩
  | remote server name => exact ⟨116, _, rfl, by decide⟩

/-- A question mark in a source is in its name or its host. -/
theorem mark_mem {source : CopySource} (h : 63 ∈ source.text) :
    63 ∈ source.name ∨ ∃ host ∈ source.host, 63 ∈ host := by
  cases source with
  | file path => exact .inl h
  | remote server name =>
      have hscheme : (63 : UInt8) ∉ tftpUrl := by decide
      have hport : 63 ∉ server.port.elim [] fun port => 58 :: port.text := by
        cases server.port with
        | none => exact List.not_mem_nil
        | some port =>
            rw [Option.elim_some, List.mem_cons, not_or]
            refine ⟨by decide, ?_⟩
            intro hmem
            rcases List.mem_append.mp hmem with hzero | hdigit
            · exact absurd (List.eq_of_mem_replicate hzero) (by decide)
            · obtain ⟨d, hd, heq⟩ := mem_decimal hdigit
              have hnat := congrArg UInt8.toNat heq
              rw [digit_toNat hd] at hnat
              have hmark : UInt8.toNat 63 = 63 := rfl
              omega
      rw [CopySource.text, TftpServer.url, TftpServer.address,
        Option.elim_some] at h
      simp only [List.mem_append, List.mem_cons, hscheme, hport, false_or,
        or_false] at h
      rcases h with hhost | hslash | hname
      · exact .inr ⟨server.host, rfl, hhost⟩
      · exact absurd hslash (by decide)
      · exact .inl hname

/-- The names of a source that was read are made of its characters. -/
theorem source_subset {src : CStr} {opened : CStr → ℤ} {mem : CopyMemory}
    {file : TftpFile} (h : fsCpSource src opened mem = .returned 0 file) :
    (∀ name ∈ file.fname, name ⊆ src) ∧ ∀ host ∈ file.peer, host ⊆ src := by
  unfold fsCpSource at h
  split at h
  · split at h
    · cases h
    · cases h
      refine ⟨?_, nofun⟩
      intro name hname
      split at hname
      · obtain rfl := Option.some.inj hname
        exact List.Subset.refl _
      · cases hname
  · exact parse_subset h

theorem slash_mem_name {opened : CStr → ℤ} {source : CopySource}
    (h : source.Documented opened) (hhost : source.host = none) :
    47 ∈ source.name := by
  cases source with
  | file path => exact List.mem_of_mem_head? h.1
  | remote server name => cases hhost

theorem source_name_ne_nil {opened : CStr → ℤ} {source : CopySource}
    (h : source.Documented opened) : source.name ≠ [] := by
  cases source with
  | file path => exact List.ne_nil_of_mem (List.mem_of_mem_head? h.1)
  | remote server name => exact h

/-- A source with a question mark is cut there. -/
theorem mark_notMem {opened : CStr → ℤ} {mem : CopyMemory}
    {source : CopySource} {copy copy' : FsFileCopy} {dst : CStr}
    (h : source.Documented opened)
    (hread : fsCpParamsRead copy (source.text ++ 63 :: dst) opened mem =
      some (0, copy'))
    (hname : copy'.src.fname = some source.name)
    (hpeer : copy'.src.peer = source.host) : 63 ∉ source.text := by
  intro hmark
  obtain ⟨c, s, htext, hc⟩ := source_text_cons h
  have hs : 63 ∈ s := by
    rw [htext, List.mem_cons] at hmark
    exact hmark.resolve_left (Ne.symm hc)
  obtain ⟨tok, rest, rfl, htok⟩ := List.eq_append_cons_of_mem hs
  have hword : 63 ∉ c :: tok := by
    simpa [htok] using Ne.symm hc
  have hsplit : strtokR (some (source.text ++ 63 :: dst)) (lit "?") =
      (some (c :: tok), some (rest ++ 63 :: dst)) := by
    rw [htext, ← @strtokR_word 63 [] _ nofun (List.cons_ne_nil c tok) hword
      (rest ++ 63 :: dst)]
    simp
    rfl
  obtain ⟨hsource, -⟩ := fsCpParamsRead_src hsplit hread
  obtain ⟨hnames, hhosts⟩ := source_subset hsource
  rcases mark_mem hmark with hmem | ⟨host, hhost, hmem⟩
  · exact hword (hnames _ hname hmem)
  · exact hword (hhosts host (hpeer.trans hhost) hmem)

/-- The parameters are read right if and only if the condition holds. -/
theorem copy_params_iff (opened : CStr → ℤ) (mem : CopyMemory)
    (source : CopySource) (target : CopyTarget)
    (h : DocumentedCopy opened source target) :
    CopyParamsRight opened mem source target ↔
      CopyCondition mem source target := by
  let blank : FsFileCopy :=
    { src := noFile, dst := noFile, localFd := -1, started := 0, webIdx := -1 }
  have hne := source_name_ne_nil h.src
  have hsplit : 63 ∉ source.text →
      strtokR (some (source.text ++ 63 :: target.text)) (lit "?") =
        (some source.text, some target.text) := by
    intro hmark
    obtain ⟨c, s, htext, -⟩ := source_text_cons h.src
    exact @strtokR_word 63 [] _ nofun (htext ▸ List.cons_ne_nil c s) hmark
      target.text
  have htarget : ∀ file, file.fname = some source.name →
      file.peer = source.host →
      (TargetRight mem target { blank with src := file } source.name ↔
        TargetReads mem source.name target) := by
    intro file hname hpeer
    refine target_iff h.dst hname hne ?_ ?_
    · exact fun hnone => slash_mem_name h.src (hpeer.symm.trans hnone)
    · exact h.remote.imp_left hpeer.trans
  constructor
  · intro hright
    obtain ⟨copy', hread, ⟨hname, hpeer⟩, hdst, hhost⟩ := hright blank .init
    have hread : fsCpParamsRead blank (source.text ++ 63 :: target.text) opened
        mem = some (0, copy') := hread
    have hmark := mark_notMem h.src hread hname hpeer
    obtain ⟨hsource, hresult⟩ := fsCpParamsRead_src (hsplit hmark) hread
    refine ⟨hmark, ?_, (htarget copy'.src hname hpeer).mp
      ⟨copy', hresult, rfl, hdst, hhost⟩⟩
    by_contra hreads
    rcases source_fails h.src hreads with hdangling | ⟨ret, file, hfile, hnone⟩
    · rw [hdangling] at hsource
      cases hsource
    · rw [hfile] at hsource
      obtain ⟨rfl, rfl⟩ := UrlResult.returned.inj hsource
      rw [hnone rfl] at hname
      cases hname
  · intro hcondition copy fs
    obtain ⟨port, hsource⟩ := source_reads h.src hcondition.src
    obtain ⟨copy', hresult, hsrc, hdst, hhost⟩ :=
      (htarget { fname := some source.name, peer := source.host, port := port }
        rfl rfl).mpr hcondition.dst
    refine ⟨copy', ?_, ⟨?_, ?_⟩, hdst, hhost⟩
    · change fsCpParamsRead blank _ opened mem = _
      simp only [fsCpParamsRead, hsplit hcondition.mark, hsource]
      exact hresult
    · rw [hsrc]
    · rw [hsrc]

/-- Every copy finds its memory. -/
def allCopied : CopyMemory where
  src := true
  srcUrl := { fname := true, peer := true }
  dstUrl := { fname := true, peer := true }
  joined := true

/-- A local file is copied to a local directory. -/
theorem copy_params_iff_directory :
    CopyParamsRight (fun _ => 3) allCopied (.file (lit "/a/f"))
        (.directory (lit "/b/")) ↔
      CopyCondition allCopied (.file (lit "/a/f")) (.directory (lit "/b/")) :=
  copy_params_iff (fun _ => 3) allCopied (.file (lit "/a/f"))
    (.directory (lit "/b/"))
    { src := ⟨by decide, by decide⟩
      dst := ⟨by decide, by decide⟩
      remote := .inl rfl }

/-- A local file is not copied to another name. -/
theorem not_copy_params :
    ¬∀ opened source target, DocumentedCopy opened source target →
      CopyParamsRight opened allCopied source target := by
  intro h
  obtain ⟨copy', hread, -⟩ :=
    h (fun _ => 3) (.file (lit "/a")) (.file (lit "/b"))
      { src := ⟨by decide, by decide⟩
        dst := ⟨by decide, by decide, by decide⟩
        remote := .inl rfl }
      { src := noFile, dst := noFile, localFd := -1, started := 0
        webIdx := -1 } .init
  have hrejected : (fsCpParamsParse
      { src := noFile, dst := noFile, localFd := -1, started := 0
        webIdx := -1 } .init (lit "/a?/b") (fun _ => 3) allCopied).1 =
      some (-1,
        { src := { fname := some (lit "/a"), peer := none, port := 0 }
          dst := noFile, localFd := -1, started := 0, webIdx := -1 }) := by
    decide +kernel
  have hsame := hread.symm.trans hrejected
  cases hsame

end Herak.Fs
