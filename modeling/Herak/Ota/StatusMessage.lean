import Herak.Mqtt.Payload
import Herak.Mqtt.RateLimit
import Herak.Ota.MetaLines

/-!
# The status message of the module

`ota_mqtt_send` prints what is running and what is offered into a buffer of
the module and publishes it.  Before a piece is added the pieces in front of it
are measured, but nothing measures the last one.  So a message that ends at the
last byte of the buffer or one byte behind it is published without its end, and
every other message is published whole or not at all.
-/

namespace Herak.Ota

open BoundedPrint CString Mqtt

abbrev otaMqttDataLen : ℕ := 512

/-- `mqtt_payload` has one more byte. -/
abbrev otaMqttPayloadSize : ℕ := otaMqttDataLen + 1

/-! ## The pieces -/

/-- The texts of an offered version; `NULL` where the metadata has none. -/
structure NewVersion where
  name : Option CStr
  ver : Option CStr
  commit : Option CStr
  date : Option CStr
  time : Option CStr
  peer : Option CStr

/-- `ota_update_get_new` -/
def otaUpdateGetNew (c : OtaCheck) (m : MetaValues) : Option NewVersion :=
  if c.ready = false ∨ c.newVersion = false then none
  else
    some
      { name := metaValue c.buff m .image
        ver := metaValue c.buff m .ver
        commit := metaValue c.buff m .commit
        date := metaValue c.buff m .bdate
        time := metaValue c.buff m .btime
        peer := c.file.peer }

/-- `SYS_VERSION_STR` -/
def Firmware.sysVersionStr (fw : Firmware) : CStr :=
  fw.projectVersion ++ lit "-" ++ fw.gitCommitHash

/-- `SYS_BUILD_DATE` -/
def Firmware.sysBuildDate (fw : Firmware) : CStr :=
  fw.buildDate ++ lit " " ++ fw.buildTime

def orNA (text : Option CStr) : CStr :=
  text.getD (lit "N/A")

def updatePieces : Option NewVersion → List CStr
  | none => [lit ",\"update\": \"" ++ decimalInt 0 ++ lit "\""]
  | some new =>
      [lit ",\"update\": \"" ++ decimalInt 1 ++ lit "\"",
        lit ",\"new_version\": \"" ++ orNA new.name ++ lit " " ++
          orNA new.ver ++ lit "-" ++ orNA new.commit ++ lit " " ++
          orNA new.date ++ lit "-" ++ orNA new.time ++ lit " from " ++
          orNA new.peer ++ lit "\""]

/-- The pieces in front of the closing brace. -/
def statusFields (fw : Firmware) (timestamp : CStr)
    (new : Option NewVersion) : List CStr :=
  [lit "\x7b",
    lit "\"time\":\"" ++ timestamp ++ lit "\"",
    lit ",\"current_version\": \"" ++ fw.sysVersionStr ++ lit " " ++
      fw.sysBuildDate ++ lit "\""] ++
    updatePieces new

def statusPieces (fw : Firmware) (timestamp : CStr)
    (new : Option NewVersion) : List CStr :=
  statusFields fw timestamp new ++ [lit "\x7d"]

/-- The whole message. -/
def statusText (fw : Firmware) (timestamp : CStr) (new : Option NewVersion) :
    CStr :=
  (statusPieces fw timestamp new).flatten

/-! ## Sending -/

/-- What `mqtt_msg_component_publish` finds: the client, the error of the
broker client if it is called, and the times. -/
structure PublishTurn where
  discoverySent : Bool
  client : MqttPublisher
  publish : ℤ
  now : ℕ
  sentAt : ℕ

/-- The buffer of the message, and the state component it belongs to. -/
structure OtaMqtt where
  payload : PrintArray
  force : Bool
  lastSend : ℕ

/-- The result, and the message that the broker client has accepted. -/
structure SendResult where
  ret : ℤ
  accepted : Option CStr
  mqtt : OtaMqtt

/-- The result of `mqtt_msg_send` for a client that is connected. -/
def PublishTurn.sent (turn : PublishTurn) : ℤ :=
  if turn.publish = 0 then 0 else -1

/-- `mqtt_msg_component_publish` -/
def otaMqttPublish (s : OtaMqtt) (turn : PublishTurn) (message : CStr) :
    SendResult :=
  if turn.discoverySent = false then ⟨-1, none, s⟩
  else
    let ret := (mqttMsgPublish turn.client message turn.sent turn.now).1
    if ret = 0 then
      ⟨ret, some message, { s with force := false, lastSend := turn.sentAt }⟩
    else ⟨ret, none, s⟩

/-- `ota_mqtt_send` -/
def otaMqttSend (fw : Firmware) (c : OtaCheck) (m : MetaValues)
    (timestamp : CStr) (turn : PublishTurn) (s : OtaMqtt) : SendResult :=
  let printed := printMqttMsgs otaMqttDataLen s.payload 0
    (statusPieces fw timestamp (otaUpdateGetNew c m))
  if printed.1 = false then ⟨-1, none, { s with payload := printed.2 }⟩
  else
    let payload := printed.2.store otaMqttDataLen [0]
    otaMqttPublish { s with payload := payload } turn (cstrAt payload.bytes 0)

/-- The texts of the build, of the clock and of the peer are C strings. -/
structure PlainTexts (fw : Firmware) (timestamp : CStr)
    (peer : Option CStr) : Prop where
  version : 0 ∉ fw.projectVersion
  commit : 0 ∉ fw.gitCommitHash
  date : 0 ∉ fw.buildDate
  time : 0 ∉ fw.buildTime
  clock : 0 ∉ timestamp
  peer : ∀ text ∈ peer, 0 ∉ text

/-- The buffer of the module, before anything is written. -/
def OtaMqtt.Fresh (s : OtaMqtt) : Prop :=
  s.payload.bytes.length = otaMqttPayloadSize ∧ s.payload.written = []

/-- The call fails or publishes the whole message, and no write leaves the
buffer. -/
def SendsWhole (fw : Firmware) (c : OtaCheck) (m : MetaValues)
    (timestamp : CStr) (turn : PublishTurn) (s : OtaMqtt) : Prop :=
  let sent := otaMqttSend fw c m timestamp turn s
  (sent.ret = -1 ∨
      sent.accepted = some (statusText fw timestamp (otaUpdateGetNew c m))) ∧
    sent.mqtt.payload.Inside otaMqttPayloadSize

/-! ## What is sent -/

variable {fw : Firmware} {c : OtaCheck} {m : MetaValues} {timestamp : CStr}
  {turn : PublishTurn} {s : OtaMqtt}

theorem statusText_eq (fw : Firmware) (timestamp : CStr)
    (new : Option NewVersion) :
    statusText fw timestamp new =
      (statusFields fw timestamp new).flatten ++ lit "\x7d" := by
  rw [statusText, statusPieces, List.flatten_append, List.flatten_singleton]

theorem statusText_ne_nil (fw : Firmware) (timestamp : CStr)
    (new : Option NewVersion) : statusText fw timestamp new ≠ [] := by
  rw [statusText_eq]
  exact List.append_ne_nil_of_right_ne_nil _ (by decide)

theorem nul_not_mem_orNA {text : Option CStr} (h : ∀ t ∈ text, 0 ∉ t) :
    0 ∉ orNA text := by
  cases text with
  | none => exact (by decide : 0 ∉ lit "N/A")
  | some t => exact h t rfl

theorem nul_not_mem_metaValue (buff : List UInt8) (m : MetaValues)
    (i : MetaId) : ∀ t ∈ metaValue buff m i, 0 ∉ t := by
  intro t ht hzero
  obtain ⟨o, -, rfl⟩ := Option.map_eq_some_iff.mp ht
  simpa using List.mem_takeWhile_imp hzero

theorem nul_not_mem_statusText (h : PlainTexts fw timestamp c.file.peer) :
    0 ∉ statusText fw timestamp (otaUpdateGetNew c m) := by
  have hupdate : 0 ∉ (updatePieces (otaUpdateGetNew c m)).flatten := by
    unfold otaUpdateGetNew
    split
    · decide
    · have hvalue : ∀ i, 0 ∉ orNA (metaValue c.buff m i) :=
        fun i => nul_not_mem_orNA (nul_not_mem_metaValue c.buff m i)
      have hpeer := nul_not_mem_orNA h.peer
      simp only [updatePieces, List.flatten_cons, List.flatten_nil,
        List.mem_append, not_or, hvalue, hpeer, not_false_eq_true, and_true]
      decide
  simp only [statusText_eq, statusFields, Firmware.sysVersionStr,
    Firmware.sysBuildDate, List.flatten_append, List.flatten_cons,
    List.flatten_nil, List.mem_append, not_or, hupdate, h.version, h.commit,
    h.date, h.time, h.clock, not_false_eq_true, and_true]
  decide

theorem otaMqttPublish_payload (s : OtaMqtt) (turn : PublishTurn)
    (message : CStr) : (otaMqttPublish s turn message).mqtt.payload =
      s.payload := by
  simp only [otaMqttPublish]
  split
  · rfl
  · split
    · rfl
    · rfl

/-- The broker client gets this message or none. -/
theorem otaMqttPublish_cases (s : OtaMqtt) (turn : PublishTurn)
    (message : CStr) :
    (otaMqttPublish s turn message).ret = -1 ∨
      (otaMqttPublish s turn message).accepted = some message := by
  have hsent : turn.sent = 0 ∨ turn.sent = -1 := by
    unfold PublishTurn.sent
    split <;> simp
  have hret : (mqttMsgPublish turn.client message turn.sent turn.now).1 = 0 ∨
      (mqttMsgPublish turn.client message turn.sent turn.now).1 = -1 := by
    simp only [mqttMsgPublish]
    split
    · exact Or.inr rfl
    split
    · exact Or.inr rfl
    split
    · exact Or.inr rfl
    · exact hsent
  simp only [otaMqttPublish]
  split
  · exact Or.inl rfl
  split
  · exact Or.inr rfl
  next hne => exact Or.inl (hret.resolve_left hne)

/-- A message of at most `OTA_MQTT_DATA_LEN` bytes and one more is handed to
the broker client, as far as `OTA_MQTT_DATA_LEN` bytes hold it with its NUL; a
longer one is not. -/
theorem otaMqttSend_eq (turn : PublishTurn) (hfresh : s.Fresh)
    (hplain : PlainTexts fw timestamp c.file.peer) :
    ∃ payload : PrintArray, payload.Inside otaMqttPayloadSize ∧
      otaMqttSend fw c m timestamp turn s =
        if (statusText fw timestamp (otaUpdateGetNew c m)).length ≤
            otaMqttPayloadSize then
          otaMqttPublish { s with payload := payload } turn
            (snprintf otaMqttDataLen
              (statusText fw timestamp (otaUpdateGetNew c m)))
        else ⟨-1, none, { s with payload := payload }⟩ := by
  obtain ⟨hlen, hwritten⟩ := hfresh
  have hroom : otaMqttDataLen ≤ s.payload.bytes.length := by
    rw [hlen]
    exact Nat.le_succ _
  have hstart : s.payload.Holds otaMqttDataLen [] :=
    PrintArray.holds_nil hroom fun k hk => by simp [hwritten] at hk
  obtain ⟨hsize, hinside, hfits, hholds⟩ := printMqttMsgs_concat
    (by decide) hstart (statusFields fw timestamp (otaUpdateGetNew c m))
    (lit "\x7d")
  rw [← statusText_eq] at hholds
  have hlength : (statusText fw timestamp (otaUpdateGetNew c m)).length ≤
        otaMqttPayloadSize ↔
      (statusFields fw timestamp (otaUpdateGetNew c m)).flatten.length ≤
        otaMqttDataLen := by
    rw [statusText_eq, List.length_append]
    exact Nat.add_le_add_iff_right
  have hwide : otaMqttDataLen ≤ otaMqttPayloadSize := Nat.le_succ _
  rw [← statusPieces] at hsize hinside hfits hholds
  simp only [otaMqttSend]
  generalize printMqttMsgs otaMqttDataLen s.payload 0
    (statusPieces fw timestamp (otaUpdateGetNew c m)) = printed at *
  by_cases hok : printed.1 = true
  · have hshown := (hholds hok).shown_store le_rfl hsize [0]
      (statusText_ne_nil _ _ _) (by decide)
    refine ⟨printed.2.store otaMqttDataLen [0],
      (hinside.mono hwide).store (Nat.le_refl otaMqttPayloadSize), ?_⟩
    rw [if_pos (hlength.mpr (hfits.mp hok)), hok, if_neg (by simp),
      PrintArray.cstrAt_of_prefix hshown (nul_not_mem_statusText hplain)]
  · refine ⟨printed.2, hinside.mono hwide, ?_⟩
    rw [if_neg fun h => hok (hfits.mpr (hlength.mp h)),
      if_pos (by simpa using hok)]

/-- A turn in which the client takes every message of the buffer. -/
def PublishTurn.open : PublishTurn where
  discoverySent := true
  client := MqttPublisher.init .connected 928 60 0
  publish := 0
  now := 1
  sentAt := 1

theorem otaMqttPublish_open (s : OtaMqtt) (message : CStr)
    (h : message.length ≤ 928) :
    (otaMqttPublish s .open message).ret = 0 ∧
      (otaMqttPublish s .open message).accepted = some message := by
  have hret : (mqttMsgPublish PublishTurn.open.client message
      PublishTurn.open.sent PublishTurn.open.now).1 = 0 := by
    have hsize : ¬928 < message.length := Nat.not_lt.mpr h
    simp [mqttMsgPublish, PublishTurn.open, PublishTurn.sent,
      MqttPublisher.init, MqttPublisher.limiterRefuses,
      MqttPublisher.limitReached, strlen_eq, hsize]
  simp [otaMqttPublish, PublishTurn.open] at hret ⊢
  simp [hret]

/-- A message that ends at the end of the buffer or behind it loses its end. -/
theorem not_sendsWhole_open (hfresh : s.Fresh)
    (hplain : PlainTexts fw timestamp c.file.peer)
    (hlen : (statusText fw timestamp (otaUpdateGetNew c m)).length =
        otaMqttDataLen ∨
      (statusText fw timestamp (otaUpdateGetNew c m)).length =
        otaMqttPayloadSize) :
    ¬SendsWhole fw c m timestamp .open s := by
  obtain ⟨payload, -, hsend⟩ := otaMqttSend_eq (m := m) .open hfresh hplain
  simp only [SendsWhole, hsend]
  generalize statusText fw timestamp (otaUpdateGetNew c m) = text at hlen
  have hdata : otaMqttDataLen = 512 := rfl
  have hsize : otaMqttPayloadSize = 513 := rfl
  have hcut : (snprintf otaMqttDataLen text).length = 511 := by
    rw [snprintf, List.length_take]
    omega
  obtain ⟨hret, haccepted⟩ := otaMqttPublish_open
    { s with payload := payload } (snprintf otaMqttDataLen text) (by omega)
  rw [if_pos (by omega), hret, haccepted]
  rintro ⟨hwhole | hwhole, -⟩
  · exact absurd hwhole (by decide)
  · have hsame := congrArg List.length (Option.some_inj.mp hwhole)
    omega

theorem otaMqttSend_whole_iff (hfresh : s.Fresh)
    (hplain : PlainTexts fw timestamp c.file.peer) :
    (∀ turn, SendsWhole fw c m timestamp turn s) ↔
      (statusText fw timestamp (otaUpdateGetNew c m)).length ≠
          otaMqttDataLen ∧
        (statusText fw timestamp (otaUpdateGetNew c m)).length ≠
          otaMqttPayloadSize := by
  have hdata : otaMqttDataLen = 512 := rfl
  have hsize : otaMqttPayloadSize = 513 := rfl
  constructor
  · intro h
    rw [← not_or]
    exact fun hlen => not_sendsWhole_open hfresh hplain hlen (h .open)
  · intro hlen turn
    obtain ⟨payload, hinside, hsend⟩ :=
      otaMqttSend_eq (m := m) turn hfresh hplain
    simp only [SendsWhole, hsend]
    by_cases hfits : (statusText fw timestamp
        (otaUpdateGetNew c m)).length ≤ otaMqttPayloadSize
    · rw [if_pos hfits, snprintf_of_lt (by omega), otaMqttPublish_payload]
      exact ⟨otaMqttPublish_cases _ turn _, hinside⟩
    · rw [if_neg hfits]
      exact ⟨Or.inl rfl, hinside⟩

/-! ## A message that ends at the end of the buffer -/

theorem isLineValue_replicate (n : ℕ) :
    IsLineValue (List.replicate (n + 1) 97) := by
  refine ⟨List.cons_ne_nil _ _, fun ch hch => ?_⟩
  rw [List.eq_of_mem_replicate hch]
  rfl

/-- A release with `n + 1` characters for its commit. -/
def longCommitFile (n : ℕ) : MetaFile :=
  generateMeta fun i =>
    if i = .commit then ⟨List.replicate (n + 1) 97, isLineValue_replicate n⟩
    else releaseValues ⟨lit "2.3.5", isLineValue_releaseText .ver⟩ i

/-- The module after the file of a release was parsed and found newer. -/
def offered (file : MetaFile) : OtaCheck :=
  { (otaMetaParse (checkOf file) MetaValues.init).2.1 with
    file := ⟨none, some (lit "192.168.1.10"), 69⟩
    ready := true
    newVersion := true }

def offeredValues (file : MetaFile) : MetaValues :=
  (otaMetaParse (checkOf file) MetaValues.init).2.2

/-- The buffer of the module at start. -/
def otaMqttStart : OtaMqtt where
  payload := ⟨List.replicate otaMqttPayloadSize 0, []⟩
  force := true
  lastSend := 0

theorem otaMqttStart_fresh : otaMqttStart.Fresh :=
  ⟨List.length_replicate, rfl⟩

theorem plainTexts_offered (file : MetaFile) :
    PlainTexts relayFirmware (lit "Tue 24 Jun 12:30:00 2025")
      (offered file).file.peer := by
  refine ⟨by decide, by decide, by decide, by decide, by decide, ?_⟩
  rintro text ⟨⟩
  decide

theorem otaMqttSend_whole_offered :
    let file := longCommitFile 6
    ∀ turn, SendsWhole relayFirmware (offered file) (offeredValues file)
      (lit "Tue 24 Jun 12:30:00 2025") turn otaMqttStart :=
  (otaMqttSend_whole_iff otaMqttStart_fresh (plainTexts_offered _)).mpr
    (by decide +kernel)

/-- The last byte of the buffer is NUL, and the brace is lost. -/
theorem not_otaMqttSend_whole :
    ¬∀ (fw : Firmware) (c : OtaCheck) (m : MetaValues) (timestamp : CStr)
      (turn : PublishTurn) (s : OtaMqtt), s.Fresh →
        PlainTexts fw timestamp c.file.peer →
          SendsWhole fw c m timestamp turn s := by
  intro h
  have hplain := plainTexts_offered (longCommitFile 339)
  have hlen : (statusText relayFirmware (lit "Tue 24 Jun 12:30:00 2025")
      (otaUpdateGetNew (offered (longCommitFile 339))
        (offeredValues (longCommitFile 339)))).length = 512 := by
    decide +kernel
  exact not_sendsWhole_open otaMqttStart_fresh hplain (Or.inl hlen)
    (h _ _ _ _ .open _ otaMqttStart_fresh hplain)

end Herak.Ota
