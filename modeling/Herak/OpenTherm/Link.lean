import Herak.OpenTherm.Device
import Herak.OpenTherm.Search

/-!
# OpenTherm link

A request is sent as a word of half-bits and tried twice.  A reply counts if it
ends with the end bit, is in Manchester code and has even parity, so that a line
that loses it, or changes a half-bit or an odd number of bits, is found out: what
the device layer reads is what the boiler sent, or an error.
-/

namespace Herak.OpenTherm

/-! ## The code -/

/-- `MAX_RETRIES` -/
def maxRetries : ℕ := 2

/-- `DEAD_INTERVAL_MS` -/
def deadIntervalMs : ℕ := 60000

/-- The fields of `opentherm_pio_t` that are not about the hardware. -/
structure OpenthermPio where
  attached : Bool
  lastValid : ℕ

/-- What `opentherm_exchange_frame` gets for a word, at each attempt. -/
abbrev Line := ℕ → BitVec 64 → FrameResult

/-- The word of a request. -/
def requestWord (request : OpenthermMsg) : BitVec 64 :=
  manchesterEncode
    (openthermFrameEncode request.msgType request.id request.value) true

/-- `opentherm_exchange_run` -/
def openthermExchangeRun (line : BitVec 64 → FrameResult)
    (request : OpenthermMsg) : Option OpenthermMsg :=
  let r := line (requestWord request)
  if r.ret ≠ 0 then none
  else if r.in2 ≠ endBit then none
  else
    match r.decode with
    | none => none
    | some f => openthermFrameDecode f

/-- The attempts of `opentherm_dev_pio_exchange` from attempt `k` on, with the one
that got a reply. -/
def exchangeAttempts (line : Line) (request : OpenthermMsg) :
    ℕ → ℕ → Option (ℕ × OpenthermMsg)
  | 0, _ => none
  | retry + 1, k =>
      match openthermExchangeRun (line k) request with
      | some reply => some (k, reply)
      | none => exchangeAttempts line request retry (k + 1)

/-- `opentherm_dev_pio_exchange`; `now k` is the time behind attempt `k`. -/
def openthermDevPioExchange (pio : OpenthermPio) (line : Line) (now : ℕ → ℕ)
    (request : OpenthermMsg) : OpenthermPio × Option OpenthermMsg :=
  if pio.attached then
    match exchangeAttempts line request maxRetries 0 with
    | some (k, reply) => ({ pio with lastValid := now k }, some reply)
    | none =>
        if deadIntervalMs < now (maxRetries - 1) - pio.lastValid then
          ({ pio with attached := false }, none)
        else (pio, none)
  else (pio, none)

/-! ## A boiler at the other end -/

/-- The word that a boiler replies to a word. -/
def boilerWord (boiler : Exchange) (word : BitVec 64) : Option (BitVec 64) :=
  (manchesterDecode word true).bind fun frame =>
    (openthermFrameDecode frame).bind fun request =>
      (boiler request).map fun reply =>
        manchesterEncode (openthermFrameEncode reply.msgType reply.id reply.value)
          false

/-- The half-bits that came in. -/
def FrameResult.word (r : FrameResult) : BitVec 64 :=
  r.in0.setWidth 64 <<< 32 ||| r.in1.setWidth 64

/-- The line gave a word as it was sent. -/
structure FrameResult.Whole (r : FrameResult) (word : BitVec 64) : Prop where
  ret : r.ret = 0
  endBit : r.in2 = endBit
  word : r.word = word

/-- The faults of a line: nothing comes in time, the end bit is missing, a
half-bit is changed, or an odd number of bits. -/
inductive FrameResult.Faulty (r : FrameResult) (word : BitVec 64) : Prop
  | lost : r.ret ≠ 0 → r.Faulty word
  | endless : r.in2 ≠ endBit → r.Faulty word
  | halfBit (i : ℕ) : i < 64 → r.word = word ^^^ BitVec.twoPow 64 i → r.Faulty word
  | bits (flips : BitVec 32) : builtinPopcount flips % 2 = 1 →
      (∀ i < 64, r.word.getLsbD i = (word.getLsbD i ^^ flips.getLsbD (i / 2))) →
      r.Faulty word

/-- A line to a boiler: each attempt gives its reply, or has a fault. -/
def Connects (line : Line) (boiler : Exchange) : Prop :=
  ∀ k word, match boilerWord boiler word with
    | none => (line k word).ret ≠ 0
    | some reply => (line k word).Whole reply ∨ (line k word).Faulty reply

/-- The types of messages have three bits. -/
def OpenthermMsg.Fits (m : OpenthermMsg) : Prop := m.msgType.toNat < 8

/-! ## What comes over the line -/

variable {line : Line} {boiler : Exchange} {request reply : OpenthermMsg}

theorem OpenthermMsg.Fits.decode_encode (h : reply.Fits) :
    openthermFrameDecode
        (openthermFrameEncode reply.msgType reply.id reply.value) =
      some reply := by
  have htype : (reply.msgType.setWidth 3).setWidth 8 = reply.msgType := by
    refine BitVec.eq_of_toNat_eq ?_
    rw [BitVec.toNat_setWidth, BitVec.toNat_setWidth]
    have hlt : reply.msgType.toNat < 8 := h
    omega
  have hdecode := openthermFrameDecode_encode (reply.msgType.setWidth 3) reply.id
    reply.value
  rwa [htype] at hdecode

/-- The boiler hears the request that was sent. -/
theorem boilerWord_requestWord (h : request.Fits) :
    boilerWord boiler (requestWord request) = (boiler request).map fun reply =>
      manchesterEncode (openthermFrameEncode reply.msgType reply.id reply.value)
        false := by
  rw [boilerWord, requestWord, manchesterDecode_encode, Option.bind_some,
    h.decode_encode, Option.bind_some]

theorem openthermFrameEncode_flips (msgType dataId : BitVec 8)
    (dataValue : BitVec 16) {flips : BitVec 32}
    (hodd : builtinPopcount flips % 2 = 1) :
    openthermFrameDecode (openthermFrameEncode msgType dataId dataValue ^^^ flips) =
      none := by
  have heven := openthermFrameEncode_even msgType dataId dataValue
  have hxor := builtinPopcount_xor
    (openthermFrameEncode msgType dataId dataValue) flips
  rw [openthermFrameDecode, if_pos]
  omega

/-- A reply that comes whole is the reply. -/
theorem openthermExchangeRun_whole {l : BitVec 64 → FrameResult}
    (hfits : reply.Fits)
    (h : (l (requestWord request)).Whole (manchesterEncode
      (openthermFrameEncode reply.msgType reply.id reply.value) false)) :
    openthermExchangeRun l request = some reply := by
  have hdecode : (l (requestWord request)).decode =
      some (openthermFrameEncode reply.msgType reply.id reply.value) := by
    change manchesterDecode (l (requestWord request)).word false = _
    rw [h.word, manchesterDecode_encode]
  refine (if_neg fun hret => hret h.ret).trans ?_
  refine (if_neg fun hend => hend h.endBit).trans ?_
  rw [hdecode]
  exact hfits.decode_encode

/-- A reply with a fault is not taken for one. -/
theorem openthermExchangeRun_faulty {l : BitVec 64 → FrameResult}
    (h : (l (requestWord request)).Faulty (manchesterEncode
      (openthermFrameEncode reply.msgType reply.id reply.value) false)) :
    openthermExchangeRun l request = none := by
  change (if (l (requestWord request)).ret ≠ 0 then none
    else if (l (requestWord request)).in2 ≠ endBit then none
    else match manchesterDecode (l (requestWord request)).word false with
      | none => none
      | some f => openthermFrameDecode f) = none
  split_ifs with hret hend
  · rfl
  · rfl
  · cases h with
    | lost hlost => exact absurd hlost hret
    | endless hendless => exact absurd hendless hend
    | halfBit i hi hword => rw [hword, manchesterDecode_flip _ _ hi]
    | bits flips hodd hword =>
        rw [manchesterEncode_xor hword, manchesterDecode_encode]
        exact openthermFrameEncode_flips _ _ _ hodd

/-- At an attempt the reply of the boiler comes whole. -/
def Delivers (line : Line) (boiler : Exchange) (request : OpenthermMsg)
    (k : ℕ) : Prop :=
  ∃ word, boilerWord boiler (requestWord request) = some word ∧
    (line k (requestWord request)).Whole word

section

variable (hboiler : ∀ request reply, boiler request = some reply → reply.Fits)
  (hline : Connects line boiler) (hfits : request.Fits)
include hboiler hline hfits

/-- An attempt gives the reply of the boiler, or nothing. -/
theorem openthermExchangeRun_link (k : ℕ) :
    Delivers line boiler request k ∧ (∃ reply, boiler request = some reply ∧
        openthermExchangeRun (line k) request = some reply) ∨
      ¬Delivers line boiler request k ∧
        openthermExchangeRun (line k) request = none := by
  have hconnects := hline k (requestWord request)
  rw [boilerWord_requestWord hfits] at hconnects
  cases hreply : boiler request with
  | none =>
      rw [hreply] at hconnects
      refine Or.inr ⟨?_, if_pos hconnects⟩
      rintro ⟨word, hword, -⟩
      rw [boilerWord_requestWord hfits, hreply] at hword
      cases hword
  | some reply =>
      rw [hreply] at hconnects
      by_cases hwhole : Delivers line boiler request k
      · obtain ⟨word, hword, hcame⟩ := id hwhole
        rw [boilerWord_requestWord hfits, hreply] at hword
        cases hword
        exact Or.inl ⟨hwhole, reply, rfl,
          openthermExchangeRun_whole (hboiler request reply hreply) hcame⟩
      · refine Or.inr ⟨hwhole, ?_⟩
        rcases hconnects with hcame | hfaulty
        · refine absurd ⟨_, ?_, hcame⟩ hwhole
          rw [boilerWord_requestWord hfits, hreply]
          rfl
        · exact openthermExchangeRun_faulty hfaulty

theorem exchangeAttempts_link (retry k : ℕ) :
    (∃ j, k ≤ j ∧ j < k + retry ∧ Delivers line boiler request j ∧
        (∀ i, k ≤ i → i < j → ¬Delivers line boiler request i) ∧
        ∃ reply, boiler request = some reply ∧
          exchangeAttempts line request retry k = some (j, reply)) ∨
      (∀ j, k ≤ j → j < k + retry → ¬Delivers line boiler request j) ∧
        exchangeAttempts line request retry k = none := by
  induction retry generalizing k with
  | zero => exact Or.inr ⟨fun j hle hlt => absurd hlt (Nat.not_lt.mpr hle), rfl⟩
  | succ retry ih =>
      rw [exchangeAttempts]
      rcases openthermExchangeRun_link hboiler hline hfits k with
        ⟨hwhole, reply, hreply, hrun⟩ | ⟨hfault, hrun⟩
      · refine Or.inl ⟨k, le_rfl, by omega, hwhole, by omega, reply, hreply, ?_⟩
        rw [hrun]
      · rw [hrun]
        rcases ih (k + 1) with
          ⟨j, hle, hlt, hwhole, hfirst, reply, hreply, hattempts⟩ | ⟨hnone, hattempts⟩
        · refine Or.inl ⟨j, by omega, by omega, hwhole, fun i hki hij => ?_, reply,
            hreply, hattempts⟩
          rcases Nat.eq_or_lt_of_le hki with rfl | hlt'
          · exact hfault
          · exact hfirst i hlt' hij
        · refine Or.inr ⟨fun j hle hlt => ?_, hattempts⟩
          rcases Nat.eq_or_lt_of_le hle with rfl | hlt'
          · exact hfault
          · exact hnone j hlt' (by omega)

/-- An exchange gives the reply of the boiler if it comes whole at one of the
attempts, and the boiler is given up if none did for too long. -/
theorem openthermDevPioExchange_link {pio : OpenthermPio}
    (hattached : pio.attached = true) (now : ℕ → ℕ) :
    (∃ k < maxRetries, Delivers line boiler request k ∧
        (∀ j < k, ¬Delivers line boiler request j) ∧
        openthermDevPioExchange pio line now request =
          ({ pio with lastValid := now k }, boiler request)) ∨
      (∀ k < maxRetries, ¬Delivers line boiler request k) ∧
        openthermDevPioExchange pio line now request =
          (if deadIntervalMs < now (maxRetries - 1) - pio.lastValid then
            { pio with attached := false }
          else pio, none) := by
  rw [openthermDevPioExchange, if_pos hattached]
  rcases exchangeAttempts_link hboiler hline hfits maxRetries 0 with
    ⟨k, -, hlt, hwhole, hfirst, reply, hreply, hattempts⟩ | ⟨hnone, hattempts⟩
  · refine Or.inl ⟨k, (Nat.zero_add maxRetries ▸ hlt), hwhole,
      fun j hj => hfirst j (Nat.zero_le j) hj, ?_⟩
    rw [hattempts, hreply]
  · refine Or.inr ⟨fun k hk => hnone k (Nat.zero_le k)
      ((Nat.zero_add maxRetries).symm ▸ hk), ?_⟩
    rw [hattempts]
    by_cases hlong : deadIntervalMs < now (maxRetries - 1) - pio.lastValid
    · simp only [if_pos hlong]
    · simp only [if_neg hlong]

end

/-! ## The device layer over the link -/

/-- The exchange that the device layer uses. -/
def linkExchange (pio : OpenthermPio) (line : Line) (now : ℕ → ℕ) : Exchange :=
  fun request => (openthermDevPioExchange pio line now request).2

theorem openthermDevExchange_link
    (hboiler : ∀ request reply, boiler request = some reply → reply.Fits)
    (hline : Connects line boiler) {pio : OpenthermPio}
    (hattached : pio.attached = true) (now : ℕ → ℕ) (type ack : BitVec 8)
    (htype : type.toNat < 8) (cmd : ℕ) (send : BitVec 16) :
    ((∃ k < maxRetries,
        Delivers line boiler ⟨type, BitVec.ofNat 8 cmd, send⟩ k) →
      openthermDevExchange (linkExchange pio line now) type ack cmd send =
        openthermDevExchange boiler type ack cmd send) ∧
      ((∀ k < maxRetries,
          ¬Delivers line boiler ⟨type, BitVec.ofNat 8 cmd, send⟩ k) →
        openthermDevExchange (linkExchange pio line now) type ack cmd send =
          .error .l1Err) := by
  have hfits : OpenthermMsg.Fits ⟨type, BitVec.ofNat 8 cmd, send⟩ := htype
  rw [openthermDevExchange, openthermDevExchange, linkExchange]
  rcases openthermDevPioExchange_link hboiler hline hfits hattached now with
    ⟨k, hk, hwhole, -, hexchange⟩ | ⟨hnone, hexchange⟩
  · rw [hexchange]
    exact ⟨fun _ => rfl, fun hnot => absurd hwhole (hnot k hk)⟩
  · rw [hexchange]
    refine ⟨?_, fun _ => rfl⟩
    rintro ⟨k, hk, hwhole⟩
    exact absurd hwhole (hnone k hk)

/-- Reads and writes over a line with faults: when one attempt comes whole, they
are what they are with the boiler itself, and else they end with an error of the
link, never with another value. -/
theorem opentherm_dev_link
    (hboiler : ∀ request reply, boiler request = some reply → reply.Fits)
    (hline : Connects line boiler) {pio : OpenthermPio}
    (hattached : pio.attached = true) (now : ℕ → ℕ) (cmd : ℕ) (send : BitVec 16) :
    ((∃ k < maxRetries, Delivers line boiler
        ⟨msgTypeReadData, BitVec.ofNat 8 cmd, send⟩ k) →
      openthermDevRead (linkExchange pio line now) cmd send =
        openthermDevRead boiler cmd send) ∧
      ((∀ k < maxRetries, ¬Delivers line boiler
          ⟨msgTypeReadData, BitVec.ofNat 8 cmd, send⟩ k) →
        openthermDevRead (linkExchange pio line now) cmd send = .error .l1Err) ∧
      ((∃ k < maxRetries, Delivers line boiler
          ⟨msgTypeWriteData, BitVec.ofNat 8 cmd, send⟩ k) →
        openthermDevWrite (linkExchange pio line now) cmd send =
          openthermDevWrite boiler cmd send) ∧
      ((∀ k < maxRetries, ¬Delivers line boiler
          ⟨msgTypeWriteData, BitVec.ofNat 8 cmd, send⟩ k) →
        openthermDevWrite (linkExchange pio line now) cmd send =
          .error .l1Err) := by
  have hread := openthermDevExchange_link hboiler hline hattached now
    msgTypeReadData msgTypeReadAck (by decide) cmd send
  have hwrite := openthermDevExchange_link hboiler hline hattached now
    msgTypeWriteData msgTypeWriteAck (by decide) cmd send
  exact ⟨hread.1, hread.2, hwrite.1, hwrite.2⟩

/-! ## A line that loses the first attempt -/

def tboilerReply : OpenthermMsg := ⟨msgTypeReadAck, 25, 0x2A80⟩

def tboilerWord : BitVec 64 :=
  manchesterEncode (openthermFrameEncode msgTypeReadAck 25 0x2A80) false

def warmBoiler : Exchange := fun _ => some tboilerReply

def lossyLine : Line := fun k word =>
  if k = 1 ∧ word = requestWord ⟨msgTypeReadData, 25, 0⟩ then
    ⟨0, (tboilerWord >>> 32).setWidth 32, tboilerWord.setWidth 32, endBit⟩
  else ⟨-2, 0, 0, 0⟩

theorem lossyLine_whole :
    (lossyLine 1 (requestWord ⟨msgTypeReadData, 25, 0⟩)).Whole tboilerWord :=
  ⟨rfl, rfl, by decide +kernel⟩

theorem boilerWord_warmBoiler :
    boilerWord warmBoiler (requestWord ⟨msgTypeReadData, 25, 0⟩) =
      some tboilerWord := by
  decide +kernel

theorem connects_lossyLine : Connects lossyLine warmBoiler := by
  intro k word
  by_cases hwhole : k = 1 ∧ word = requestWord ⟨msgTypeReadData, 25, 0⟩
  · obtain ⟨rfl, rfl⟩ := hwhole
    rw [boilerWord_warmBoiler]
    exact Or.inl lossyLine_whole
  · have hlost : (lossyLine k word).ret ≠ 0 := by
      rw [lossyLine, if_neg hwhole]
      decide
    cases boilerWord warmBoiler word with
    | none => exact hlost
    | some reply => exact Or.inr (.lost hlost)

theorem opentherm_dev_link_lossyLine :
    openthermDevRead (linkExchange ⟨true, 0⟩ lossyLine id) 25 0 =
      openthermDevRead warmBoiler 25 0 := by
  refine (opentherm_dev_link ?_ connects_lossyLine rfl id 25 0).1
    ⟨1, by decide, tboilerWord, boilerWord_warmBoiler, lossyLine_whole⟩
  rintro request reply ⟨⟩
  exact (by decide : msgTypeReadAck.toNat < 8)

end Herak.OpenTherm
