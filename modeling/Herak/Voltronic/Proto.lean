import Mathlib.Data.List.TakeWhile
import Mathlib.Data.UInt
import Mathlib.Tactic.Tauto

/-!
# Voltronic frames

`mppt_voltronic_proto.c`: the CRC of a frame and the check of a reply.  A reply
is a payload, the two bytes of its CRC and a carriage return.  An access
outside the buffer is `none`, so that a run that ends stays inside it.
-/

namespace Herak.Voltronic

/-! ## The code -/

/-- `END_OF_INPUT` -/
def endOfInput : UInt8 := 13

/-- `IS_RESERVED_BYTE` -/
def isReservedByte (ch : UInt8) : Bool :=
  ch = 0x28 || ch = 0x0D || ch = 0x0A

/-- `crc_table` -/
def crcTable : List UInt16 :=
  [0x0000, 0x1021, 0x2042, 0x3063,
    0x4084, 0x50A5, 0x60C6, 0x70E7,
    0x8108, 0x9129, 0xA14A, 0xB16B,
    0xC18C, 0xD1AD, 0xE1CE, 0xF1EF]

def crcNibble (crc nibble : UInt16) : UInt16 :=
  crcTable.getD ((crc >>> 12) ^^^ nibble).toNat 0 ^^^ (crc <<< 4)

/-- A round of the loop of `calculate_crc`. -/
def crcByte (crc : UInt16) (byte : UInt8) : UInt16 :=
  crcNibble (crcNibble crc (byte >>> 4).toUInt16) (byte &&& 0x0F).toUInt16

def crcLow (crc : UInt16) : UInt8 := crc.toUInt8

def crcHigh (crc : UInt16) : UInt8 := (crc >>> 8).toUInt8

/-- The end of `calculate_crc`, first for the low byte, then for the high
one. -/
def fixReserved (crc : UInt16) : UInt16 :=
  let crc := if isReservedByte (crcLow crc) then crc + 1 else crc
  if isReservedByte (crcHigh crc) then crc + 256 else crc

def crcLoop (buffer : List UInt8) : ℕ → ℕ → UInt16 → Option UInt16
  | 0, _, crc => some crc
  | len + 1, i, crc => do
      let byte ← buffer[i]?
      crcLoop buffer len (i + 1) (crcByte crc byte)

def calculateCrc (buffer : List UInt8) (len : ℕ) : Option UInt16 :=
  if len < 1 then some 0 else (crcLoop buffer len 0 0).map fixReserved

/-- The search for the terminator, from `i` over the next bytes. -/
def findEnd (buffer : List UInt8) : ℕ → ℕ → Option ℕ
  | 0, i => some i
  | n + 1, i => do
      let byte ← buffer[i]?
      if byte = endOfInput then some i else findEnd buffer n (i + 1)

/-- `strlen` of a buffer: without a NUL it runs out of it. -/
def strlen : List UInt8 → Option ℕ
  | [] => none
  | byte :: rest => if byte = 0 then some 0 else (strlen rest).map (· + 1)

def writeByte (buffer : List UInt8) (i : ℕ) (byte : UInt8) :
    Option (List UInt8) :=
  if i < buffer.length then some (buffer.set i byte) else none

/-- The part of `mppt_verify_reply` behind the search. -/
def verifyFrame (reply : List UInt8) (rlen : ℕ) :
    Option (ℤ × List UInt8) := do
  let crc ← calculateCrc reply (rlen - 2)
  let low ← reply[rlen - 1]?
  if low ≠ crcLow crc then some (-1, reply)
  else
    let high ← reply[rlen - 2]?
    if high ≠ crcHigh crc then some (-1, reply)
    else
      let reply ← writeByte reply (rlen - 2) 0
      let n ← strlen reply
      some (n, reply)

/-- `mppt_verify_reply` of a buffer of `len` bytes: its result and the buffer
that it leaves. -/
def mpptVerifyReply (reply : Option (List UInt8)) (len : ℤ) :
    Option (ℤ × Option (List UInt8)) :=
  match reply with
  | none => some (-1, none)
  | some reply =>
      if len < 4 then some (-1, some reply)
      else do
        let first ← reply[0]?
        if first ≠ 0x28 then some (-1, some reply)
        else
          let rlen ← findEnd reply len.toNat 0
          if len ≤ rlen then some (-1, some reply)
          else if rlen < 4 then some (-1, some reply)
          else
            let result ← verifyFrame reply rlen
            some (result.1, some result.2)

/-! ## The format -/

/-- The CRC that the code computes for a list of bytes. -/
def crcOf (body : List UInt8) : UInt16 :=
  if body = [] then 0 else fixReserved (body.foldl crcByte 0)

/-- The bytes of a frame. -/
def frame (body : List UInt8) : List UInt8 :=
  body ++ [crcHigh (crcOf body), crcLow (crcOf body), endOfInput]

/-! ## The CRC bytes -/

theorem isReservedByte_iff (ch : UInt8) :
    isReservedByte ch = true ↔
      ch.toNat = 40 ∨ ch.toNat = 13 ∨ ch.toNat = 10 := by
  simp only [isReservedByte, Bool.or_eq_true, decide_eq_true_eq,
    ← UInt8.toNat_inj, or_assoc]
  exact Iff.rfl

theorem crcLow_toNat (crc : UInt16) : (crcLow crc).toNat = crc.toNat % 256 :=
  UInt16.toNat_toUInt8 crc

theorem crcHigh_toNat (crc : UInt16) : (crcHigh crc).toNat = crc.toNat / 256 := by
  have hlt := UInt16.toNat_lt crc
  have height : (8 : UInt16).toNat % 16 = 8 := rfl
  rw [crcHigh, UInt16.toNat_toUInt8, UInt16.toNat_shiftRight, height,
    Nat.shiftRight_eq_div_pow]
  omega

/-- Neither byte of a fixed CRC is reserved. -/
theorem fixReserved_bytes (crc : UInt16) :
    isReservedByte (crcLow (fixReserved crc)) = false ∧
      isReservedByte (crcHigh (fixReserved crc)) = false := by
  have hlt := UInt16.toNat_lt crc
  have hadd : ∀ c d : UInt16, c.toNat + d.toNat < 65536 →
      (c + d).toNat = c.toNat + d.toNat := by
    intro c d h
    rw [UInt16.toNat_add]
    exact Nat.mod_eq_of_lt h
  have hone : (1 : UInt16).toNat = 1 := rfl
  have hpage : (256 : UInt16).toNat = 256 := rfl
  simp only [← Bool.not_eq_true, isReservedByte_iff, crcLow_toNat,
    crcHigh_toNat]
  -- The low byte moves by at most one inside its page, so it does not carry.
  obtain ⟨c, hc, hclow, hchigh, hfix⟩ : ∃ c : UInt16, c.toNat < 65536 ∧
      ¬(c.toNat % 256 = 40 ∨ c.toNat % 256 = 13 ∨ c.toNat % 256 = 10) ∧
      c.toNat / 256 = crc.toNat / 256 ∧
      fixReserved crc =
        if isReservedByte (crcHigh c) then c + 256 else c := by
    by_cases hlow : isReservedByte (crcLow crc) = true
    · refine ⟨crc + 1, UInt16.toNat_lt _, ?_, ?_, by
        simp only [fixReserved, hlow, if_true]⟩
      all_goals
        rw [isReservedByte_iff, crcLow_toNat] at hlow
        rw [hadd crc 1 (by omega), hone]
        omega
    · refine ⟨crc, hlt, ?_, rfl, by
        simp only [fixReserved, hlow, Bool.false_eq_true, if_false]⟩
      rwa [isReservedByte_iff, crcLow_toNat] at hlow
  rw [hfix]
  by_cases hhigh : isReservedByte (crcHigh c) = true
  · rw [if_pos hhigh]
    rw [isReservedByte_iff, crcHigh_toNat] at hhigh
    rw [hadd c 256 (by omega), hpage]
    omega
  · rw [if_neg hhigh]
    rw [isReservedByte_iff, crcHigh_toNat] at hhigh
    exact ⟨hclow, hhigh⟩

theorem calculateCrc_bytes {buffer : List UInt8} {len : ℕ} {crc : UInt16}
    (h : calculateCrc buffer len = some crc) :
    isReservedByte (crcLow crc) = false ∧
      isReservedByte (crcHigh crc) = false := by
  rw [calculateCrc] at h
  split at h
  · obtain rfl := Option.some.inj h
    exact ⟨rfl, rfl⟩
  · obtain ⟨c, -, rfl⟩ := Option.map_eq_some_iff.mp h
    exact fixReserved_bytes c

/-! ## The loops -/

theorem crcLoop_eq {buffer : List UInt8} {len i : ℕ} (crc : UInt16)
    (h : i + len ≤ buffer.length) :
    crcLoop buffer len i crc =
      some (((buffer.drop i).take len).foldl crcByte crc) := by
  induction len generalizing i crc with
  | zero => simp [crcLoop]
  | succ len ih =>
      have hi : i < buffer.length := by omega
      rw [List.drop_eq_getElem_cons hi, List.take_succ_cons, List.foldl_cons,
        ← ih (crcByte crc buffer[i]) (by omega)]
      simp [crcLoop, List.getElem?_eq_getElem hi]

theorem calculateCrc_eq {buffer : List UInt8} {len : ℕ}
    (h : len ≤ buffer.length) :
    calculateCrc buffer len = some (crcOf (buffer.take len)) := by
  by_cases hlen : len < 1
  · have hzero : len = 0 := by omega
    simp [calculateCrc, crcOf, hzero]
  · have hne : buffer.take len ≠ [] := by
      rw [Ne, List.take_eq_nil_iff]
      rintro (rfl | rfl)
      · simp at hlen
      · simp at h
        omega
    rw [calculateCrc, if_neg hlen, crcLoop_eq 0 (by omega), crcOf, if_neg hne]
    rfl

theorem crcOf_bytes (body : List UInt8) :
    isReservedByte (crcLow (crcOf body)) = false ∧
      isReservedByte (crcHigh (crcOf body)) = false := by
  have h := calculateCrc_eq (Nat.le_refl body.length)
  rw [List.take_length] at h
  exact calculateCrc_bytes h

theorem findEnd_eq {buffer : List UInt8} {n i : ℕ}
    (h : i + n ≤ buffer.length) :
    findEnd buffer n i =
      some (i + (((buffer.drop i).take n).takeWhile
        (· ≠ endOfInput)).length) := by
  induction n generalizing i with
  | zero => simp [findEnd]
  | succ n ih =>
      have hi : i < buffer.length := by omega
      rw [List.drop_eq_getElem_cons hi, List.take_succ_cons,
        List.takeWhile_cons]
      by_cases hend : buffer[i] = endOfInput
      · simp [findEnd, List.getElem?_eq_getElem hi, hend]
      · have hnext := ih (i := i + 1) (by omega)
        simp only [findEnd, List.getElem?_eq_getElem hi, Option.bind_eq_bind,
          Option.bind_some, hend, if_false, hnext]
        simp [hend]
        omega

theorem strlen_eq (body rest : List UInt8) :
    strlen (body ++ 0 :: rest) = some (body.takeWhile (· ≠ 0)).length := by
  induction body with
  | nil => simp [strlen]
  | cons byte body ih =>
      by_cases hbyte : byte = 0
      · simp [strlen, hbyte]
      · simp [strlen, hbyte, ih]

/-- What the check of a frame is when its parts are known. -/
theorem verifyFrame_eq (body rest : List UInt8) (high low : UInt8) :
    verifyFrame (body ++ high :: low :: rest) (body.length + 2) =
      if low = crcLow (crcOf body) ∧ high = crcHigh (crcOf body) then
        some (((body.takeWhile (· ≠ 0)).length : ℤ),
          body ++ 0 :: low :: rest)
      else some (-1, body ++ high :: low :: rest) := by
  have hcrc : calculateCrc (body ++ high :: low :: rest) body.length =
      some (crcOf body) := by
    rw [calculateCrc_eq (by simp), List.take_left']
    rfl
  have hlow : (body ++ high :: low :: rest)[body.length + 1]? = some low := by
    rw [List.getElem?_append_right (by omega)]
    simp
  have hhigh : (body ++ high :: low :: rest)[body.length]? = some high := by
    rw [List.getElem?_append_right (Nat.le_refl _)]
    simp
  have hwrite : writeByte (body ++ high :: low :: rest) body.length 0 =
      some (body ++ 0 :: low :: rest) := by
    rw [writeByte, if_pos (by simp), List.set_append_right _ _ (Nat.le_refl _)]
    simp
  simp only [verifyFrame, Nat.add_sub_cancel, Nat.reduceSubDiff, hcrc, hlow,
    hhigh, hwrite, strlen_eq, Option.bind_eq_bind, Option.bind_some]
  by_cases h1 : low = crcLow (crcOf body)
  · by_cases h2 : high = crcHigh (crcOf body)
    · simp [h1, h2]
    · simp [h1, h2]
  · simp [h1]

/-! ## The check -/

/-- What the search for the terminator passes over. -/
def beforeEnd (reply : List UInt8) : List UInt8 :=
  reply.takeWhile (· ≠ endOfInput)

theorem findEnd_beforeEnd (reply : List UInt8) :
    findEnd reply reply.length 0 = some (beforeEnd reply).length := by
  rw [findEnd_eq (by omega)]
  simp [beforeEnd]

theorem endOfInput_notMem_beforeEnd (reply : List UInt8) :
    endOfInput ∉ beforeEnd reply := fun hmem => by
  simpa using List.mem_takeWhile_imp hmem

/-- A buffer with a terminator is the bytes before it, the terminator and the
rest. -/
theorem eq_beforeEnd_append {reply : List UInt8}
    (h : (beforeEnd reply).length < reply.length) :
    ∃ rest, reply = beforeEnd reply ++ endOfInput :: rest := by
  obtain ⟨rest, hrest⟩ : beforeEnd reply <+: reply := List.takeWhile_prefix _
  have hsplit : reply = beforeEnd reply ++ rest := hrest.symm
  cases rest with
  | nil =>
      rw [List.append_nil] at hrest
      rw [hrest] at h
      exact (Nat.lt_irrefl _ h).elim
  | cons byte rest =>
      refine ⟨rest, hsplit.trans ?_⟩
      -- The search stops at the first byte that it does not pass over.
      have hend : byte = endOfInput := by
        by_contra hne
        have hlong : beforeEnd reply = beforeEnd reply ++
            (byte :: rest).takeWhile (· ≠ endOfInput) := by
          conv_lhs => rw [hsplit]
          refine List.takeWhile_append_of_pos fun b hb => ?_
          simpa using List.mem_takeWhile_imp hb
        simp [hne] at hlong
      rw [hend]

/-- The bytes before the terminator, in the three parts of a frame. -/
theorem eq_body_crc {before : List UInt8} (h : 2 ≤ before.length) :
    ∃ body high low, before = body ++ [high, low] := by
  rcases List.eq_nil_or_concat before with rfl | ⟨initial, low, rfl⟩
  · simp at h
  rcases List.eq_nil_or_concat initial with rfl | ⟨body, high, rfl⟩
  · simp at h
  exact ⟨body, high, low, by simp⟩

/-- A buffer that starts a frame is checked up to its terminator. -/
theorem mpptVerifyReply_started {reply : List UInt8}
    (hlen : 4 ≤ reply.length) (hfirst : reply.head? = some 0x28) :
    mpptVerifyReply (some reply) reply.length =
      if reply.length ≤ (beforeEnd reply).length then some (-1, some reply)
      else if (beforeEnd reply).length < 4 then some (-1, some reply)
      else (verifyFrame reply (beforeEnd reply).length).map fun result =>
        (result.1, some result.2) := by
  have hlong : ¬(reply.length : ℤ) < 4 := by omega
  rw [List.head?_eq_getElem?] at hfirst
  simp only [mpptVerifyReply, if_neg hlong, hfirst, Option.bind_eq_bind,
    Option.bind_some, Int.toNat_natCast, findEnd_beforeEnd, Int.ofNat_le,
    ne_eq, not_true, if_false]
  split
  · rfl
  · split
    · rfl
    · cases verifyFrame reply (beforeEnd reply).length <;> rfl

/-- The check of a buffer is a refusal or the check of its frame. -/
theorem mpptVerifyReply_cases (reply : List UInt8) :
    mpptVerifyReply (some reply) reply.length = some (-1, some reply) ∨
      ∃ body high low rest,
        reply = body ++ high :: low :: endOfInput :: rest ∧
        endOfInput ∉ body ∧
        mpptVerifyReply (some reply) reply.length =
          (verifyFrame reply (body.length + 2)).map fun result =>
            (result.1, some result.2) := by
  by_cases hlen : 4 ≤ reply.length
  swap
  · exact Or.inl (if_pos (by omega))
  by_cases hfirst : reply.head? = some 0x28
  swap
  · have hpos : 0 < reply.length := by omega
    have hhead : reply[0]? = some reply[0] := List.getElem?_eq_getElem hpos
    rw [List.head?_eq_getElem?, hhead, Option.some.injEq] at hfirst
    have hlong : ¬(reply.length : ℤ) < 4 := by omega
    refine Or.inl ?_
    simp only [mpptVerifyReply, if_neg hlong, hhead, Option.bind_eq_bind,
      Option.bind_some]
    rw [if_pos hfirst]
  have hresult := mpptVerifyReply_started hlen hfirst
  by_cases hend : reply.length ≤ (beforeEnd reply).length
  · exact Or.inl (hresult.trans (if_pos hend))
  by_cases hshort : (beforeEnd reply).length < 4
  · exact Or.inl (hresult.trans ((if_neg hend).trans (if_pos hshort)))
  obtain ⟨rest, hrest⟩ := eq_beforeEnd_append (Nat.lt_of_not_le hend)
  obtain ⟨body, high, low, hbefore⟩ := eq_body_crc
    (by omega : 2 ≤ (beforeEnd reply).length)
  have hnot := endOfInput_notMem_beforeEnd reply
  rw [if_neg hend, if_neg hshort] at hresult
  rw [hbefore] at hrest hnot hresult
  refine Or.inr ⟨body, high, low, rest, by simpa using hrest, ?_, ?_⟩
  · exact fun hmem => hnot (List.mem_append_left _ hmem)
  · simpa using hresult

theorem verifyFrame_of_crc (body rest : List UInt8) :
    verifyFrame (frame body ++ rest) (body.length + 2) =
      some (((body.takeWhile (· ≠ 0)).length : ℤ),
        body ++ 0 :: crcLow (crcOf body) :: endOfInput :: rest) := by
  have h := verifyFrame_eq body (endOfInput :: rest) (crcHigh (crcOf body))
    (crcLow (crcOf body))
  rw [if_pos ⟨rfl, rfl⟩] at h
  simpa [frame] using h

theorem beforeEnd_frame {body : List UInt8} (hbody : endOfInput ∉ body)
    (rest : List UInt8) :
    beforeEnd (frame body ++ rest) =
      body ++ [crcHigh (crcOf body), crcLow (crcOf body)] := by
  obtain ⟨hlow, hhigh⟩ := crcOf_bytes body
  have hne : ∀ byte, isReservedByte byte = false → byte ≠ endOfInput := by
    rintro byte hbyte rfl
    exact Bool.false_ne_true hbyte.symm
  have hframe : frame body ++ rest =
      (body ++ [crcHigh (crcOf body), crcLow (crcOf body)]) ++
        endOfInput :: rest := by
    simp [frame]
  rw [beforeEnd, hframe, List.takeWhile_append_of_pos]
  · simp
  · intro byte hbyte
    rcases List.mem_append.mp hbyte with hbyte | hbyte
    · simpa using fun h : byte = endOfInput => hbody (h ▸ hbyte)
    · rcases List.mem_pair.mp hbyte with rfl | rfl
      · simpa using hne _ hhigh
      · simpa using hne _ hlow

/-- A reply of the device is accepted whole. -/
theorem mpptVerifyReply_frame {payload : List UInt8} (rest : List UInt8)
    (hstart : payload.head? = some 0x28) (hlen : 2 ≤ payload.length)
    (hend : endOfInput ∉ payload) (hnul : 0 ∉ payload) :
    mpptVerifyReply (some (frame payload ++ rest))
        (frame payload ++ rest).length =
      some ((payload.length : ℤ),
        some (payload ++ 0 :: crcLow (crcOf payload) :: endOfInput :: rest)) := by
  have hbefore := beforeEnd_frame hend rest
  have hlength : (frame payload ++ rest).length =
      payload.length + 3 + rest.length := by
    simp [frame]
    omega
  have hfirst : (frame payload ++ rest).head? = some 0x28 := by
    rw [frame, List.append_assoc, List.head?_append, hstart]
    rfl
  have hwhole : payload.takeWhile (· ≠ 0) = payload := by
    rw [List.takeWhile_eq_self_iff]
    intro byte hbyte
    simpa using fun h : byte = 0 => hnul (h ▸ hbyte)
  rw [mpptVerifyReply_started (by omega) hfirst, hbefore, hlength]
  have hcount : (payload ++ [crcHigh (crcOf payload),
      crcLow (crcOf payload)]).length = payload.length + 2 := by
    simp
  rw [hcount, if_neg (by omega), if_neg (by omega), verifyFrame_of_crc,
    hwhole]
  rfl

/-- The reply `(NAK` of the simulated device. -/
example :
    mpptVerifyReply (some [0x28, 0x4E, 0x41, 0x4B, 0x73, 0x73, 0x0D, 0]) 8 =
      some (4, some [0x28, 0x4E, 0x41, 0x4B, 0, 0x73, 0x0D, 0]) := by
  decide +kernel

/-- A buffer that is accepted starts with a frame. -/
theorem frame_of_accepted {reply reply' : List UInt8} {n : ℤ}
    (h : mpptVerifyReply (some reply) reply.length = some (n, some reply'))
    (hn : 0 ≤ n) :
    ∃ body rest, reply = frame body ++ rest ∧ endOfInput ∉ body ∧
      n = (body.takeWhile (· ≠ 0)).length := by
  rcases mpptVerifyReply_cases reply with
    hrefused | ⟨body, high, low, rest, hreply, hbody, hchecked⟩
  · rw [hrefused] at h
    simp only [Option.some.injEq, Prod.mk.injEq] at h
    omega
  · have hframe := verifyFrame_eq body (endOfInput :: rest) high low
    rw [← hreply] at hframe
    rw [hchecked, hframe] at h
    split at h
    next hcrc =>
      refine ⟨body, rest, ?_, hbody, ?_⟩
      · rw [hreply, hcrc.1, hcrc.2]
        simp [frame]
      · simp only [Option.map_some, Option.some.injEq, Prod.mk.injEq] at h
        exact h.1.symm
    · simp only [Option.map_some, Option.some.injEq, Prod.mk.injEq] at h
      omega

/-- The check of a buffer of `len` bytes ends without an access outside it. -/
theorem mpptVerifyReply_isSome (reply : List UInt8) :
    (mpptVerifyReply (some reply) reply.length).isSome := by
  rcases mpptVerifyReply_cases reply with
    hrefused | ⟨body, high, low, rest, hreply, -, hchecked⟩
  · rw [hrefused]
    rfl
  · have hframe := verifyFrame_eq body (endOfInput :: rest) high low
    rw [← hreply] at hframe
    rw [hchecked, hframe, Option.isSome_map]
    split <;> rfl

/-- The encoder and the check agree on the frames, and the check stays inside
the buffer. -/
theorem frame_codec :
    (∀ payload rest : List UInt8, payload.head? = some 0x28 →
      2 ≤ payload.length → endOfInput ∉ payload → 0 ∉ payload →
      calculateCrc payload payload.length = some (crcOf payload) ∧
        ∃ left, mpptVerifyReply (some (frame payload ++ rest))
            (frame payload ++ rest).length =
          some ((payload.length : ℤ), some left) ∧
            left.take payload.length = payload) ∧
    (∀ (reply reply' : List UInt8) (n : ℤ),
      mpptVerifyReply (some reply) reply.length = some (n, some reply') →
      0 ≤ n →
      ∃ body rest, reply = frame body ++ rest ∧
        beforeEnd reply =
          body ++ [crcHigh (crcOf body), crcLow (crcOf body)] ∧
        calculateCrc reply body.length = some (crcOf body) ∧
        n = (body.takeWhile (· ≠ 0)).length) ∧
    (∀ (buffer : List UInt8) (len : ℕ) (crc : UInt16),
      calculateCrc buffer len = some crc →
      isReservedByte (crcLow crc) = false ∧
        isReservedByte (crcHigh crc) = false) ∧
    ∀ (reply : List UInt8) (len : ℤ), reply.length = len.toNat →
      (mpptVerifyReply (some reply) len).isSome := by
  refine ⟨fun payload rest hstart hlen hend hnul => ?_,
    fun reply reply' n h hn => ?_, fun _ _ _ h => calculateCrc_bytes h,
    fun reply len hlen => ?_⟩
  · refine ⟨?_, _, mpptVerifyReply_frame rest hstart hlen hend hnul,
      List.take_left' rfl⟩
    rw [calculateCrc_eq (Nat.le_refl _), List.take_length]
  · obtain ⟨body, rest, hreply, hbody, hcount⟩ := frame_of_accepted h hn
    refine ⟨body, rest, hreply, ?_, ?_, hcount⟩
    · rw [hreply]
      exact beforeEnd_frame hbody rest
    · rw [hreply, calculateCrc_eq (by simp [frame]), frame,
        List.append_assoc, List.take_left' rfl]
  · by_cases hneg : len < 4
    · rw [mpptVerifyReply, if_pos hneg]
      rfl
    · have hcast : len = reply.length := by omega
      rw [hcast]
      exact mpptVerifyReply_isSome reply

end Herak.Voltronic
