import Herak.OpenTherm.Manchester

/-!
# OpenTherm frames

`opentherm_pio.c`: a message is packed into a frame of even parity, which is
sent in Manchester code.
-/

namespace Herak.OpenTherm

/-! ## The code -/

/-- `opentherm_msg_t` -/
structure OpenthermMsg where
  msgType : BitVec 8
  id : BitVec 8
  value : BitVec 16
  deriving DecidableEq

/-- `__builtin_popcount` -/
def builtinPopcount (frame : BitVec 32) : ℕ :=
  (List.range 32).countP fun i => frame.getLsbD i

/-- `opentherm_frame_encode` -/
def openthermFrameEncode (msgType dataId : BitVec 8) (dataValue : BitVec 16) :
    BitVec 32 :=
  let frame : BitVec 32 := (msgType &&& 0x07).setWidth 32 <<< 28 |||
    dataId.setWidth 32 <<< 16 ||| dataValue.setWidth 32
  if builtinPopcount frame % 2 = 1 then frame ||| 0x80000000 else frame

/-- `opentherm_frame_decode`; `none` is its failure. -/
def openthermFrameDecode (frame : BitVec 32) : Option OpenthermMsg :=
  if builtinPopcount frame % 2 = 1 then none
  else some
    { msgType := (frame >>> 28 &&& 0x07).setWidth 8
      id := (frame >>> 16 &&& 0xFF).setWidth 8
      value := (frame &&& 0xFFFF).setWidth 16 }

/-! ## Parity -/

theorem countP_xor_mod_two {α : Type*} (f g : α → Bool) (l : List α) :
    l.countP (fun a => f a ^^ g a) % 2 = (l.countP f + l.countP g) % 2 := by
  induction l with
  | nil => rfl
  | cons a l ih =>
      simp only [List.countP_cons]
      cases f a <;> cases g a <;> simp <;> omega

theorem builtinPopcount_xor (a b : BitVec 32) :
    builtinPopcount (a ^^^ b) % 2 =
      (builtinPopcount a + builtinPopcount b) % 2 := by
  simp only [builtinPopcount, BitVec.getLsbD_xor]
  exact countP_xor_mod_two _ _ _

/-- Setting the parity bit changes the parity. -/
theorem builtinPopcount_or_top {frame : BitVec 32}
    (h : frame.getLsbD 31 = false) :
    builtinPopcount (frame ||| 0x80000000) = builtinPopcount frame + 1 := by
  have htop : (0x80000000 : BitVec 32) = BitVec.twoPow 32 31 := by decide
  have hlow : ∀ i ∈ List.range 31,
      (frame ||| BitVec.twoPow 32 31).getLsbD i = true ↔
        frame.getLsbD i = true := by
    intro i hi
    have hne : ¬31 = i := Nat.ne_of_gt (List.mem_range.mp hi)
    simp [BitVec.getLsbD_or, BitVec.getLsbD_twoPow, hne]
  have hbit : (frame ||| BitVec.twoPow 32 31).getLsbD 31 = true := by
    rw [BitVec.getLsbD_or, h, BitVec.getLsbD_twoPow]
    rfl
  rw [htop, builtinPopcount, builtinPopcount, List.range_succ,
    List.countP_append, List.countP_append, List.countP_congr hlow,
    List.countP_singleton, List.countP_singleton, hbit, h]
  rfl

theorem openthermFrameEncode_even (msgType dataId : BitVec 8)
    (dataValue : BitVec 16) :
    builtinPopcount (openthermFrameEncode msgType dataId dataValue) % 2 =
      0 := by
  simp only [openthermFrameEncode]
  split
  next hodd =>
    rw [builtinPopcount_or_top (by simp)]
    omega
  next heven => omega

/-! ## Fields -/

theorem openthermFrameEncode_getLsbD (msgType dataId : BitVec 8)
    (dataValue : BitVec 16) {i : ℕ} (hi : i < 31) :
    (openthermFrameEncode msgType dataId dataValue).getLsbD i =
      ((msgType &&& 0x07).setWidth 32 <<< 28 ||| dataId.setWidth 32 <<< 16 |||
        dataValue.setWidth 32 : BitVec 32).getLsbD i := by
  have htop : (0x80000000 : BitVec 32) = BitVec.twoPow 32 31 := by decide
  have hne : ¬31 = i := Nat.ne_of_gt hi
  simp only [openthermFrameEncode]
  split
  · rw [htop, BitVec.getLsbD_or, BitVec.getLsbD_twoPow, decide_eq_false hne,
      Bool.and_false, Bool.or_false]
  · rfl

section

variable (msgType dataId : BitVec 8) (dataValue : BitVec 16) {i : ℕ}

theorem openthermFrameEncode_value (hi : i < 16) :
    (openthermFrameEncode msgType dataId dataValue).getLsbD i =
      dataValue.getLsbD i := by
  have hid : i < 28 := by omega
  have hbit : i < 32 := by omega
  rw [openthermFrameEncode_getLsbD msgType dataId dataValue (by omega)]
  simp only [BitVec.getLsbD_or, BitVec.getLsbD_shiftLeft,
    BitVec.getLsbD_setWidth, hi, hid, hbit, decide_true, Bool.not_true,
    Bool.and_false, Bool.false_and, Bool.false_or, Bool.true_and]

theorem openthermFrameEncode_id (hi : i < 8) :
    (openthermFrameEncode msgType dataId dataValue).getLsbD (16 + i) =
      dataId.getLsbD i := by
  have htype : 16 + i < 28 := by omega
  have hlow : ¬16 + i < 16 := by omega
  have hbit : i < 32 ∧ 16 + i < 32 := by omega
  rw [openthermFrameEncode_getLsbD msgType dataId dataValue (by omega)]
  simp only [BitVec.getLsbD_or, BitVec.getLsbD_shiftLeft,
    BitVec.getLsbD_setWidth, htype, hlow, hbit, decide_true, decide_false,
    Bool.not_true, Bool.not_false, Bool.and_false, Bool.false_and,
    Bool.false_or, Bool.true_and, Nat.add_sub_cancel_left,
    BitVec.getLsbD_of_ge dataValue (16 + i) (by omega), Bool.or_false]

theorem openthermFrameEncode_type (hi : i < 3) :
    (openthermFrameEncode msgType dataId dataValue).getLsbD (28 + i) =
      msgType.getLsbD i := by
  have hmask : ∀ k < 3, (7 : BitVec 8).getLsbD k = true := by decide
  have hlow : ¬28 + i < 28 ∧ ¬28 + i < 16 := by omega
  have hbit : i < 32 ∧ 28 + i < 32 ∧ 28 + i - 16 < 32 := by omega
  rw [openthermFrameEncode_getLsbD msgType dataId dataValue (by omega)]
  simp only [BitVec.getLsbD_or, BitVec.getLsbD_shiftLeft, BitVec.getLsbD_and,
    BitVec.getLsbD_setWidth, hlow, hbit, decide_true, decide_false,
    Bool.not_false, Bool.and_true, Bool.true_and, Nat.add_sub_cancel_left,
    BitVec.getLsbD_of_ge dataValue (28 + i) (by omega),
    BitVec.getLsbD_of_ge dataId (28 + i - 16) (by omega), Bool.or_false,
    hmask i hi]

end

/-- A frame holds the message that it is made of. -/
theorem openthermFrameDecode_encode (msgType : BitVec 3) (dataId : BitVec 8)
    (dataValue : BitVec 16) :
    openthermFrameDecode
        (openthermFrameEncode (msgType.setWidth 8) dataId dataValue) =
      some ⟨msgType.setWidth 8, dataId, dataValue⟩ := by
  have heven := openthermFrameEncode_even (msgType.setWidth 8) dataId dataValue
  rw [openthermFrameDecode, if_neg (by omega), Option.some.injEq,
    OpenthermMsg.mk.injEq]
  refine ⟨?_, ?_, ?_⟩
  · refine BitVec.eq_of_getLsbD_eq fun i hi => ?_
    have hseven : ∀ k < 8, (7 : BitVec 32).getLsbD k = decide (k < 3) := by
      decide
    rw [BitVec.getLsbD_setWidth, BitVec.getLsbD_and, BitVec.getLsbD_ushiftRight,
      BitVec.getLsbD_setWidth, hseven i hi]
    by_cases hlow : i < 3
    · rw [openthermFrameEncode_type _ _ _ hlow, BitVec.getLsbD_setWidth]
      simp [hlow, hi]
    · rw [BitVec.getLsbD_of_ge msgType i (by omega)]
      simp [hlow]
  · refine BitVec.eq_of_getLsbD_eq fun i hi => ?_
    have hbyte : ∀ k < 8, (0xFF : BitVec 32).getLsbD k = true := by decide
    rw [BitVec.getLsbD_setWidth, BitVec.getLsbD_and, BitVec.getLsbD_ushiftRight,
      hbyte i hi, openthermFrameEncode_id _ _ _ hi]
    simp [hi]
  · refine BitVec.eq_of_getLsbD_eq fun i hi => ?_
    have hword : ∀ k < 16, (0xFFFF : BitVec 32).getLsbD k = true := by decide
    rw [BitVec.getLsbD_setWidth, BitVec.getLsbD_and, hword i hi,
      openthermFrameEncode_value _ _ _ hi]
    simp [hi]

/-! ## The line -/

/-- The decoder undoes the encoder. -/
theorem manchesterDecode_encode (frame : BitVec 32) (invert : Bool) :
    manchesterDecode (manchesterEncode frame invert) invert = some frame := by
  have hpairs : PairsValid (manchesterEncode frame invert) 32 := by
    intro k hk heq
    rw [manchesterEncode_getLsbD frame invert (by omega),
      manchesterEncode_getLsbD frame invert (by omega), halfBit, halfBit] at heq
    have hodd : (2 * k + 1) / 2 = k ∧ (2 * k + 1) % 2 ≠ 0 := by omega
    have heven : 2 * k / 2 = k ∧ 2 * k % 2 = 0 := by omega
    rw [hodd.1, heven.1, decide_eq_false hodd.2, decide_eq_true heven.2] at heq
    simp at heq
  have hspec := manchesterDecode_spec (manchesterEncode frame invert) invert
  rw [if_pos hpairs] at hspec
  obtain ⟨value, hvalue, hbits⟩ := hspec
  rw [hvalue, Option.some.injEq]
  refine BitVec.eq_of_getLsbD_eq fun i hi => ?_
  have hodd : (2 * i + 1) / 2 = i ∧ (2 * i + 1) % 2 ≠ 0 := by omega
  rw [hbits i hi, manchesterEncode_getLsbD frame invert (by omega), halfBit,
    hodd.1, decide_eq_false hodd.2]
  simp

/-- What is decoded is encoded as the same word. -/
theorem manchesterEncode_decode {mframe : BitVec 64} {invert : Bool}
    {frame : BitVec 32} (h : manchesterDecode mframe invert = some frame) :
    manchesterEncode frame invert = mframe := by
  have hspec := manchesterDecode_spec mframe invert
  split at hspec
  next hpairs =>
    obtain ⟨value, hvalue, hbits⟩ := hspec
    obtain rfl := Option.some.inj (hvalue.symm.trans h)
    refine BitVec.eq_of_getLsbD_eq fun i hi => ?_
    rw [manchesterEncode_getLsbD value invert hi, halfBit,
      hbits _ (by omega)]
    have hpair := hpairs (i / 2) (by omega)
    rw [PairValid] at hpair
    obtain hodd | heven : i % 2 ≠ 0 ∨ i % 2 = 0 := by omega
    · have hself : 2 * (i / 2) + 1 = i := by omega
      rw [hself, decide_eq_false hodd]
      simp
    · have hself : 2 * (i / 2) = i := by omega
      rw [hself] at hpair ⊢
      rw [decide_eq_true heven]
      revert hpair
      generalize mframe.getLsbD (i + 1) = first
      generalize mframe.getLsbD i = second
      cases first <;> cases second <;> cases invert <;> simp
  next => rw [hspec] at h; cases h

/-- A word with one half-bit changed has two equal half-bits. -/
theorem manchesterDecode_flip (frame : BitVec 32) (invert : Bool) {i : ℕ}
    (hi : i < 64) :
    manchesterDecode (manchesterEncode frame invert ^^^ BitVec.twoPow 64 i)
      invert = none := by
  have hspec := manchesterDecode_spec
    (manchesterEncode frame invert ^^^ BitVec.twoPow 64 i) invert
  rw [if_neg] at hspec
  · exact hspec
  intro hpairs
  refine hpairs (i / 2) (by omega) ?_
  have hodd : (2 * (i / 2) + 1) / 2 = i / 2 ∧ (2 * (i / 2) + 1) % 2 ≠ 0 := by
    omega
  have heven : 2 * (i / 2) / 2 = i / 2 ∧ 2 * (i / 2) % 2 = 0 := by omega
  rw [BitVec.getLsbD_xor, BitVec.getLsbD_xor, BitVec.getLsbD_twoPow,
    BitVec.getLsbD_twoPow, manchesterEncode_getLsbD frame invert (by omega),
    manchesterEncode_getLsbD frame invert (by omega), halfBit, halfBit, hodd.1,
    heven.1, decide_eq_false hodd.2, decide_eq_true heven.2, decide_eq_true hi]
  obtain hlast | hfirst : i = 2 * (i / 2) ∨ i = 2 * (i / 2) + 1 := by omega
  · have hother : ¬i = 2 * (i / 2) + 1 := by omega
    rw [decide_eq_true hlast, decide_eq_false hother]
    simp
  · have hother : ¬i = 2 * (i / 2) := by omega
    rw [decide_eq_true hfirst, decide_eq_false hother]
    simp

/-- Half-bits that change in pairs change the bits of the word. -/
theorem manchesterEncode_xor {frame flips : BitVec 32} {invert : Bool}
    {mframe : BitVec 64}
    (h : ∀ i < 64, mframe.getLsbD i =
      ((manchesterEncode frame invert).getLsbD i ^^ flips.getLsbD (i / 2))) :
    mframe = manchesterEncode (frame ^^^ flips) invert := by
  refine BitVec.eq_of_getLsbD_eq fun i hi => ?_
  rw [h i hi, manchesterEncode_getLsbD _ _ hi, manchesterEncode_getLsbD _ _ hi,
    halfBit, halfBit, BitVec.getLsbD_xor]
  cases frame.getLsbD (i / 2) <;> cases flips.getLsbD (i / 2) <;>
    cases invert <;> simp

/-- The line codec.  Every message comes back in both polarities; the decoder
accepts the words of the encoder alone; a changed half-bit is found by the
decoder, and an odd number of changed bits by the parity. -/
theorem opentherm_line_codec :
    (∀ (msgType : BitVec 3) (dataId : BitVec 8) (dataValue : BitVec 16)
        (invert : Bool),
      (manchesterDecode (manchesterEncode (openthermFrameEncode
          (msgType.setWidth 8) dataId dataValue) invert) invert).bind
        openthermFrameDecode =
          some ⟨msgType.setWidth 8, dataId, dataValue⟩) ∧
      (∀ (mframe : BitVec 64) (invert : Bool),
        ((manchesterDecode mframe invert).isSome = true ↔
          ∃ frame, manchesterEncode frame invert = mframe) ∧
        ∀ frame, manchesterDecode mframe invert = some frame →
          manchesterEncode frame invert = mframe) ∧
      (∀ (frame : BitVec 32) (invert : Bool), ∀ i < 64,
        manchesterDecode (manchesterEncode frame invert ^^^ BitVec.twoPow 64 i)
          invert = none) ∧
      ∀ (msgType dataId : BitVec 8) (dataValue : BitVec 16) (invert : Bool)
        (flips : BitVec 32) (mframe : BitVec 64),
        builtinPopcount flips % 2 = 1 →
        (∀ i < 64, mframe.getLsbD i =
          ((manchesterEncode (openthermFrameEncode msgType dataId dataValue)
            invert).getLsbD i ^^ flips.getLsbD (i / 2))) →
        ∃ frame, manchesterDecode mframe invert = some frame ∧
          openthermFrameDecode frame = none := by
  refine ⟨?_, ?_, fun frame invert i => manchesterDecode_flip frame invert, ?_⟩
  · intro msgType dataId dataValue invert
    rw [manchesterDecode_encode, Option.bind_some, openthermFrameDecode_encode]
  · intro mframe invert
    refine ⟨⟨fun h => ?_, ?_⟩, fun frame => manchesterEncode_decode⟩
    · obtain ⟨frame, hframe⟩ := Option.isSome_iff_exists.mp h
      exact ⟨frame, manchesterEncode_decode hframe⟩
    · rintro ⟨frame, rfl⟩
      rw [manchesterDecode_encode]
      rfl
  · intro msgType dataId dataValue invert flips mframe hodd hflips
    refine ⟨openthermFrameEncode msgType dataId dataValue ^^^ flips, ?_, ?_⟩
    · rw [manchesterEncode_xor hflips, manchesterDecode_encode]
    · have heven := openthermFrameEncode_even msgType dataId dataValue
      have hxor := builtinPopcount_xor
        (openthermFrameEncode msgType dataId dataValue) flips
      rw [openthermFrameDecode, if_pos]
      omega

end Herak.OpenTherm
