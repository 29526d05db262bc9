import Mathlib.Data.Nat.Bits
import Mathlib.Data.BitVec

/-!
# Manchester code

`manchester_code.c`: a word of 32 bits is sent as 64 half-bits, two different
ones for each bit.  Bit `k` of the word becomes the half-bits `2k + 1` and
`2k`, the first of which is the bit itself unless the line is inverted.
-/

namespace Herak.OpenTherm

/-! ## The code -/

/-- The loop of `manchester_encode`; the fuel is more than the bits of a
mask. -/
def encodeLoop (frame : BitVec 32) (one zero : BitVec 64) :
    ℕ → BitVec 32 → BitVec 64 → BitVec 64
  | 0, _, mframe => mframe
  | fuel + 1, mask, mframe =>
      if mask = 0 then mframe
      else if frame &&& mask ≠ 0 then
        encodeLoop frame one zero fuel (mask >>> 1) (mframe <<< 2 ||| one)
      else encodeLoop frame one zero fuel (mask >>> 1) (mframe <<< 2 ||| zero)

/-- `manchester_encode` -/
def manchesterEncode (frame : BitVec 32) (invert : Bool) : BitVec 64 :=
  encodeLoop frame (if invert then 1 else 2) (if invert then 2 else 1) 33
    0x80000000 0

/-- The loop of `manchester_decode`. -/
def decodeLoop (mframe : BitVec 64) (one zero : BitVec 32) :
    ℕ → BitVec 64 → BitVec 64 → BitVec 32 → Option (BitVec 32)
  | 0, _, _, frame => some frame
  | n + 1, mask, mask2, frame =>
      if mframe &&& mask ≠ 0 then
        if mframe &&& mask2 ≠ 0 then none
        else
          decodeLoop mframe one zero n (mask >>> 2) (mask2 >>> 2)
            (frame <<< 1 ||| one)
      else if mframe &&& mask2 = 0 then none
      else
        decodeLoop mframe one zero n (mask >>> 2) (mask2 >>> 2)
          (frame <<< 1 ||| zero)

/-- `manchester_decode`; `none` is its failure. -/
def manchesterDecode (mframe : BitVec 64) (invert : Bool) :
    Option (BitVec 32) :=
  decodeLoop mframe (if invert then 0 else 1) (if invert then 1 else 0) 32
    0x8000000000000000 0x4000000000000000 0

/-! ## Masks -/

theorem and_twoPow_ne_zero {w i : ℕ} (x : BitVec w) (hi : i < w) :
    x &&& BitVec.twoPow w i ≠ 0 ↔ x.getLsbD i = true := by
  rw [BitVec.and_twoPow]
  cases x.getLsbD i with
  | false => simp
  | true =>
      simp only [if_true, iff_true]
      intro hzero
      have hbit := congrArg (BitVec.getLsbD · i) hzero
      simp [hi] at hbit

theorem twoPow_ushiftRight {w i k : ℕ} (hk : k ≤ i) (hi : i < w) :
    BitVec.twoPow w i >>> k = BitVec.twoPow w (i - k) := by
  ext j hj
  simp only [BitVec.getElem_ushiftRight, BitVec.getLsbD_twoPow,
    BitVec.getElem_twoPow, hi, decide_true, Bool.true_and]
  exact decide_eq_decide.mpr (by omega)

theorem one_ushiftRight_one {w : ℕ} :
    BitVec.twoPow w 0 >>> 1 = 0 := by
  ext j hj
  simp only [BitVec.getElem_ushiftRight, BitVec.getLsbD_twoPow]
  simp
  omega

theorem twoPow_ne_zero {w i : ℕ} (hi : i < w) : BitVec.twoPow w i ≠ 0 := by
  intro hzero
  have hbit := congrArg (BitVec.getLsbD · i) hzero
  simp [hi] at hbit

/-! ## The encoder -/

/-- The half-bit `i` of a word. -/
def halfBit (frame : BitVec 32) (invert : Bool) (i : ℕ) : Bool :=
  (frame.getLsbD (i / 2) ^^ invert) ^^ (i % 2 = 0)

/-- The two half-bits that a round of the encoder appends. -/
theorem appended_getLsbD (mframe : BitVec 64) (bit invert : Bool) {j : ℕ}
    (hj : j < 64) :
    (mframe <<< 2 ||| if bit then (if invert then 1 else 2)
        else (if invert then 2 else 1)).getLsbD j =
      if j < 2 then (bit ^^ invert) ^^ (j % 2 = 0)
      else mframe.getLsbD (j - 2) := by
  have hhigh : ∀ k : Fin 64, 2 ≤ k.val → (1 : BitVec 64).getLsbD k = false ∧
      (2 : BitVec 64).getLsbD k = false := by decide
  rw [BitVec.getLsbD_or, BitVec.getLsbD_shiftLeft]
  by_cases htwo : j < 2
  · obtain rfl | rfl : j = 0 ∨ j = 1 := by omega
    · cases bit <;> cases invert <;> simp
    · cases bit <;> cases invert <;> simp
  · obtain ⟨hone, hzero⟩ := hhigh ⟨j, hj⟩ (Nat.not_lt.mp htwo)
    dsimp only at hone hzero
    rw [if_neg htwo]
    have htail : (if bit then (if invert then (1 : BitVec 64) else 2)
        else (if invert then 2 else 1)).getLsbD j = false := by
      cases bit <;> cases invert <;> assumption
    rw [htail]
    simp [htwo, hj]

/-- A round of the encoder. -/
theorem encodeLoop_round (frame : BitVec 32) (invert : Bool) {fuel n : ℕ}
    (hn : n < 32) (mframe : BitVec 64) :
    encodeLoop frame (if invert then 1 else 2) (if invert then 2 else 1)
        (fuel + 1) (BitVec.twoPow 32 n) mframe =
      encodeLoop frame (if invert then 1 else 2) (if invert then 2 else 1)
        fuel (BitVec.twoPow 32 n >>> 1)
        (mframe <<< 2 ||| if frame.getLsbD n then (if invert then 1 else 2)
          else (if invert then 2 else 1)) := by
  rw [encodeLoop, if_neg (twoPow_ne_zero hn)]
  simp only [and_twoPow_ne_zero frame hn]
  split <;> rfl

/-- The loop appends the bits of the word from bit `n` down. -/
theorem encodeLoop_getLsbD (frame : BitVec 32) (invert : Bool) {fuel n : ℕ}
    (hn : n < 32) (hfuel : n + 2 ≤ fuel) (mframe : BitVec 64) {i : ℕ}
    (hi : i < 64) :
    (encodeLoop frame (if invert then 1 else 2) (if invert then 2 else 1) fuel
        (BitVec.twoPow 32 n) mframe).getLsbD i =
      if i < 2 * (n + 1) then halfBit frame invert i
      else mframe.getLsbD (i - 2 * (n + 1)) := by
  induction n generalizing fuel mframe with
  | zero =>
      obtain ⟨fuel, rfl⟩ : ∃ k, fuel = k + 2 := ⟨fuel - 2, by omega⟩
      rw [encodeLoop_round frame invert hn, one_ushiftRight_one, encodeLoop,
        if_pos rfl, appended_getLsbD mframe _ invert hi]
      by_cases htwo : i < 2
      · have hzero : i / 2 = 0 := by omega
        rw [if_pos htwo, if_pos htwo, halfBit, hzero]
      · rw [if_neg htwo, if_neg htwo]
  | succ n ih =>
      obtain ⟨fuel, rfl⟩ : ∃ k, fuel = k + 1 := ⟨fuel - 1, by omega⟩
      rw [encodeLoop_round frame invert hn, twoPow_ushiftRight (by omega) hn,
        Nat.add_sub_cancel, ih (by omega) (by omega)]
      by_cases hlow : i < 2 * (n + 1)
      · rw [if_pos hlow, if_pos (by omega)]
      · rw [if_neg hlow, appended_getLsbD _ _ _ (by omega)]
        by_cases htwo : i - 2 * (n + 1) < 2
        · have hbit : i / 2 = n + 1 := by omega
          have hmod : (i - 2 * (n + 1)) % 2 = i % 2 := by omega
          rw [if_pos htwo, if_pos (by omega), halfBit, hbit, hmod]
        · have hsub : i - 2 * (n + 1) - 2 = i - 2 * (n + 1 + 1) := by omega
          rw [if_neg htwo, if_neg (by omega), hsub]

/-- Every half-bit of an encoded word. -/
theorem manchesterEncode_getLsbD (frame : BitVec 32) (invert : Bool) {i : ℕ}
    (hi : i < 64) :
    (manchesterEncode frame invert).getLsbD i = halfBit frame invert i := by
  have hmask : (0x80000000 : BitVec 32) = BitVec.twoPow 32 31 := by decide
  rw [manchesterEncode, hmask,
    encodeLoop_getLsbD frame invert (by decide) (by decide) 0 hi, if_pos hi]

/-! ## The decoder -/

/-- The two half-bits of bit `k` differ. -/
def PairValid (mframe : BitVec 64) (k : ℕ) : Prop :=
  mframe.getLsbD (2 * k + 1) ≠ mframe.getLsbD (2 * k)

/-- The half-bits of the first `n` bits differ. -/
def PairsValid (mframe : BitVec 64) (n : ℕ) : Prop :=
  ∀ k < n, PairValid mframe k

instance (mframe : BitVec 64) (k : ℕ) : Decidable (PairValid mframe k) :=
  inferInstanceAs (Decidable (_ ≠ _))

instance (mframe : BitVec 64) (n : ℕ) : Decidable (PairsValid mframe n) :=
  Nat.decidableBallLT n fun k _ => PairValid mframe k

/-- The bit that a round of the decoder appends. -/
theorem pushed_getLsbD (frame : BitVec 32) (bit : Bool) {j : ℕ}
    (hj : j < 32) :
    (frame <<< 1 ||| if bit then 1 else 0).getLsbD j =
      if j = 0 then bit else frame.getLsbD (j - 1) := by
  have hhigh : ∀ k : Fin 32, k.val ≠ 0 →
      (1 : BitVec 32).getLsbD k = false := by decide
  rw [BitVec.getLsbD_or, BitVec.getLsbD_shiftLeft]
  by_cases hzero : j = 0
  · subst hzero
    cases bit <;> simp
  · have hone := hhigh ⟨j, hj⟩ hzero
    dsimp only at hone
    have htail : (if bit then (1 : BitVec 32) else 0).getLsbD j = false := by
      cases bit
      · exact BitVec.getLsbD_zero
      · exact hone
    rw [htail, if_neg hzero]
    simp [hj]
    omega

/-- A round of the decoder. -/
theorem decodeLoop_round (mframe : BitVec 64) (invert : Bool) {n : ℕ}
    (hn : n < 32) (frame : BitVec 32) :
    decodeLoop mframe (if invert then 0 else 1) (if invert then 1 else 0)
        (n + 1) (BitVec.twoPow 64 (2 * n + 1)) (BitVec.twoPow 64 (2 * n))
        frame =
      if PairValid mframe n then
        decodeLoop mframe (if invert then 0 else 1) (if invert then 1 else 0)
          n (BitVec.twoPow 64 (2 * n + 1) >>> 2)
          (BitVec.twoPow 64 (2 * n) >>> 2)
          (frame <<< 1 |||
            if mframe.getLsbD (2 * n + 1) ^^ invert then 1 else 0)
      else none := by
  have hzero : ∀ i < 64, mframe &&& BitVec.twoPow 64 i = 0 ↔
      ¬mframe.getLsbD i = true := by
    intro i hi
    rw [← and_twoPow_ne_zero mframe hi, ne_eq, not_not]
  rw [decodeLoop]
  simp only [ne_eq, hzero (2 * n + 1) (by omega), hzero (2 * n) (by omega),
    not_not, PairValid]
  rcases Bool.eq_false_or_eq_true (mframe.getLsbD (2 * n + 1)) with hfirst | hfirst
  · rcases Bool.eq_false_or_eq_true (mframe.getLsbD (2 * n)) with hsecond | hsecond
    · simp [hfirst, hsecond]
    · cases invert <;> simp [hfirst, hsecond]
  · rcases Bool.eq_false_or_eq_true (mframe.getLsbD (2 * n)) with hsecond | hsecond
    · cases invert <;> simp [hfirst, hsecond]
    · simp [hfirst, hsecond]

/-- The loop decodes the bits below `n` when all their half-bits differ. -/
theorem decodeLoop_spec (mframe : BitVec 64) (invert : Bool) {n : ℕ}
    (hn : n < 33) (mask mask2 : BitVec 64) (frame : BitVec 32)
    (hmask : 0 < n → mask = BitVec.twoPow 64 (2 * (n - 1) + 1) ∧
      mask2 = BitVec.twoPow 64 (2 * (n - 1))) :
    if PairsValid mframe n then
      ∃ value, decodeLoop mframe (if invert then 0 else 1)
          (if invert then 1 else 0) n mask mask2 frame = some value ∧
        ∀ i < 32, value.getLsbD i =
          if i < n then mframe.getLsbD (2 * i + 1) ^^ invert
          else frame.getLsbD (i - n)
    else
      decodeLoop mframe (if invert then 0 else 1) (if invert then 1 else 0) n
        mask mask2 frame = none := by
  induction n generalizing mask mask2 frame with
  | zero => simp [decodeLoop, PairsValid]
  | succ n ih =>
      obtain ⟨rfl, rfl⟩ := hmask (Nat.succ_pos n)
      rw [Nat.add_sub_cancel, decodeLoop_round mframe invert (by omega)]
      by_cases hpair : PairValid mframe n
      · have hrest := ih (by omega) (BitVec.twoPow 64 (2 * n + 1) >>> 2)
          (BitVec.twoPow 64 (2 * n) >>> 2)
          (frame <<< 1 ||| if mframe.getLsbD (2 * n + 1) ^^ invert then 1 else 0)
          (by
            intro hpos
            rw [twoPow_ushiftRight (by omega) (by omega),
              twoPow_ushiftRight (by omega) (by omega)]
            constructor <;> congr 1 <;> omega)
        have hall : PairsValid mframe (n + 1) ↔ PairsValid mframe n := by
          simp only [PairsValid, Nat.forall_lt_succ_right, hpair, and_true]
        simp only [hall, if_pos hpair]
        split at hrest
        next hvalid =>
          rw [if_pos hvalid]
          obtain ⟨value, hvalue, hbits⟩ := hrest
          refine ⟨value, hvalue, fun i hi => ?_⟩
          rw [hbits i hi]
          by_cases hlow : i < n
          · rw [if_pos hlow, if_pos (by omega)]
          · rw [if_neg hlow, pushed_getLsbD frame _ (by omega)]
            by_cases hlast : i = n
            · subst hlast
              rw [if_pos (Nat.sub_self i), if_pos (Nat.lt_succ_self i)]
            · have hsub : i - n - 1 = i - (n + 1) := by omega
              rw [if_neg (by omega), if_neg (by omega), hsub]
        next hvalid =>
          rw [if_neg hvalid]
          exact hrest
      · rw [if_neg fun h => hpair (h n (Nat.lt_succ_self n)), if_neg hpair]

/-- The decoder accepts the words whose half-bits differ pair by pair. -/
theorem manchesterDecode_spec (mframe : BitVec 64) (invert : Bool) :
    if PairsValid mframe 32 then
      ∃ value, manchesterDecode mframe invert = some value ∧
        ∀ i < 32, value.getLsbD i =
          (mframe.getLsbD (2 * i + 1) ^^ invert)
    else manchesterDecode mframe invert = none := by
  have hmask : (0x8000000000000000 : BitVec 64) = BitVec.twoPow 64 63 ∧
      (0x4000000000000000 : BitVec 64) = BitVec.twoPow 64 62 := by decide
  have hspec := decodeLoop_spec mframe invert (by decide : 32 < 33)
    0x8000000000000000 0x4000000000000000 0 fun _ => hmask
  split at hspec
  next hvalid =>
    rw [if_pos hvalid]
    obtain ⟨value, hvalue, hbits⟩ := hspec
    refine ⟨value, hvalue, fun i hi => ?_⟩
    rw [hbits i hi, if_pos hi]
  next hvalid =>
    rw [if_neg hvalid]
    exact hspec

end Herak.OpenTherm
