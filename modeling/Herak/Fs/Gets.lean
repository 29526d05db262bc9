import Herak.Support.CString
import Herak.Support.Memory

/-!
# Reading files

`fs.c`: the table of opened files, and the functions that read a file line by
line.  The file system behind it is known by what it still has to read from
each of its descriptors; reading past the end of a file yields no bytes.
-/

namespace Herak.Fs

open CString Memory

/-- `MAX_OPENED_FILES` -/
def maxOpenedFiles : ℕ := 10

/-- The field `open_fd` of `fs_context_t`, where -1 is a free entry, and the
bytes that the file system has left to read from its descriptors. -/
structure FsContext where
  openFd : List ℤ
  unread : ℤ → List UInt8

def FsContext.init : FsContext where
  openFd := List.replicate maxOpenedFiles (-1)
  unread := fun _ => []

/-- `fs_open` for reading; `opened` is what `pico_open` returns, `content`
what the file holds. -/
def fsOpen (fs : FsContext) (opened : ℤ) (content : List UInt8) :
    ℤ × FsContext :=
  match fs.openFd.findIdx? (· < 0) with
  | none => (-1, fs)
  | some i =>
      if opened < 0 then (-1, fs)
      else
        (i,
          { openFd := fs.openFd.set i opened
            unread := Function.update fs.unread opened content })

/-- The file system descriptor of a valid one of the module. -/
def FsContext.fd? (fs : FsContext) (fd : ℤ) : Option ℤ :=
  if fd < 0 then none
  else
    match fs.openFd[fd.toNat]? with
    | none => none
    | some pico => if pico = -1 then none else some pico

/-- `fs_close` -/
def fsClose (fs : FsContext) (fd : ℤ) : FsContext :=
  match fs.fd? fd with
  | none => fs
  | some _ => { fs with openFd := fs.openFd.set fd.toNat (-1) }

/-- The loop of `fs_read_check` that reads one byte a round up to one of
`stops`: the result, the buffer and the bytes left in the file. -/
def readUntil (stops : List UInt8) (buffSize : ℕ) :
    List UInt8 → List UInt8 → ℕ → ℤ × List UInt8 × List UInt8
  | [], buff, _ => (-1, buff, [])
  | byte :: unread, buff, count =>
      if byte ∈ stops then (count, buff, unread)
      else if buffSize ≤ count + 1 then
        (count + 1, buff.set count byte, unread)
      else readUntil stops buffSize unread (buff.set count byte) (count + 1)

/-- `fs_read_check` with stop bytes. -/
def fsReadCheck (fs : FsContext) (fd : ℤ) (buff : List UInt8) (buffSize : ℕ)
    (stops : List UInt8) : ℤ × List UInt8 × FsContext :=
  match fs.fd? fd with
  | none => (-1, buff, fs)
  | some pico =>
      let result := readUntil stops buffSize (fs.unread pico) buff 0
      (result.1, result.2.1,
        { fs with unread := Function.update fs.unread pico result.2.2 })

def newLine : List UInt8 := [10, 13]

/-- `fs_gets` -/
def fsGets (fs : FsContext) (fd : ℤ) (buff : List UInt8) (buffSize : ℕ) :
    ℤ × List UInt8 × FsContext :=
  let result := fsReadCheck fs fd (buff.set 0 0) buffSize newLine
  if 0 < result.1 ∧ result.1 < buffSize then
    (result.1, result.2.1.set result.1.toNat 0, result.2.2)
  else (result.1, result.2.1.set (buffSize - 1) 0, result.2.2)

/-! ## What a call reads -/

/-- The bytes up to the next stop byte, at most `n` of them. -/
def segment (stops : List UInt8) (n : ℕ) (unread : List UInt8) : List UInt8 :=
  (unread.takeWhile (· ∉ stops)).take n

/-- What a call of `fs_gets` reads, and what it leaves in the file; nothing
when the file ends before the buffer and the line do. -/
def getsSegment (buffSize : ℕ) (unread : List UInt8) :
    Option (List UInt8 × List UInt8) :=
  let seg := segment newLine buffSize unread
  if seg.length = buffSize then some (seg, unread.drop buffSize)
  else if seg.length < unread.length then
    some (seg, unread.drop (seg.length + 1))
  else none

theorem memcpy_cons {buff : List UInt8} {count : ℕ} (h : count < buff.length)
    (byte : UInt8) (data : List UInt8) :
    memcpy buff count (byte :: data) =
      memcpy (buff.set count byte) (count + 1) data := by
  have htake : (buff.set count byte).take (count + 1) =
      buff.take count ++ [byte] := by
    rw [List.take_add_one, List.take_set_of_le (Nat.le_refl _),
      List.getElem?_set_self h]
    rfl
  have hdrop : (buff.set count byte).drop (count + 1 + data.length) =
      buff.drop (count + 1 + data.length) :=
    List.drop_set_of_lt (by omega)
  have hlen : count + (byte :: data).length = count + 1 + data.length := by
    rw [List.length_cons]
    omega
  rw [memcpy, memcpy, htake, hdrop, hlen]
  simp

theorem segment_cons_of_notMem {stops : List UInt8} {byte : UInt8}
    (h : byte ∉ stops) (n : ℕ) (unread : List UInt8) :
    segment stops (n + 1) (byte :: unread) =
      byte :: segment stops n unread := by
  simp [segment, h]

/-- The reading loop in one piece. -/
theorem readUntil_eq (stops : List UInt8) {buffSize count : ℕ}
    {buff : List UInt8} (unread : List UInt8) (hcount : count < buffSize)
    (hbuff : buff.length = buffSize) :
    readUntil stops buffSize unread buff count =
      let seg := segment stops (buffSize - count) unread
      if seg.length = buffSize - count then
        ((buffSize : ℤ), memcpy buff count seg, unread.drop seg.length)
      else if seg.length < unread.length then
        (((count + seg.length : ℕ) : ℤ), memcpy buff count seg,
          unread.drop (seg.length + 1))
      else (-1, memcpy buff count seg, []) := by
  induction unread generalizing buff count with
  | nil =>
      have hne : ¬0 = buffSize - count := by omega
      simp [readUntil, segment, memcpy_nil, hne]
  | cons byte unread ih =>
      obtain ⟨n, hn⟩ : ∃ n, buffSize - count = n + 1 :=
        ⟨buffSize - count - 1, by omega⟩
      by_cases hstop : byte ∈ stops
      · have hseg : segment stops (n + 1) (byte :: unread) = [] := by
          simp [segment, hstop]
        have hne : ¬0 = n + 1 := by omega
        simp [readUntil, hstop, hn, hseg, memcpy_nil]
      · have hcons := segment_cons_of_notMem hstop n unread
        have hcopy := memcpy_cons (by omega : count < buff.length) byte
        simp only [readUntil, if_neg hstop, hn, hcons, List.length_cons,
          Nat.add_right_cancel_iff, Nat.add_lt_add_iff_right,
          List.drop_succ_cons, hcopy]
        by_cases hfull : buffSize ≤ count + 1
        · have hzero : n = 0 := by omega
          have hlast : buffSize = count + 1 := by omega
          simp [hzero, segment, memcpy_nil, hlast]
        · have hleft : buffSize - (count + 1) = n := by omega
          rw [if_neg hfull, ih (by omega) (by rw [List.length_set, hbuff]),
            hleft]
          dsimp only
          split
          · rfl
          · split
            · congr 2
              omega
            · rfl

theorem takeWhile_append_zero (data rest : List UInt8) :
    (data ++ 0 :: rest).takeWhile (· ≠ 0) = data.takeWhile (· ≠ 0) := by
  induction data with
  | nil => simp
  | cons byte data ih =>
      by_cases hbyte : byte = 0
      · simp [hbyte]
      · simpa [hbyte] using ih

theorem segment_length_le (stops : List UInt8) (n : ℕ) (unread : List UInt8) :
    (segment stops n unread).length ≤ n :=
  List.length_take_le _ _

/-- The string behind a terminator that is written into the buffer. -/
theorem cstrAt_set_zero {buff data : List UInt8} {n : ℕ}
    (hn : n < buff.length) (hdata : n ≤ data.length)
    (hlen : data.length ≤ buff.length) :
    cstrAt ((memcpy buff 0 data).set n 0) 0 =
      (data.take n).takeWhile (· ≠ 0) := by
  have hbuff : (memcpy buff 0 data).length = buff.length :=
    length_memcpy (by omega)
  have htake : (memcpy buff 0 data).take n = data.take n := by
    rw [memcpy_zero, List.take_append_of_le_length hdata]
  rw [cstrAt, List.drop_zero, List.set_eq_take_append_cons_drop,
    if_pos (by omega), htake, takeWhile_append_zero]

variable {fs : FsContext} {fd pico : ℤ} {buff : List UInt8} {buffSize : ℕ}

/-- A call that reads a piece of the file puts its text into the buffer, short
of the last byte of a full one. -/
theorem fsGets_of_some (hfd : fs.fd? fd = some pico)
    (hbuff : buff.length = buffSize) (hpos : 0 < buffSize)
    {seg rest : List UInt8}
    (h : getsSegment buffSize (fs.unread pico) = some (seg, rest)) :
    ∃ buff', fsGets fs fd buff buffSize =
        ((seg.length : ℤ), buff',
          { fs with unread := Function.update fs.unread pico rest }) ∧
      buff'.length = buffSize ∧
      (seg ≠ [] → cstrAt buff' 0 =
        (seg.take (buffSize - 1)).takeWhile (· ≠ 0)) := by
  have hset : (buff.set 0 0).length = buffSize := by rw [List.length_set, hbuff]
  have hread := readUntil_eq newLine (fs.unread pico) hpos hset
  have hle := segment_length_le newLine buffSize (fs.unread pico)
  simp only [Nat.sub_zero, Nat.zero_add] at hread
  simp only [getsSegment] at h
  simp only [fsGets, fsReadCheck, hfd]
  split at h
  next hfull =>
    obtain ⟨rfl, rfl⟩ := Prod.mk.inj (Option.some.inj h)
    rw [hread, if_pos hfull]
    dsimp only
    rw [if_neg (by omega), hfull]
    refine ⟨_, rfl, ?_, fun _ => ?_⟩
    · rw [List.length_set, length_memcpy (by omega), hset]
    · exact cstrAt_set_zero (by omega) (by omega) (by omega)
  next hfull =>
    split at h
    next hstop =>
      obtain ⟨rfl, rfl⟩ := Prod.mk.inj (Option.some.inj h)
      rw [hread, if_neg hfull, if_pos hstop]
      dsimp only
      by_cases hempty : segment newLine buffSize (fs.unread pico) = []
      · rw [hempty]
        refine ⟨_, rfl, ?_, fun hne => (hne rfl).elim⟩
        rw [List.length_set, length_memcpy (by simp), hset]
      · have hsome := List.length_pos_iff.mpr hempty
        rw [if_pos ⟨by omega, by omega⟩]
        refine ⟨_, rfl, ?_, fun _ => ?_⟩
        · rw [List.length_set, length_memcpy (by omega), hset]
        · rw [Int.toNat_natCast, cstrAt_set_zero (by omega) (Nat.le_refl _)
            (by omega), List.take_length, List.take_of_length_le (by omega)]
    · cases h

theorem fsGets_of_none (hfd : fs.fd? fd = some pico)
    (hbuff : buff.length = buffSize) (hpos : 0 < buffSize)
    (h : getsSegment buffSize (fs.unread pico) = none) :
    ∃ buff', fsGets fs fd buff buffSize =
        (-1, buff',
          { fs with unread := Function.update fs.unread pico [] }) ∧
      buff'.length = buffSize := by
  have hset : (buff.set 0 0).length = buffSize := by rw [List.length_set, hbuff]
  have hread := readUntil_eq newLine (fs.unread pico) hpos hset
  have hle := segment_length_le newLine buffSize (fs.unread pico)
  simp only [Nat.sub_zero, Nat.zero_add] at hread
  simp only [getsSegment] at h
  split at h
  · cases h
  next hfull =>
    split at h
    · cases h
    next hstop =>
      simp only [fsGets, fsReadCheck, hfd]
      rw [hread, if_neg hfull, if_neg hstop]
      refine ⟨_, rfl, ?_⟩
      rw [List.length_set, length_memcpy (by omega), hset]

end Herak.Fs
