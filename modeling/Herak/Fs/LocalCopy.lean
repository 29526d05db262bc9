import Mathlib.Algebra.BigOperators.Group.Finset.Basic
import Herak.Fs.Handles

/-!
# Local copies

`fsCpLocal` copies a file in chunks of 64 bytes and removes the destination if
its result is negative.  The one result variable is used for the writes as
well: a read that fails behind the first chunk, and a write that is short,
leave a part of the file and a result that is not negative.
-/

namespace Herak.Fs

open CString Memory

/-- `COPY_BUFF` -/
abbrev copyBuff : ℕ := 64

/-- What littlefs promises of the files on the flash: a file that was written is
changed when it is closed, and one that was removed is gone. -/
structure FlashFs (Disk : Type) where
  content : Disk → CStr → Option (List UInt8)
  commit : Disk → CStr → List UInt8 → Disk
  remove : Disk → CStr → Disk
  content_commit : ∀ disk path data,
    content (commit disk path data) path = some data
  content_remove : ∀ disk path, content (remove disk path) path = none

/-- What `pico_read` or `pico_write` comes to: an error, or the number of bytes
that are read or written at most.  A read has one byte at least, until the
file ends. -/
inductive Transferred
  | failed (err : ℕ)
  | bytes (n : ℕ)

structure CopyRound where
  read : Transferred
  write : Transferred

/-- The results of the calls of the file system during a copy, and the buffer
before it.  Two files are not opened with one descriptor. -/
structure CopyPattern where
  src : ℤ
  dst : ℤ
  distinct : 0 ≤ src → dst ≠ src
  rounds : ℕ → CopyRound
  buff : List UInt8
  size : buff.length = copyBuff

/-- The table of opened files, what was written to each descriptor, and the
files. -/
structure CopyDisk (Disk : Type) where
  fs : FsContext
  written : ℤ → List UInt8
  disk : Disk

/-- `fs_read` -/
def fsReadChunk (fs : FsContext) (fd : ℤ) (buff : List UInt8) (size : ℕ) :
    Transferred → ℤ × List UInt8 × FsContext
  | .failed _ => (-1, buff, fs)
  | .bytes n => fsRead fs fd buff (min size (n + 1))

/-- What `pico_write` returns for `count` bytes. -/
def Transferred.wrote (count : ℕ) : Transferred → ℤ
  | .failed err => -(err + 1 : ℤ)
  | .bytes n => (min n count : ℕ)

section Copy

variable {Disk : Type}

/-- The loop of `fs_cp_local`, with the result so far. -/
def copyLoop (sfd dfd : ℤ) : ℕ → (ℕ → CopyRound) → ℤ → List UInt8 →
    CopyDisk Disk → ℤ × CopyDisk Disk
  | 0, _, ret, _, x => (ret, x)
  | fuel + 1, rounds, ret, buff, x =>
      let read := fsReadChunk x.fs sfd buff copyBuff (rounds 0).read
      let x := { x with fs := read.2.2 }
      if 0 < read.1 then
        let chunk := read.2.1.take read.1.toNat
        let write := fsWrite x.fs x.written dfd chunk
          ((rounds 0).write.wrote chunk.length)
        let x := { x with written := write.2 }
        if write.1 ≠ read.1 then (write.1, x)
        else
          copyLoop sfd dfd fuel (fun n => rounds (n + 1)) write.1 read.2.1 x
      else (if read.1 = 0 then 0 else ret, x)

variable (flash : FlashFs Disk)

/-- `fs_cp_local`; every round but the last reads a byte at least. -/
def fsCpLocal (x : CopyDisk Disk) (src dst : CStr) (p : CopyPattern) :
    ℤ × CopyDisk Disk :=
  let content := flash.content x.disk src
  let sfd := fsOpen x.fs (if content.isSome then p.src else -1)
    (content.getD [])
  if sfd.1 < 0 then (-1, { x with disk := flash.remove x.disk dst })
  else
    let dfd := fsOpen sfd.2 p.dst []
    if dfd.1 < 0 then
      (-1, { x with
        fs := fsClose dfd.2 sfd.1
        disk := flash.remove x.disk dst })
    else
      let result := copyLoop sfd.1 dfd.1 ((content.getD []).length + 1)
        p.rounds (-1) p.buff
        { x with
          fs := dfd.2
          written := Function.update x.written p.dst [] }
      let x := result.2
      let disk := flash.commit x.disk dst (x.written p.dst)
      (result.1,
        { x with
          fs := fsClose (fsClose x.fs sfd.1) dfd.1
          disk := if result.1 < 0 then flash.remove disk dst else disk })

/-! ## The property and the condition -/

/-- A copy that succeeds makes the destination what the source was, and one
that fails leaves it as it was or absent. -/
def AllOrNothing (x : CopyDisk Disk) (src dst : CStr) (p : CopyPattern) :
    Prop :=
  let result := fsCpLocal flash x src dst p
  (result.1 = 0 → ∃ content, flash.content x.disk src = some content ∧
      flash.content result.2.disk dst = some content) ∧
    (result.1 ≠ 0 →
      flash.content result.2.disk dst = flash.content x.disk dst ∨
        flash.content result.2.disk dst = none)

/-- The bytes that a round asks for. -/
def CopyRound.size (round : CopyRound) : ℕ :=
  match round.read with
  | .failed _ => 0
  | .bytes n => min copyBuff (n + 1)

/-- The bytes that `n` rounds ask for. -/
def copyOffset (rounds : ℕ → CopyRound) (n : ℕ) : ℕ :=
  ∑ k ∈ Finset.range n, (rounds k).size

/-- The bytes of chunk `n` of a file of `length` bytes. -/
def chunkLength (rounds : ℕ → CopyRound) (length n : ℕ) : ℕ :=
  min (rounds n).size (length - copyOffset rounds n)

/-- Chunk `n` is read, and all of it is written. -/
def ChunkCopied (rounds : ℕ → CopyRound) (length n : ℕ) : Prop :=
  (∃ k, (rounds n).read = .bytes k) ∧ copyOffset rounds n < length ∧
    ∃ k, (rounds n).write = .bytes k ∧ chunkLength rounds length n ≤ k

/-- The first chunk that is not copied does no harm: its write fails, or it is
the first of the file and is not read, or what stands in the destination then is
what the destination held before. -/
def FaultHarmless (before : Option (List UInt8)) (rounds : ℕ → CopyRound)
    (content : List UInt8) : Prop :=
  ∀ n, (∀ k < n, ChunkCopied rounds content.length k) →
    (∀ err, (rounds n).read = .failed err →
      n = 0 ∨ before = some (content.take (copyOffset rounds n))) ∧
    ∀ size k, (rounds n).read = .bytes size → (rounds n).write = .bytes k →
      copyOffset rounds n < content.length →
      k < chunkLength rounds content.length n →
      0 < k ∧ before = some (content.take (copyOffset rounds n + k))

/-- Both files are opened. -/
def OpensBoth (x : CopyDisk Disk) (p : CopyPattern) (content : List UInt8) :
    Prop :=
  0 ≤ (fsOpen x.fs p.src content).1 ∧
    0 ≤ (fsOpen (fsOpen x.fs p.src content).2 p.dst []).1

end Copy

/-! ## The loop on the bytes -/

/-- The loop with what was written so far and what is left to read: the result,
and what was written in the end. -/
def copyRun : ℕ → (ℕ → CopyRound) → ℤ → List UInt8 → List UInt8 →
    ℤ × List UInt8
  | 0, _, ret, done, _ => (ret, done)
  | fuel + 1, rounds, ret, done, rest =>
      match (rounds 0).read with
      | .failed _ => (ret, done)
      | .bytes _ =>
          let chunk := rest.take (rounds 0).size
          if chunk = [] then (0, done)
          else
            match (rounds 0).write with
            | .failed err => (-(err + 1 : ℤ), done)
            | .bytes n =>
                if n < chunk.length then (n, done ++ chunk.take n)
                else
                  copyRun fuel (fun n => rounds (n + 1)) chunk.length
                    (done ++ chunk) (rest.drop (rounds 0).size)

/-- The loop has the two files open, with `done` written to the one and `rest`
left in the other. -/
structure Copying {Disk : Type} (sfd dfd src dst : ℤ) (x : CopyDisk Disk)
    (done rest : List UInt8) : Prop where
  srcFd : x.fs.fd? sfd = some src
  dstFd : x.fs.fd? dfd = some dst
  unread : x.fs.unread src = rest
  written : x.written dst = done

theorem fd?_congr {fs fs' : FsContext} (h : fs'.openFd = fs.openFd) (fd : ℤ) :
    fs'.fd? fd = fs.fd? fd := by
  rw [FsContext.fd?, FsContext.fd?, h]

/-- A chunk that is read is the next part of the file, up to the size asked
for. -/
theorem Copying.read {Disk : Type} {sfd dfd src dst : ℤ} {x : CopyDisk Disk}
    {done rest : List UInt8} (h : Copying sfd dfd src dst x done rest)
    {round : CopyRound} {n : ℕ} (hread : round.read = .bytes n)
    (buff : List UInt8) :
    fsReadChunk x.fs sfd buff copyBuff round.read =
      (((rest.take round.size).length : ℤ),
        memcpy buff 0 (rest.take round.size),
        { x.fs with
          unread := Function.update x.fs.unread src
            (rest.drop round.size) }) := by
  have hsize : round.size = min copyBuff (n + 1) := by
    rw [CopyRound.size, hread]
  rw [hread, hsize]
  simp only [fsReadChunk, fsRead, h.srcFd, h.unread]

/-- A chunk is written behind what was written before. -/
theorem Copying.write {Disk : Type} {sfd dfd src dst : ℤ} {x : CopyDisk Disk}
    {done rest : List UInt8} (h : Copying sfd dfd src dst x done rest)
    {fs : FsContext} (hfs : fs.openFd = x.fs.openFd) (chunk : List UInt8)
    (wrote : ℤ) :
    fsWrite fs x.written dfd chunk wrote =
      (wrote,
        Function.update x.written dst (done ++ chunk.take wrote.toNat)) := by
  simp only [fsWrite, fd?_congr hfs, h.dstFd, h.written]

/-- The loop does on the table what `copyRun` does on the bytes. -/
theorem copyLoop_eq {Disk : Type} {sfd dfd src dst : ℤ} (fuel : ℕ)
    (rounds : ℕ → CopyRound) (ret : ℤ) {buff : List UInt8}
    (hbuff : buff.length = copyBuff) {x : CopyDisk Disk}
    {done rest : List UInt8} (h : Copying sfd dfd src dst x done rest) :
    ((copyLoop sfd dfd fuel rounds ret buff x).1,
        (copyLoop sfd dfd fuel rounds ret buff x).2.written dst) =
      copyRun fuel rounds ret done rest ∧
    (copyLoop sfd dfd fuel rounds ret buff x).2.disk = x.disk := by
  induction fuel generalizing rounds ret buff x done rest with
  | zero => exact ⟨Prod.ext rfl h.written, rfl⟩
  | succ fuel ih =>
      cases hread : (rounds 0).read with
      | failed err =>
          simp only [copyLoop, copyRun, hread, fsReadChunk]
          exact ⟨Prod.ext rfl h.written, rfl⟩
      | bytes n =>
          have hchunk := h.read hread buff
          rw [hread] at hchunk
          have hdata : (memcpy buff 0 (rest.take (rounds 0).size)).take
              (rest.take (rounds 0).size).length =
                rest.take (rounds 0).size := by
            have htake := @take_memcpy _ buff
              (rest.take (rounds 0).size) 0 (Nat.zero_le _)
            rwa [Nat.zero_add, List.take_zero, List.nil_append] at htake
          have hfit : (rest.take (rounds 0).size).length ≤ buff.length := by
            have hsize : (rounds 0).size ≤ copyBuff := by
              rw [CopyRound.size, hread]
              exact Nat.min_le_left _ _
            rw [hbuff, List.length_take]
            exact (Nat.min_le_left _ _).trans hsize
          simp only [copyLoop, copyRun, hread, hchunk, Int.toNat_natCast, hdata]
          generalize rest.take (rounds 0).size = chunk at hfit ⊢
          by_cases hempty : chunk = []
          · rw [if_pos hempty, if_neg (by simp [hempty]), hempty]
            exact ⟨Prod.ext rfl h.written, rfl⟩
          · have hpos : (0 : ℤ) < chunk.length := by
              exact_mod_cast List.length_pos_iff.mpr hempty
            rw [if_neg hempty, if_pos hpos,
              @Copying.write _ sfd dfd src dst x done rest h { x.fs with
                unread := Function.update x.fs.unread src
                  (rest.drop (rounds 0).size) } rfl]
            cases hwrite : (rounds 0).write with
            | failed err =>
                have hwrote : Transferred.wrote chunk.length (.failed err) ≠
                    chunk.length := by
                  rw [Transferred.wrote]
                  omega
                have hnone : (Transferred.wrote chunk.length
                    (.failed err)).toNat = 0 := by
                  rw [Transferred.wrote]
                  omega
                rw [if_pos hwrote, hnone, List.take_zero, List.append_nil]
                exact ⟨Prod.ext rfl (Function.update_self _ _ _), rfl⟩
            | bytes m =>
                have hmin : Transferred.wrote chunk.length (.bytes m) =
                    (min m chunk.length : ℕ) := rfl
                rw [hmin, Int.toNat_natCast]
                by_cases hshort : m < chunk.length
                · rw [min_eq_left hshort.le, if_pos (by omega)]
                  simp only [if_pos hshort]
                  exact ⟨Prod.ext rfl (Function.update_self _ _ _), trivial⟩
                · rw [min_eq_right (not_lt.mp hshort), if_neg (by simp),
                    List.take_length]
                  simp only [if_neg hshort]
                  refine ih _ _ ((length_memcpy (by omega)).trans hbuff)
                    ⟨?_, ?_, Function.update_self _ _ _,
                      Function.update_self _ _ _⟩
                  · exact (fd?_congr rfl sfd).trans h.srcFd
                  · exact (fd?_congr rfl dfd).trans h.dstFd

/-! ## The first chunk that is not copied -/

/-- Nothing is broken if chunk `n` is the first that is not copied, with `done`
written before; the loop may have copied chunks before. -/
def HarmlessAt (before : Option (List UInt8)) (started : Prop)
    (rounds : ℕ → CopyRound) (done rest : List UInt8) (n : ℕ) : Prop :=
  (∀ err, (rounds n).read = .failed err →
      n = 0 ∧ ¬started ∨
        before = some (done ++ rest.take (copyOffset rounds n))) ∧
    ∀ size k, (rounds n).read = .bytes size → (rounds n).write = .bytes k →
      copyOffset rounds n < rest.length →
      k < chunkLength rounds rest.length n →
      0 < k ∧ before = some (done ++ rest.take (copyOffset rounds n + k))

def HarmlessFrom (before : Option (List UInt8)) (started : Prop)
    (rounds : ℕ → CopyRound) (done rest : List UInt8) : Prop :=
  ∀ n, (∀ k < n, ChunkCopied rounds rest.length k) →
    HarmlessAt before started rounds done rest n

section Shift

variable (rounds : ℕ → CopyRound)

@[simp] theorem copyOffset_zero : copyOffset rounds 0 = 0 := rfl

theorem copyOffset_succ (n : ℕ) :
    copyOffset rounds (n + 1) =
      (rounds 0).size + copyOffset (fun n => rounds (n + 1)) n := by
  rw [copyOffset, Finset.sum_range_succ', add_comm]
  rfl

theorem chunkLength_zero (length : ℕ) :
    chunkLength rounds length 0 = min (rounds 0).size length := rfl

theorem chunkLength_succ (length n : ℕ) :
    chunkLength rounds length (n + 1) =
      chunkLength (fun n => rounds (n + 1)) (length - (rounds 0).size) n := by
  rw [chunkLength, chunkLength, copyOffset_succ, Nat.sub_add_eq]

theorem chunkCopied_succ (length n : ℕ) :
    ChunkCopied rounds length (n + 1) ↔
      ChunkCopied (fun n => rounds (n + 1)) (length - (rounds 0).size) n := by
  rw [ChunkCopied, ChunkCopied, chunkLength_succ, copyOffset_succ,
    Nat.lt_sub_iff_add_lt']

end Shift

section Harmless

variable {before : Option (List UInt8)} {started : Prop}
  {rounds : ℕ → CopyRound} {done rest : List UInt8}

theorem harmlessFrom_of_not_copied (h : ¬ChunkCopied rounds rest.length 0) :
    HarmlessFrom before started rounds done rest ↔
      HarmlessAt before started rounds done rest 0 := by
  constructor
  · intro hall
    exact hall 0 fun k hk => absurd hk (Nat.not_lt_zero k)
  · intro hzero n hbefore
    cases n with
    | zero => exact hzero
    | succ n => exact absurd (hbefore 0 (Nat.succ_pos n)) h

theorem harmlessAt_succ (n : ℕ) :
    HarmlessAt before started rounds done rest (n + 1) ↔
      HarmlessAt before True (fun n => rounds (n + 1))
        (done ++ rest.take (rounds 0).size) (rest.drop (rounds 0).size) n := by
  have htake : ∀ k, done ++ rest.take ((rounds 0).size + k) =
      done ++ rest.take (rounds 0).size ++
        (rest.drop (rounds 0).size).take k := by
    intro k
    rw [List.take_add, List.append_assoc]
  simp only [HarmlessAt, chunkLength_succ, copyOffset_succ, List.length_drop,
    Nat.lt_sub_iff_add_lt', add_assoc, htake, Nat.add_one_ne_zero, not_true,
    false_and, and_false]

/-- Behind a chunk that is copied, the next one is the first. -/
theorem harmlessFrom_of_copied (h : ChunkCopied rounds rest.length 0) :
    HarmlessFrom before started rounds done rest ↔
      HarmlessFrom before True (fun n => rounds (n + 1))
        (done ++ rest.take (rounds 0).size)
        (rest.drop (rounds 0).size) := by
  have hshift : ∀ n, (∀ k < n + 1, ChunkCopied rounds rest.length k) ↔
      ∀ k < n, ChunkCopied (fun n => rounds (n + 1))
        (rest.drop (rounds 0).size).length k := by
    intro n
    simp only [Nat.forall_lt_succ_left, h, true_and, chunkCopied_succ,
      List.length_drop]
  constructor
  · intro hall n hbefore
    exact (harmlessAt_succ n).mp (hall (n + 1) ((hshift n).mpr hbefore))
  · intro hall n hbefore
    cases n with
    | zero =>
        obtain ⟨⟨size, hread⟩, -, m, hwrite, hfull⟩ := h
        constructor
        · intro err hfailed
          rw [hread] at hfailed
          cases hfailed
        · intro _ k _ hk _ hshort
          rw [hwrite] at hk
          obtain rfl := Transferred.bytes.inj hk
          exact absurd hfull (not_le.mpr hshort)
    | succ n =>
        exact (harmlessAt_succ n).mpr (hall n ((hshift n).mp hbefore))

/-- What is right about the result of the loop: the whole file, or what the
destination held before. -/
def RunRight (before : Option (List UInt8)) (content : List UInt8)
    (result : ℤ × List UInt8) : Prop :=
  (result.1 = 0 → result.2 = content) ∧
    (0 < result.1 → before = some result.2)

/-- A chunk that is not read. -/
theorem right_unread {err : ℕ} (hread : (rounds 0).read = .failed err)
    (fuel : ℕ) {ret : ℤ} (hret : ret ≠ 0) :
    RunRight before (done ++ rest) (copyRun (fuel + 1) rounds ret done rest) ↔
      HarmlessFrom before (0 < ret) rounds done rest := by
  have hnot : ¬ChunkCopied rounds rest.length 0 := by
    rintro ⟨⟨size, hsize⟩, -⟩
    rw [hread] at hsize
    cases hsize
  have hrun : copyRun (fuel + 1) rounds ret done rest = (ret, done) := by
    simp only [copyRun, hread]
  rw [harmlessFrom_of_not_copied hnot, hrun]
  constructor
  · rintro ⟨-, hpos⟩
    refine ⟨fun _ _ => ?_, fun size k hsize => ?_⟩
    · rw [copyOffset_zero, List.take_zero, List.append_nil]
      exact (em (0 < ret)).symm.imp (fun h => ⟨rfl, h⟩) hpos
    · rw [hread] at hsize
      cases hsize
  · rintro ⟨hfailed, -⟩
    refine ⟨fun h => absurd h hret, fun hpos => ?_⟩
    have hbefore := (hfailed err hread).resolve_left fun h => h.2 hpos
    rwa [copyOffset_zero, List.take_zero, List.append_nil] at hbefore

section Read

variable {n : ℕ} (hread : (rounds 0).read = .bytes n)

include hread

theorem size_pos : 0 < (rounds 0).size := by
  rw [CopyRound.size, hread]
  exact Nat.lt_min.mpr ⟨by decide, Nat.succ_pos n⟩

theorem take_size_ne_nil (hrest : rest ≠ []) :
    rest.take (rounds 0).size ≠ [] := by
  intro hnil
  rcases List.take_eq_nil_iff.mp hnil with hzero | hempty
  · exact (size_pos hread).ne' hzero
  · exact hrest hempty

/-- The end of the file. -/
theorem right_end (fuel : ℕ) (ret : ℤ) :
    RunRight before (done ++ []) (copyRun (fuel + 1) rounds ret done []) ↔
      HarmlessFrom before (0 < ret) rounds done [] := by
  have hrun : copyRun (fuel + 1) rounds ret done [] = (0, done) := by
    simp only [copyRun, hread, List.take_nil, if_true]
  rw [hrun, List.append_nil,
    harmlessFrom_of_not_copied fun h => Nat.not_lt_zero _ h.2.1]
  refine iff_of_true ⟨fun _ => rfl, fun h => absurd h (lt_irrefl 0)⟩ ?_
  refine ⟨fun err hfailed => ?_, fun _ _ _ _ hlt => ?_⟩
  · rw [hread] at hfailed
    cases hfailed
  · exact absurd hlt (Nat.not_lt_zero _)

/-- A write that fails. -/
theorem right_unwritten (hrest : rest ≠ []) {err : ℕ}
    (hwrite : (rounds 0).write = .failed err) (fuel : ℕ) (ret : ℤ) :
    RunRight before (done ++ rest) (copyRun (fuel + 1) rounds ret done rest) ↔
      HarmlessFrom before (0 < ret) rounds done rest := by
  have hnot : ¬ChunkCopied rounds rest.length 0 := by
    rintro ⟨-, -, m, hm, -⟩
    rw [hwrite] at hm
    cases hm
  have hrun : copyRun (fuel + 1) rounds ret done rest =
      (-(err + 1 : ℤ), done) := by
    simp only [copyRun, hread, if_neg (take_size_ne_nil hread hrest), hwrite]
  rw [harmlessFrom_of_not_copied hnot, hrun]
  refine iff_of_true ⟨fun h => ?_, fun h => ?_⟩
    ⟨fun err hfailed => ?_, fun _ k _ hk => ?_⟩
  · dsimp only at h
    omega
  · dsimp only at h
    omega
  · rw [hread] at hfailed
    cases hfailed
  · rw [hwrite] at hk
    cases hk

/-- A write that is short. -/
theorem right_short (hrest : rest ≠ []) {m : ℕ}
    (hwrite : (rounds 0).write = .bytes m)
    (hshort : m < chunkLength rounds rest.length 0) (fuel : ℕ) (ret : ℤ) :
    RunRight before (done ++ rest) (copyRun (fuel + 1) rounds ret done rest) ↔
      HarmlessFrom before (0 < ret) rounds done rest := by
  have hnot : ¬ChunkCopied rounds rest.length 0 := by
    rintro ⟨-, -, k, hk, hfull⟩
    rw [hwrite] at hk
    obtain rfl := Transferred.bytes.inj hk
    exact absurd hfull (not_le.mpr hshort)
  have hlength : (rest.take (rounds 0).size).length =
      chunkLength rounds rest.length 0 := List.length_take
  have hsize : m ≤ (rounds 0).size :=
    hshort.le.trans (Nat.min_le_left _ _)
  have hrun : copyRun (fuel + 1) rounds ret done rest =
      ((m : ℤ), done ++ rest.take m) := by
    simp only [copyRun, hread, if_neg (take_size_ne_nil hread hrest), hwrite,
      hlength, if_pos hshort, List.take_take, min_eq_left hsize]
  rw [harmlessFrom_of_not_copied hnot, hrun]
  constructor
  · rintro ⟨hzero, hpos⟩
    have hm : 0 < m := by
      rw [Nat.pos_iff_ne_zero]
      rintro rfl
      have hnil := List.append_cancel_left (hzero rfl)
      exact hrest hnil.symm
    refine ⟨fun err hfailed => ?_, fun _ k _ hk _ _ => ?_⟩
    · rw [hread] at hfailed
      cases hfailed
    · rw [hwrite] at hk
      obtain rfl := Transferred.bytes.inj hk
      rw [copyOffset_zero, Nat.zero_add]
      exact ⟨hm, hpos (Int.natCast_pos.mpr hm)⟩
  · rintro ⟨-, hharmless⟩
    obtain ⟨hm, hbefore⟩ :=
      hharmless n m hread hwrite (List.length_pos_iff.mpr hrest) hshort
    rw [copyOffset_zero, Nat.zero_add] at hbefore
    refine ⟨fun h => ?_, fun _ => hbefore⟩
    dsimp only at h
    omega

end Read

theorem copyRun_next (h : ChunkCopied rounds rest.length 0) (fuel : ℕ)
    (ret : ℤ) :
    copyRun (fuel + 1) rounds ret done rest =
      copyRun fuel (fun n => rounds (n + 1))
        (chunkLength rounds rest.length 0 : ℤ)
        (done ++ rest.take (rounds 0).size)
        (rest.drop (rounds 0).size) := by
  obtain ⟨⟨n, hread⟩, hlt, m, hwrite, hfull⟩ := h
  have hrest : rest ≠ [] := List.ne_nil_of_length_pos hlt
  have hlength : (rest.take (rounds 0).size).length =
      chunkLength rounds rest.length 0 := List.length_take
  simp only [copyRun, hread, if_neg (take_size_ne_nil hread hrest), hwrite,
    hlength, if_neg (not_lt.mpr hfull)]

/-- The loop is right if and only if its first fault is harmless. -/
theorem copyRun_right_iff (fuel : ℕ) {ret : ℤ} (hret : ret ≠ 0)
    (hfuel : rest.length < fuel) :
    RunRight before (done ++ rest) (copyRun fuel rounds ret done rest) ↔
      HarmlessFrom before (0 < ret) rounds done rest := by
  induction fuel generalizing rounds ret done rest with
  | zero => exact absurd hfuel (Nat.not_lt_zero _)
  | succ fuel ih =>
      cases hread : (rounds 0).read with
      | failed err => exact right_unread hread fuel hret
      | bytes n =>
          by_cases hrest : rest = []
          · subst hrest
            exact right_end hread fuel ret
          · have hpos := List.length_pos_iff.mpr hrest
            cases hwrite : (rounds 0).write with
            | failed err => exact right_unwritten hread hrest hwrite fuel ret
            | bytes m =>
                by_cases hshort : m < chunkLength rounds rest.length 0
                · exact right_short hread hrest hwrite hshort fuel ret
                · have hcopied : ChunkCopied rounds rest.length 0 :=
                    ⟨⟨n, hread⟩, hpos, m, hwrite, not_lt.mp hshort⟩
                  have hsize := size_pos hread
                  have hchunk : (0 : ℤ) < chunkLength rounds rest.length 0 := by
                    rw [chunkLength_zero]
                    omega
                  have hleft : (rest.drop (rounds 0).size).length < fuel := by
                    rw [List.length_drop]
                    omega
                  have hnext := @ih (fun n => rounds (n + 1))
                    (done ++ rest.take (rounds 0).size) _ _ hchunk.ne' hleft
                  rw [List.append_assoc, List.take_append_drop,
                    eq_true hchunk] at hnext
                  rw [harmlessFrom_of_copied hcopied, copyRun_next hcopied]
                  exact hnext

end Harmless

/-! ## The whole copy -/

theorem faultHarmless_iff (before : Option (List UInt8))
    (rounds : ℕ → CopyRound) (content : List UInt8) :
    FaultHarmless before rounds content ↔
      HarmlessFrom before (0 < (-1 : ℤ)) rounds [] content := by
  have hfirst : ¬(0 : ℤ) < -1 := by decide
  simp only [FaultHarmless, HarmlessFrom, HarmlessAt, List.nil_append, hfirst,
    not_false_eq_true, and_true]

/-- Two files that were opened. -/
theorem copying_opened {Disk : Type} {x : CopyDisk Disk} {p : CopyPattern}
    {content : List UInt8} (h : OpensBoth x p content) :
    Copying (fsOpen x.fs p.src content).1
      (fsOpen (fsOpen x.fs p.src content).2 p.dst []).1 p.src p.dst
      { x with
        fs := (fsOpen (fsOpen x.fs p.src content).2 p.dst []).2
        written := Function.update x.written p.dst [] } [] content := by
  have hneg : ¬(0 : ℤ) ≤ -1 := by decide
  obtain ⟨hsrc, hdst⟩ := h
  rcases fsOpen_cases x.fs p.src content with
    hfail | ⟨i, free, hi, hfree, hopened, hopen⟩
  · rw [hfail] at hsrc
    exact absurd hsrc hneg
  · rw [hopen] at hdst ⊢
    dsimp only at hdst ⊢
    rcases fsOpen_cases { openFd := x.fs.openFd.set i p.src
                          unread := Function.update x.fs.unread p.src content }
        p.dst [] with hfail | ⟨j, free', hj, hfree', hopened', hopen'⟩
    · rw [hfail] at hdst
      exact absurd hdst hneg
    · rw [hopen']
      have hlt := (List.getElem?_eq_some_iff.mp hi).1
      have hlt' := (List.getElem?_eq_some_iff.mp hj).1
      have hne : j ≠ i := by
        rintro rfl
        rw [List.getElem?_set_self hlt] at hj
        have := Option.some.inj hj
        omega
      refine ⟨?_, ?_, ?_, Function.update_self _ _ _⟩
      · refine FsContext.fd?_eq_some.mpr ⟨?_, by omega⟩
        rw [List.getElem?_set_ne hne]
        exact List.getElem?_set_self hlt
      · exact FsContext.fd?_eq_some.mpr
          ⟨List.getElem?_set_self hlt', by omega⟩
      · change Function.update (Function.update x.fs.unread p.src content)
          p.dst [] p.src = content
        rw [Function.update_of_ne (p.distinct hopened).symm,
          Function.update_self]

section Whole

variable {Disk : Type} (flash : FlashFs Disk) (x : CopyDisk Disk)
  (src dst : CStr) (p : CopyPattern)

/-- Without both files the destination is removed. -/
theorem fsCpLocal_unopened
    (h : ∀ content, flash.content x.disk src = some content →
      ¬OpensBoth x p content) :
    (fsCpLocal flash x src dst p).1 = -1 ∧
      (fsCpLocal flash x src dst p).2.disk = flash.remove x.disk dst := by
  cases hsrc : flash.content x.disk src with
  | none =>
      have hfail : (fsOpen x.fs (-1) []).1 < 0 := by
        rcases fsOpen_cases x.fs (-1) [] with hfail | ⟨i, free, -, -, hneg, -⟩
        · rw [hfail]
          exact (by decide : (-1 : ℤ) < 0)
        · exact absurd hneg (by decide)
      simp only [fsCpLocal, hsrc, Option.isSome_none, Bool.false_eq_true,
        if_false, Option.getD_none, if_pos hfail]
      exact ⟨trivial, trivial⟩
  | some content =>
      by_cases hfirst : (fsOpen x.fs p.src content).1 < 0
      · simp only [fsCpLocal, hsrc, Option.isSome_some, if_true,
          Option.getD_some, if_pos hfirst]
        exact ⟨trivial, trivial⟩
      · have hsecond : (fsOpen (fsOpen x.fs p.src content).2 p.dst []).1 < 0 :=
          not_le.mp fun hle => h content hsrc ⟨not_lt.mp hfirst, hle⟩
        simp only [fsCpLocal, hsrc, Option.isSome_some, if_true,
          Option.getD_some, if_neg hfirst, if_pos hsecond]
        exact ⟨trivial, trivial⟩

/-- With both files the destination is what the loop wrote, or removed. -/
theorem fsCpLocal_opened {content : List UInt8}
    (hsrc : flash.content x.disk src = some content)
    (h : OpensBoth x p content) :
    (fsCpLocal flash x src dst p).1 =
        (copyRun (content.length + 1) p.rounds (-1) [] content).1 ∧
      flash.content (fsCpLocal flash x src dst p).2.disk dst =
        if (fsCpLocal flash x src dst p).1 < 0 then none
        else some (copyRun (content.length + 1) p.rounds (-1) [] content).2 := by
  obtain ⟨hrun, -⟩ := copyLoop_eq (content.length + 1) p.rounds (-1) p.size
    (copying_opened h)
  simp only [fsCpLocal, hsrc, Option.isSome_some, if_true, Option.getD_some,
    if_neg (not_lt.mpr h.1), if_neg (not_lt.mpr h.2)]
  rw [← hrun]
  refine ⟨rfl, ?_⟩
  split
  · exact flash.content_remove _ dst
  · exact flash.content_commit _ dst _

/-- A copy is all or nothing if and only if its first fault is harmless. -/
theorem fs_cp_local_iff :
    AllOrNothing flash x src dst p ↔
      ∀ content, flash.content x.disk src = some content →
        OpensBoth x p content →
        FaultHarmless (flash.content x.disk dst) p.rounds content := by
  by_cases hopens : ∃ content, flash.content x.disk src = some content ∧
      OpensBoth x p content
  · obtain ⟨content, hsrc, hboth⟩ := hopens
    obtain ⟨hret, hdisk⟩ := fsCpLocal_opened flash x src dst p hsrc hboth
    have hright := @copyRun_right_iff (flash.content x.disk dst) p.rounds []
      content (content.length + 1) (-1) (by decide)
      (Nat.lt_succ_self content.length)
    have hcondition : (∀ content, flash.content x.disk src = some content →
        OpensBoth x p content →
        FaultHarmless (flash.content x.disk dst) p.rounds content) ↔
          FaultHarmless (flash.content x.disk dst) p.rounds content := by
      constructor
      · exact fun hall => hall content hsrc hboth
      · rintro hharmless content' hsrc' -
        obtain rfl := Option.some.inj (hsrc.symm.trans hsrc')
        exact hharmless
    rw [hcondition, faultHarmless_iff, ← hright, List.nil_append]
    unfold AllOrNothing
    dsimp only
    rw [hdisk, hret]
    generalize copyRun (content.length + 1) p.rounds (-1) [] content = run
    rw [RunRight]
    rcases lt_trichotomy run.1 0 with hneg | hzero | hpos
    · simp [hneg, hneg.ne, hneg.not_gt]
    · simp [hzero, hsrc, eq_comm]
    · simp [hpos, hpos.ne', hpos.not_gt, eq_comm]
  · push Not at hopens
    obtain ⟨hret, hdisk⟩ := fsCpLocal_unopened flash x src dst p hopens
    refine iff_of_true ⟨fun hzero => ?_, fun _ => .inr ?_⟩ ?_
    · exact absurd (hret.symm.trans hzero) (by decide)
    · exact (congrArg (flash.content · dst) hdisk).trans
        (flash.content_remove x.disk dst)
    · intro content hsrc hboth
      exact absurd hboth (hopens content hsrc)

end Whole

/-! ## A read that fails -/

/-- Files by their paths. -/
def flashFiles : FlashFs (CStr → Option (List UInt8)) where
  content := fun disk path => disk path
  commit := fun disk path data => Function.update disk path (some data)
  remove := fun disk path => Function.update disk path none
  content_commit := fun _ _ _ => Function.update_self _ _ _
  content_remove := fun _ _ => Function.update_self _ _ _

/-- A file `/a` of 65 bytes. -/
def longFile : CopyDisk (CStr → Option (List UInt8)) where
  fs := .init
  written := fun _ => []
  disk := Function.update (fun _ => none) (lit "/a")
    (some (List.replicate 65 7))

/-- The second chunk is not read. -/
def secondUnread : CopyPattern where
  src := 1
  dst := 2
  distinct := by decide
  rounds := fun n =>
    { read := if n = 1 then .failed 4 else .bytes copyBuff
      write := .bytes copyBuff }
  buff := List.replicate copyBuff 0
  size := List.length_replicate

/-- It leaves the first chunk in a file that has not been there. -/
theorem not_all_or_nothing :
    ¬∀ x src dst p, AllOrNothing flashFiles x src dst p := by
  intro h
  have hpartial : (fsCpLocal flashFiles longFile (lit "/a") (lit "/b")
      secondUnread).1 = 64 ∧
      (fsCpLocal flashFiles longFile (lit "/a") (lit "/b")
        secondUnread).2.disk (lit "/b") = some (List.replicate 64 7) ∧
      longFile.disk (lit "/b") = none := by
    decide +kernel
  obtain ⟨hret, hdisk, hbefore⟩ := hpartial
  rcases (h longFile (lit "/a") (lit "/b") secondUnread).2
      (by rw [hret]; decide) with hsame | hgone
  · cases (hdisk.symm.trans hsame).trans hbefore
  · cases hdisk.symm.trans hgone

end Herak.Fs
