import Herak.Scripts.Run

/-!
# The commands of a script file

The lines of a file are separated by LF or CR, and its commands are the lines
that are neither empty behind their leading blanks nor marked.  What the rounds
of the module pass on are pieces of the file: a line in pieces of the size of
the line buffer, and nothing of the end of the file that no separator follows.
-/

namespace Herak.Scripts

open CString Fs

/-! ## The lines of a file -/

/-- A line, with the bytes of the file from its start on. -/
structure Line where
  left : List UInt8
  bytes : List UInt8
  ended : Bool
  deriving DecidableEq

def linesOf : List UInt8 → List Line
  | [] => [⟨[], [], false⟩]
  | byte :: rest =>
      if byte ∈ newLine then ⟨byte :: rest, [], true⟩ :: linesOf rest
      else
        match linesOf rest with
        | [] => []
        | line :: lines =>
            ⟨byte :: rest, byte :: line.bytes, line.ended⟩ :: lines

/-- The command of a line. -/
def Line.command (line : Line) : Option Passed :=
  let ldata := stripBlanks line.bytes
  if ldata = [] ∨ isMarked ldata then none else some ⟨line.left, ldata⟩

def commandsOf (content : List UInt8) : List Passed :=
  (linesOf content).filterMap Line.command

/-- A file is its first line, and its other lines behind a separator. -/
theorem linesOf_append {line : List UInt8} (hline : ∀ b ∈ line, b ∉ newLine) :
    linesOf line = [⟨line, line, false⟩] ∧
      ∀ (stop : UInt8) (rest : List UInt8), stop ∈ newLine →
        linesOf (line ++ stop :: rest) =
          ⟨line ++ stop :: rest, line, true⟩ :: linesOf rest := by
  induction line with
  | nil =>
      refine ⟨rfl, fun stop rest hstop => ?_⟩
      simp [linesOf, hstop]
  | cons byte line ih =>
      obtain ⟨hlast, hended⟩ := ih fun b hb => hline b (List.mem_cons_of_mem _ hb)
      have hbyte := hline byte List.mem_cons_self
      refine ⟨?_, fun stop rest hstop => ?_⟩
      · simp [linesOf, hbyte, hlast]
      · simp [linesOf, hbyte, hended stop rest hstop]

/-! ## The pieces that are passed on -/

/-- The text of a piece of the file in the line buffer. -/
def blockText (block : List UInt8) : CStr :=
  (block.take (maxLine - 1)).takeWhile (· ≠ 0)

/-- What is passed on of a piece. -/
def passBlock (left block : List UInt8) : List Passed :=
  if block = [] then []
  else
    let ldata := stripBlanks (blockText block)
    if isMarked ldata then [] else [⟨left, ldata⟩]

theorem getsSegment_length {n : ℕ} {unread seg rest : List UInt8}
    (hn : 0 < n) (h : getsSegment n unread = some (seg, rest)) :
    rest.length < unread.length := by
  have hle : (segment newLine n unread).length ≤ unread.length :=
    ((List.take_prefix _ _).trans (List.takeWhile_prefix _)).length_le
  simp only [getsSegment] at h
  split at h
  · obtain ⟨-, rfl⟩ := Prod.mk.inj (Option.some.inj h)
    rw [List.length_drop]
    omega
  · split at h
    · obtain ⟨-, rfl⟩ := Prod.mk.inj (Option.some.inj h)
      rw [List.length_drop]
      omega
    · cases h

/-- All that is passed on of the rest of a file. -/
def calls (unread : List UInt8) : List Passed :=
  match _h : getsSegment maxLine unread with
  | none => []
  | some (seg, rest) => passBlock unread seg ++ calls rest
termination_by unread.length
decreasing_by exact getsSegment_length (by decide) _h

theorem calls_of_none {unread : List UInt8}
    (h : getsSegment maxLine unread = none) : calls unread = [] := by
  rw [calls]
  split
  · rfl
  next hsome => simp [h] at hsome

theorem calls_of_some {unread seg rest : List UInt8}
    (h : getsSegment maxLine unread = some (seg, rest)) :
    calls unread = passBlock unread seg ++ calls rest := by
  rw [calls]
  split
  next hnone => simp [h] at hnone
  next seg' rest' hsome =>
    obtain ⟨rfl, rfl⟩ := Prod.mk.inj (Option.some.inj (h.symm.trans hsome))
    rfl

/-- The loop of `script_exec` passes on the first of the pieces, and leaves
the others. -/
theorem execLoop_eq {fd pico : ℤ} {fuel : ℕ} {fs : FsContext}
    {line : List UInt8} (hfd : fs.fd? fd = some pico)
    (hline : line.length = maxLine)
    (hfuel : (fs.unread pico).length < fuel) :
    ∃ rest line', execLoop fd fuel fs line =
        ((calls (fs.unread pico)).head?,
          { fs with unread := Function.update fs.unread pico rest }, line') ∧
      line'.length = maxLine ∧
      calls rest = (calls (fs.unread pico)).tail := by
  induction fuel generalizing fs line with
  | zero => omega
  | succ fuel ih =>
      cases hread : getsSegment maxLine (fs.unread pico) with
      | none =>
          obtain ⟨line', hgets, hline'⟩ := fsGets_of_none hfd hline (by decide)
            hread
          refine ⟨[], line', ?_, hline', ?_⟩
          · simp [execLoop, hgets, calls_of_none hread]
          · rw [calls_of_none hread, calls_of_none (by decide)]
            rfl
      | some piece =>
          obtain ⟨seg, rest⟩ := piece
          obtain ⟨line', hgets, hline', htext⟩ :=
            fsGets_of_some hfd hline (by decide) hread
          change seg ≠ [] → cstrAt line' 0 = blockText seg at htext
          have hshort := getsSegment_length (by decide) hread
          have hcalls := calls_of_some hread
          have hnonneg : ¬(seg.length : ℤ) < 0 := by omega
          -- A piece that is skipped leaves the loop to the next one.
          have hskip : passBlock (fs.unread pico) seg = [] →
              ∃ rest' line'', execLoop fd fuel
                  { fs with unread := Function.update fs.unread pico rest }
                  line' =
                ((calls (fs.unread pico)).head?,
                  { fs with
                    unread := Function.update fs.unread pico rest' },
                  line'') ∧
                line''.length = maxLine ∧
                calls rest' = (calls (fs.unread pico)).tail := by
            intro hnone
            rw [hcalls, hnone, List.nil_append]
            have hnext := @ih
              { fs with unread := Function.update fs.unread pico rest } line'
              hfd hline' (by simpa using by omega)
            simpa using hnext
          by_cases hempty : seg = []
          · obtain ⟨rest', line'', hloop, hrest⟩ := hskip (by
              simp [passBlock, hempty])
            refine ⟨rest', line'', ?_, hrest⟩
            rw [← hloop]
            simp [execLoop, hgets, hempty]
          · have hpositive : ¬(seg.length : ℤ) = 0 := by
              have := List.length_pos_iff.mpr hempty
              omega
            by_cases hmark : isMarked (stripBlanks (blockText seg)) = true
            · obtain ⟨rest', line'', hloop, hrest⟩ := hskip (by
                simp [passBlock, hempty, hmark])
              refine ⟨rest', line'', ?_, hrest⟩
              rw [← hloop]
              simp only [execLoop, hgets, if_neg hnonneg, if_neg hpositive,
                htext hempty]
              rw [if_pos hmark]
            · have hpass : passBlock (fs.unread pico) seg =
                  [⟨fs.unread pico, stripBlanks (blockText seg)⟩] := by
                simp [passBlock, hempty, hmark]
              refine ⟨rest, line', ?_, hline', ?_⟩
              · simp only [execLoop, hgets, if_neg hnonneg, if_neg hpositive,
                  htext hempty, hcalls, hpass, hfd, Option.map_some,
                  Option.getD_some]
                rw [if_neg hmark]
                rfl
              · rw [hcalls, hpass]
                rfl

/-! ## Files that fit -/

/-- A command line fits when it is ended, shorter than the line buffer and
without NUL bytes.  Any other line fits when each of its pieces of the size of
the buffer that are read starts with a mark. -/
def Line.Fits (line : Line) : Prop :=
  if stripBlanks line.bytes = [] ∨ isMarked (stripBlanks line.bytes) then
    ∀ k, (if line.ended then maxLine * k < line.bytes.length
        else maxLine * (k + 1) ≤ line.bytes.length) →
      isMarked (stripBlanks (blockText (line.bytes.drop (maxLine * k))))
  else line.ended = true ∧ line.bytes.length < maxLine ∧ 0 ∉ line.bytes

def FileFits (content : List UInt8) : Prop :=
  ∀ line ∈ linesOf content, line.Fits

/-! ### One line -/

theorem segment_of_line {line : List UInt8} (rest : List UInt8)
    (hline : ∀ b ∈ line, b ∉ newLine)
    (hrest : ∀ stop ∈ rest.head?, stop ∈ newLine) (n : ℕ) :
    segment newLine n (line ++ rest) = line.take n := by
  have hwhile : (line ++ rest).takeWhile (· ∉ newLine) = line := by
    rw [List.takeWhile_append_of_pos (by simpa using hline)]
    cases rest with
    | nil => simp
    | cons stop rest =>
        have hstop := hrest stop rfl
        simp [hstop]
  rw [Fs.segment, hwhile]

/-- A long line is read in pieces. -/
theorem calls_of_long {line : List UInt8} (rest : List UInt8)
    (hline : ∀ b ∈ line, b ∉ newLine)
    (hrest : ∀ stop ∈ rest.head?, stop ∈ newLine)
    (hlong : maxLine ≤ line.length) :
    calls (line ++ rest) =
      passBlock (line ++ rest) (line.take maxLine) ++
        calls (line.drop maxLine ++ rest) := by
  refine calls_of_some ?_
  have hseg := segment_of_line rest hline hrest maxLine
  have hlen : (line.take maxLine).length = maxLine := by
    rw [List.length_take, Nat.min_eq_left hlong]
  simp only [getsSegment, hseg]
  rw [if_pos hlen, List.drop_append_of_le_length hlong]

/-- An ended line that is not long is read whole. -/
theorem calls_of_ended {line : List UInt8} (rest : List UInt8) {stop : UInt8}
    (hline : ∀ b ∈ line, b ∉ newLine) (hstop : stop ∈ newLine)
    (hshort : line.length < maxLine) :
    calls (line ++ stop :: rest) =
      passBlock (line ++ stop :: rest) line ++ calls rest := by
  refine calls_of_some ?_
  have hseg := segment_of_line (stop :: rest) hline (by simpa using hstop)
    maxLine
  rw [List.take_of_length_le (Nat.le_of_lt hshort)] at hseg
  simp only [getsSegment, hseg]
  rw [if_neg (by omega), if_pos (by simp), List.drop_append]
  simp

/-- The end of a file that no separator follows is not passed on. -/
theorem calls_of_open {line : List UInt8} (hline : ∀ b ∈ line, b ∉ newLine)
    (hshort : line.length < maxLine) : calls line = [] := by
  refine calls_of_none ?_
  have hseg := segment_of_line [] hline (by simp) maxLine
  rw [List.append_nil, List.take_of_length_le (Nat.le_of_lt hshort)] at hseg
  simp only [getsSegment, hseg]
  rw [if_neg (by omega), if_neg (by omega)]

theorem passBlock_left {left block : List UInt8} {p : Passed}
    (h : p ∈ passBlock left block) : p.left = left := by
  simp only [passBlock] at h
  split at h
  · simp at h
  · split at h
    · simp at h
    · rw [List.mem_singleton.mp h]

/-- What is passed on begins in the rest of the file. -/
theorem calls_left_le {unread : List UInt8} {p : Passed}
    (h : p ∈ calls unread) : p.left.length ≤ unread.length := by
  induction hn : unread.length using Nat.strong_induction_on
    generalizing unread with
  | _ n ih =>
      cases hread : getsSegment maxLine unread with
      | none => simp [calls_of_none hread] at h
      | some piece =>
          obtain ⟨seg, rest⟩ := piece
          have hlt := getsSegment_length (by decide) hread
          rw [calls_of_some hread, List.mem_append] at h
          rcases h with h | h
          · rw [passBlock_left h]
            omega
          · have := ih rest.length (by omega) h rfl
            omega

/-- The pieces of a line that are passed on; `tail` is the file behind it. -/
def lineCalls (ended : Bool) (tail line : List UInt8) : List Passed :=
  if maxLine ≤ line.length then
    passBlock (line ++ tail) (line.take maxLine) ++
      lineCalls ended tail (line.drop maxLine)
  else if ended then passBlock (line ++ tail) line
  else []
termination_by line.length
decreasing_by
  rw [List.length_drop]
  simp only [maxLine] at *
  omega

theorem lineCalls_of_long {ended : Bool} {tail line : List UInt8}
    (h : maxLine ≤ line.length) :
    lineCalls ended tail line =
      passBlock (line ++ tail) (line.take maxLine) ++
        lineCalls ended tail (line.drop maxLine) := by
  rw [lineCalls, if_pos h]

theorem lineCalls_of_short {ended : Bool} {tail line : List UInt8}
    (h : line.length < maxLine) :
    lineCalls ended tail line =
      if ended then passBlock (line ++ tail) line else [] := by
  rw [lineCalls, if_neg (by omega)]

/-- What is passed on of a file is what is passed on of its first line, and of
the rest behind a separator. -/
theorem calls_eq_lineCalls {line : List UInt8}
    (hline : ∀ b ∈ line, b ∉ newLine) :
    calls line = lineCalls false [] line ∧
      ∀ (stop : UInt8) (rest : List UInt8), stop ∈ newLine →
        calls (line ++ stop :: rest) =
          lineCalls true (stop :: rest) line ++ calls rest := by
  induction hn : line.length using Nat.strong_induction_on
    generalizing line with
  | _ n ih =>
      by_cases hlong : maxLine ≤ line.length
      · have hdrop : ∀ b ∈ line.drop maxLine, b ∉ newLine := fun b hb =>
          hline b (List.mem_of_mem_drop hb)
        have hshorter : (line.drop maxLine).length < n := by
          rw [List.length_drop]
          simp only [maxLine] at *
          omega
        obtain ⟨hopen, hended⟩ := ih _ hshorter hdrop rfl
        refine ⟨?_, fun stop rest hstop => ?_⟩
        · have hcalls := calls_of_long [] hline (by simp) hlong
          simp only [List.append_nil] at hcalls
          rw [hcalls, hopen, lineCalls_of_long hlong, List.append_nil]
        · rw [calls_of_long (stop :: rest) hline (by simpa using hstop) hlong,
            hended stop rest hstop, lineCalls_of_long hlong,
            List.append_assoc]
      · have hshort : line.length < maxLine := Nat.lt_of_not_le hlong
        refine ⟨?_, fun stop rest hstop => ?_⟩
        · rw [calls_of_open hline hshort, lineCalls_of_short hshort]
          rfl
        · rw [calls_of_ended _ hline hstop hshort, lineCalls_of_short hshort]
          rfl

theorem lineCalls_left {ended : Bool} {tail line : List UInt8} {p : Passed}
    (h : p ∈ lineCalls ended tail line) :
    tail.length ≤ p.left.length ∧
      p.left.length ≤ line.length + tail.length := by
  induction hn : line.length using Nat.strong_induction_on
    generalizing line with
  | _ n ih =>
      by_cases hlong : maxLine ≤ line.length
      · rw [lineCalls_of_long hlong, List.mem_append] at h
        rcases h with h | h
        · rw [passBlock_left h, List.length_append]
          omega
        · have hpos : 0 < maxLine := by decide
          have hdrop := List.length_drop (i := maxLine) (l := line)
          have := ih _ (by omega) h rfl
          omega
      · rw [lineCalls_of_short (Nat.lt_of_not_le hlong)] at h
        split at h
        · rw [passBlock_left h, List.length_append]
          omega
        · simp at h

theorem passBlock_eq_nil_iff (left block : List UInt8) :
    passBlock left block = [] ↔
      (block ≠ [] → isMarked (stripBlanks (blockText block)) = true) := by
  by_cases hblock : block = []
  · simp [passBlock, hblock]
  · by_cases hmark : isMarked (stripBlanks (blockText block)) = true
    · simp [passBlock, hmark]
    · simp [passBlock, hblock, hmark]

theorem blockText_take (block : List UInt8) :
    blockText (block.take maxLine) = blockText block := by
  rw [blockText, blockText, List.take_take]
  rfl

/-- The pieces behind the first are those of what is left of the line. -/
theorem piece_succ_iff {n : ℕ} (hlong : maxLine ≤ n) (ended : Bool) (k : ℕ) :
    (if ended then maxLine * k < n - maxLine
        else maxLine * (k + 1) ≤ n - maxLine) ↔
      if ended then maxLine * (k + 1) < n else maxLine * (k + 1 + 1) ≤ n := by
  simp only [maxLine] at *
  cases ended with
  | true =>
      simp only [if_true]
      omega
  | false =>
      simp only [Bool.false_eq_true, if_false]
      omega

/-- Nothing of a line is passed on when all of its pieces are marked. -/
theorem lineCalls_eq_nil_iff (ended : Bool) (tail line : List UInt8) :
    lineCalls ended tail line = [] ↔
      ∀ k, (if ended then maxLine * k < line.length
          else maxLine * (k + 1) ≤ line.length) →
        isMarked (stripBlanks (blockText (line.drop (maxLine * k)))) := by
  induction hn : line.length using Nat.strong_induction_on
    generalizing line with
  | _ n ih =>
      have hpos : 0 < maxLine := by decide
      by_cases hlong : maxLine ≤ line.length
      · have hdrop := List.length_drop (i := maxLine) (l := line)
        have hne : line.take maxLine ≠ [] := by
          rw [← List.length_pos_iff, List.length_take]
          omega
        rw [lineCalls_of_long hlong, List.append_eq_nil_iff,
          ih _ (by omega) (line.drop maxLine) rfl, passBlock_eq_nil_iff,
          blockText_take, hdrop, hn]
        refine (and_congr ?_ (forall_congr' fun k => ?_)).trans
          Nat.and_forall_add_one
        · have hfirst : if ended then maxLine * 0 < n
              else maxLine * (0 + 1) ≤ n := by
            split
            · omega
            · omega
          rw [Nat.mul_zero, List.drop_zero]
          exact ⟨fun h _ => h hne, fun h _ => h hfirst⟩
        · rw [piece_succ_iff (hn ▸ hlong), List.drop_drop, Nat.mul_succ,
            Nat.add_comm maxLine]
      · have hshort : line.length < maxLine := Nat.lt_of_not_le hlong
        rw [lineCalls_of_short hshort, ← hn]
        cases ended with
        | true =>
            rw [if_pos rfl, passBlock_eq_nil_iff]
            constructor
            · intro hfirst k hk
              have hzero : k = 0 := by
                simp only [maxLine, if_true] at *
                omega
              subst hzero
              simp only [Nat.mul_zero, if_true] at hk
              simpa using hfirst (List.length_pos_iff.mp hk)
            · intro hall hne
              simpa using hall 0 (by simpa using List.length_pos_iff.mpr hne)
        | false =>
            refine ⟨fun _ k hk => ?_, fun _ => rfl⟩
            simp only [maxLine, Bool.false_eq_true, if_false] at *
            omega

theorem stripBlanks_take_length {line : List UInt8}
    (hne : stripBlanks line ≠ []) {n : ℕ} (hn : n < line.length) :
    (stripBlanks (line.take n)).length < (stripBlanks line).length := by
  induction line generalizing n with
  | nil => simp at hn
  | cons byte line ih =>
      cases n with
      | zero => simpa [stripBlanks] using List.length_pos_iff.mpr hne
      | succ n =>
          rw [List.length_cons, Nat.add_lt_add_iff_right] at hn
          by_cases hblank : isBlank byte = true
          · have hcut : ∀ l, stripBlanks (byte :: l) = stripBlanks l := fun l => by
              simp [stripBlanks, hblank]
            rw [hcut] at hne
            rw [List.take_succ_cons, hcut, hcut]
            exact ih hne hn
          · have hkeep : ∀ l, stripBlanks (byte :: l) = byte :: l := fun l => by
              simp [stripBlanks, hblank]
            rw [List.take_succ_cons, hkeep, hkeep, List.length_cons,
              List.length_cons, List.length_take]
            omega

theorem blockText_eq_take (block : List UInt8) :
    blockText block = block.take (blockText block).length :=
  List.prefix_iff_eq_take.mp
    ((List.takeWhile_prefix _).trans (List.take_prefix _ _))

/-- A text that is cut off is shorter behind its blanks. -/
theorem stripBlanks_blockText_ne {line : List UInt8}
    (hne : stripBlanks line ≠ [])
    (hlt : (blockText line).length < line.length) :
    stripBlanks (blockText line) ≠ stripBlanks line := by
  intro heq
  have hshorter := stripBlanks_take_length hne hlt
  rw [← blockText_eq_take, heq] at hshorter
  exact Nat.lt_irrefl _ hshorter

theorem passBlock_data {left block ldata : List UInt8} {ps : List Passed}
    (h : passBlock left block = ⟨left, ldata⟩ :: ps) :
    stripBlanks (blockText block) = ldata := by
  simp only [passBlock] at h
  split at h
  · cases h
  · split at h
    · cases h
    · exact congrArg Passed.ldata (List.cons.inj h).1

/-- A byte 0 ends the text before the end of the line. -/
theorem blockText_length_lt {line : List UInt8} (hnul : 0 ∈ line) :
    (blockText line).length < line.length := by
  have hprefix := (List.takeWhile_prefix
    fun byte : UInt8 => decide (byte ≠ 0)).trans
      (List.take_prefix (maxLine - 1) line)
  refine lt_of_le_of_ne hprefix.length_le fun heq => ?_
  have hself : blockText line = line := hprefix.eq_of_length heq
  rw [← hself] at hnul
  simpa using List.mem_takeWhile_imp hnul

theorem blockText_eq_self {line : List UInt8} (hshort : line.length < maxLine)
    (hnul : 0 ∉ line) : blockText line = line := by
  rw [blockText, List.take_of_length_le (Nat.le_sub_one_of_lt hshort),
    List.takeWhile_eq_self_iff]
  intro byte hbyte
  simpa using fun h : byte = 0 => hnul (h ▸ hbyte)

/-- A command line is passed on whole, once, exactly if it fits. -/
theorem lineCalls_eq_command_iff {ended : Bool} {tail line : List UInt8}
    (hne : stripBlanks line ≠ []) (hmark : isMarked (stripBlanks line) = false) :
    lineCalls ended tail line = [⟨line ++ tail, stripBlanks line⟩] ↔
      ended = true ∧ line.length < maxLine ∧ 0 ∉ line := by
  have hline : line ≠ [] := by
    rintro rfl
    exact hne rfl
  have htext : (blockText line).length ≤ maxLine - 1 :=
    (List.takeWhile_prefix _).length_le.trans (List.length_take_le _ _)
  by_cases hlong : maxLine ≤ line.length
  · have hpos : 0 < maxLine := by decide
    refine ⟨fun heq => ?_, fun hfits => by omega⟩
    rw [lineCalls_of_long hlong] at heq
    cases hpass : passBlock (line ++ tail) (line.take maxLine) with
    | nil =>
        -- The later pieces begin further behind.
        rw [hpass, List.nil_append] at heq
        have hmem : (⟨line ++ tail, stripBlanks line⟩ : Passed) ∈
            lineCalls ended tail (line.drop maxLine) := by
          rw [heq]
          exact List.mem_singleton_self _
        have hleft := (lineCalls_left hmem).2
        simp only [List.length_append, List.length_drop] at hleft
        omega
    | cons p ps =>
        rw [hpass, List.cons_append] at heq
        obtain ⟨rfl, -⟩ := List.cons.inj heq
        have hdata := passBlock_data hpass
        rw [blockText_take] at hdata
        exact (stripBlanks_blockText_ne hne (by omega) hdata).elim
  · have hshort : line.length < maxLine := Nat.lt_of_not_le hlong
    rw [lineCalls_of_short hshort]
    cases ended with
    | false => simp
    | true =>
        rw [if_pos rfl]
        by_cases hnul : 0 ∈ line
        · refine ⟨fun heq => ?_, fun hfits => (hfits.2.2 hnul).elim⟩
          exact (stripBlanks_blockText_ne hne (blockText_length_lt hnul)
            (passBlock_data heq)).elim
        · have hself := blockText_eq_self hshort hnul
          simp [passBlock, hline, hself, hmark, hshort, hnul]

theorem lineCalls_eq_iff (ended : Bool) (tail line : List UInt8) :
    lineCalls ended tail line =
        (Line.command ⟨line ++ tail, line, ended⟩).toList ↔
      Line.Fits ⟨line ++ tail, line, ended⟩ := by
  by_cases hnone : stripBlanks line = [] ∨ isMarked (stripBlanks line) = true
  · simp only [Line.command, Line.Fits, if_pos hnone, Option.toList_none]
    exact lineCalls_eq_nil_iff ended tail line
  · simp only [Line.command, Line.Fits, if_neg hnone, Option.toList_some]
    push Not at hnone
    exact lineCalls_eq_command_iff hnone.1 (by simpa using hnone.2)

/-! ### The file -/

theorem linesOf_left_le {content : List UInt8} {line : Line}
    (h : line ∈ linesOf content) : line.left.length ≤ content.length := by
  induction content with
  | nil =>
      simp only [linesOf, List.mem_singleton] at h
      simp [h]
  | cons byte rest ih =>
      simp only [linesOf] at h
      split at h
      · rcases List.mem_cons.mp h with rfl | h
        · exact Nat.le_refl _
        · exact (ih h).trans (Nat.le_succ _)
      · cases hlines : linesOf rest with
        | nil => simp [hlines] at h
        | cons first lines =>
            rw [hlines] at h
            rcases List.mem_cons.mp h with rfl | h
            · exact Nat.le_refl _
            · refine (ih ?_).trans (Nat.le_succ _)
              rw [hlines]
              exact List.mem_cons_of_mem _ h

theorem commandsOf_left_le {content : List UInt8} {p : Passed}
    (h : p ∈ commandsOf content) : p.left.length ≤ content.length := by
  obtain ⟨line, hline, hcommand⟩ := List.mem_filterMap.mp h
  simp only [Line.command] at hcommand
  split at hcommand
  · cases hcommand
  · obtain rfl := Option.some.inj hcommand
    exact linesOf_left_le hline

/-- Two lists of parts of different kinds are equal part by part. -/
theorem append_inj_of_forall {α : Type*} {P : α → Prop} {a a' b b' : List α}
    (ha : ∀ x ∈ a, P x) (ha' : ∀ x ∈ a', P x) (hb : ∀ x ∈ b, ¬P x)
    (hb' : ∀ x ∈ b', ¬P x) :
    a ++ b = a' ++ b' ↔ a = a' ∧ b = b' := by
  refine ⟨fun h => ?_, fun h => by rw [h.1, h.2]⟩
  classical
  have hfirst := congrArg (List.filter fun x => decide (P x)) h
  have hsecond := congrArg (List.filter fun x => decide ¬P x) h
  rw [List.filter_append, List.filter_append,
    List.filter_eq_self.mpr (by simpa using ha),
    List.filter_eq_nil_iff.mpr (by simpa using hb),
    List.filter_eq_self.mpr (by simpa using ha'),
    List.filter_eq_nil_iff.mpr (by simpa using hb'), List.append_nil,
    List.append_nil] at hfirst
  rw [List.filter_append, List.filter_append,
    List.filter_eq_nil_iff.mpr (by simpa using ha),
    List.filter_eq_self.mpr (by simpa using hb),
    List.filter_eq_nil_iff.mpr (by simpa using ha'),
    List.filter_eq_self.mpr (by simpa using hb')] at hsecond
  exact ⟨hfirst, hsecond⟩

/-- A file is its first line, which nothing or a separator follows. -/
theorem eq_first_line (content : List UInt8) :
    ∃ line : List UInt8, (∀ b ∈ line, b ∉ newLine) ∧
      (content = line ∨ ∃ stop rest, stop ∈ newLine ∧
        content = line ++ stop :: rest) := by
  induction content with
  | nil => exact ⟨[], by simp, Or.inl rfl⟩
  | cons byte content ih =>
      by_cases hbyte : byte ∈ newLine
      · exact ⟨[], by simp, Or.inr ⟨byte, content, hbyte, rfl⟩⟩
      · obtain ⟨line, hline, hcontent⟩ := ih
        refine ⟨byte :: line, ?_, ?_⟩
        · intro b hb
          rcases List.mem_cons.mp hb with rfl | hb
          · exact hbyte
          · exact hline b hb
        · rcases hcontent with rfl | ⟨stop, rest, hstop, rfl⟩
          · exact Or.inl rfl
          · exact Or.inr ⟨stop, rest, hstop, rfl⟩

/-- The commands of the file are passed on exactly if all of its lines fit. -/
theorem calls_eq_commandsOf_iff (content : List UInt8) :
    calls content = commandsOf content ↔ FileFits content := by
  induction hn : content.length using Nat.strong_induction_on
    generalizing content with
  | _ n ih =>
      obtain ⟨line, hline, hcontent | ⟨stop, rest, hstop, hcontent⟩⟩ :=
        eq_first_line content
      · subst hcontent
        have hfirst := lineCalls_eq_iff false [] content
        rw [List.append_nil] at hfirst
        have hsingle : commandsOf content =
            (Line.command ⟨content, content, false⟩).toList := by
          rw [commandsOf, (linesOf_append hline).1, List.filterMap_cons]
          cases Line.command ⟨content, content, false⟩ <;> rfl
        rw [(calls_eq_lineCalls hline).1, hsingle, hfirst, FileFits,
          (linesOf_append hline).1]
        simp
      · subst hcontent
        have hrest : rest.length < n := by
          rw [← hn]
          simp
          omega
        have hsplit : commandsOf (line ++ stop :: rest) =
            (Line.command ⟨line ++ stop :: rest, line, true⟩).toList ++
              commandsOf rest := by
          rw [commandsOf, (linesOf_append hline).2 stop rest hstop,
            List.filterMap_cons]
          cases Line.command ⟨line ++ stop :: rest, line, true⟩ <;> rfl
        rw [(calls_eq_lineCalls hline).2 stop rest hstop, hsplit,
          append_inj_of_forall (P := fun p : Passed =>
            rest.length < p.left.length), lineCalls_eq_iff, ih _ hrest rest rfl,
          FileFits, FileFits, (linesOf_append hline).2 stop rest hstop]
        · simp
        · intro p hp
          have := (lineCalls_left hp).1
          simp at this
          omega
        · intro p hp
          simp only [Line.command] at hp
          split at hp
          · simp at hp
          · simp only [Option.toList_some, List.mem_singleton] at hp
            rw [hp]
            simp
            omega
        · exact fun p hp => Nat.not_lt.mpr (calls_left_le hp)
        · exact fun p hp => Nat.not_lt.mpr (commandsOf_left_le hp)

end Herak.Scripts
