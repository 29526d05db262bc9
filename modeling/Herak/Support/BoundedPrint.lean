import Herak.Support.CString
import Herak.Support.Memory

/-!
# Printing into an array

An array with a record of the bytes that are written.  A text is printed piece
by piece, each piece behind the one before it and with the size that is left.
As long as what has been printed is no longer than the array, the array holds
the text up to its last byte, and NUL.
-/

namespace BoundedPrint

open CString Memory

/-- The bytes of an array and the offsets that have been written. -/
structure PrintArray where
  bytes : List UInt8
  written : List ℕ

namespace PrintArray

def store (a : PrintArray) (off : ℕ) (data : List UInt8) : PrintArray where
  bytes := memcpy a.bytes off data
  written := a.written ++ List.range' off data.length

/-- `snprintf(buf + off, size, "%s", text)`. -/
def snprintfAt (a : PrintArray) (off size : ℕ) (text : CStr) : PrintArray :=
  a.store off (if size = 0 then [] else snprintf size text ++ [0])

/-- No write has left an array of `n` bytes. -/
def Inside (a : PrintArray) (n : ℕ) : Prop :=
  ∀ k ∈ a.written, k < n

theorem Inside.mono {a : PrintArray} {m n : ℕ} (h : a.Inside m)
    (hle : m ≤ n) : a.Inside n :=
  fun k hk => (h k hk).trans_le hle

theorem Inside.store {a : PrintArray} {n off : ℕ} {data : List UInt8}
    (h : a.Inside n) (hdata : off + data.length ≤ n) :
    (a.store off data).Inside n := by
  intro k hk
  rcases List.mem_append.mp hk with hk | hk
  · exact h k hk
  · rw [List.mem_range'_1] at hk
    omega

theorem length_store {a : PrintArray} {off : ℕ} {data : List UInt8}
    (h : off + data.length ≤ a.bytes.length) :
    (a.store off data).bytes.length = a.bytes.length :=
  length_memcpy h

/-- The array holds a text of which at most `n` bytes are kept, with NUL. -/
structure Holds (a : PrintArray) (n : ℕ) (text : CStr) : Prop where
  room : n ≤ a.bytes.length
  inside : a.Inside n
  shown : text ≠ [] → snprintf n text ++ [0] <+: a.bytes

variable {a : PrintArray} {n : ℕ} {text : CStr}

theorem holds_nil (hroom : n ≤ a.bytes.length) (hinside : a.Inside n) :
    a.Holds n [] :=
  ⟨hroom, hinside, fun h => absurd rfl h⟩

theorem Holds.take_bytes (h : a.Holds n text) (hlen : text.length < n) :
    a.bytes.take text.length = text := by
  by_cases hnil : text = []
  · simp [hnil]
  · have hprefix := h.shown hnil
    rw [snprintf_of_lt hlen] at hprefix
    exact (List.prefix_iff_eq_take.mp
      ((List.prefix_append text [0]).trans hprefix)).symm

/-- A piece is printed behind a text that fits. -/
theorem Holds.snprintfAt (h : a.Holds n text) (hpos : 0 < n)
    (hlen : text.length ≤ n) (piece : CStr) :
    (a.snprintfAt text.length (n - text.length) piece).Holds n
      (text ++ piece) := by
  unfold PrintArray.snprintfAt
  by_cases hfull : text.length = n
  · have hkeep : snprintf n (text ++ piece) = snprintf n text := by
      rw [snprintf, List.take_append_of_le_length (by omega), snprintf]
    have hsame : a.store text.length [] = a := by
      simp [PrintArray.store, memcpy_nil]
    rw [if_pos (by omega), hsame]
    refine ⟨h.room, h.inside, fun _ => ?_⟩
    rw [hkeep]
    refine h.shown fun hnil => ?_
    simp only [hnil, List.length_nil] at hfull
    omega
  · have hlt : text.length < n := by omega
    have hroom := h.room
    have hdata : (snprintf (n - text.length) piece ++ [0]).length ≤
        n - text.length := by
      rw [List.length_append, snprintf, List.length_take,
        List.length_singleton]
      omega
    rw [if_neg (by omega)]
    refine ⟨?_, h.inside.store (by omega), fun _ => ?_⟩
    · rw [length_store (by omega)]
      exact hroom
    · have hkept : snprintf n (text ++ piece) =
          text ++ snprintf (n - text.length) piece := by
        rw [snprintf, List.take_append, List.take_of_length_le (by omega),
          snprintf, Nat.sub_right_comm]
      rw [hkept, PrintArray.store, memcpy, h.take_bytes hlt,
        List.append_assoc text]
      exact List.prefix_append _ _

/-- A write behind the bytes that are kept does not touch the text. -/
theorem Holds.shown_store (h : a.Holds n text) {off : ℕ} (hoff : n ≤ off)
    (hroom : off ≤ a.bytes.length) (data : List UInt8) (hnil : text ≠ [])
    (hpos : 0 < n) : snprintf n text ++ [0] <+: (a.store off data).bytes := by
  have hlen : (snprintf n text ++ [0]).length ≤ n := by
    rw [List.length_append, snprintf, List.length_take, List.length_singleton]
    omega
  rw [List.prefix_iff_eq_take, PrintArray.store,
    take_memcpy_of_le (hlen.trans hoff) hroom]
  exact List.prefix_iff_eq_take.mp (h.shown hnil)

/-- The string in an array that starts with a text. -/
theorem cstrAt_of_prefix {bytes : List UInt8}
    (h : snprintf n text ++ [0] <+: bytes) (hnul : 0 ∉ text) :
    cstrAt bytes 0 = snprintf n text := by
  obtain ⟨rest, hrest⟩ := h
  have hmem : ∀ ch ∈ snprintf n text, decide (ch ≠ 0) = true := by
    intro ch hch
    refine decide_eq_true fun hzero => hnul ?_
    rw [← hzero]
    exact List.mem_of_mem_take hch
  rw [CString.cstrAt, ← hrest, List.drop_zero, List.append_assoc,
    List.takeWhile_append_of_pos hmem]
  simp

end PrintArray

end BoundedPrint
