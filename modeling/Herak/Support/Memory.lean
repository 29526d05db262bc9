import Mathlib.Data.List.Basic

/-!
# Byte arrays

A C array is the list of all its elements.  `memcpy` and `memset` write a
range of it and leave the rest, and never change the length when the range
fits.
-/

namespace Memory

variable {α : Type*}

/-- `memcpy(buf + off, data, n)` where `data` are the `n` source elements. -/
def memcpy (buf : List α) (off : ℕ) (data : List α) : List α :=
  buf.take off ++ data ++ buf.drop (off + data.length)

/-- `memset(buf, c, n)`. -/
def memset (buf : List α) (c : α) (n : ℕ) : List α :=
  memcpy buf 0 (List.replicate n c)

theorem length_memcpy {buf data : List α} {off : ℕ}
    (h : off + data.length ≤ buf.length) :
    (memcpy buf off data).length = buf.length := by
  simp only [memcpy, List.length_append, List.length_take, List.length_drop]
  omega

theorem length_memset {buf : List α} {n : ℕ} (c : α) (h : n ≤ buf.length) :
    (memset buf c n).length = buf.length := by
  rw [memset, length_memcpy]
  simpa using h

/-- The copied range follows what stood in front of it. -/
theorem take_memcpy {buf data : List α} {off : ℕ} (h : off ≤ buf.length) :
    (memcpy buf off data).take (off + data.length) = buf.take off ++ data := by
  have hlen : (buf.take off ++ data).length = off + data.length := by
    rw [List.length_append, List.length_take, Nat.min_eq_left h]
  rw [memcpy, ← hlen, List.take_left]

/-- Nothing in front of the range changes. -/
theorem take_memcpy_of_le {buf data : List α} {off n : ℕ}
    (hn : n ≤ off) (h : off ≤ buf.length) :
    (memcpy buf off data).take n = buf.take n := by
  have hlen : n ≤ (buf.take off).length := by
    rw [List.length_take, Nat.min_eq_left h]
    exact hn
  rw [memcpy, List.append_assoc, List.take_append_of_le_length hlen,
    List.take_take, Nat.min_eq_left hn]

theorem getElem?_memcpy {buf data : List α} {off : ℕ} (h : off ≤ buf.length)
    (k : ℕ) :
    (memcpy buf off data)[k]? =
      if k < off then buf[k]?
      else if k < off + data.length then data[k - off]? else buf[k]? := by
  have hlen : (buf.take off).length = off := by
    rw [List.length_take, Nat.min_eq_left h]
  rw [memcpy, List.append_assoc, List.getElem?_append, hlen]
  split
  next hk => rw [List.getElem?_take_of_lt hk]
  · rw [List.getElem?_append]
    have hiff : k - off < data.length ↔ k < off + data.length := by omega
    simp only [hiff]
    split
    · rfl
    · rw [List.getElem?_drop]
      congr 1
      omega

theorem getElem?_memset {buf : List α} (c : α) {n : ℕ} (k : ℕ) :
    (memset buf c n)[k]? = if k < n then some c else buf[k]? := by
  rw [memset, getElem?_memcpy (Nat.zero_le _)]
  by_cases hk : k < n <;> simp [hk]

theorem memcpy_zero (buf data : List α) :
    memcpy buf 0 data = data ++ buf.drop data.length := by
  simp [memcpy]

theorem memcpy_nil (buf : List α) (off : ℕ) : memcpy buf off [] = buf := by
  simp [memcpy]

/-- Setting the head of an array. -/
theorem memset_eq {buf : List α} (c : α) (n : ℕ) :
    memset buf c n = List.replicate n c ++ buf.drop n := by
  simp [memset, memcpy]

end Memory
