import Herak.Support.BoundedPrint

/-!
# MQTT messages

The macros `ADD_MQTT_MSG` and `ADD_MQTT_MSG_VAR` of the devices, which add a
piece to a message after a test that what was added before fits the buffer.
The texts that are added are told apart from what the buffer keeps of them.
-/

namespace Herak.Mqtt

open BoundedPrint CString

/-- `ADD_MQTT_MSG`; what has been added may be longer than the buffer. -/
def addMqttMsg (len : ℕ) (payload piece : CStr) : Option CStr :=
  if len < payload.length then none else some (payload ++ piece)

def addMqttMsgs (len : ℕ) (payload : CStr) (pieces : List CStr) : Option CStr :=
  pieces.foldlM (addMqttMsg len) payload

theorem addMqttMsgs_append (len : ℕ) (payload : CStr) (pieces pieces' : List CStr) :
    addMqttMsgs len payload (pieces ++ pieces') =
      (addMqttMsgs len payload pieces).bind fun payload =>
        addMqttMsgs len payload pieces' :=
  List.foldlM_append

theorem addMqttMsgs_eq_flatten {len : ℕ} {payload message : CStr}
    {pieces : List CStr} (h : addMqttMsgs len payload pieces = some message) :
    message = payload ++ pieces.flatten := by
  induction pieces generalizing payload with
  | nil => simpa [addMqttMsgs] using h.symm
  | cons piece pieces ih =>
      change (addMqttMsg len payload piece).bind _ = _ at h
      rw [addMqttMsg] at h
      split at h
      · cases h
      · rw [List.flatten_cons, ← List.append_assoc]
        exact ih h

/-- A message that fits is added as it is. -/
theorem addMqttMsgs_of_length_le {len : ℕ} (payload : CStr)
    {pieces : List CStr} (h : (payload ++ pieces.flatten).length ≤ len) :
    addMqttMsgs len payload pieces = some (payload ++ pieces.flatten) := by
  induction pieces generalizing payload with
  | nil => simp [addMqttMsgs]
  | cons piece pieces ih =>
      have hfit : ¬len < payload.length := by
        rw [List.length_append] at h
        omega
      rw [List.flatten_cons, ← List.append_assoc] at h ⊢
      change (addMqttMsg len payload piece).bind _ = _
      rw [addMqttMsg, if_neg hfit, Option.bind_some]
      exact ih _ h

/-- Whatever the last piece is, what is in front of it must not be longer than
the buffer. -/
theorem addMqttMsgs_of_lt {len : ℕ} (payload last : CStr) {pieces : List CStr}
    (h : len < (payload ++ pieces.flatten).length) :
    addMqttMsgs len payload (pieces ++ [last]) = none := by
  induction pieces generalizing payload with
  | nil =>
      rw [List.flatten_nil, List.append_nil] at h
      simp [addMqttMsgs, addMqttMsg, h]
  | cons piece pieces ih =>
      rw [List.flatten_cons, ← List.append_assoc] at h
      change (addMqttMsg len payload piece).bind _ = _
      rw [addMqttMsg]
      split
      · rfl
      · exact ih _ h

theorem addMqttMsgs_concat (len : ℕ) (payload last : CStr)
    (pieces : List CStr) :
    addMqttMsgs len payload (pieces ++ [last]) =
      if (payload ++ pieces.flatten).length ≤ len then
        some (payload ++ pieces.flatten ++ last)
      else none := by
  split
  next h =>
    rw [addMqttMsgs_append, addMqttMsgs_of_length_le payload h,
      Option.bind_some]
    change (addMqttMsg len _ last).bind _ = _
    rw [addMqttMsg, if_neg (Nat.not_lt.mpr h), Option.bind_some]
    rfl
  next h => exact addMqttMsgs_of_lt payload last (Nat.lt_of_not_le h)

/-- What `snprintf` leaves in the buffer. -/
def mqttPayload (len : ℕ) (payload : CStr) : CStr :=
  payload.take (len - 1)

/-- What a call that sends a message reads and is answered: the time, the time
that the message is sent at, and the result of sending it. -/
structure SendCall where
  now : UInt64
  sendTime : UInt64
  result : ℤ

/-! ## The buffer -/

/-- The pieces printed into the buffer from `count` on; the result says
whether the last of them was added. -/
def printMqttMsgs (len : ℕ) (a : PrintArray) (count : ℕ) :
    List CStr → Bool × PrintArray
  | [] => (true, a)
  | piece :: pieces =>
      if len < count then (false, a)
      else
        printMqttMsgs len (a.snprintfAt count (len - count) piece)
          (count + strlen piece) pieces

/-- The buffer follows the texts, and no piece is written behind its end. -/
theorem printMqttMsgs_spec {len : ℕ} (hlen : 0 < len) {a : PrintArray}
    {payload : CStr} (h : a.Holds len payload) (pieces : List CStr) :
    let printed := printMqttMsgs len a payload.length pieces
    len ≤ printed.2.bytes.length ∧ printed.2.Inside len ∧
      match addMqttMsgs len payload pieces with
      | none => printed.1 = false
      | some message => printed.1 = true ∧ printed.2.Holds len message := by
  induction pieces generalizing a payload with
  | nil => exact ⟨h.room, h.inside, rfl, h⟩
  | cons piece pieces ih =>
      change let printed := printMqttMsgs len a payload.length (piece :: pieces)
        len ≤ printed.2.bytes.length ∧ printed.2.Inside len ∧
          match (addMqttMsg len payload piece).bind fun payload =>
            addMqttMsgs len payload pieces with
          | none => printed.1 = false
          | some message => printed.1 = true ∧ printed.2.Holds len message
      rw [printMqttMsgs, addMqttMsg]
      by_cases hfull : len < payload.length
      · rw [if_pos hfull, if_pos hfull]
        exact ⟨h.room, h.inside, rfl⟩
      · rw [if_neg hfull, if_neg hfull, Option.bind_some, strlen_eq,
          ← List.length_append]
        exact ih (h.snprintfAt hlen (Nat.le_of_not_lt hfull) piece)

/-- A message is printed if what is in front of its last piece is not longer
than the buffer. -/
theorem printMqttMsgs_concat {len : ℕ} (hlen : 0 < len) {a : PrintArray}
    (h : a.Holds len []) (pieces : List CStr) (last : CStr) :
    let printed := printMqttMsgs len a 0 (pieces ++ [last])
    len ≤ printed.2.bytes.length ∧ printed.2.Inside len ∧
      (printed.1 = true ↔ pieces.flatten.length ≤ len) ∧
      (printed.1 = true →
        printed.2.Holds len (pieces.flatten ++ last)) := by
  intro printed
  obtain ⟨hsize, hinside, hprinted⟩ :=
    printMqttMsgs_spec hlen h (pieces ++ [last])
  change len ≤ printed.2.bytes.length at hsize
  change printed.2.Inside len at hinside
  refine ⟨hsize, hinside, ?_⟩
  rw [addMqttMsgs_concat, List.nil_append] at hprinted
  by_cases hfits : pieces.flatten.length ≤ len
  · rw [if_pos hfits] at hprinted
    exact ⟨⟨fun _ => hfits, fun _ => hprinted.1⟩, fun _ => hprinted.2⟩
  · rw [if_neg hfits] at hprinted
    have hfull : ¬printed.1 = true := by simpa using hprinted
    exact ⟨iff_of_false hfull hfits, fun h => absurd h hfull⟩

end Herak.Mqtt
