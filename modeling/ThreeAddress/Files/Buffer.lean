import ThreeAddress.Files.Error

/-! Buffers with room for a fixed number of bytes. -/

namespace ThreeAddress

def utf8Bytes (text : String) : List UInt8 :=
  text.toUTF8.data.toList

@[simp]
theorem utf8Bytes_append (first second : String) :
    utf8Bytes (first ++ second) = utf8Bytes first ++ utf8Bytes second := by
  simp [utf8Bytes]

structure Buffer where
  capacity : Nat
  bytes : List UInt8 := []
  deriving DecidableEq, Repr

def Buffer.room (buffer : Buffer) : Nat :=
  buffer.capacity - buffer.bytes.length

def Buffer.append (buffer : Buffer) (text : String) : Buffer :=
  { buffer with bytes := buffer.bytes ++ (utf8Bytes text).take buffer.room }

/-- Appends texts one by one, up to and with the first that does not fit whole. -/
def Buffer.appendAll (buffer : Buffer) : List String → Except FileError Unit × Buffer
  | [] => (.ok (), buffer)
  | text :: rest =>
    if (utf8Bytes text).length ≤ buffer.room then (buffer.append text).appendAll rest
    else (.error .noRoom, buffer.append text)

@[simp]
theorem utf8Bytes_empty : utf8Bytes "" = [] := rfl

theorem utf8Bytes_length (text : String) : (utf8Bytes text).length = text.utf8ByteSize := by
  simp [utf8Bytes]

theorem utf8Bytes_injective {first second : String} (same : utf8Bytes first = utf8Bytes second) :
    first = second := by
  apply String.toByteArray_inj.mp
  apply ByteArray.ext
  exact Array.toList_inj.mp same

theorem Buffer.room_append (buffer : Buffer) (text : String) :
    (buffer.append text).room = buffer.room - (utf8Bytes text).length := by
  simp only [room, append, List.length_append, List.length_take]
  omega

theorem Buffer.append_append (buffer : Buffer) (first second : String) :
    (buffer.append first).append second = buffer.append (first ++ second) := by
  have room := buffer.room_append first
  simp only [append] at room ⊢
  rw [room, utf8Bytes_append, List.take_append, List.append_assoc]

theorem Buffer.append_of_full {buffer : Buffer} (full : buffer.room = 0) (text : String) :
    buffer.append text = buffer := by
  simp [append, full]

theorem Buffer.appendAll_eq (buffer : Buffer) (texts : List String) :
    buffer.appendAll texts =
      (if (utf8Bytes (String.join texts)).length ≤ buffer.room then .ok () else .error .noRoom,
        buffer.append (String.join texts)) := by
  induction texts generalizing buffer with
  | nil => simp [appendAll, append]
  | cons text rest ih =>
    rw [String.join_cons, appendAll, ← append_append, utf8Bytes_append, List.length_append]
    by_cases fits : (utf8Bytes text).length ≤ buffer.room
    · have left : (utf8Bytes (String.join rest)).length ≤ (buffer.append text).room ↔
          (utf8Bytes text).length + (utf8Bytes (String.join rest)).length ≤ buffer.room := by
        rw [room_append]
        omega
      rw [if_pos fits, ih]
      simp only [left]
    · have full : (buffer.append text).room = 0 := by
        rw [room_append]
        omega
      rw [if_neg fits, if_neg (by omega), append_of_full full]

theorem Buffer.appendAll_append (buffer : Buffer) (first second : List String) :
    buffer.appendAll (first ++ second) =
      match buffer.appendAll first with
      | (.ok (), after) => after.appendAll second
      | (.error error, after) => (.error error, after) := by
  induction first generalizing buffer with
  | nil => rfl
  | cons text rest ih =>
    rw [List.cons_append, appendAll, appendAll]
    by_cases fits : (utf8Bytes text).length ≤ buffer.room
    · rw [if_pos fits, if_pos fits, ih]
    · rw [if_neg fits, if_neg fits]

end ThreeAddress
