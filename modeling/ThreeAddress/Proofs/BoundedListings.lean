import ThreeAddress.Proofs.ReadableListings

/-! Writing a listing where there is room for some of it only. Each line is one formatted write, a write
hands its text over in pieces, and the first piece that does not fit ends everything. Wherever the pieces
are cut, and wherever the room ends, what has been written is the front of the whole listing. -/

namespace ThreeAddress

/-- Formatted writes one after another, each given by the pieces of its text. The first that fails is the
last that is made. -/
def Buffer.writeAll (buffer : Buffer) : List (List String) → Except FileError Unit × Buffer
  | [] => (.ok (), buffer)
  | pieces :: rest =>
    match buffer.appendAll pieces with
    | (.ok (), after) => after.writeAll rest
    | (.error error, after) => (.error error, after)

/-- The texts of the writes that make a listing: one for each instruction, then one for the result. -/
def Program.formatted (program : Program) : List String :=
  program.lines.map (· ++ "\n") ++ [program.resultLine ++ "\n"]

private theorem Program.join_formatted (program : Program) : String.join program.formatted = program.listing := by
  rw [formatted, String.join_append, program.listing_eq_lines]
  simp [resultLine]

/-- It does not matter which pieces belong to one write. -/
private theorem Buffer.writeAll_eq_appendAll (buffer : Buffer) (writes : List (List String)) :
    buffer.writeAll writes = buffer.appendAll writes.flatten := by
  induction writes generalizing buffer with
  | nil => rfl
  | cons pieces rest ih =>
    rw [List.flatten_cons, appendAll_append, writeAll]
    cases buffer.appendAll pieces with
    | mk outcome after =>
      cases outcome with
      | error error => rfl
      | ok => exact ih after

private theorem join_flatten (writes : List (List String)) :
    String.join writes.flatten = String.join (writes.map String.join) := by
  induction writes with
  | nil => rfl
  | cons pieces rest ih => rw [List.flatten_cons, String.join_append, ih, List.map_cons, String.join_cons]

/-- Nor does it matter how the texts are cut into pieces. -/
theorem Buffer.writeAll_eq (buffer : Buffer) {writes : List (List String)} {texts : List String}
    (cut : writes.map String.join = texts) :
    buffer.writeAll writes =
      (if (String.join texts).utf8ByteSize ≤ buffer.room then .ok () else .error .noRoom,
        buffer.append (String.join texts)) := by
  rw [writeAll_eq_appendAll, appendAll_eq, join_flatten, cut, utf8Bytes_length]

theorem Program.writeAll_formatted (program : Program) (capacity : Nat) {writes : List (List String)}
    (cut : writes.map String.join = program.formatted) :
    Buffer.writeAll { capacity } writes = program.writeTo { capacity } := by
  rw [Buffer.writeAll_eq _ cut, program.join_formatted, program.writeTo_eq]
  rfl

/-- A listing written into a buffer of fixed size leaves as many of its bytes as there is room for, from
the first on. The writing succeeds exactly when that is all of them, and fails for want of room otherwise.
This is the same for every way in which the lines are handed over in pieces. -/
theorem Program.writeTo_keeps_front (program : Program) (capacity : Nat) :
    (program.writeTo { capacity }).2.bytes =
      (utf8Bytes program.listing).take (min capacity program.listing.utf8ByteSize) ∧
    ((program.writeTo { capacity }).1 = .ok () ↔ program.listing.utf8ByteSize ≤ capacity) ∧
    ((program.writeTo { capacity }).1 = .error .noRoom ↔ capacity < program.listing.utf8ByteSize) ∧
    ∀ writes : List (List String), writes.map String.join = program.formatted →
      Buffer.writeAll { capacity } writes = program.writeTo { capacity } := by
  refine ⟨?_, ?_, ?_, fun writes => program.writeAll_formatted capacity⟩
  · rw [program.writeTo_eq, ← utf8Bytes_length]
    exact List.take_eq_take_min
  · rw [program.writeTo_eq]
    by_cases fits : program.listing.utf8ByteSize ≤ capacity
    · simp [fits]
    · simp [fits]
  · rw [program.writeTo_eq]
    by_cases fits : program.listing.utf8ByteSize ≤ capacity
    · simp [fits]
    · simp [fits, Nat.lt_of_not_le fits]

/-- An instruction that reads a temporary with a wide letter, and a literal without any text. -/
def wideLetter : Program :=
  ⟨[⟨"é", .add, .literal "", .temp "é"⟩], .temp "é"⟩

/-- The same listing in pieces, some of them empty. -/
def wideLetterWrites : List (List String) :=
  [["é", " = ", "", " ", "+", " ", "é", "\n"], ["", "result = ", "é", "\n"]]

theorem letter_is_cut_in_two :
    wideLetterWrites.map String.join = wideLetter.formatted ∧
    (Buffer.writeAll { capacity := 9 } wideLetterWrites).1 = .error .noRoom ∧
    (Buffer.writeAll { capacity := 9 } wideLetterWrites).2.bytes =
      [0xC3, 0xA9, 0x20, 0x3D, 0x20, 0x20, 0x2B, 0x20, 0xC3] := by
  have cut : wideLetterWrites.map String.join = wideLetter.formatted := by decide +kernel
  obtain ⟨front, _, failed, alike⟩ := wideLetter.writeTo_keeps_front 9
  rw [alike _ cut, front]
  exact ⟨cut, failed.mpr (by decide +kernel), by decide +kernel⟩

end ThreeAddress
