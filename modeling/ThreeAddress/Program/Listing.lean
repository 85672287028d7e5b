import ThreeAddress.Files.Access
import ThreeAddress.Files.Buffer
import ThreeAddress.Program.Basic

/-! The listing of a program: one line for each instruction and a last line for the result. -/

namespace ThreeAddress

def Instruction.line (instruction : Instruction) : String :=
  instruction.dest ++ " = " ++ instruction.lhs.text ++ " " ++ instruction.op.symbol ++ " "
    ++ instruction.rhs.text

def Program.lines (program : Program) : List String :=
  program.instructions.map Instruction.line

def Program.pieces (program : Program) : List String :=
  program.lines.flatMap (fun line => [line, "\n"]) ++ ["result = ", program.result.text, "\n"]

/-- The listing of a program. Every line ends with a line feed, the last one too. -/
def Program.listing (program : Program) : String :=
  String.join program.pieces

/-- Writes the listing into a buffer, as far as it fits. -/
def Program.writeTo (program : Program) (buffer : Buffer) : Except FileError Unit × Buffer :=
  buffer.appendAll program.pieces

/-- Writes the listing into a file, through a buffer with room for all of it. -/
def Program.saveTo [Monad m] (files : FileAccess m) (path : String) (program : Program) :
    m (Except FileError Unit) :=
  match program.writeTo { capacity := program.listing.utf8ByteSize } with
  | (.error error, _) => return .error error
  | (.ok (), buffer) => files.write path ⟨buffer.bytes.toArray⟩

theorem Program.listing_eq_lines (program : Program) :
    program.listing =
      String.join (program.lines.map (· ++ "\n")) ++ ("result = " ++ program.result.text ++ "\n") := by
  have ends (lines : List String) :
      String.join (lines.flatMap fun line => [line, "\n"]) = String.join (lines.map (· ++ "\n")) := by
    induction lines with
    | nil => rfl
    | cons line lines ih =>
      rw [List.flatMap_cons, String.join_append, ih]
      simp [String.append_assoc]
  rw [listing, pieces, String.join_append, ends]
  simp [String.append_assoc]

theorem Program.writeTo_eq (program : Program) (capacity : Nat) :
    program.writeTo { capacity } =
      (if program.listing.utf8ByteSize ≤ capacity then .ok () else .error .noRoom,
        ⟨capacity, (utf8Bytes program.listing).take capacity⟩) := by
  rw [writeTo, Buffer.appendAll_eq, utf8Bytes_length]
  rfl

theorem Program.writeTo_of_room (program : Program) {capacity : Nat}
    (fits : (utf8Bytes program.listing).length ≤ capacity) :
    program.writeTo ⟨capacity, []⟩ = (.ok (), ⟨capacity, utf8Bytes program.listing⟩) := by
  rw [program.writeTo_eq, ← utf8Bytes_length, if_pos fits, List.take_of_length_le fits]

theorem Program.saveTo_eq [Monad m] (files : FileAccess m) (path : String) (program : Program) :
    program.saveTo files path = files.write path program.listing.toUTF8 := by
  rw [saveTo, program.writeTo_of_room (Nat.le_of_eq (utf8Bytes_length program.listing))]
  simp only [utf8Bytes, Array.toArray_toList]

end ThreeAddress
