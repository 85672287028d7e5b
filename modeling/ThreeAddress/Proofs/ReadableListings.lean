import ThreeAddress.Program.Listing
import ThreeAddress.Proofs.Expansion
import ThreeAddress.Proofs.PrintingRoundTrip

/-! Listings read back. A listing does not say which operands are literals and which are temporaries,
and only blanks and line feeds keep its words apart. For the code of an expression with plain numbers
this is enough: no word is broken by a blank or a line feed, and no number looks like a temporary. So
the listing gives the program back, and the program gives the expression. -/

namespace ThreeAddress

/-- The operand that a word stands for. A word of digits alone is a literal. -/
def Operand.ofWord (word : List Char) : Operand :=
  if word.all Char.isDigit then .literal (String.ofList word) else .temp (String.ofList word)

def Op.ofWord? : List Char → Option Op
  | ['+'] => some .add
  | ['-'] => some .subtract
  | ['*'] => some .multiply
  | ['/'] => some .divide
  | _ => none

def Instruction.ofWords? : List (List Char) → Option Instruction
  | [dest, ['='], lhs, sign, rhs] => do
    let op ← Op.ofWord? sign
    some ⟨String.ofList dest, op, .ofWord lhs, .ofWord rhs⟩
  | _ => none

/-- The program whose lines have these words. Behind the last line feed nothing may follow. -/
def Program.ofLines? : List (List (List Char)) → Option Program
  | [[['r', 'e', 's', 'u', 'l', 't'], ['='], result], [[]]] => some ⟨[], .ofWord result⟩
  | words :: rest => do
    let instruction ← Instruction.ofWords? words
    let program ← ofLines? rest
    some ⟨instruction :: program.instructions, program.result⟩
  | [] => none

def Program.ofListing? (listing : String) : Option Program :=
  ofLines? ((listing.toList.splitOn '\n').map (List.splitOn ' '))

/-- The expression whose program has this listing. -/
def Expr.ofListing? (listing : String) : Option Expr := do
  let program ← Program.ofListing? listing
  program.expanded.toOption

def Instruction.words (instruction : Instruction) : List (List Char) :=
  [instruction.dest.toList, ['='], instruction.lhs.text.toList, instruction.op.symbol.toList,
    instruction.rhs.text.toList]

def Program.resultWords (program : Program) : List (List Char) :=
  [['r', 'e', 's', 'u', 'l', 't'], ['='], program.result.text.toList]

def Program.resultLine (program : Program) : String :=
  "result = " ++ program.result.text

private theorem Instruction.line_toList (instruction : Instruction) :
    instruction.line.toList = [' '].intercalate instruction.words := by
  simp [line, words, List.intercalate_cons_cons]

private theorem Program.resultLine_toList (program : Program) :
    program.resultLine.toList = [' '].intercalate program.resultWords := by
  simp [resultLine, resultWords, List.intercalate_cons_cons]

theorem Program.listing_toList (program : Program) :
    program.listing.toList =
      ['\n'].intercalate (program.lines.map String.toList ++ [program.resultLine.toList, []]) := by
  have ends (lines : List String) (last : List Char) :
      (String.join (lines.map (· ++ "\n"))).toList ++ (last ++ ['\n']) =
        ['\n'].intercalate (lines.map String.toList ++ [last, []]) := by
    induction lines with
    | nil => simp [List.intercalate_cons_cons]
    | cons line lines ih =>
      rw [List.map_cons, List.map_cons, List.cons_append, List.intercalate_cons_of_ne_nil (by simp), ← ih]
      simp
  rw [listing_eq_lines, String.toList_append, String.toList_append]
  exact ends program.lines program.resultLine.toList

/-- A word that stays whole when a listing is cut at its blanks and line feeds. -/
structure Unbroken (word : List Char) : Prop where
  noBlank : ' ' ∉ word
  noLineFeed : '\n' ∉ word

private theorem Word.Numeral.unbroken {digits : List Char} (numeral : Word.Numeral digits) : Unbroken digits := by
  constructor
  all_goals
    intro member
    exact absurd (numeral.2 _ member) (by decide)

private theorem tempName_unbroken (index : Nat) : Unbroken (tempName index).toList := by
  have digits := (Word.numeral_toDigits index).unbroken
  rw [tempName_toList]
  constructor
  · simpa using digits.noBlank
  · simpa using digits.noLineFeed

private theorem equals_unbroken : Unbroken ['='] :=
  ⟨by decide, by decide⟩

private theorem Op.symbol_unbroken (op : Op) : Unbroken op.symbol.toList := by
  cases op <;> exact ⟨by decide, by decide⟩

/-- An operand as expressions with plain numbers have it. -/
inductive Operand.Plain : Operand → Prop where
  | literal {text : String} (numeral : Word.Numeral text.toList) : Plain (.literal text)
  | temp (index : Nat) : Plain (.temp (tempName index))

inductive Instruction.Plain : Instruction → Prop where
  | operation (index : Nat) (op : Op) {lhs rhs : Operand} (left : lhs.Plain) (right : rhs.Plain) :
      Plain ⟨tempName index, op, lhs, rhs⟩

structure Program.Plain (program : Program) : Prop where
  instructions : ∀ instruction ∈ program.instructions, instruction.Plain
  result : program.result.Plain

private theorem Operand.Plain.unbroken {operand : Operand} (plain : operand.Plain) :
    Unbroken operand.text.toList := by
  cases plain with
  | literal numeral => exact numeral.unbroken
  | temp index => exact tempName_unbroken index

private theorem Operand.Plain.ofWord_text {operand : Operand} (plain : operand.Plain) :
    Operand.ofWord operand.text.toList = operand := by
  cases plain with
  | literal numeral => simp [text, ofWord, List.all_eq_true.mpr numeral.2]
  | temp index =>
    have letter : (tempName index).toList.all Char.isDigit = false := by
      rw [tempName_toList]
      rfl
    simp [text, ofWord, letter]

private theorem Instruction.Plain.words_unbroken {instruction : Instruction} (plain : instruction.Plain) :
    ∀ word ∈ instruction.words, Unbroken word := by
  cases plain with
  | operation index op left right =>
    simpa [words] using ⟨tempName_unbroken index, equals_unbroken, left.unbroken, op.symbol_unbroken, right.unbroken⟩

private theorem Program.Plain.resultWords_unbroken {program : Program} (plain : program.Plain) :
    ∀ word ∈ program.resultWords, Unbroken word := by
  have label : Unbroken ['r', 'e', 's', 'u', 'l', 't'] := ⟨by decide, by decide⟩
  simpa [resultWords] using ⟨label, equals_unbroken, plain.result.unbroken⟩

/-- A line of unbroken words is one line, and its blanks give the words back. -/
theorem Unbroken.line {words : List (List Char)} (unbroken : ∀ word ∈ words, Unbroken word) (nonempty : words ≠ []) :
    '\n' ∉ [' '].intercalate words ∧ ([' '].intercalate words).splitOn ' ' = words := by
  refine ⟨?_, List.splitOn_intercalate ' ' (fun word member => (unbroken word member).noBlank) nonempty⟩
  clear nonempty
  induction words with
  | nil => simp
  | cons word words ih =>
    have first := (unbroken word List.mem_cons_self).noLineFeed
    have later := ih fun other member => unbroken other (List.mem_cons_of_mem word member)
    by_cases last : words = []
    · simpa [last] using first
    · rw [List.intercalate_cons_of_ne_nil last]
      simp [first, later]

private theorem Instruction.Plain.cut_line {instruction : Instruction} (plain : instruction.Plain) :
    '\n' ∉ instruction.line.toList ∧ instruction.line.toList.splitOn ' ' = instruction.words := by
  rw [line_toList]
  exact Unbroken.line plain.words_unbroken (by simp [words])

private theorem Program.Plain.cut_resultLine {program : Program} (plain : program.Plain) :
    '\n' ∉ program.resultLine.toList ∧ program.resultLine.toList.splitOn ' ' = program.resultWords := by
  rw [resultLine_toList]
  exact Unbroken.line plain.resultWords_unbroken (by simp [resultWords])

private theorem Op.ofWord?_symbol (op : Op) : Op.ofWord? op.symbol.toList = some op := by
  cases op <;> rfl

private theorem Instruction.Plain.ofWords?_words {instruction : Instruction} (plain : instruction.Plain) :
    Instruction.ofWords? instruction.words = some instruction := by
  cases plain with
  | operation index op left right =>
    simp [words, ofWords?, Op.ofWord?_symbol, left.ofWord_text, right.ofWord_text]

private theorem Program.Plain.ofLines?_words {instructions : List Instruction} {result : Operand}
    (plain : Program.Plain ⟨instructions, result⟩) :
    Program.ofLines? (instructions.map Instruction.words ++ [Program.resultWords ⟨instructions, result⟩, [[]]]) =
      some ⟨instructions, result⟩ := by
  induction instructions with
  | nil => simp [ofLines?, resultWords, plain.result.ofWord_text]
  | cons instruction instructions ih =>
    have first := (plain.instructions instruction List.mem_cons_self).ofWords?_words
    have later := ih ⟨fun other member => plain.instructions other (List.mem_cons_of_mem _ member), plain.result⟩
    simp only [resultWords] at later ⊢
    rw [List.map_cons, List.cons_append, ofLines?]
    · rw [first, later]
      rfl
    · intro _ same
      simp [Instruction.words] at same

/-- The lines of a listing are those of the instructions and the line of the result. -/
theorem Program.Plain.listing_lines {program : Program} (plain : program.Plain) :
    program.listing.toList.splitOn '\n' = program.lines.map String.toList ++ [program.resultLine.toList, []] := by
  rw [listing_toList]
  apply List.splitOn_intercalate
  · intro line member
    rcases List.mem_append.mp member with earlier | last
    · obtain ⟨text, listed, rfl⟩ := List.mem_map.mp earlier
      obtain ⟨instruction, inside, rfl⟩ := List.mem_map.mp listed
      exact (plain.instructions instruction inside).cut_line.1
    · rcases List.mem_cons.mp last with rfl | behind
      · exact plain.cut_resultLine.1
      · cases List.mem_singleton.mp behind
        exact List.not_mem_nil
  · simp

private theorem Program.Plain.listing_words {program : Program} (plain : program.Plain) :
    (program.listing.toList.splitOn '\n').map (List.splitOn ' ') =
      program.instructions.map Instruction.words ++ [program.resultWords, [[]]] := by
  have each : program.instructions.map ((List.splitOn ' ' ∘ String.toList) ∘ Instruction.line) =
      program.instructions.map Instruction.words := by
    apply List.map_congr_left
    intro instruction inside
    exact (plain.instructions instruction inside).cut_line.2
  rw [plain.listing_lines, List.map_append, lines, List.map_map, List.map_map, each, List.map_cons,
    plain.cut_resultLine.2]
  rfl

theorem Program.Plain.ofListing?_listing {program : Program} (plain : program.Plain) :
    Program.ofListing? program.listing = some program := by
  rw [ofListing?, plain.listing_words]
  exact plain.ofLines?_words

/-- Lowering keeps plain numbers plain and adds only temporaries. -/
theorem Expr.Plain.lower {e : Expr} (plain : e.Plain) (temps : TempSupply) :
    Program.Plain ⟨(e.lower temps).code, (e.lower temps).result⟩ := by
  induction e generalizing temps with
  | number text => exact ⟨nofun, .literal (plain text (List.mem_singleton.mpr rfl))⟩
  | binary op left right first second =>
    have leftPlain := first (fun text leaf => plain text (leaves_subset_left op left right leaf)) temps
    have rightPlain := second (fun text leaf => plain text (leaves_subset_right op left right leaf))
      (left.lower temps).temps
    rw [lower_binary_code, lower_binary_result]
    refine ⟨?_, .temp _⟩
    intro instruction member
    rcases List.mem_append.mp member with operands | last
    · rcases List.mem_append.mp operands with before | after
      · exact leftPlain.instructions instruction before
      · exact rightPlain.instructions instruction after
    · cases List.mem_singleton.mp last
      exact .operation _ op leftPlain.result rightPlain.result

theorem Expr.Plain.ofExpr {e : Expr} (plain : e.Plain) : (Program.ofExpr e).Plain :=
  plain.lower {}

theorem Expr.Plain.ofListing?_listing {e : Expr} (plain : e.Plain) :
    Expr.ofListing? (Program.ofExpr e).listing = some e := by
  rw [ofListing?, plain.ofExpr.ofListing?_listing]
  simp [Program.expanded_ofExpr, Except.toOption]

/-- The listing of an expression with plain numbers, and no other expression's. It has one line for each
operation and one for the result, and these bytes are all that is written where there is room for them. -/
theorem Program.listing_determines_expression {e : Expr} (plain : e.Plain) :
    (∀ other : Expr, other.Plain →
      utf8Bytes (Program.ofExpr other).listing = utf8Bytes (Program.ofExpr e).listing → other = e) ∧
    (Program.ofExpr e).listing =
      String.join ((Program.ofExpr e).lines.map (· ++ "\n")) ++ ("result = " ++ (Program.ofExpr e).result.text ++ "\n") ∧
    ((Program.ofExpr e).listing.toList.splitOn '\n').map String.ofList =
      (Program.ofExpr e).lines ++ ["result = " ++ (Program.ofExpr e).result.text, ""] ∧
    (Program.ofExpr e).lines.length = e.operators ∧
    ∀ capacity, (utf8Bytes (Program.ofExpr e).listing).length ≤ capacity →
      (Program.ofExpr e).writeTo ⟨capacity, []⟩ = (.ok (), ⟨capacity, utf8Bytes (Program.ofExpr e).listing⟩) := by
  refine ⟨?_, (Program.ofExpr e).listing_eq_lines, ?_, ?_, fun _ => (Program.ofExpr e).writeTo_of_room⟩
  · intro other otherPlain same
    have read := otherPlain.ofListing?_listing
    rw [utf8Bytes_injective same, plain.ofListing?_listing] at read
    exact (Option.some.inj read).symm
  · have texts : String.ofList ∘ String.toList = id := funext fun _ => String.ofList_toList
    rw [plain.ofExpr.listing_lines, List.map_append, List.map_map, texts, List.map_id, List.map_cons,
      String.ofList_toList]
    rfl
  · rw [lines, List.length_map]
    exact e.lower_length {}

theorem groupings_are_listed_apart :
    (Expr.binary .subtract (.number "12") (.binary .subtract (.number "3") (.number "04"))).Plain ∧
    (Expr.binary .subtract (.binary .subtract (.number "12") (.number "3")) (.number "04")).Plain ∧
    utf8Bytes (Program.ofExpr
      (.binary .subtract (.binary .subtract (.number "12") (.number "3")) (.number "04"))).listing ≠
      utf8Bytes (Program.ofExpr
        (.binary .subtract (.number "12") (.binary .subtract (.number "3") (.number "04")))).listing := by
  have right : (Expr.binary .subtract (.number "12") (.binary .subtract (.number "3") (.number "04"))).Plain := by
    decide
  have left : (Expr.binary .subtract (.binary .subtract (.number "12") (.number "3")) (.number "04")).Plain := by
    decide
  refine ⟨right, left, ?_⟩
  intro same
  have equal := (Program.listing_determines_expression right).1 _ left same
  cases equal

end ThreeAddress
