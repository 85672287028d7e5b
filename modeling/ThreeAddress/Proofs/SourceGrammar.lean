import ThreeAddress.Proofs.Decomposition
import ThreeAddress.Proofs.Grammar
import ThreeAddress.Proofs.TreeMeaning

/-! The grammar of expressions over characters. Every terminal may have blanks around
it, and a number is a run of digits that nothing interrupts. A source text is in this
grammar exactly when its tokens are in the grammar of tokens, with the same tree. -/

namespace ThreeAddress

def Padded (core word : List Char) : Prop :=
  ∃ before after, Blanks before ∧ Blanks after ∧ word = before ++ core ++ after

def Terminals.characters : Terminals Char where
  numeral word text := Word.Numeral text.toList ∧ Padded text.toList word
  symbol kind word := ∃ c, Symbol kind c ∧ Padded [c] word

/-- Characters that read as a phrase, and the tree they stand for. -/
abbrev Written : Phrase → List Char → Expr → Prop := Derives .characters .tree

private theorem noDigit_symbol {kind : Kind} {sign : List Char} (written : Terminals.characters.symbol kind sign)
    (rest : List Char) : NoDigit (sign ++ rest) := by
  obtain ⟨c, symbol, before, after, blank, _, rfl⟩ := written
  rw [List.append_assoc, List.append_assoc]
  apply NoDigit.after_blanks _ blank
  intro d first
  cases first
  cases symbol <;> decide

theorem Spells.scans {kind : Kind} {core word rest : List Char} (spells : Spells kind core)
    (padded : Padded core word) (stops : kind = .number → NoDigit rest) (place : Place) :
    ∃ token after, token.kind = kind ∧ token.text = String.ofList core ∧
      Scans ⟨word ++ rest, place⟩ [token] ⟨rest, after⟩ := by
  obtain ⟨before, after, leading, trailing, rfl⟩ := padded
  rw [List.append_assoc]
  exact ⟨_, _, rfl, rfl, .token leading spells (fun number => (stops number).after_blanks trailing)
    (.blanks trailing)⟩

private theorem scans_symbol {kind : Kind} {sign : List Char} (written : Terminals.characters.symbol kind sign)
    (rest : List Char) (place : Place) :
    ∃ token after, token.kind = kind ∧ Scans ⟨sign ++ rest, place⟩ [token] ⟨rest, after⟩ := by
  obtain ⟨c, symbol, padded⟩ := written
  have stops : kind = .number → NoDigit rest := by
    rintro rfl
    cases symbol
  obtain ⟨token, after, same, _, scans⟩ := (Spells.symbol symbol).scans padded stops place
  exact ⟨token, after, same, scans⟩

/-- The characters of a phrase are cut into tokens of the same phrase, whatever text
follows that does not go on with a digit. -/
theorem Written.scans {phrase : Phrase} {word : List Char} {e : Expr} (written : Written phrase word e)
    {rest : List Char} (stops : NoDigit rest) (place : Place) :
    ∃ tokens after, Scans ⟨word ++ rest, place⟩ tokens ⟨rest, after⟩ ∧ Reads phrase tokens e := by
  induction written generalizing rest place with
  | number spelled literal =>
    obtain ⟨numeral, padded⟩ := spelled
    obtain ⟨token, after, kind, text, scans⟩ :=
      (Spells.number numeral).scans padded (fun _ => stops) place
    rw [String.ofList_toList] at text
    subst text
    cases literal
    exact ⟨[token], after, scans, Reads.number kind⟩
  | @group opening inner closing e opens body closes ih =>
    obtain ⟨first, started, opened, early⟩ := scans_symbol opens (inner ++ (closing ++ rest)) place
    obtain ⟨tokens, reached, middle, reads⟩ := ih (noDigit_symbol closes rest) started
    obtain ⟨last, ended, closed, late⟩ := scans_symbol closes rest reached
    refine ⟨[first] ++ tokens ++ [last], ended, ?_, Reads.group opened reads closed⟩
    rw [List.append_assoc, List.append_assoc]
    exact (early.trans middle).trans late
  | factor single ih =>
    obtain ⟨tokens, after, scans, reads⟩ := ih stops place
    exact ⟨tokens, after, scans, .factor reads⟩
  | product single ih =>
    obtain ⟨tokens, after, scans, reads⟩ := ih stops place
    exact ⟨tokens, after, scans, .product reads⟩
  | @join phrase before sign behind kind op left right e _ joins spelled _ operation first second =>
    obtain ⟨leftTokens, started, early, leftReads⟩ := first (noDigit_symbol spelled (behind ++ rest)) place
    obtain ⟨token, reached, same, middle⟩ := scans_symbol spelled (behind ++ rest) started
    obtain ⟨rightTokens, ended, late, rightReads⟩ := second stops reached
    cases operation
    subst same
    refine ⟨leftTokens ++ token :: rightTokens, ended, ?_, Reads.join leftReads joins rightReads⟩
    rw [List.append_assoc, List.append_assoc, List.append_cons]
    exact (early.trans middle).trans late

theorem Scans.single {scanner after : Scanner} {token : Token} (scans : Scans scanner [token] after) :
    ∃ core word, Spells token.kind core ∧ token.text = String.ofList core ∧ Padded core word ∧
      scanner.rest = word ++ after.rest := by
  cases scans with
  | @token gap core _ _ _ _ _ leading spells _ more =>
    cases more with
    | @blanks trail rest place trailing =>
      refine ⟨core, gap ++ core ++ trail, spells, rfl, ⟨gap, trail, leading, trailing, rfl⟩, ?_⟩
      exact (List.append_assoc _ _ _).symm

theorem Scans.symbol {scanner after : Scanner} {token : Token} (scans : Scans scanner [token] after)
    (symbol : token.kind ≠ .number ∧ token.kind ≠ .identifier) :
    ∃ word, Terminals.characters.symbol token.kind word ∧ scanner.rest = word ++ after.rest := by
  obtain ⟨core, word, spells, _, padded, cut⟩ := scans.single
  refine ⟨word, ?_, cut⟩
  generalize token.kind = kind at spells symbol
  cases spells with
  | symbol found => exact ⟨_, found, padded⟩
  | number _ => exact absurd rfl symbol.1
  | identifier => exact absurd rfl symbol.2

theorem Scans.numeral {scanner after : Scanner} {token : Token} (scans : Scans scanner [token] after)
    (number : token.kind = .number) :
    ∃ word, Terminals.characters.numeral word token.text ∧ scanner.rest = word ++ after.rest := by
  obtain ⟨core, word, spells, text, padded, cut⟩ := scans.single
  refine ⟨word, ?_, cut⟩
  rw [number] at spells
  simp only [Terminals.characters, text, String.toList_ofList]
  cases spells with
  | symbol found => cases found
  | number numeral => exact ⟨numeral, padded⟩

theorem Joins.symbol {phrase : Phrase} {kind : Kind} {op : Op} (joins : Joins phrase kind op) :
    kind ≠ .number ∧ kind ≠ .identifier := by
  cases joins <;> decide

theorem Reads.written {phrase : Phrase} {tokens : List Token} {e : Expr} (reads : Reads phrase tokens e)
    {scanner after : Scanner} (scans : Scans scanner tokens after) :
    ∃ word, scanner.rest = word ++ after.rest ∧ Written phrase word e := by
  induction reads using Reads.rules generalizing scanner after with
  | number token kind =>
    obtain ⟨word, spelled, cut⟩ := scans.numeral kind
    exact ⟨word, cut, .number spelled rfl⟩
  | group opening inner closing e opens _ closes body =>
    have parts : Scans scanner ([opening] ++ inner ++ [closing]) after := scans
    obtain ⟨reached, parts, late⟩ := parts.split
    obtain ⟨started, early, middle⟩ := parts.split
    obtain ⟨first, opened, firstCut⟩ := early.symbol (by simp [opens])
    obtain ⟨word, wordCut, written⟩ := body middle
    obtain ⟨last, closed, lastCut⟩ := late.symbol (by simp [closes])
    rw [opens] at opened
    rw [closes] at closed
    refine ⟨first ++ word ++ last, ?_, .group opened written closed⟩
    rw [firstCut, wordCut, lastCut, List.append_assoc, List.append_assoc]
  | factor tokens e _ single =>
    obtain ⟨word, cut, written⟩ := single scans
    exact ⟨word, cut, .factor written⟩
  | product tokens e _ single =>
    obtain ⟨word, cut, written⟩ := single scans
    exact ⟨word, cut, .product written⟩
  | join phrase first sign second op left right _ joins _ before behind =>
    rw [List.append_cons] at scans
    obtain ⟨reached, scans, late⟩ := scans.split
    obtain ⟨started, early, middle⟩ := scans.split
    obtain ⟨leftWord, leftCut, leftWritten⟩ := before early
    obtain ⟨signWord, spelled, signCut⟩ := middle.symbol joins.symbol
    obtain ⟨rightWord, rightCut, rightWritten⟩ := behind late
    refine ⟨leftWord ++ signWord ++ rightWord, ?_, .join leftWritten joins spelled rightWritten rfl⟩
    rw [leftCut, signCut, rightCut, List.append_assoc, List.append_assoc]

/-- A source text is written in the grammar exactly when it can be cut into tokens
that read as an expression, and both give the same tree. -/
theorem written_iff_tokenize {source : String} {e : Expr} :
    Written .sum source.toList e ↔ ∃ tokens, tokenize source = .ok tokens ∧ Reads .sum tokens e := by
  constructor
  · intro written
    have stops : NoDigit [] := by simp [NoDigit]
    obtain ⟨tokens, after, scans, reads⟩ := written.scans stops {}
    rw [List.append_nil] at scans
    exact ⟨tokens, Scanner.tokens_eq_ok_iff.mpr ⟨after, scans⟩, reads⟩
  · rintro ⟨tokens, scanned, reads⟩
    obtain ⟨place, scans⟩ := Scanner.tokens_eq_ok_iff.mp scanned
    obtain ⟨word, cut, written⟩ := reads.written scans
    rw [List.append_nil] at cut
    change source.toList = word at cut
    rwa [cut]

/-- A run of digits in a text that no further digit touches, on either side. -/
def DigitRun (text run : List Char) : Prop :=
  Word.Numeral run ∧ ∃ before after, text = before ++ run ++ after ∧ NoDigit before.reverse ∧ NoDigit after

/-- The text of every number token is a whole run of digits of the source. -/
private theorem Scans.digitRun {scanner : Scanner} {tokens : List Token} {place : Place}
    (scans : Scans scanner tokens ⟨[], place⟩) {token : Token} (member : token ∈ tokens)
    (number : token.kind = .number) : DigitRun scanner.rest token.text.toList := by
  obtain ⟨pieces, cut, spelled, entries⟩ := scans.cut
  have entry : (token.kind, token.text) ∈ pieces.filterMap Piece.entry? := by
    rw [entries]
    exact List.mem_map.mpr ⟨token, member, rfl⟩
  obtain ⟨piece, inside, same⟩ := List.mem_filterMap.mp entry
  cases piece with
  | blank c => cases same
  | lexeme kind word =>
    obtain ⟨kinds, text⟩ := Prod.mk.inj (Option.some.inj same)
    rw [number] at kinds
    subst kinds
    obtain ⟨before, after, rfl⟩ := List.append_of_mem inside
    obtain ⟨first, last⟩ := cut.decomposes.maximal before word after rfl
    rw [← spelled, ← text, String.toList_ofList, spelling_append, spelling_cons, ← List.append_assoc]
    exact ⟨cut.numeral inside, spelling before, spelling after, rfl, first, last⟩

theorem leaves_of_reads {phrase : Phrase} {tokens : List Token} {e : Expr} (reads : Reads phrase tokens e) :
    e.leaves = (tokens.filter fun token => token.kind = .number).map Token.text := by
  induction reads using Reads.rules with
  | number token kind => simp [Expr.leaves, kind]
  | group opening inner closing e opens _ closes body => simp [opens, closes, body]
  | factor tokens e _ single => exact single
  | product tokens e _ single => exact single
  | join phrase first sign second op left right _ joins _ before after =>
    simp [Expr.leaves, before, after, joins.symbol.1]

theorem Reads.leaf_is_digitRun {phrase : Phrase} {taken tokens : List Token} {e : Expr} {scanner : Scanner}
    {place : Place} {text : String} (reads : Reads phrase taken e) (scans : Scans scanner tokens ⟨[], place⟩)
    (part : taken ⊆ tokens) (leaf : text ∈ e.leaves) : DigitRun scanner.rest text.toList := by
  rw [leaves_of_reads reads] at leaf
  obtain ⟨token, member, rfl⟩ := List.mem_map.mp leaf
  obtain ⟨member, number⟩ := List.mem_filter.mp member
  exact scans.digitRun (part member) (by simpa using number)

theorem Written.leaf_is_digitRun {source : String} {e : Expr} {text : String}
    (written : Written .sum source.toList e) (leaf : text ∈ e.leaves) :
    DigitRun source.toList text.toList := by
  obtain ⟨tokens, scanned, reads⟩ := written_iff_tokenize.mp written
  obtain ⟨place, scans⟩ := Scanner.tokens_eq_ok_iff.mp scanned
  exact reads.leaf_is_digitRun scans (List.Subset.refl tokens) leaf

end ThreeAddress
