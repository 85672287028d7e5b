import ThreeAddress.Proofs.Literals
import ThreeAddress.Token.Scanner

/-! The words that lexemes are made of. A lexeme is cut off the front of a text exactly
when its word stands there and, for a number, no digit follows it. -/

namespace ThreeAddress

inductive Symbol : Kind → Char → Prop where
  | plus : Symbol .plus '+'
  | minus : Symbol .minus '-'
  | times : Symbol .times '*'
  | divide : Symbol .divide '/'
  | lparen : Symbol .lparen '('
  | rparen : Symbol .rparen ')'

inductive Spells : Kind → List Char → Prop where
  | symbol {kind : Kind} {c : Char} (symbol : Symbol kind c) : Spells kind [c]
  | number {word : List Char} (numeral : Word.Numeral word) : Spells .number word
  | identifier : Spells .identifier ['i', 'd']

/-- A text that does not go on with a digit. -/
def NoDigit (text : List Char) : Prop :=
  ∀ c ∈ text.head?, ¬ c.isDigit

def Blanks (gap : List Char) : Prop :=
  ∀ c ∈ gap, Text.isBlank c

instance (gap : List Char) : Decidable (Blanks gap) :=
  decidable_of_iff (gap.all Text.isBlank = true) List.all_eq_true

theorem ofSymbol?_eq_some_iff {c : Char} {kind : Kind} : Kind.ofSymbol? c = some kind ↔ Symbol kind c := by
  constructor
  · intro found
    unfold Kind.ofSymbol? at found
    split at found
    all_goals cases found
    · exact .plus
    · exact .minus
    · exact .times
    · exact .divide
    · exact .lparen
    · exact .rparen
  · intro symbol
    cases symbol <;> rfl

theorem ofSymbol?_of_isDigit {c : Char} (digit : c.isDigit) : Kind.ofSymbol? c = none := by
  cases found : Kind.ofSymbol? c with
  | none => rfl
  | some kind =>
    cases ofSymbol?_eq_some_iff.mp found <;> exact absurd digit (by decide)

private theorem isBlank_of_isDigit {c : Char} (digit : c.isDigit) : Text.isBlank c = false := by
  obtain ⟨low, high⟩ := Char.isDigit_iff_toNat.mp digit
  simp only [Char.reduceToNat] at low high
  simp only [Text.isBlank, Text.blankRanges, List.any_cons, List.any_nil, Bool.or_false,
    Bool.or_eq_false_iff, Bool.and_eq_false_iff, decide_eq_false_iff_not]
  omega

theorem Spells.head_not_blank {kind : Kind} {c : Char} {rest : List Char} (spells : Spells kind (c :: rest)) :
    Text.isBlank c = false := by
  cases spells with
  | symbol symbol => cases symbol <;> decide
  | number numeral => exact isBlank_of_isDigit (numeral.2 c List.mem_cons_self)
  | identifier => decide

theorem Spells.ne_nil {kind : Kind} {word : List Char} (spells : Spells kind word) : word ≠ [] := by
  cases spells with
  | symbol symbol => simp
  | number numeral => exact numeral.1
  | identifier => simp

theorem NoDigit.after_blanks {gap rest : List Char} (stops : NoDigit rest) (blank : Blanks gap) :
    NoDigit (gap ++ rest) := by
  cases gap with
  | nil => exact stops
  | cons c gap =>
    intro d first digit
    cases first
    have solid := isBlank_of_isDigit digit
    rw [blank _ List.mem_cons_self] at solid
    cases solid

theorem noDigit_append {first second : List Char} (stops : NoDigit first)
    (empty : first = [] → NoDigit second) : NoDigit (first ++ second) := by
  cases first with
  | nil => exact empty rfl
  | cons c first => exact stops

theorem noDigit_blanks {gap : List Char} (blank : Blanks gap) : NoDigit gap := by
  have empty : NoDigit [] := by simp [NoDigit]
  have padded := empty.after_blanks blank
  rwa [List.append_nil] at padded

theorem Spells.ends_without_digit {kind : Kind} {word : List Char} (spells : Spells kind word)
    (other : kind ≠ .number) : NoDigit word.reverse := by
  cases spells with
  | symbol symbol =>
    intro c last
    cases last
    cases symbol <;> decide
  | number _ => exact absurd rfl other
  | identifier =>
    intro c last
    cases last
    decide

theorem Spells.ends_in_digit {word : List Char} (spells : Spells .number word) (before : List Char) :
    ∃ c ∈ (before ++ word).getLast?, c.isDigit := by
  cases spells with
  | symbol symbol => cases symbol
  | number numeral =>
    refine ⟨word.getLast numeral.1, ?_, numeral.2 _ (List.getLast_mem numeral.1)⟩
    rw [List.getLast?_append, List.getLast?_eq_some_getLast numeral.1]
    rfl

theorem Word.Numeral.not_noDigit {digits rest : List Char} (numeral : Word.Numeral digits) :
    ¬ NoDigit (digits ++ rest) := by
  cases digits with
  | nil => exact absurd rfl numeral.1
  | cons c digits =>
    intro stops
    exact stops c rfl (numeral.2 c List.mem_cons_self)

private theorem NoDigit.digits_append {digits rest : List Char} (stops : NoDigit rest)
    (numeral : ∀ digit ∈ digits, digit.isDigit) :
    (digits ++ rest).takeWhile Char.isDigit = digits ∧ (digits ++ rest).dropWhile Char.isDigit = rest := by
  rw [List.takeWhile_append_of_pos numeral, List.dropWhile_append_of_pos numeral]
  cases rest with
  | nil => simp
  | cons c rest =>
    have other := stops c rfl
    simp [other]

private theorem noDigit_dropWhile (text : List Char) : NoDigit (text.dropWhile Char.isDigit) := by
  intro c first digit
  have other := List.head?_dropWhile_not Char.isDigit text
  rw [first] at other
  simp [digit] at other

theorem Lexeme.spells_of_first? {text : List Char} {lexeme : Lexeme} (found : Lexeme.first? text = some lexeme) :
    Spells lexeme.kind lexeme.word ∧ (lexeme.kind = .number → NoDigit lexeme.rest) := by
  cases text with
  | nil => simp [Lexeme.first?] at found
  | cons c cs =>
    simp only [Lexeme.first?] at found
    split at found
    next kind symbol =>
      cases found
      have symbol := ofSymbol?_eq_some_iff.mp symbol
      refine ⟨.symbol symbol, ?_⟩
      rintro rfl
      cases symbol
    next =>
      split at found
      next digit =>
        cases found
        refine ⟨.number ⟨by simp, ?_⟩, fun _ => noDigit_dropWhile cs⟩
        intro other member
        rcases List.mem_cons.mp member with rfl | member
        · exact digit
        · exact List.all_eq_true.mp List.all_takeWhile other member
      next =>
        split at found
        · cases found
          exact ⟨.identifier, by simp⟩
        · cases found

theorem Lexeme.first?_of_spells {kind : Kind} {word rest : List Char} (spells : Spells kind word)
    (stops : kind = .number → NoDigit rest) : Lexeme.first? (word ++ rest) = some ⟨kind, word, rest⟩ := by
  cases spells with
  | symbol symbol => simp [Lexeme.first?, ofSymbol?_eq_some_iff.mpr symbol]
  | identifier => simp [Lexeme.first?, Kind.ofSymbol?]
  | number numeral =>
    cases word with
    | nil => exact absurd rfl numeral.1
    | cons c digits =>
      have digit := numeral.2 c List.mem_cons_self
      obtain ⟨taken, left⟩ := (stops rfl).digits_append fun other member =>
        numeral.2 other (List.mem_cons_of_mem c member)
      simp only [List.cons_append, Lexeme.first?, ofSymbol?_of_isDigit digit, digit, if_true, taken, left]

theorem Lexeme.first?_eq_none_iff {c : Char} {rest : List Char} :
    Lexeme.first? (c :: rest) = none ↔
      Kind.ofSymbol? c = none ∧ c.isDigit = false ∧ ¬ (c = 'i' ∧ rest.head? = some 'd') := by
  rw [first?]
  cases Kind.ofSymbol? c with
  | some kind => simp
  | none =>
    cases c.isDigit with
    | true => simp
    | false => simp

end ThreeAddress
