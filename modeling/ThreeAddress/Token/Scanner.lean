import ThreeAddress.Text.Blank
import ThreeAddress.Token.Basic

/-! Scanning: cutting a source text into tokens. A scanner yields one token at a time and can be
stopped at any point; `tokenize` runs it to the end. Both take the same step, so a token never
depends on which of the two asked for it. -/

namespace ThreeAddress

structure LexError where
  char : Char
  place : Place
  deriving DecidableEq, Repr

def LexError.message (error : LexError) : String :=
  "unrecognized character '" ++ error.char.toString ++ "' at offset "
    ++ error.place.offset.repr ++ " (" ++ error.place.describe ++ ")"

structure Lexeme where
  kind : Kind
  word : List Char
  rest : List Char
  deriving DecidableEq, Repr

/-- The lexeme that a text starts with. A number takes every digit in reach; `id` is the only
identifier. -/
def Lexeme.first? : List Char → Option Lexeme
  | [] => none
  | c :: cs =>
    match Kind.ofSymbol? c with
    | some kind => some ⟨kind, [c], cs⟩
    | none =>
      if c.isDigit then
        some ⟨.number, c :: cs.takeWhile Char.isDigit, cs.dropWhile Char.isDigit⟩
      else if c = 'i' ∧ cs.head? = some 'd' then
        some ⟨.identifier, ['i', 'd'], cs.tail⟩
      else none

theorem Lexeme.first?_append {text : List Char} {lexeme : Lexeme}
    (found : first? text = some lexeme) : lexeme.word ++ lexeme.rest = text := by
  cases text with
  | nil => simp [first?] at found
  | cons c cs =>
    simp only [first?] at found
    split at found
    · cases found; rfl
    · split at found
      · cases found; simp [List.takeWhile_append_dropWhile]
      · split at found
        · rename_i start
          obtain ⟨rfl, next⟩ := start
          cases found
          cases cs with
          | nil => simp at next
          | cons d ds => simp_all
        · cases found

theorem Lexeme.first?_word_ne_nil {text : List Char} {lexeme : Lexeme}
    (found : first? text = some lexeme) : lexeme.word ≠ [] := by
  cases text with
  | nil => simp [first?] at found
  | cons c cs =>
    simp only [first?] at found
    split at found
    · cases found; simp
    · split at found
      · cases found; simp
      · split at found
        · cases found; simp
        · cases found

def Lexeme.token (lexeme : Lexeme) (place : Place) : Token where
  kind := lexeme.kind
  text := String.ofList lexeme.word
  place := place
  stop := (place.over lexeme.word).offset

/-- A source text that has been read up to `place`. -/
structure Scanner where
  rest : List Char
  place : Place := {}
  deriving DecidableEq, Repr

def Scanner.ofSource (source : String) : Scanner where
  rest := source.toList

def Scanner.skipBlanks (scanner : Scanner) : Scanner where
  rest := scanner.rest.dropWhile Text.isBlank
  place := scanner.place.over (scanner.rest.takeWhile Text.isBlank)

/-- The next token, or the reason why there is none, or nothing at the end of the text. An error
ends the scan: what follows it is never read. -/
def Scanner.next (scanner : Scanner) : Option (Except LexError Token) × Scanner :=
  let start := scanner.skipBlanks
  match start.rest with
  | [] => (none, start)
  | c :: cs =>
    match Lexeme.first? (c :: cs) with
    | some lexeme =>
      (some (.ok (lexeme.token start.place)), ⟨lexeme.rest, start.place.over lexeme.word⟩)
    | none => (some (.error ⟨c, start.place⟩), ⟨[], start.place⟩)

theorem Scanner.length_skipBlanks_le (scanner : Scanner) :
    scanner.skipBlanks.rest.length ≤ scanner.rest.length :=
  (List.dropWhile_suffix _).length_le

theorem Scanner.next_shorter {scanner after : Scanner} {token : Token}
    (pulled : scanner.next = (some (.ok token), after)) :
    after.rest.length < scanner.rest.length := by
  have skipped := scanner.length_skipBlanks_le
  simp only [next] at pulled
  split at pulled
  · simp at pulled
  · rename_i c cs remaining
    split at pulled
    · rename_i lexeme found
      obtain ⟨-, rfl⟩ := Prod.mk.injEq .. ▸ pulled
      have whole := congrArg List.length (Lexeme.first?_append found)
      have positive := List.length_pos_iff.2 (Lexeme.first?_word_ne_nil found)
      rw [remaining] at skipped
      simp only [List.length_append] at whole
      simp only at *
      omega
    · simp at pulled

def Scanner.pulls : Nat → Scanner → List (Option (Except LexError Token))
  | 0, _ => []
  | count + 1, scanner =>
    let (item, after) := scanner.next
    item :: pulls count after

def Scanner.tokens (scanner : Scanner) : Except LexError (List Token) :=
  match _ : scanner.next with
  | (none, _) => .ok []
  | (some (.error error), _) => .error error
  | (some (.ok token), after) => (token :: ·) <$> after.tokens
termination_by scanner.rest.length
decreasing_by exact Scanner.next_shorter ‹_›

theorem Scanner.tokens_eq_pull (scanner : Scanner) :
    scanner.tokens =
      match scanner.next with
      | (none, _) => .ok []
      | (some (.error error), _) => .error error
      | (some (.ok token), after) => (token :: ·) <$> after.tokens := by
  rw [Scanner.tokens]
  split <;> simp_all

def tokenize (source : String) : Except LexError (List Token) :=
  (Scanner.ofSource source).tokens

end ThreeAddress
