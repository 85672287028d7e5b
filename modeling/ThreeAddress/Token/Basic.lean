/-! Tokens: the kinds of lexeme that a source text is made of, and a lexeme together with the place
where it stands. -/

namespace ThreeAddress

/-- A place in a source text. The offset counts the bytes before it, in UTF-8; lines and columns
start at one, and a column counts characters. -/
structure Place where
  offset : Nat := 0
  line : Int := 1
  col : Int := 1
  deriving DecidableEq, Repr, Inhabited

def Place.step (place : Place) (c : Char) : Place :=
  if c = '\n' then ⟨place.offset + c.utf8Size, place.line + 1, 1⟩
  else ⟨place.offset + c.utf8Size, place.line, place.col + 1⟩

def Place.over (place : Place) (word : List Char) : Place :=
  word.foldl Place.step place

@[simp]
theorem Place.over_nil (place : Place) : place.over [] = place := rfl

@[simp]
theorem Place.over_cons (place : Place) (c : Char) (word : List Char) :
    place.over (c :: word) = (place.step c).over word := rfl

@[simp]
theorem Place.over_append (place : Place) (first second : List Char) :
    place.over (first ++ second) = (place.over first).over second :=
  List.foldl_append

theorem Place.offset_step (place : Place) (c : Char) :
    (place.step c).offset = place.offset + c.utf8Size := by
  unfold step
  split <;> rfl

theorem Place.offset_over (place : Place) (word : List Char) :
    (place.over word).offset = place.offset + (String.ofList word).utf8ByteSize := by
  induction word generalizing place with
  | nil => simp
  | cons c word ih =>
    have split : String.ofList (c :: word) = String.singleton c ++ String.ofList word := by
      rw [String.singleton_eq_ofList, ← String.ofList_append, List.singleton_append]
    rw [over_cons, ih, offset_step, split, String.utf8ByteSize_append, String.utf8ByteSize_singleton,
      Nat.add_assoc]

def Place.describe (place : Place) : String :=
  place.line.repr ++ ":" ++ place.col.repr

inductive Kind where
  | number
  | plus
  | minus
  | times
  | divide
  | lparen
  | rparen
  | identifier
  | whitespace
  deriving DecidableEq, Repr, Inhabited

def Kind.name : Kind → String
  | .number => "NUMBER"
  | .plus => "PLUS"
  | .minus => "MINUS"
  | .times => "TIMES"
  | .divide => "DIVIDE"
  | .lparen => "LPAREN"
  | .rparen => "RPAREN"
  | .identifier => "IDENTIFIER"
  | .whitespace => "WHITESPACE"

def Kind.ofSymbol? : Char → Option Kind
  | '+' => some .plus
  | '-' => some .minus
  | '*' => some .times
  | '/' => some .divide
  | '(' => some .lparen
  | ')' => some .rparen
  | _ => none

/-- A lexeme and where it stands: `place` is where it starts and `stop` is the offset of the byte
after it. -/
structure Token where
  kind : Kind
  text : String
  place : Place
  stop : Nat
  deriving DecidableEq, Repr, Inhabited

def Token.content (token : Token) : Kind × String :=
  (token.kind, token.text)

def Token.describe (token : Token) : String :=
  token.kind.name ++ " '" ++ token.text ++ "' at " ++ token.place.describe

end ThreeAddress
