import ThreeAddress.Expr.Basic
import ThreeAddress.Token.Basic

/-! Reading an expression from tokens. The reader keeps one frame for each open parenthesis and
takes one token at a time, so it looks at every token once and stops at the first that cannot
continue what it has read. A frame holds at most one unfinished sum and one unfinished product:
an operation is built as soon as an operator arrives that does not bind tighter. -/

namespace ThreeAddress

/-- Why tokens do not make an expression. Each cause names the token that was found, or the end. -/
inductive ParseError where
  | unexpectedToken (found : Option Token)
  | missingClosingParen (found : Option Token)
  | trailingToken (found : Token)
  deriving DecidableEq, Repr

def describeFound : Option Token → String
  | none => "end of input"
  | some token => token.describe

def ParseError.message : ParseError → String
  | .unexpectedToken found => "unexpected token " ++ describeFound found
  | .missingClosingParen found => "expected ')', but found " ++ describeFound found
  | .trailingToken found => "expected end of input, but found " ++ found.describe

def Kind.op? : Kind → Option Op
  | .plus => some .add
  | .minus => some .subtract
  | .times => some .multiply
  | .divide => some .divide
  | _ => none

/-- A left operand and the operator that waits for its right operand. -/
structure Pending where
  left : Expr
  op : Op
  deriving DecidableEq, Repr

/-- The operation that was waiting for this operand, or the operand itself if none was. -/
def Pending.close : Option Pending → Expr → Expr
  | none, operand => operand
  | some pending, operand => .binary pending.op pending.left operand

/-- What has been read at one level of parentheses, up to the operand that comes next. -/
structure Frame where
  sum : Option Pending := none
  product : Option Pending := none
  deriving DecidableEq, Repr

def Frame.closeProduct (frame : Frame) (operand : Expr) : Expr :=
  Pending.close frame.product operand

/-- The whole expression of this level, when it ends with this operand. -/
def Frame.close (frame : Frame) (operand : Expr) : Expr :=
  Pending.close frame.sum (frame.closeProduct operand)

def Frame.extend (frame : Frame) (operand : Expr) (op : Op) : Frame :=
  if op.joinsFactors then { frame with product := some ⟨frame.closeProduct operand, op⟩ }
  else { sum := some ⟨frame.close operand, op⟩ }

/-- The result of reading, and the tokens that were left unread. A failed reading has used up the
token that it names. -/
structure Reading where
  result : Except ParseError Expr
  rest : List Token

namespace Parser

mutual

/-- Reads on where an operand has to come. `outer` holds the levels around the current one,
innermost first. -/
def operand (frame : Frame) (outer : List Frame) : List Token → Reading
  | [] => ⟨.error (.unexpectedToken none), []⟩
  | token :: rest =>
    match token.kind with
    | .number => operator frame outer (.number token.text) rest
    | .lparen => operand {} (frame :: outer) rest
    | _ => ⟨.error (.unexpectedToken (some token)), rest⟩

/-- Reads on after an operand. At the outermost level the expression ends in front of the first
token that cannot continue it; inside parentheses only a closing one may end it. -/
def operator (frame : Frame) (outer : List Frame) (left : Expr) : List Token → Reading
  | [] =>
    match outer with
    | [] => ⟨.ok (frame.close left), []⟩
    | _ :: _ => ⟨.error (.missingClosingParen none), []⟩
  | token :: rest =>
    match token.kind.op? with
    | some op => operand (frame.extend left op) outer rest
    | none =>
      match outer with
      | [] => ⟨.ok (frame.close left), token :: rest⟩
      | enclosing :: outer =>
        if token.kind = .rparen then operator enclosing outer (frame.close left) rest
        else ⟨.error (.missingClosingParen (some token)), rest⟩

end

def parse (tokens : List Token) : Reading :=
  operand {} [] tokens

def parseComplete (tokens : List Token) : Reading :=
  match parse tokens with
  | ⟨.ok _, token :: rest⟩ => ⟨.error (.trailingToken token), rest⟩
  | reading => reading

end Parser

/-- The expression that tokens start with or, in strict mode, the expression that they are. -/
def Expr.ofTokens (strict : Bool) (tokens : List Token) : Except ParseError Expr :=
  if strict then (Parser.parseComplete tokens).result else (Parser.parse tokens).result

end ThreeAddress
