import ThreeAddress.Expr.Basic
import ThreeAddress.Text.Quoted

/-! Three ways to write an expression: as arithmetic with every operation in parentheses, as a
nested term on one line, and as the same term spread over indented lines. -/

namespace ThreeAddress

/-- Arithmetic in which every operation has its own parentheses, so that neither precedence nor
grouping matters to a reader. -/
def Expr.parenthesized : Expr → String
  | .number text => text
  | .binary op left right =>
    "(" ++ left.parenthesized ++ " " ++ op.symbol ++ " " ++ right.parenthesized ++ ")"

def Expr.term : Expr → String
  | .number text => "Number(" ++ Text.quote text ++ ")"
  | .binary op left right =>
    "Binary \x7b op: " ++ op.word ++ ", left: " ++ left.term ++ ", right: " ++ right.term ++ " \x7d"

def margin (depth : Nat) : String :=
  "".pushn ' ' (4 * depth)

/-- The expression as a term over several lines, one part to a line. The first line carries no
margin, so that an outline can follow a label. -/
def Expr.outline (depth : Nat) : Expr → String
  | .number text =>
    "Number(\n" ++ margin (depth + 1) ++ Text.quote text ++ ",\n" ++ margin depth ++ ")"
  | .binary op left right =>
    "Binary \x7b\n"
      ++ margin (depth + 1) ++ "op: " ++ op.word ++ ",\n"
      ++ margin (depth + 1) ++ "left: " ++ left.outline (depth + 1) ++ ",\n"
      ++ margin (depth + 1) ++ "right: " ++ right.outline (depth + 1) ++ ",\n"
      ++ margin depth ++ "\x7d"

end ThreeAddress
