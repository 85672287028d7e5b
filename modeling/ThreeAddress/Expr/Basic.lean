import ThreeAddress.Op

/-! Arithmetic expressions as trees. A leaf keeps the text of its number: whether that text has a
value is decided only when code is run. -/

namespace ThreeAddress

inductive Expr where
  | number (text : String)
  | binary (op : Op) (left right : Expr)
  deriving DecidableEq, Repr, Inhabited

def Expr.operators : Expr → Nat
  | .number _ => 0
  | .binary _ left right => left.operators + right.operators + 1

end ThreeAddress
