/-! The four arithmetic operators. Multiplication and division bind tighter than addition and
subtraction; operators that bind alike group to the left. -/

namespace ThreeAddress

inductive Op where
  | add
  | subtract
  | multiply
  | divide
  deriving DecidableEq, Repr, Inhabited

def Op.symbol : Op → String
  | .add => "+"
  | .subtract => "-"
  | .multiply => "*"
  | .divide => "/"

def Op.word : Op → String
  | .add => "Add"
  | .subtract => "Subtract"
  | .multiply => "Multiply"
  | .divide => "Divide"

/-- Whether the operator joins the factors of a product rather than the terms of a sum. -/
def Op.joinsFactors : Op → Bool
  | .add | .subtract => false
  | .multiply | .divide => true

end ThreeAddress
