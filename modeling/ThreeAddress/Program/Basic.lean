import ThreeAddress.Op

/-! Three-address code: a program is a list of instructions, each of which applies one operator to
two operands and names the temporary that receives the result. -/

namespace ThreeAddress

inductive Operand where
  | literal (text : String)
  | temp (name : String)
  deriving DecidableEq, Repr, Inhabited

def Operand.text : Operand → String
  | .literal text => text
  | .temp name => name

structure Instruction where
  dest : String
  op : Op
  lhs : Operand
  rhs : Operand
  deriving DecidableEq, Repr, Inhabited

/-- Instructions in the order in which they run, and the operand whose value is the result. -/
structure Program where
  instructions : List Instruction
  result : Operand
  deriving DecidableEq, Repr, Inhabited

end ThreeAddress
