/-! Signed 64-bit words. Their arithmetic is done over the integers and then checked against the
range, so that no result is ever wrapped. -/

namespace ThreeAddress.Word

def check (n : Int) : Option Int :=
  if Int64.minValue.toInt ≤ n ∧ n ≤ Int64.maxValue.toInt then some n else none

/-- The value of a digit string read from left to right, after the digits worth `high`. -/
def digitsValue (high : Nat) (digits : List Char) : Nat :=
  digits.foldl (fun value digit => 10 * value + (digit.toNat - '0'.toNat)) high

def magnitude? (digits : List Char) : Option Nat :=
  if digits ≠ [] ∧ digits.all Char.isDigit then some (digitsValue 0 digits) else none

/-- The word that a literal denotes: at most one sign, then digits, and a value in range. -/
def ofLiteral? (text : String) : Option Int :=
  match text.toList with
  | '-' :: digits => do check (-(← magnitude? digits))
  | '+' :: digits => do check (← magnitude? digits)
  | digits => do check (← magnitude? digits)

end ThreeAddress.Word
