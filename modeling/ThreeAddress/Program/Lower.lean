import ThreeAddress.Expr.Basic
import ThreeAddress.Program.Basic
import ThreeAddress.Program.Temporaries

/-! Lowering expressions to three-address code. The operands of an operation are computed first,
left before right, and each operation gets a temporary of its own. -/

namespace ThreeAddress

/-- The code of an expression, the operand that holds its value once that code has run, and the
supply of the names that are still free. -/
structure Lowered where
  code : List Instruction
  result : Operand
  temps : TempSupply
  deriving DecidableEq, Repr

/-- Lowers an expression, with names taken from `temps`. A number needs no code. -/
def Expr.lower (temps : TempSupply) : Expr → Lowered
  | .number text => ⟨[], .literal text, temps⟩
  | .binary op left right =>
    let first := left.lower temps
    let second := right.lower first.temps
    let (dest, temps) := second.temps.fresh
    ⟨first.code ++ second.code ++ [⟨dest, op, first.result, second.result⟩], .temp dest, temps⟩

theorem Expr.lower_issued (e : Expr) (temps : TempSupply) :
    (e.lower temps).temps.issued = temps.issued + e.operators := by
  induction e generalizing temps with
  | number text => rfl
  | binary op left right first second =>
    simp only [lower, TempSupply.fresh, operators, first, second]
    omega

/-- A counter of 32 bits is enough for the names, as long as it can count the operations. -/
theorem Expr.lower_counted {e : Expr} {temps : TempSupply} (few : temps.issued + e.operators < UInt32.size) :
    (e.lower temps).temps.issued < UInt32.size ∧
      ∀ instruction ∈ (e.lower temps).code, ∃ counter : UInt32, instruction.dest = tempName counter.toNat := by
  refine ⟨by rwa [lower_issued], ?_⟩
  induction e generalizing temps with
  | number text => exact nofun
  | binary op left right first second =>
    simp only [operators] at few
    intro instruction member
    rcases List.mem_append.mp member with member | member
    · rcases List.mem_append.mp member with member | member
      · exact first (by omega) instruction member
      · exact second (by rw [lower_issued]; omega) instruction member
    · have small : (right.lower (left.lower temps).temps).temps.issued + 1 < UInt32.size := by
        simp only [lower_issued]
        omega
      rw [List.mem_singleton.mp member]
      exact ⟨UInt32.ofNat _, by rw [UInt32.toNat_ofNat_of_lt' small]⟩

theorem Expr.lower_length (e : Expr) (temps : TempSupply) :
    (e.lower temps).code.length = e.operators := by
  induction e generalizing temps with
  | number text => rfl
  | binary op left right first second => simp [lower, operators, first, second, Nat.add_assoc]

def Program.ofExpr (e : Expr) : Program :=
  let lowered := e.lower {}
  ⟨lowered.code, lowered.result⟩

/-- A generator lowers one expression after another into a growing list of instructions, and
shares one supply of names among them. -/
structure Generator where
  temps : TempSupply := {}
  instructions : List Instruction := []
  deriving DecidableEq, Repr, Inhabited

def Generator.generate (generator : Generator) (e : Expr) : Operand × Generator :=
  let lowered := e.lower generator.temps
  (lowered.result, ⟨lowered.temps, generator.instructions ++ lowered.code⟩)

def Generator.reset (_ : Generator) : Generator := {}

def Generator.take (generator : Generator) : List Instruction × Generator :=
  (generator.instructions, {})

def Generator.program (generator : Generator) (result : Operand) : Program :=
  ⟨generator.instructions, result⟩

end ThreeAddress
