import ThreeAddress.Proofs.LoweringCorrectness

/-! Renaming the temporaries of a program. Lowering behind temporaries that are already issued gives
the code of a fresh lowering with every temporary moved up by their number, and the operations of
a tree fail with the same names moved up. -/

namespace ThreeAddress

def Operand.rename (f : String → String) : Operand → Operand
  | .literal text => .literal text
  | .temp name => .temp (f name)

def Instruction.rename (f : String → String) (instruction : Instruction) : Instruction where
  dest := f instruction.dest
  op := instruction.op
  lhs := instruction.lhs.rename f
  rhs := instruction.rhs.rename f

def Program.rename (f : String → String) (program : Program) : Program where
  instructions := program.instructions.map (Instruction.rename f)
  result := program.result.rename f

/-- The error with the temporary that it names renamed. A literal is not a temporary. -/
def EvalError.rename (f : String → String) : EvalError → EvalError
  | .invalidLiteral text => .invalidLiteral text
  | .undefinedTemp name => .undefinedTemp (f name)
  | .divisionByZero dest => .divisionByZero (f dest)
  | .overflow dest => .overflow (f dest)

def tempIndex? (name : String) : Option Nat :=
  match name.toList with
  | 't' :: 'e' :: 'm' :: 'p' :: digits => Word.magnitude? digits
  | _ => none

/-- Moves a temporary up by `count` numbers. Other names stay as they are. -/
def renumber (count : Nat) (name : String) : String :=
  match tempIndex? name with
  | some index => tempName (index + count)
  | none => name

theorem tempName_toList (index : Nat) :
    (tempName index).toList = 't' :: 'e' :: 'm' :: 'p' :: Nat.toDigits 10 index := by
  simp [tempName, Nat.repr_eq_ofList_toDigits]

private theorem tempIndex?_tempName (index : Nat) : tempIndex? (tempName index) = some index := by
  rw [tempIndex?, tempName_toList]
  exact Word.magnitude?_eq_some_iff.mpr ⟨Word.numeral_toDigits index, Nat.ofDigitChars_ten_toDigits⟩

@[simp]
theorem renumber_tempName (count index : Nat) : renumber count (tempName index) = tempName (index + count) := by
  rw [renumber, tempIndex?_tempName]

theorem Expr.lower_temps (e : Expr) (temps : TempSupply) :
    (e.lower temps).temps = ⟨temps.issued + e.operators⟩ := by
  rw [← lower_issued]

theorem Expr.lower_binary_result (op : Op) (left right : Expr) (temps : TempSupply) :
    ((Expr.binary op left right).lower temps).result =
      .temp (tempName (temps.issued + left.operators + right.operators + 1)) := by
  simp only [lower, TempSupply.fresh, lower_issued]

theorem Expr.lower_renumber (e : Expr) (issued count : Nat) :
    (e.lower ⟨issued + count⟩).code = (e.lower ⟨issued⟩).code.map (Instruction.rename (renumber count)) ∧
    (e.lower ⟨issued + count⟩).result = (e.lower ⟨issued⟩).result.rename (renumber count) := by
  induction e generalizing issued with
  | number text => exact ⟨rfl, rfl⟩
  | binary op left right first second =>
    obtain ⟨leftCode, leftResult⟩ := first issued
    obtain ⟨rightCode, rightResult⟩ := second (issued + left.operators)
    have middle : issued + count + left.operators = issued + left.operators + count := by omega
    have last : issued + left.operators + count + right.operators + 1 =
        issued + left.operators + right.operators + 1 + count := by omega
    constructor
    · simp only [lower_binary_code, lower_temps, middle, last, leftCode, leftResult, rightCode, rightResult,
        List.map_append, List.map_cons, List.map_nil, Instruction.rename, renumber_tempName]
    · simp only [lower_binary_result, middle, last, Operand.rename, renumber_tempName]

theorem Expr.exact_rename (e : Expr) (f : String → String) : e.exact.mapError (EvalError.rename f) = e.exact := by
  induction e with
  | number text =>
    simp only [exact]
    split <;> rfl
  | binary op left right first second =>
    simp only [exact, mapError_bind, first, second]
    rfl

private theorem Node.check_renumber (node : Node) (index count : Nat) :
    node.check (index + count) = (node.check index).mapError (EvalError.rename (renumber count)) := by
  simp only [check, mapError_bind, Expr.exact_rename]
  cases node.left.exact with
  | error error => rfl
  | ok a =>
    cases node.right.exact with
    | error error => rfl
    | ok b =>
      simp only [ok_bind]
      split
      · simp only [mapError_error, EvalError.rename, renumber_tempName]
      · split
        · rfl
        · simp only [mapError_error, EvalError.rename, renumber_tempName]

theorem Expr.checks_renumber (e : Expr) (issued count : Nat) :
    e.checks (issued + count) = (e.checks issued).mapError (EvalError.rename (renumber count)) := by
  induction e generalizing issued with
  | number text => rfl
  | binary op left right first second =>
    have middle : issued + count + left.operators = issued + left.operators + count := by omega
    have last : issued + left.operators + count + right.operators + 1 =
        issued + left.operators + right.operators + 1 + count := by omega
    simp only [checks_binary, mapError_bind, middle, last, first, second, Node.check_renumber]

theorem Expr.checks_moved {e : Expr} (possible : e.checks 0 = .ok ()) (count : Nat) : e.checks count = .ok () := by
  have moved := e.checks_renumber 0 count
  rwa [Nat.zero_add, possible] at moved

theorem Expr.checks_fail_moved {e : Expr} {error : EvalError} (failed : e.checks 0 = .error error) (count : Nat) :
    e.checks count = .error (error.rename (renumber count)) := by
  have moved := e.checks_renumber 0 count
  rwa [Nat.zero_add, failed] at moved

end ThreeAddress
