import ThreeAddress.Program.Basic
import ThreeAddress.Word

/-! Running three-address code on signed 64-bit words. Every instruction runs, in order, whether or
not its result is used, and the first failure ends the run. -/

namespace ThreeAddress

/-- Why a program has no value. The last two name the temporary that was being computed. -/
inductive EvalError where
  | invalidLiteral (text : String)
  | undefinedTemp (name : String)
  | divisionByZero (dest : String)
  | overflow (dest : String)
  deriving DecidableEq, Repr

def EvalError.message : EvalError → String
  | .invalidLiteral text => "literal '" ++ text ++ "' does not fit in a 64-bit integer"
  | .undefinedTemp name => "temporary '" ++ name ++ "' is used before it is assigned"
  | .divisionByZero dest => "division by zero while computing " ++ dest
  | .overflow dest => "arithmetic overflow while computing " ++ dest

abbrev Store := String → Option Int

def Store.empty : Store := fun _ => none

def Store.assign (store : Store) (name : String) (value : Int) : Store :=
  fun other => if other = name then some value else store other

@[simp]
theorem Store.assign_self (store : Store) (name : String) (value : Int) :
    store.assign name value name = some value := by
  simp [assign]

theorem Store.assign_of_ne (store : Store) {name other : String} (value : Int)
    (different : other ≠ name) : store.assign name value other = store other := by
  simp [assign, different]

def Operand.value (store : Store) : Operand → Except EvalError Int
  | .literal text =>
    match Word.ofLiteral? text with
    | some value => .ok value
    | none => .error (.invalidLiteral text)
  | .temp name =>
    match store name with
    | some value => .ok value
    | none => .error (.undefinedTemp name)

def checked (dest : String) (result : Int) : Except EvalError Int :=
  match Word.check result with
  | some value => .ok value
  | none => .error (.overflow dest)

/-- The value of an operation whose result goes to `dest`. A quotient is rounded toward zero. -/
def Op.apply (op : Op) (dest : String) (a b : Int) : Except EvalError Int :=
  match op with
  | .add => checked dest (a + b)
  | .subtract => checked dest (a - b)
  | .multiply => checked dest (a * b)
  | .divide => if b = 0 then .error (.divisionByZero dest) else checked dest (a.tdiv b)

/-- The value that an instruction computes. Its left operand is looked up first. -/
def Instruction.value (store : Store) (instruction : Instruction) : Except EvalError Int := do
  let a ← instruction.lhs.value store
  let b ← instruction.rhs.value store
  instruction.op.apply instruction.dest a b

def Store.run (store : Store) : List Instruction → Except EvalError Store
  | [] => .ok store
  | instruction :: rest => do
    let value ← instruction.value store
    (store.assign instruction.dest value).run rest

theorem Store.run_append (store : Store) (first second : List Instruction) :
    store.run (first ++ second) = store.run first >>= fun middle => middle.run second := by
  induction first generalizing store with
  | nil => rfl
  | cons instruction rest ih =>
    simp only [List.cons_append, run, ih, bind, Except.bind]
    split <;> rfl

def Program.eval (program : Program) : Except EvalError Int := do
  let store ← Store.empty.run program.instructions
  program.result.value store

end ThreeAddress
