import ThreeAddress.Proofs.DefinedTemporaries

/-! Temporaries are known by their names alone. A renaming that keeps the names of a program apart gives a
program that runs in the same way: two stores that hold the same values, one under the old names and one
under the new, are kept so by every instruction and its renamed copy, and where one of the two fails the
other fails for the same reason. -/

namespace ThreeAddress

/-- The names in an instruction: where the result goes and what is read. -/
def Instruction.names (instruction : Instruction) : List String :=
  instruction.dest :: instruction.reads

/-- The names in a program, once for each place where they stand. -/
def Program.names (program : Program) : List String :=
  program.instructions.flatMap Instruction.names ++ program.result.temps

/-- No two of these names are given the same new name. Nothing is said about other names. -/
def KeepsApart (f : String → String) (names : List String) : Prop :=
  ∀ first ∈ names, ∀ second ∈ names, f first = f second → first = second

instance (f : String → String) (names : List String) : Decidable (KeepsApart f names) :=
  decidable_of_iff (names.all fun first => names.all fun second => f first != f second || first == second) (by
    simp only [KeepsApart, List.all_eq_true, Bool.or_eq_true, bne_iff_ne, beq_iff_eq, Decidable.imp_iff_not_or])

/-- The renamed store has for the new name of each of these names what the store has for the name. -/
def Store.Renames (f : String → String) (names : List String) (store renamed : Store) : Prop :=
  ∀ name ∈ names, renamed (f name) = store name

section
variable {f : String → String} {names : List String} {store renamed : Store}

private theorem Store.renames_empty : empty.Renames f names empty := by
  intro name _
  rfl

/-- The one place where the names have to be kept apart: an assignment must not reach a second name. -/
theorem Store.Renames.assign (renames : store.Renames f names renamed) (apart : KeepsApart f names) {dest : String}
    (member : dest ∈ names) (value : Int) :
    (store.assign dest value).Renames f names (renamed.assign (f dest) value) := by
  intro name inside
  by_cases same : name = dest
  · subst same
    rw [assign_self, assign_self]
  · have moved : f name ≠ f dest := fun equal => same (apart name inside dest member equal)
    rw [assign_of_ne _ _ moved, assign_of_ne _ _ same, renames name inside]

private theorem Operand.value_rename (renames : store.Renames f names renamed) {operand : Operand}
    (within : ∀ name ∈ operand.temps, name ∈ names) :
    (operand.rename f).value renamed = (operand.value store).mapError (EvalError.rename f) := by
  cases operand with
  | literal text =>
    simp only [rename, value]
    cases Word.ofLiteral? text <;> rfl
  | temp name =>
    have held := renames name (within name List.mem_cons_self)
    simp only [rename, value, held]
    cases store name <;> rfl

theorem Op.apply_rename (op : Op) (f : String → String) (dest : String) (a b : Int) :
    op.apply (f dest) a b = (op.apply dest a b).mapError (EvalError.rename f) := by
  rw [apply_eq, apply_eq]
  split
  · rfl
  · split <;> rfl

private theorem Instruction.value_rename (renames : store.Renames f names renamed) {instruction : Instruction}
    (within : ∀ name ∈ instruction.reads, name ∈ names) :
    (instruction.rename f).value renamed = (instruction.value store).mapError (EvalError.rename f) := by
  have left := Operand.value_rename renames fun name member => within name (List.mem_append_left _ member)
  have right := Operand.value_rename renames fun name member => within name (List.mem_append_right _ member)
  simp only [value, rename, left, right, mapError_bind, Op.apply_rename]

/-- Whatever is done with the stores in the end, as long as it is carried over by the renaming, can be done
after any code. -/
theorem Store.Renames.run {α : Type} {next moved : Store → Except EvalError α} {code : List Instruction}
    (renames : store.Renames f names renamed) (apart : KeepsApart f names)
    (within : ∀ name ∈ code.flatMap Instruction.names, name ∈ names)
    (carried : ∀ last renamedLast, last.Renames f names renamedLast →
      moved renamedLast = (next last).mapError (EvalError.rename f)) :
    (renamed.run (code.map (Instruction.rename f)) >>= moved) =
      (store.run code >>= next).mapError (EvalError.rename f) := by
  induction code generalizing store renamed with
  | nil => exact carried store renamed renames
  | cons instruction rest ih =>
    have first : ∀ name ∈ instruction.names, name ∈ names :=
      fun name member => within name (List.mem_append_left _ member)
    have value := Instruction.value_rename renames fun name member => first name (List.mem_cons_of_mem _ member)
    rw [List.map_cons, Store.run, Store.run, value]
    cases instruction.value store with
    | error error => rfl
    | ok value =>
      apply ih (renames.assign apart (first instruction.dest List.mem_cons_self) value)
      exact fun name member => within name (List.mem_append_right _ member)

end

namespace Program

/-- A program that assigns one name and gives the value of another. -/
def assignsOther (assigned read : String) : Program :=
  ⟨[⟨assigned, .add, .literal "0", .literal "0"⟩], .temp read⟩

private theorem eval_assignsOther (assigned read : String) :
    (assignsOther assigned read).eval = if read = assigned then .ok 0 else .error (.undefinedTemp read) := by
  have ran : Store.empty.run (assignsOther assigned read).instructions = .ok (Store.empty.assign assigned 0) := rfl
  rw [eval, ran, ok_bind]
  by_cases same : read = assigned
  · subst same
    simp [assignsOther, Operand.value]
  · simp [assignsOther, Operand.value, Store.assign_of_ne _ _ same, Store.empty, same]

/-- A renaming that keeps the names of a program apart changes nothing but the names in its errors. No other
renaming will do: if it takes two names to one, it gives a value to some program without one. -/
theorem eval_rename (f : String → String) :
    (∀ program : Program, KeepsApart f program.names →
      (program.rename f).eval = program.eval.mapError (EvalError.rename f)) ∧
    ∀ first second, first ≠ second → f first = f second →
      ∃ program : Program, program.names = [first, second] ∧
        program.eval = .error (.undefinedTemp second) ∧ (program.rename f).eval = .ok 0 := by
  constructor
  · intro program apart
    apply Store.renames_empty.run apart
    · exact fun name member => List.mem_append_left _ member
    · intro last renamedLast renames
      exact Operand.value_rename renames fun name member => List.mem_append_right _ member
  · intro first second different same
    have renamed : (assignsOther first second).rename f = assignsOther (f first) (f second) := rfl
    refine ⟨assignsOther first second, rfl, ?_, ?_⟩
    · rw [eval_assignsOther, if_neg different.symm]
    · rw [renamed, eval_assignsOther, if_pos same.symm]

/-- Passes three names on in a circle, and takes every other name to the first. -/
def cycled (name : String) : String :=
  if name = "a" then "b" else if name = "b" then "c" else "a"

theorem cycled_names_fail_alike :
    KeepsApart cycled readBelow.names ∧ (readBelow.rename cycled).eval = .error (.undefinedTemp "a") ∧
    KeepsApart (fun _ => "x") (dividedInPlace "0").names ∧
    ((dividedInPlace "0").rename fun _ => "x").eval = .error (.divisionByZero "x") ∧
    "c" ≠ "d" ∧ cycled "c" = cycled "d" ∧
    ∃ program : Program, program.names = ["c", "d"] ∧
      program.eval = .error (.undefinedTemp "d") ∧ (program.rename cycled).eval = .ok 0 := by
  have below : KeepsApart cycled readBelow.names := by decide
  have inPlace : KeepsApart (fun _ => "x") (dividedInPlace "0").names := by decide
  have different : "c" ≠ "d" := by decide
  have same : cycled "c" = cycled "d" := rfl
  exact ⟨below, (eval_rename cycled).1 readBelow below, inPlace, (eval_rename _).1 (dividedInPlace "0") inPlace,
    different, same, (eval_rename cycled).2 "c" "d" different same⟩

end Program

end ThreeAddress
