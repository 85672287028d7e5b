import ThreeAddress.Proofs.StackOrder

/-! Temporaries that are read before they are assigned. What a store holds after some instructions is known
from the instructions alone: a value for each of their destinations and for nothing else. So whether a
name is missing can be told from the code in front of the place where it is read, however often names are
assigned again, as long as nothing else stops the run before. -/

namespace ThreeAddress

/-- Every temporary that is read is the destination of an earlier instruction. -/
structure Program.DefinedBeforeUse (program : Program) : Prop where
  operands : ∀ before instruction after, program.instructions = before ++ instruction :: after →
    ∀ name ∈ instruction.reads, name ∈ dests before
  result : ∀ name ∈ program.result.temps, name ∈ dests program.instructions

/-- The store is asked for this name, by the left operand or, if that one has a value, by the right. -/
def Instruction.Asks (instruction : Instruction) (store : Store) (name : String) : Prop :=
  instruction.lhs = .temp name ∨ (∃ value, instruction.lhs.value store = .ok value) ∧ instruction.rhs = .temp name

/-- A run comes to a place that reads this name, and nothing in front of that place assigns it. -/
inductive Program.ReadsTooEarly (program : Program) (name : String) : Prop where
  | operand {before after : List Instruction} {instruction : Instruction} {store : Store}
      (split : program.instructions = before ++ instruction :: after) (ran : Store.empty.run before = .ok store)
      (asks : instruction.Asks store name) (unassigned : name ∉ dests before)
  | result {store : Store} (ran : Store.empty.run program.instructions = .ok store)
      (read : program.result = .temp name) (unassigned : name ∉ dests program.instructions)

namespace Store
variable {store last : Store} {names : List String}

/-- The store has values for these names and no others. -/
def Holds (store : Store) (names : List String) : Prop :=
  ∀ name, store name = none ↔ name ∉ names

private theorem holds_empty : empty.Holds [] := by
  intro name
  simp [empty]

theorem Holds.assign (holds : store.Holds names) (dest : String) (value : Int) :
    (store.assign dest value).Holds (names ++ [dest]) := by
  intro name
  by_cases same : name = dest
  · subst same
    simp
  · rw [store.assign_of_ne value same, holds name]
    simp [same]

theorem Holds.run {code : List Instruction} (holds : store.Holds names) (ran : store.run code = .ok last) :
    last.Holds (names ++ dests code) := by
  induction code generalizing store names with
  | nil =>
    cases ran
    rwa [dests, List.map_nil, List.append_nil]
  | cons instruction rest ih =>
    obtain ⟨value, _, later⟩ := bind_eq_ok.mp ran
    have held := ih (holds.assign instruction.dest value) later
    rwa [List.append_assoc] at held

theorem run_holds {code : List Instruction} (ran : empty.run code = .ok last) : last.Holds (dests code) :=
  holds_empty.run ran

private theorem assigned_of_found {code : List Instruction} {name : String} (ran : empty.run code = .ok last)
    (found : last name ≠ none) : name ∈ dests code := by
  apply Decidable.byContradiction
  intro unassigned
  exact found ((run_holds ran name).mpr unassigned)

/-- A run that reaches its end has gone through every instruction with a value. -/
private theorem run_through {before after : List Instruction} {instruction : Instruction}
    (ran : store.run (before ++ instruction :: after) = .ok last) :
    ∃ middle value, store.run before = .ok middle ∧ instruction.value middle = .ok value := by
  rw [run_append] at ran
  obtain ⟨middle, reached, later⟩ := bind_eq_ok.mp ran
  obtain ⟨value, computed, _⟩ := bind_eq_ok.mp later
  exact ⟨middle, value, reached, computed⟩

/-- A run fails exactly where an instruction fails that is reached. -/
theorem run_eq_error_iff {code : List Instruction} {error : EvalError} :
    store.run code = .error error ↔
      ∃ before instruction after middle, code = before ++ instruction :: after ∧
        store.run before = .ok middle ∧ instruction.value middle = .error error := by
  constructor
  · intro failed
    induction code generalizing store with
    | nil => cases failed
    | cons instruction rest ih =>
      rcases bind_eq_error.mp failed with here | ⟨value, computed, later⟩
      · exact ⟨[], instruction, rest, store, rfl, rfl, here⟩
      · obtain ⟨before, other, after, middle, rfl, reached, stopped⟩ := ih later
        refine ⟨instruction :: before, other, after, middle, rfl, ?_, stopped⟩
        rw [run, computed, ok_bind, reached]
  · intro reaches
    obtain ⟨before, instruction, after, middle, split, reached, stopped⟩ := reaches
    rw [split, run_append, reached, ok_bind, run, stopped, error_bind]

end Store

section
variable {store : Store} {name : String}

theorem Operand.value_undefined_iff {operand : Operand} :
    operand.value store = .error (.undefinedTemp name) ↔ operand = .temp name ∧ store name = none := by
  cases operand with
  | literal text =>
    simp only [value]
    cases Word.ofLiteral? text <;> simp
  | temp other =>
    simp only [value]
    cases found : store other with
    | some value =>
      simp only [Operand.temp.injEq, reduceCtorEq, false_iff, not_and]
      intro same
      subst same
      simp [found]
    | none =>
      simp only [Except.error.injEq, EvalError.undefinedTemp.injEq, Operand.temp.injEq]
      constructor
      · intro same
        exact ⟨same, same ▸ found⟩
      · intro both
        exact both.1

private theorem Operand.found_of_value {operand : Operand} {value : Int}
    (computed : operand.value store = .ok value) (member : name ∈ operand.temps) : store name ≠ none := by
  cases operand with
  | literal text => cases member
  | temp other =>
    cases List.mem_singleton.mp member
    intro missing
    rw [value_undefined_iff.mpr ⟨rfl, missing⟩] at computed
    cases computed

private theorem Op.apply_defined (op : Op) (dest : String) (a b : Int) :
    op.apply dest a b ≠ .error (.undefinedTemp name) := by
  rw [apply_eq]
  split
  · simp
  · split <;> simp

theorem Instruction.value_undefined_iff {instruction : Instruction} :
    instruction.value store = .error (.undefinedTemp name) ↔ instruction.Asks store name ∧ store name = none := by
  constructor
  · intro failed
    rcases bind_eq_error.mp failed with left | ⟨a, leftValue, failed⟩
    · obtain ⟨asks, missing⟩ := Operand.value_undefined_iff.mp left
      exact ⟨.inl asks, missing⟩
    · rcases bind_eq_error.mp failed with right | ⟨b, _, failed⟩
      · obtain ⟨asks, missing⟩ := Operand.value_undefined_iff.mp right
        exact ⟨.inr ⟨⟨a, leftValue⟩, asks⟩, missing⟩
      · exact absurd failed (instruction.op.apply_defined _ a b)
  · intro ⟨asks, missing⟩
    unfold value
    rcases asks with left | ⟨⟨a, leftValue⟩, right⟩
    · rw [Operand.value_undefined_iff.mpr ⟨left, missing⟩, error_bind]
    · rw [leftValue, ok_bind, Operand.value_undefined_iff.mpr ⟨right, missing⟩, error_bind]

private theorem Instruction.found_of_value {instruction : Instruction} {value : Int}
    (computed : instruction.value store = .ok value) (member : name ∈ instruction.reads) : store name ≠ none := by
  obtain ⟨a, left, computed⟩ := bind_eq_ok.mp computed
  obtain ⟨b, right, _⟩ := bind_eq_ok.mp computed
  rcases List.mem_append.mp member with first | second
  · exact Operand.found_of_value left first
  · exact Operand.found_of_value right second

private theorem Instruction.Asks.mem_reads {instruction : Instruction} (asks : instruction.Asks store name) :
    name ∈ instruction.reads := by
  rcases asks with left | ⟨_, right⟩
  · simp [reads, left, Operand.temps]
  · simp [reads, right, Operand.temps]

end

namespace Program
variable {program : Program} {name : String}

theorem eval_undefined_iff : program.eval = .error (.undefinedTemp name) ↔ program.ReadsTooEarly name := by
  constructor
  · intro failed
    rcases bind_eq_error.mp failed with stopped | ⟨store, ran, missed⟩
    · obtain ⟨before, instruction, after, store, split, ran, missed⟩ := Store.run_eq_error_iff.mp stopped
      obtain ⟨asks, missing⟩ := Instruction.value_undefined_iff.mp missed
      exact .operand split ran asks ((Store.run_holds ran name).mp missing)
    · obtain ⟨read, missing⟩ := Operand.value_undefined_iff.mp missed
      exact .result ran read ((Store.run_holds ran name).mp missing)
  · intro early
    apply bind_eq_error.mpr
    cases early with
    | @operand before after instruction store split ran asks unassigned =>
      have missing := (Store.run_holds ran name).mpr unassigned
      have missed := Instruction.value_undefined_iff.mpr ⟨asks, missing⟩
      exact .inl (Store.run_eq_error_iff.mpr ⟨before, instruction, after, store, split, ran, missed⟩)
    | @result store ran read unassigned =>
      have missing := (Store.run_holds ran name).mpr unassigned
      exact .inr ⟨store, ran, Operand.value_undefined_iff.mpr ⟨read, missing⟩⟩

private theorem DefinedBeforeUse.not_early (defined : program.DefinedBeforeUse) : ¬ program.ReadsTooEarly name := by
  intro early
  cases early with
  | operand split _ asks unassigned => exact unassigned (defined.operands _ _ _ split name asks.mem_reads)
  | result _ read unassigned =>
    apply unassigned
    apply defined.result
    simp [read, Operand.temps]

private theorem definedBeforeUse_of_eval {value : Int} (computed : program.eval = .ok value) :
    program.DefinedBeforeUse := by
  obtain ⟨store, ran, result⟩ := bind_eq_ok.mp computed
  constructor
  · intro before instruction after split name member
    rw [split] at ran
    obtain ⟨middle, value, reached, computed⟩ := Store.run_through ran
    exact Store.assigned_of_found reached (Instruction.found_of_value computed member)
  · intro name member
    exact Store.assigned_of_found ran (Operand.found_of_value result member)

/-- A program that assigns every temporary before it reads it never misses one, and a program with a value
is such a program. A missing temporary is one that a run comes to read, everything before having run,
and that nothing before has assigned. -/
theorem missing_iff_read_too_early (program : Program) :
    (program.DefinedBeforeUse → ∀ name, program.eval ≠ .error (.undefinedTemp name)) ∧
    (∀ value, program.eval = .ok value → program.DefinedBeforeUse) ∧
    ∀ name, program.eval = .error (.undefinedTemp name) ↔ program.ReadsTooEarly name := by
  refine ⟨?_, fun value => definedBeforeUse_of_eval, fun name => eval_undefined_iff⟩
  intro defined name failed
  exact defined.not_early (eval_undefined_iff.mp failed)

/-- A temporary that is computed and then divided by a literal, into its own place. -/
def dividedInPlace (divisor : String) : Program :=
  ⟨[⟨"t", .add, .literal "4", .literal "2"⟩, ⟨"t", .divide, .temp "t", .literal divisor⟩], .temp "t"⟩

/-- The second instruction reads what only the third would assign, had it not a zero divisor. -/
def readBelow : Program :=
  ⟨[⟨"a", .add, .literal "4", .literal "2"⟩, ⟨"b", .subtract, .temp "a", .temp "c"⟩,
    ⟨"c", .divide, .temp "a", .literal "0"⟩], .temp "b"⟩

theorem reassigned_and_read_below :
    (dividedInPlace "0").DefinedBeforeUse ∧ (dividedInPlace "0").eval ≠ .error (.undefinedTemp "t") ∧
    (dividedInPlace "3").eval = .ok 2 ∧ (dividedInPlace "3").DefinedBeforeUse ∧
    readBelow.eval = .error (.undefinedTemp "c") ∧ readBelow.ReadsTooEarly "c" := by
  have defined : (dividedInPlace "0").DefinedBeforeUse := by
    constructor
    · intro before instruction after split name member
      match before with
      | [] =>
        cases split
        cases member
      | [first] =>
        cases split
        exact member
      | [first, second] => cases split
      | first :: second :: third :: before => cases split
    · intro name member
      cases List.mem_singleton.mp member
      exact List.mem_cons_self
  have computed : (dividedInPlace "3").eval = .ok 2 := rfl
  have failed : readBelow.eval = .error (.undefinedTemp "c") := rfl
  exact ⟨defined, (missing_iff_read_too_early _).1 defined "t", computed,
    (missing_iff_read_too_early _).2.1 2 computed, failed, ((missing_iff_read_too_early _).2.2 "c").mp failed⟩

end Program

end ThreeAddress
