import ThreeAddress.Proofs.CompilationStages
import ThreeAddress.Proofs.LoweringCorrectness
import ThreeAddress.Proofs.ParserGrammar
import ThreeAddress.Proofs.SourceGrammar

/-! From source text to value. A strict compilation succeeds exactly on the texts of
the grammar, and its program computes the value that the grammar gives to the text. -/

namespace ThreeAddress

/-- The value of a phrase over the exact integers. Every number and every result has to
fit a word, no divisor may be zero, and a quotient is rounded toward zero. -/
def Attribute.word : Attribute Int where
  literal text value := value = Nat.ofDigitChars 10 text.toList 0 ∧ Word.Fits value
  operation
    | .add, a, b, value => value = a + b ∧ Word.Fits value
    | .subtract, a, b, value => value = a - b ∧ Word.Fits value
    | .multiply, a, b, value => value = a * b ∧ Word.Fits value
    | .divide, a, b, value => b ≠ 0 ∧ value = a.tdiv b ∧ Word.Fits value

/-- The value that the grammar of characters gives to a source text. -/
abbrev Denotes (source : String) (value : Int) : Prop :=
  Derives Terminals.characters Attribute.word .sum source.toList value

private theorem word_operation_iff {op : Op} {a b value : Int} :
    Attribute.word.operation op a b value ↔
      ¬ (op = .divide ∧ b = 0) ∧ value = op.exact a b ∧ Word.Fits value := by
  cases op <;> simp [Attribute.word, Op.exact]

private theorem word_of_iff_evaluates {e : Expr} {value : Int}
    (plain : ∀ text ∈ e.leaves, Word.Numeral text.toList) :
    Attribute.word.Of e value ↔ e.Evaluates value := by
  induction e generalizing value with
  | number text =>
    have numeral : Word.Numeral text.toList := plain text (List.mem_singleton.mpr rfl)
    constructor
    · intro literal
      exact Expr.evaluates_number.mpr ((Word.ofLiteral?_numeral numeral).mpr literal)
    · intro evaluates
      exact (Word.ofLiteral?_numeral numeral).mp (Expr.evaluates_number.mp evaluates)
  | binary op left right first second =>
    have leftPlain := fun text leaf => plain text (Expr.leaves_subset_left op left right leaf)
    have rightPlain := fun text leaf => plain text (Expr.leaves_subset_right op left right leaf)
    constructor
    · rintro ⟨a, b, leftValue, rightValue, operation⟩
      obtain ⟨nonzero, rfl, fits⟩ := word_operation_iff.mp operation
      exact .binary ((first leftPlain).mp leftValue) ((second rightPlain).mp rightValue) nonzero fits
    · intro evaluates
      cases evaluates with
      | @binary _ _ _ a b leftValue rightValue nonzero fits =>
        have operation := word_operation_iff.mpr ⟨nonzero, rfl, fits⟩
        exact ⟨a, b, (first leftPlain).mpr leftValue, (second rightPlain).mpr rightValue, operation⟩

theorem denotes_iff {source : String} {value : Int} :
    Denotes source value ↔ ∃ e, Written .sum source.toList e ∧ e.meaning = .ok value := by
  have same : ∀ e, Written .sum source.toList e → (Attribute.word.Of e value ↔ e.meaning = .ok value) := by
    intro e written
    rw [Expr.meaning_eq_ok_iff]
    exact word_of_iff_evaluates fun text leaf => (written.leaf_is_digitRun leaf).1
  rw [Denotes, derives_iff_tree]
  constructor
  · rintro ⟨e, written, value⟩
    exact ⟨e, written, (same e written).mp value⟩
  · rintro ⟨e, written, meaning⟩
    exact ⟨e, written, (same e written).mpr meaning⟩

theorem compile_program_ok_iff {source : String} {strict : Bool} {compilation : Compilation} :
    compile source none strict = .ok compilation ↔
      ∃ tokens e, tokenize source = .ok tokens ∧ Expr.ofTokens strict tokens = .ok e ∧
        compilation = ⟨tokens, some e, some (.ofExpr e)⟩ := by
  constructor
  · intro compiled
    obtain ⟨tokens, scanned, ⟨early, _⟩ | ⟨e, parsed, rfl⟩⟩ := compile_ok_cases compiled
    · cases early
    · exact ⟨tokens, e, scanned, parsed, rfl⟩
  · rintro ⟨tokens, e, scanned, parsed, rfl⟩
    exact compile_of_read scanned parsed none

theorem compile_strict_ok_iff {source : String} {compilation : Compilation} :
    compile source none true = .ok compilation ↔
      ∃ tokens e, tokenize source = .ok tokens ∧ Reads .sum tokens e ∧
        compilation = ⟨tokens, some e, some (.ofExpr e)⟩ := by
  simp only [compile_program_ok_iff, Expr.ofTokens, if_true, Parser.parseComplete_ok_iff]

theorem compiles_to_iff {source : String} {program : Program} :
    (∃ compilation, compile source none true = .ok compilation ∧ compilation.program = some program) ↔
      ∃ e, Written .sum source.toList e ∧ program = .ofExpr e := by
  constructor
  · rintro ⟨compilation, compiled, made⟩
    obtain ⟨tokens, e, scanned, reads, rfl⟩ := compile_strict_ok_iff.mp compiled
    exact ⟨e, written_iff_tokenize.mpr ⟨tokens, scanned, reads⟩, (Option.some.inj made).symm⟩
  · rintro ⟨e, written, rfl⟩
    obtain ⟨tokens, scanned, reads⟩ := written_iff_tokenize.mp written
    exact ⟨_, compile_strict_ok_iff.mpr ⟨tokens, e, scanned, reads, rfl⟩, rfl⟩

/-- What stops the program of a text: a zero divisor, the size of a result, or a run of
digits in the text that is too large. -/
inductive Stops (source : String) : EvalError → Prop where
  | divisor (dest : String) : Stops source (.divisionByZero dest)
  | size (dest : String) : Stops source (.overflow dest)
  | literal (text : String) (run : DigitRun source.toList text.toList)
      (large : Word.greatest < Nat.ofDigitChars 10 text.toList 0) : Stops source (.invalidLiteral text)

theorem Written.stops {source : String} {e : Expr} {error : EvalError} (written : Written .sum source.toList e)
    (failed : e.meaning = .error error) : Stops source error := by
  cases Expr.meaning_fault failed with
  | literal member invalid =>
    have run := written.leaf_is_digitRun member
    exact .literal _ run (Word.greatest_lt_of_refused run.1 invalid)
  | divisor dest => exact .divisor dest
  | size dest => exact .size dest

/-- A strict compilation of a source text runs to a value exactly when the grammar
gives the text that value. A text of the grammar without a value still compiles. -/
theorem compile_strict_runs_iff_denotes (source : String) :
    (∀ value, (∃ compilation program, compile source none true = .ok compilation ∧
        compilation.program = some program ∧ program.eval = .ok value) ↔ Denotes source value) ∧
    ((∃ e, Written .sum source.toList e) → (∀ value, ¬ Denotes source value) →
      ∃ compilation program error, compile source none true = .ok compilation ∧
        compilation.program = some program ∧ program.eval = .error error ∧ Stops source error) := by
  constructor
  · intro value
    constructor
    · rintro ⟨compilation, program, compiled, made, result⟩
      obtain ⟨e, written, rfl⟩ := compiles_to_iff.mp ⟨compilation, compiled, made⟩
      rw [Program.eval_eq_meaning] at result
      exact denotes_iff.mpr ⟨e, written, result⟩
    · intro denotes
      obtain ⟨e, written, meaning⟩ := denotes_iff.mp denotes
      obtain ⟨compilation, compiled, made⟩ := compiles_to_iff.mpr ⟨e, written, rfl⟩
      exact ⟨compilation, .ofExpr e, compiled, made, (Program.eval_eq_meaning e).trans meaning⟩
  · rintro ⟨e, written⟩ valueless
    obtain ⟨compilation, compiled, made⟩ := compiles_to_iff.mpr ⟨e, written, rfl⟩
    cases outcome : e.meaning with
    | ok value => exact absurd (denotes_iff.mpr ⟨e, written, outcome⟩) (valueless value)
    | error error =>
      have failed : (Program.ofExpr e).eval = .error error := (Program.eval_eq_meaning e).trans outcome
      exact ⟨compilation, .ofExpr e, error, compiled, made, failed, written.stops outcome⟩

theorem quotients_with_and_without_value :
    (Denotes "(1 - 8) / 2" (-3) ∧ ∃ compilation program, compile "(1 - 8) / 2" none true = .ok compilation ∧
      compilation.program = some program ∧ program.eval = .ok (-3)) ∧
    (∃ e, Written .sum "6 / (2 - 2)".toList e) ∧ (∀ value, ¬ Denotes "6 / (2 - 2)" value) ∧
      ∃ compilation program error, compile "6 / (2 - 2)" none true = .ok compilation ∧
        compilation.program = some program ∧ program.eval = .error error ∧ Stops "6 / (2 - 2)" error := by
  have value : ∃ compilation program, compile "(1 - 8) / 2" none true = .ok compilation ∧
      compilation.program = some program ∧ program.eval = .ok (-3) :=
    ⟨_, _, by with_unfolding_all rfl, rfl, rfl⟩
  have denotes : Denotes "(1 - 8) / 2" (-3) := ((compile_strict_runs_iff_denotes _).1 (-3)).mp value
  let quotient : Expr := .binary .divide (.number "6") (.binary .subtract (.number "2") (.number "2"))
  have compiled : (compile "6 / (2 - 2)" none true).map Compilation.program = .ok (some (.ofExpr quotient)) := by
    with_unfolding_all rfl
  have stopped : (Program.ofExpr quotient).eval = .error (.divisionByZero "temp2") := by
    rfl
  cases outcome : compile "6 / (2 - 2)" none true with
  | error error => simp [outcome, Except.map] at compiled
  | ok compilation =>
    have made : compilation.program = some (.ofExpr quotient) := by
      simpa [outcome, Except.map] using compiled
    obtain ⟨e, written, _⟩ := compiles_to_iff.mp ⟨compilation, outcome, made⟩
    have valueless : ∀ value, ¬ Denotes "6 / (2 - 2)" value := by
      intro value denotes
      obtain ⟨other, program, same, otherMade, result⟩ :=
        ((compile_strict_runs_iff_denotes _).1 value).mpr denotes
      obtain rfl := Except.ok.inj (outcome.symm.trans same)
      obtain rfl := Option.some.inj (made.symm.trans otherMade)
      rw [stopped] at result
      cases result
    rw [← outcome]
    exact ⟨⟨denotes, value⟩, ⟨e, written⟩, valueless, (compile_strict_runs_iff_denotes _).2 ⟨e, written⟩ valueless⟩

end ThreeAddress
