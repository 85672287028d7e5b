import ThreeAddress.Compilation
import ThreeAddress.Proofs.Outcomes

/-! What a compilation gives at each stage. Its tokens, its expression and its program come from one
reading of the source, so a compilation that stops early holds the first parts of one that does
not. -/

namespace ThreeAddress

/-- Nothing stops the compilation before its program is made. -/
def RunsWhole (stop : Option Stage) : Prop :=
  stop ≠ some .tokens ∧ stop ≠ some .expression

instance (stop : Option Stage) : Decidable (RunsWhole stop) :=
  inferInstanceAs (Decidable (_ ∧ _))

/-- What has been made of these tokens and their expression when a compilation stops. -/
def Compilation.upTo (tokens : List Token) (e : Expr) : Option Stage → Compilation
  | some .tokens => { tokens }
  | some .expression => { tokens, expression := some e }
  | some .program | none => { tokens, expression := some e, program := some (.ofExpr e) }

section
variable {source : String} {tokens : List Token}

theorem compile_of_unscanned {error : LexError} (failed : tokenize source = .error error)
    (stop : Option Stage) (strict : Bool) : compile source stop strict = .error (.lexer error) := by
  unfold compile
  rw [failed, mapError_error, error_bind]

theorem compile_tokens (scanned : tokenize source = .ok tokens) (strict : Bool) :
    compile source (some .tokens) strict = .ok { tokens } := by
  unfold compile
  rw [scanned, mapError_ok, ok_bind]
  rfl

theorem compile_of_read {strict : Bool} {e : Expr} (scanned : tokenize source = .ok tokens)
    (read : Expr.ofTokens strict tokens = .ok e) (stop : Option Stage) :
    compile source stop strict = .ok (.upTo tokens e stop) := by
  unfold compile
  rw [scanned, mapError_ok, ok_bind, read, mapError_ok, ok_bind]
  cases stop with
  | none => rfl
  | some stage => cases stage <;> rfl

theorem compile_of_refused {strict : Bool} {error : ParseError} {stop : Option Stage}
    (scanned : tokenize source = .ok tokens) (refused : Expr.ofTokens strict tokens = .error error)
    (later : stop ≠ some .tokens) : compile source stop strict = .error (.parser error) := by
  unfold compile
  rw [scanned, mapError_ok, ok_bind, refused, mapError_error, error_bind, if_neg later]

/-- A compilation that succeeds has stopped at the tokens or has read an expression. -/
theorem compile_ok_cases {stop : Option Stage} {strict : Bool} {compilation : Compilation}
    (compiled : compile source stop strict = .ok compilation) :
    ∃ tokens, tokenize source = .ok tokens ∧
      (stop = some .tokens ∧ compilation = { tokens } ∨
        ∃ e, Expr.ofTokens strict tokens = .ok e ∧ compilation = .upTo tokens e stop) := by
  cases scanned : tokenize source with
  | error error =>
    rw [compile_of_unscanned scanned] at compiled
    cases compiled
  | ok tokens =>
    refine ⟨tokens, rfl, ?_⟩
    by_cases early : stop = some .tokens
    · subst early
      rw [compile_tokens scanned] at compiled
      exact .inl ⟨rfl, (Except.ok.inj compiled).symm⟩
    · cases read : Expr.ofTokens strict tokens with
      | error error =>
        rw [compile_of_refused scanned read early] at compiled
        cases compiled
      | ok e =>
        rw [compile_of_read scanned read] at compiled
        exact .inr ⟨e, rfl, (Except.ok.inj compiled).symm⟩

theorem Compilation.upTo_tokens (tokens : List Token) (e : Expr) (stop : Option Stage) :
    (upTo tokens e stop).tokens = tokens := by
  cases stop with
  | none => rfl
  | some stage => cases stage <;> rfl

theorem Compilation.upTo_expression (tokens : List Token) (e : Expr) (stop : Option Stage) :
    (upTo tokens e stop).expression = if stop = some .tokens then none else some e := by
  cases stop with
  | none => rfl
  | some stage => cases stage <;> rfl

theorem Compilation.upTo_program (tokens : List Token) (e : Expr) (stop : Option Stage) :
    (upTo tokens e stop).program = if RunsWhole stop then some (.ofExpr e) else none := by
  cases stop with
  | none => rfl
  | some stage => cases stage <;> rfl

theorem Compilation.upTo_of_whole {stop : Option Stage} (whole : RunsWhole stop) (tokens : List Token) (e : Expr) :
    upTo tokens e stop = upTo tokens e none := by
  obtain ⟨notTokens, notExpression⟩ := whole
  cases stop with
  | none => rfl
  | some stage =>
    cases stage with
    | tokens => exact absurd rfl notTokens
    | expression => exact absurd rfl notExpression
    | program => rfl

theorem program_of_compile {stop : Option Stage} {strict : Bool} {compilation : Compilation}
    (compiled : compile source stop strict = .ok compilation) :
    (∃ program, compilation.program = some program) ↔ RunsWhole stop := by
  obtain ⟨tokens, _, ⟨rfl, rfl⟩ | ⟨e, _, rfl⟩⟩ := compile_ok_cases compiled
  · simp [RunsWhole]
  · rw [Compilation.upTo_program]
    by_cases whole : RunsWhole stop <;> simp [whole]

end

end ThreeAddress
