import ThreeAddress.Proofs.CompilationStages
import ThreeAddress.Proofs.ParserGrammar

/-! The stages and modes of a compilation as views of one. All of them scan the source first, so an
error there comes before any other; a later stage only adds to an earlier one; and the strict mode
differs from the lenient one only in what it makes of a token behind the expression. -/

namespace ThreeAddress

section
variable {tokens rest : List Token} {e : Expr}

private theorem Expr.ofTokens_of_refused {error : ParseError} (read : Parser.parse tokens = ⟨.error error, rest⟩)
    (strict : Bool) : Expr.ofTokens strict tokens = .error error := by
  cases strict <;> simp [ofTokens, Parser.parseComplete, read]

private theorem Expr.ofTokens_of_whole (read : Parser.parse tokens = ⟨.ok e, []⟩) (strict : Bool) :
    Expr.ofTokens strict tokens = .ok e := by
  cases strict <;> simp [ofTokens, Parser.parseComplete, read]

private theorem Expr.ofTokens_of_trailing {token : Token} (read : Parser.parse tokens = ⟨.ok e, token :: rest⟩) :
    Expr.ofTokens false tokens = .ok e ∧ Expr.ofTokens true tokens = .error (.trailingToken token) := by
  simp [ofTokens, Parser.parseComplete, read]

end

/-- A source starts with the tokens of an expression, which end in front of this further token. -/
def Trails (source : String) (e : Expr) (token : Token) : Prop :=
  ∃ taken rest, tokenize source = .ok (taken ++ token :: rest) ∧ Reads .sum taken e ∧
    Parser.parse (taken ++ token :: rest) = ⟨.ok e, token :: rest⟩

/-- How the two modes compile a source as far as a stage. -/
inductive Modes (source : String) (stop : Option Stage) : Prop where
  | alike (same : compile source stop true = compile source stop false)
  | trailing {e : Expr} {token : Token} (trails : Trails source e token) (later : stop ≠ some .tokens)

section
variable {source : String} {stop : Option Stage}

theorem compile_modes (source : String) (stop : Option Stage) : Modes source stop := by
  cases scanned : tokenize source with
  | error error => exact .alike (by rw [compile_of_unscanned scanned, compile_of_unscanned scanned])
  | ok tokens =>
    by_cases early : stop = some .tokens
    · subst early
      exact .alike (by rw [compile_tokens scanned, compile_tokens scanned])
    · cases read : Parser.parse tokens with
      | mk result rest =>
        cases result with
        | error error =>
          have refused := Expr.ofTokens_of_refused read
          exact .alike (by
            rw [compile_of_refused scanned (refused true) early, compile_of_refused scanned (refused false) early])
        | ok e =>
          cases rest with
          | nil =>
            have whole := Expr.ofTokens_of_whole read
            exact .alike (by rw [compile_of_read scanned (whole true), compile_of_read scanned (whole false)])
          | cons token rest =>
            obtain ⟨taken, rfl, reads, _⟩ := Parser.reads_of_parse read
            exact .trailing ⟨taken, rest, scanned, reads, read⟩ early

private theorem Trails.compile_lenient {e : Expr} {token : Token} (trails : Trails source e token)
    (stop : Option Stage) :
    ∃ tokens, compile source stop false = .ok (.upTo tokens e stop) := by
  obtain ⟨taken, rest, scanned, _, read⟩ := trails
  exact ⟨_, compile_of_read scanned (Expr.ofTokens_of_trailing read).1 stop⟩

private theorem Trails.compile_strict {e : Expr} {token : Token} (trails : Trails source e token)
    (later : stop ≠ some .tokens) : compile source stop true = .error (.parser (.trailingToken token)) := by
  obtain ⟨taken, rest, scanned, _, read⟩ := trails
  exact compile_of_refused scanned (Expr.ofTokens_of_trailing read).2 later

private theorem compile_lenient_of_strict {made : Compilation} (compiled : compile source stop true = .ok made) :
    compile source stop false = .ok made := by
  cases compile_modes source stop with
  | alike same => exact same ▸ compiled
  | trailing trails later => cases (trails.compile_strict later).symm.trans compiled

private theorem compile_strict_of_lenient_fails {error : CompileError}
    (failed : compile source stop false = .error error) :
    compile source stop true = .error error := by
  cases compile_modes source stop with
  | alike same => exact same.trans failed
  | trailing trails later =>
    obtain ⟨tokens, compiled⟩ := trails.compile_lenient stop
    cases compiled.symm.trans failed

theorem compile_strict_fails_iff {made : Compilation} (compiled : compile source stop false = .ok made)
    (error : CompileError) :
    compile source stop true = .error error ↔ stop ≠ some .tokens ∧
      ∃ e token, made.expression = some e ∧ Trails source e token ∧ error = .parser (.trailingToken token) := by
  constructor
  · intro failed
    cases compile_modes source stop with
    | alike same => cases (same.symm.trans failed).symm.trans compiled
    | @trailing e token trails later =>
      obtain ⟨tokens, recompiled⟩ := trails.compile_lenient stop
      cases recompiled.symm.trans compiled
      cases (trails.compile_strict later).symm.trans failed
      refine ⟨later, e, token, ?_, trails, rfl⟩
      rw [Compilation.upTo_expression, if_neg later]
  · rintro ⟨later, e, token, _, trails, rfl⟩
    exact trails.compile_strict later

/-- Stopping at the expression leaves out the program, and fails as a whole compilation does. -/
theorem compile_expression_eq (source : String) (strict : Bool) :
    compile source (some .expression) strict =
      (compile source none strict).map fun whole => { whole with program := none } := by
  cases scanned : tokenize source with
  | error error =>
    rw [compile_of_unscanned scanned, compile_of_unscanned scanned]
    rfl
  | ok tokens =>
    cases read : Expr.ofTokens strict tokens with
    | error error =>
      rw [compile_of_refused scanned read (by decide : some Stage.expression ≠ some .tokens),
        compile_of_refused scanned read (by decide : none ≠ some Stage.tokens)]
      rfl
    | ok e =>
      rw [compile_of_read scanned read, compile_of_read scanned read]
      rfl

theorem compile_tokens_eq (source : String) (strict : Bool) :
    compile source (some .tokens) strict =
      ((tokenize source).mapError .lexer).map fun tokens => { tokens : Compilation } := by
  cases scanned : tokenize source with
  | error error =>
    rw [compile_of_unscanned scanned]
    rfl
  | ok tokens =>
    rw [compile_tokens scanned]
    rfl

theorem tokens_of_compile {strict : Bool} {made : Compilation} (compiled : compile source stop strict = .ok made) :
    tokenize source = .ok made.tokens := by
  obtain ⟨tokens, scanned, ⟨_, rfl⟩ | ⟨e, _, rfl⟩⟩ := compile_ok_cases compiled
  · exact scanned
  · rw [Compilation.upTo_tokens, scanned]

theorem compile_lexer_fails_iff {strict : Bool} {error : LexError} :
    compile source stop strict = .error (.lexer error) ↔ tokenize source = .error error := by
  constructor
  · intro failed
    cases scanned : tokenize source with
    | error other =>
      cases (compile_of_unscanned scanned stop strict).symm.trans failed
      rfl
    | ok tokens =>
      by_cases early : stop = some .tokens
      · subst early
        cases (compile_tokens scanned strict).symm.trans failed
      · cases read : Expr.ofTokens strict tokens with
        | error other => cases (compile_of_refused scanned read early).symm.trans failed
        | ok e => cases (compile_of_read scanned read stop).symm.trans failed
  · intro failed
    exact compile_of_unscanned failed stop strict

theorem expression_of_compile {strict : Bool} {made : Compilation}
    (compiled : compile source stop strict = .ok made) : (∃ e, made.expression = some e) ↔ stop ≠ some .tokens := by
  obtain ⟨tokens, _, ⟨rfl, rfl⟩ | ⟨e, _, rfl⟩⟩ := compile_ok_cases compiled
  · simp
  · rw [Compilation.upTo_expression]
    by_cases early : stop = some .tokens <;> simp [early]

/-- Stopping after the program is not stopping. -/
theorem compile_program_eq (source : String) (strict : Bool) :
    compile source (some .program) strict = compile source none strict := by
  cases scanned : tokenize source with
  | error error => rw [compile_of_unscanned scanned, compile_of_unscanned scanned]
  | ok tokens =>
    cases read : Expr.ofTokens strict tokens with
    | error error =>
      rw [compile_of_refused scanned read (by decide), compile_of_refused scanned read (by decide)]
    | ok e =>
      rw [compile_of_read scanned read, compile_of_read scanned read]
      rfl

theorem program_of_compile_iff {strict : Bool} {made : Compilation}
    (compiled : compile source stop strict = .ok made) (program : Program) :
    made.program = some program ↔ RunsWhole stop ∧ ∃ e, made.expression = some e ∧ program = .ofExpr e := by
  obtain ⟨tokens, _, ⟨rfl, rfl⟩ | ⟨e, _, rfl⟩⟩ := compile_ok_cases compiled
  · simp [RunsWhole]
  · rw [Compilation.upTo_program, Compilation.upTo_expression]
    by_cases whole : RunsWhole stop
    · simp [whole, whole.1, eq_comm]
    · simp [whole]

end

/-- What the stages and the modes of compiling one source have to do with each other. -/
structure Consistent (source : String) : Prop where
  whole : ∀ strict, compile source (some .program) strict = compile source none strict
  /-- A compilation that stops at the expression is a whole one without its program, and fails as that
  one does. -/
  expression : ∀ strict, compile source (some .expression) strict =
    (compile source none strict).map fun whole => { whole with program := none }
  /-- A compilation that stops at the tokens is a scan. -/
  tokens : ∀ strict, compile source (some .tokens) strict =
    ((tokenize source).mapError .lexer).map fun tokens => { tokens : Compilation }
  scanned : ∀ stop strict made, compile source stop strict = .ok made → tokenize source = .ok made.tokens
  /-- An error of the scan comes before any other, at every stage and in both modes. -/
  unscanned : ∀ stop strict error,
    compile source stop strict = .error (.lexer error) ↔ tokenize source = .error error
  parsed : ∀ stop strict made, compile source stop strict = .ok made →
    ((∃ e, made.expression = some e) ↔ stop ≠ some .tokens)
  lowered : ∀ stop strict made program, compile source stop strict = .ok made →
    (made.program = some program ↔ RunsWhole stop ∧ ∃ e, made.expression = some e ∧ program = .ofExpr e)
  lenient : ∀ stop made, compile source stop true = .ok made → compile source stop false = .ok made
  fails : ∀ stop error, compile source stop false = .error error → compile source stop true = .error error
  /-- The strict mode refuses a token behind the expression, and nothing else that the lenient one
  accepts. -/
  strict : ∀ stop made error, compile source stop false = .ok made →
    (compile source stop true = .error error ↔ stop ≠ some .tokens ∧
      ∃ e token, made.expression = some e ∧ Trails source e token ∧ error = .parser (.trailingToken token))

/-- All ways to compile a source are views of one compilation. -/
theorem stages_are_views (source : String) : Consistent source := by
  constructor
  case whole => exact compile_program_eq source
  case expression => exact compile_expression_eq source
  case tokens => exact compile_tokens_eq source
  case scanned => exact fun _ _ _ => tokens_of_compile
  case unscanned => exact fun _ _ _ => compile_lexer_fails_iff
  case parsed => exact fun _ _ _ => expression_of_compile
  case lowered => exact fun _ _ _ program compiled => program_of_compile_iff compiled program
  case lenient => exact fun _ _ => compile_lenient_of_strict
  case fails => exact fun _ _ => compile_strict_of_lenient_fails
  case strict => exact fun _ _ error compiled => compile_strict_fails_iff compiled error

/-- A number behind an expression is an error in the strict mode only, and not before the parser. -/
theorem number_behind_sum :
    let five : Token := ⟨.number, "5", ⟨4, 1, 5⟩, 5⟩
    compile "3+4 5" (some .program) true = .error (.parser (.trailingToken five)) ∧
      ∃ made e, compile "3+4 5" none false = .ok made ∧ made.expression = some e ∧ Trails "3+4 5" e five ∧
        compile "3+4 5" (some .program) false = .ok made ∧
        compile "3+4 5" (some .tokens) true = .ok { tokens := made.tokens } := by
  intro five
  have consistent := stages_are_views "3+4 5"
  have strict : compile "3+4 5" none true = .error (.parser (.trailingToken five)) := by
    with_unfolding_all rfl
  have lenient : ∃ made, compile "3+4 5" none false = .ok made := ⟨_, by with_unfolding_all rfl⟩
  obtain ⟨made, compiled⟩ := lenient
  obtain ⟨_, e, token, parsed, trails, same⟩ := (consistent.strict _ _ _ compiled).mp strict
  cases same
  refine ⟨(consistent.whole true).trans strict, made, e, compiled, parsed, trails,
    (consistent.whole false).trans compiled, ?_⟩
  rw [consistent.tokens, consistent.scanned _ _ _ compiled]
  rfl

end ThreeAddress
