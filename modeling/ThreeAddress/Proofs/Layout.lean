import ThreeAddress.Proofs.CompilationStages
import ThreeAddress.Proofs.ParserErrors
import ThreeAddress.Proofs.SourceSpans

/-! Layout never changes meaning. Lexemes can be set with any blanks around them and are read back
as they are, as long as two numbers do not touch. What is compiled depends on the kinds and the
texts of the tokens alone: two runs over tokens that differ only in where they stand take the same
steps, and stop at the same token. -/

namespace ThreeAddress

/-- Gaps before, between and after lexemes, with something between two numbers. -/
structure Layout (lexemes : List (Kind × String)) (gaps : List String) : Prop where
  spelled : ∀ lexeme ∈ lexemes, Spells lexeme.1 lexeme.2.toList
  blank : ∀ gap ∈ gaps, Blanks gap.toList
  around : gaps.length = lexemes.length + 1
  apart : ∀ index first second, lexemes[index]? = some (.number, first) →
    lexemes[index + 1]? = some (.number, second) → gaps[index + 1]? ≠ some ""

theorem Layout.tail {lexeme : Kind × String} {lexemes : List (Kind × String)} {gap : String} {gaps : List String}
    (layout : Layout (lexeme :: lexemes) (gap :: gaps)) : Layout lexemes gaps where
  spelled other member := layout.spelled other (List.mem_cons_of_mem lexeme member)
  blank other member := layout.blank other (List.mem_cons_of_mem gap member)
  around := Nat.add_right_cancel layout.around
  apart index := layout.apart (index + 1)

private theorem Spells.starts_without_digit {kind : Kind} {word : List Char} (spells : Spells kind word)
    (other : kind ≠ .number) (rest : List Char) : NoDigit (word ++ rest) := by
  intro c first
  cases spells with
  | symbol symbol =>
    cases first
    cases symbol <;> decide
  | number _ => exact absurd rfl other
  | identifier =>
    cases first
    decide

/-- No digit comes right behind a number that is set apart from other numbers. -/
theorem Layout.noDigit {text : String} {lexemes : List (Kind × String)} {gap : String} {gaps : List String}
    (layout : Layout ((.number, text) :: lexemes) (gap :: gaps)) :
    NoDigit (interleave gaps (lexemes.map Prod.snd)).toList := by
  cases gaps with
  | nil =>
    have around := layout.tail.around
    cases around
  | cons next gaps =>
    have blank : Blanks next.toList := layout.tail.blank next List.mem_cons_self
    cases lexemes with
    | nil =>
      have around := layout.tail.around
      simp only [List.length_cons, List.length_nil, Nat.zero_add, Nat.add_eq_right, List.length_eq_zero_iff] at around
      subst around
      simpa [interleave] using noDigit_blanks blank
    | cons lexeme lexemes =>
      have spells := layout.tail.spelled lexeme List.mem_cons_self
      rw [List.map_cons, interleave, String.toList_append, String.toList_append, List.append_assoc]
      apply noDigit_append (noDigit_blanks blank)
      intro empty
      apply spells.starts_without_digit
      intro number
      apply layout.apart 0 text lexeme.2 rfl
      · exact congrArg (fun kind => some (kind, lexeme.2)) number
      · exact congrArg some (String.toList_eq_nil_iff.mp empty)

theorem Layout.scans {lexemes : List (Kind × String)} {gaps : List String} (layout : Layout lexemes gaps)
    (place : Place) :
    ∃ tokens after, Scans ⟨(interleave gaps (lexemes.map Prod.snd)).toList, place⟩ tokens ⟨[], after⟩ ∧
      tokens.map Token.content = lexemes := by
  induction lexemes generalizing gaps place with
  | nil =>
    obtain ⟨gap, rfl⟩ := List.length_eq_one_iff.mp layout.around
    have blank : Blanks gap.toList := layout.blank gap List.mem_cons_self
    have scans : Scans ⟨gap.toList ++ [], place⟩ [] ⟨[], place.over gap.toList⟩ := .blanks blank
    refine ⟨[], place.over gap.toList, ?_, rfl⟩
    simpa [interleave] using scans
  | cons lexeme lexemes ih =>
    obtain ⟨kind, text⟩ := lexeme
    obtain ⟨gap, gaps, rfl⟩ := List.exists_cons_of_length_eq_add_one layout.around
    have blank : Blanks gap.toList := layout.blank gap List.mem_cons_self
    have spells : Spells kind text.toList := layout.spelled _ List.mem_cons_self
    have stops : kind = .number → NoDigit (interleave gaps (lexemes.map Prod.snd)).toList := by
      intro number
      subst number
      exact layout.noDigit
    obtain ⟨tokens, after, more, contents⟩ := ih layout.tail (place.over (gap.toList ++ text.toList))
    have scans := Scans.token blank spells stops more
    rw [← String.toList_append, ← String.toList_append] at scans
    refine ⟨_, after, scans, ?_⟩
    rw [List.map_cons, contents, Token.content, Lexeme.token, String.ofList_toList]

/-- No token on both sides, or the tokens at one index of both lists. -/
inductive Aligned (tokens others : List Token) : Option Token → Option Token → Prop where
  | nothing : Aligned tokens others none none
  | token {index : Nat} {found other : Token} (first : tokens[index]? = some found)
      (second : others[index]? = some other) : Aligned tokens others (some found) (some other)

/-- The same kind of error on both sides, with aligned tokens. -/
inductive SameError (tokens others : List Token) : ParseError → ParseError → Prop where
  | unexpectedToken {found other : Option Token} (aligned : Aligned tokens others found other) :
      SameError tokens others (.unexpectedToken found) (.unexpectedToken other)
  | missingClosingParen {found other : Option Token} (aligned : Aligned tokens others found other) :
      SameError tokens others (.missingClosingParen found) (.missingClosingParen other)
  | trailingToken {found other : Token} (aligned : Aligned tokens others (some found) (some other)) :
      SameError tokens others (.trailingToken found) (.trailingToken other)

inductive SameResult (tokens others : List Token) : Except ParseError Expr → Except ParseError Expr → Prop where
  | ok (e : Expr) : SameResult tokens others (.ok e) (.ok e)
  | error {error other : ParseError} (same : SameError tokens others error other) :
      SameResult tokens others (.error error) (.error other)

namespace Parser

/-- A step looks at the kind of its token and keeps the text of a number, nothing else. -/
private theorem State.next?_of_content (state : State) {token other : Token}
    (same : token.content = other.content) :
    state.next? token = state.next? other := by
  obtain ⟨kinds, texts⟩ := Prod.mk.inj same
  cases state with
  | operand frame outer => simp only [next?, kinds, texts]
  | operator frame outer left => simp only [next?, kinds]

theorem Runs.of_content {state last : State} {tokens others : List Token} (runs : Runs state tokens last)
    (same : tokens.map Token.content = others.map Token.content) : Runs state others last := by
  induction runs generalizing others with
  | refl state =>
    obtain rfl := List.map_eq_nil_iff.mp same.symm
    exact .refl state
  | step first rest ih =>
    obtain ⟨other, later, rfl, content, more⟩ := List.map_eq_cons_iff.mp same.symm
    have taken := State.next?_eq_some_iff.mpr first
    rw [State.next?_of_content _ content.symm] at taken
    exact .step (State.next?_eq_some_iff.mp taken) (ih more.symm)

/-- Two runs over the same contents halt in one state, at the end or at tokens with one index. -/
private theorem State.halts_alike (state : State) {tokens others : List Token}
    (same : tokens.map Token.content = others.map Token.content) :
    (∃ last : State, state.resume tokens = last.halt none [] ∧ state.resume others = last.halt none []) ∨
    ∃ (last : State) (found : Token) (rest : List Token) (other : Token) (later : List Token),
      Aligned tokens others (some found) (some other) ∧
        state.resume tokens = last.halt (some found) rest ∧ state.resume others = last.halt (some other) later := by
  rcases state.halts tokens with ⟨last, runs, halted⟩ | ⟨taken, found, rest, last, rfl, runs, refused, halted⟩
  · refine .inl ⟨last, halted, ?_⟩
    rw [← State.resume_nil, ← (runs.of_content same).resume, List.append_nil]
  · rw [List.map_append, List.map_cons] at same
    obtain ⟨before, behind, rfl, fronts, tails⟩ := List.map_eq_append_iff.mp same.symm
    obtain ⟨other, later, rfl, content, _⟩ := List.map_eq_cons_iff.mp tails
    have length : before.length = taken.length := by
      simpa only [List.length_map] using congrArg List.length fronts
    have otherRefused : last.next? other = none := by
      rw [State.next?_of_content last content, refused]
    have first : (taken ++ found :: rest)[taken.length]? = some found := by simp
    have second : (before ++ other :: later)[taken.length]? = some other := by simp [← length]
    refine .inr ⟨last, found, rest, other, later, .token first second, halted, ?_⟩
    rw [(runs.of_content fronts.symm).resume, State.resume_of_refused otherRefused]

/-- In strict mode a reading that leaves a token fails with it. -/
def completed (strict : Bool) (reading : Reading) : Reading :=
  match strict, reading with
  | true, ⟨.ok _, token :: rest⟩ => ⟨.error (.trailingToken token), rest⟩
  | _, reading => reading

private theorem reading_eq_completed (strict : Bool) (tokens : List Token) :
    reading strict tokens = completed strict (State.start.resume tokens) := by
  cases strict with
  | false => rfl
  | true =>
    change parseComplete tokens = completed true (parse tokens)
    unfold parseComplete completed
    cases parse tokens with
    | mk result rest => cases result <;> cases rest <;> rfl

private theorem State.halt_end_alike (last : State) (strict : Bool) (tokens others : List Token) :
    SameResult tokens others (completed strict (last.halt none [])).result
      (completed strict (last.halt none [])).result := by
  cases last with
  | operand frame outer => cases strict <;> exact .error (.unexpectedToken .nothing)
  | operator frame outer left =>
    cases outer with
    | nil => cases strict <;> exact .ok _
    | cons enclosing outer => cases strict <;> exact .error (.missingClosingParen .nothing)

private theorem State.halt_token_alike (last : State) (strict : Bool) {tokens others rest later : List Token}
    {found other : Token} (aligned : Aligned tokens others (some found) (some other)) :
    SameResult tokens others (completed strict (last.halt (some found) rest)).result
      (completed strict (last.halt (some other) later)).result := by
  cases last with
  | operand frame outer => cases strict <;> exact .error (.unexpectedToken aligned)
  | operator frame outer left =>
    cases outer with
    | nil =>
      cases strict with
      | false => exact .ok _
      | true => exact .error (.trailingToken aligned)
    | cons enclosing outer => cases strict <;> exact .error (.missingClosingParen aligned)

theorem reading_alike (strict : Bool) {tokens others : List Token}
    (same : tokens.map Token.content = others.map Token.content) :
    SameResult tokens others (reading strict tokens).result (reading strict others).result := by
  rw [reading_eq_completed, reading_eq_completed]
  rcases State.start.halts_alike same with ⟨last, first, second⟩ | ⟨last, found, rest, other, later, aligned, first, second⟩
  · rw [first, second]
    exact last.halt_end_alike strict tokens others
  · rw [first, second]
    exact last.halt_token_alike strict aligned

end Parser

theorem Expr.ofTokens_eq_reading (strict : Bool) (tokens : List Token) :
    Expr.ofTokens strict tokens = (Parser.reading strict tokens).result := by
  cases strict <;> rfl

private theorem compile_alike {first second : String} {tokens others : List Token}
    (scanned : tokenize first = .ok tokens) (rescanned : tokenize second = .ok others)
    (same : tokens.map Token.content = others.map Token.content) (stop : Option Stage) (strict : Bool) :
    (∃ one two, compile first stop strict = .ok one ∧ compile second stop strict = .ok two ∧
      one.expression = two.expression ∧ one.program = two.program) ∨
    ∃ error other, compile first stop strict = .error (.parser error) ∧
      compile second stop strict = .error (.parser other) ∧ SameError tokens others error other := by
  by_cases early : stop = some .tokens
  · subst early
    exact .inl ⟨_, _, compile_tokens scanned strict, compile_tokens rescanned strict, rfl, rfl⟩
  · have results := Parser.reading_alike strict same
    rw [← Expr.ofTokens_eq_reading, ← Expr.ofTokens_eq_reading] at results
    generalize read : Expr.ofTokens strict tokens = one at results
    generalize reread : Expr.ofTokens strict others = two at results
    cases results with
    | ok e =>
      refine .inl ⟨_, _, compile_of_read scanned read stop, compile_of_read rescanned reread stop, ?_, ?_⟩
      · rw [Compilation.upTo_expression, Compilation.upTo_expression]
      · rw [Compilation.upTo_program, Compilation.upTo_program]
    | error same =>
      have failed := compile_of_refused scanned read early
      have refailed := compile_of_refused rescanned reread early
      exact .inr ⟨_, _, failed, refailed, same⟩

/-- Lexemes are read back from every layout of them. Two sources whose tokens have the same kinds
and texts compile to the same expression and program at every stage and in both modes, or fail in
both with the same kind of error at the same token. -/
theorem layout_keeps_meaning :
    (∀ lexemes gaps, Layout lexemes gaps →
      ∃ tokens, tokenize (interleave gaps (lexemes.map Prod.snd)) = .ok tokens ∧
        tokens.map Token.content = lexemes) ∧
    ∀ first second tokens others, tokenize first = .ok tokens → tokenize second = .ok others →
      tokens.map Token.content = others.map Token.content → ∀ stop strict,
      (∃ one two, compile first stop strict = .ok one ∧ compile second stop strict = .ok two ∧
        one.expression = two.expression ∧ one.program = two.program) ∨
      ∃ error other, compile first stop strict = .error (.parser error) ∧
        compile second stop strict = .error (.parser other) ∧ SameError tokens others error other := by
  refine ⟨?_, fun first second tokens others => compile_alike⟩
  intro lexemes gaps layout
  obtain ⟨tokens, after, scans, contents⟩ := layout.scans {}
  exact ⟨tokens, Scanner.tokens_eq_ok_iff.mpr ⟨after, scans⟩, contents⟩

theorem set_close_and_set_apart :
    (∃ lexemes gaps, lexemes = [(.lparen, "("), (.number, "07"), (.number, "1"), (.identifier, "id")] ∧
      gaps = ["", "", "\u3000", "", "\n"] ∧ Layout lexemes gaps ∧
      ∃ tokens, tokenize (interleave gaps (lexemes.map Prod.snd)) = .ok tokens ∧
        tokens.map Token.content = lexemes) ∧
    ∃ tokens others, tokenize "(7-2 1" = .ok tokens ∧ tokenize "( 7\n-2\t\t1 " = .ok others ∧
      tokens.map Token.content = others.map Token.content ∧
      ∃ error other, compile "(7-2 1" none true = .error (.parser error) ∧
        compile "( 7\n-2\t\t1 " none true = .error (.parser other) ∧ SameError tokens others error other := by
  constructor
  · refine ⟨_, _, rfl, rfl, ?_⟩
    have layout : Layout [(.lparen, "("), (.number, "07"), (.number, "1"), (.identifier, "id")]
        ["", "", "\u3000", "", "\n"] := by
      refine ⟨?_, by decide, rfl, ?_⟩
      · intro lexeme member
        simp only [List.mem_cons, List.not_mem_nil, or_false] at member
        rcases member with rfl | rfl | rfl | rfl
        · exact .symbol .lparen
        · exact .number (by decide)
        · exact .number (by decide)
        · exact .identifier
      · intro index first second one two touching
        match index with
        | 0 => cases one
        | 1 => exact absurd touching (by decide)
        | 2 => cases two
        | index + 3 => cases two
    exact ⟨layout, layout_keeps_meaning.1 _ _ layout⟩
  · have contents : (tokenize "(7-2 1").map (List.map Token.content) =
        (tokenize "( 7\n-2\t\t1 ").map (List.map Token.content) := by
      with_unfolding_all rfl
    have succeeds : (tokenize "(7-2 1").isOk = true := by decide +kernel
    have fails : (compile "(7-2 1" none true).isOk = false := by decide +kernel
    cases scanned : tokenize "(7-2 1" with
    | error error => simp [scanned, Except.isOk, Except.toBool] at succeeds
    | ok tokens =>
      cases rescanned : tokenize "( 7\n-2\t\t1 " with
      | error error => simp [scanned, rescanned, Except.map] at contents
      | ok others =>
        have same : tokens.map Token.content = others.map Token.content := by
          simpa [scanned, rescanned, Except.map] using contents
        refine ⟨tokens, others, rfl, rfl, same, ?_⟩
        rcases layout_keeps_meaning.2 _ _ _ _ scanned rescanned same none true with ⟨one, _, compiled, _⟩ | failed
        · simp [compiled, Except.isOk, Except.toBool] at fails
        · exact failed

end ThreeAddress
