import ThreeAddress.Expr.Parser

/-! The parser as a machine that takes one token at a time. A state either waits for
an operand or has just read one. A token that a state cannot take, or the end of the
tokens, halts the machine. -/

namespace ThreeAddress.Parser

inductive State where
  | operand (frame : Frame) (outer : List Frame)
  | operator (frame : Frame) (outer : List Frame) (left : Expr)

def State.start : State := .operand {} []

def State.resume : State → List Token → Reading
  | .operand frame outer, tokens => Parser.operand frame outer tokens
  | .operator frame outer left, tokens => Parser.operator frame outer left tokens

def State.next? : State → Token → Option State
  | .operand frame outer, token =>
    match token.kind with
    | .number => some (.operator frame outer (.number token.text))
    | .lparen => some (.operand {} (frame :: outer))
    | _ => none
  | .operator frame outer left, token =>
    match token.kind.op?, outer with
    | some op, _ => some (.operand (frame.extend left op) outer)
    | none, [] => none
    | none, enclosing :: outer =>
      if token.kind = .rparen then some (.operator enclosing outer (frame.close left)) else none

/-- All that taking a token can do. -/
inductive Step : State → Token → State → Prop where
  | number {frame : Frame} {outer : List Frame} {token : Token} (kind : token.kind = .number) :
      Step (.operand frame outer) token (.operator frame outer (.number token.text))
  | opening {frame : Frame} {outer : List Frame} {token : Token} (kind : token.kind = .lparen) :
      Step (.operand frame outer) token (.operand {} (frame :: outer))
  | sign {frame : Frame} {outer : List Frame} {left : Expr} {token : Token} {op : Op}
      (found : token.kind.op? = some op) :
      Step (.operator frame outer left) token (.operand (frame.extend left op) outer)
  | closing {frame enclosing : Frame} {outer : List Frame} {left : Expr} {token : Token}
      (kind : token.kind = .rparen) :
      Step (.operator frame (enclosing :: outer) left) token (.operator enclosing outer (frame.close left))

theorem State.next?_eq_some_iff {state after : State} {token : Token} :
    state.next? token = some after ↔ Step state token after := by
  constructor
  · intro taken
    cases state with
    | operand frame outer =>
      simp only [next?] at taken
      split at taken
      next kind => cases taken; exact .number kind
      next kind => cases taken; exact .opening kind
      next => cases taken
    | operator frame outer left =>
      simp only [next?] at taken
      split at taken
      next op found => cases taken; exact .sign found
      next => cases taken
      next =>
        split at taken
        next kind => cases taken; exact .closing kind
        next => cases taken
  · intro step
    cases step with
    | number kind => simp [next?, kind]
    | opening kind => simp [next?, kind]
    | sign found => simp [next?, found]
    | closing kind => simp [next?, kind, Kind.op?]

/-- What is read when the machine halts at `found`, with the tokens `rest` after it. -/
def State.halt (found : Option Token) (rest : List Token) : State → Reading
  | .operand _ _ => ⟨.error (.unexpectedToken found), rest⟩
  | .operator frame [] left => ⟨.ok (frame.close left), found.toList ++ rest⟩
  | .operator _ (_ :: _) _ => ⟨.error (.missingClosingParen found), rest⟩

theorem State.resume_nil (state : State) : state.resume [] = state.halt none [] := by
  cases state with
  | operand frame outer => rfl
  | operator frame outer left => cases outer <;> rfl

theorem State.resume_cons (state : State) (token : Token) (rest : List Token) :
    state.resume (token :: rest) =
      match state.next? token with
      | some after => after.resume rest
      | none => state.halt (some token) rest := by
  cases state with
  | operand frame outer =>
    simp only [resume, Parser.operand, next?]
    cases token.kind <;> rfl
  | operator frame outer left =>
    simp only [resume, Parser.operator, next?]
    cases token.kind.op? with
    | some op => rfl
    | none =>
      cases outer with
      | nil => rfl
      | cons enclosing outer =>
        simp only
        split <;> rfl

theorem Step.resume {state after : State} {token : Token} (step : Step state token after)
    (rest : List Token) : state.resume (token :: rest) = after.resume rest := by
  rw [State.resume_cons, State.next?_eq_some_iff.mpr step]

theorem State.resume_of_refused {state : State} {token : Token} (refused : state.next? token = none)
    (rest : List Token) : state.resume (token :: rest) = state.halt (some token) rest := by
  rw [resume_cons, refused]

/-- The machine runs through these tokens, from one state to another. -/
inductive Runs : State → List Token → State → Prop where
  | refl (state : State) : Runs state [] state
  | step {state after last : State} {token : Token} {tokens : List Token}
      (first : Step state token after) (rest : Runs after tokens last) :
      Runs state (token :: tokens) last

theorem Runs.trans {first middle last : State} {before after : List Token}
    (early : Runs first before middle) (late : Runs middle after last) :
    Runs first (before ++ after) last := by
  induction early with
  | refl state => exact late
  | step first rest ih => exact .step first (ih late)

theorem Runs.resume {state last : State} {tokens : List Token} (runs : Runs state tokens last)
    (rest : List Token) : state.resume (tokens ++ rest) = last.resume rest := by
  induction runs with
  | refl state => rfl
  | step first later ih =>
    rw [List.cons_append, first.resume]
    exact ih

/-- The machine runs to the end, or up to the first token that it cannot take. -/
theorem State.halts (state : State) (tokens : List Token) :
    (∃ last, Runs state tokens last ∧ state.resume tokens = last.halt none []) ∨
    ∃ taken found rest last, tokens = taken ++ found :: rest ∧ Runs state taken last ∧
      last.next? found = none ∧ state.resume tokens = last.halt (some found) rest := by
  induction tokens generalizing state with
  | nil => exact .inl ⟨state, .refl state, state.resume_nil⟩
  | cons token tokens ih =>
    cases taken : state.next? token with
    | none =>
      exact .inr ⟨[], token, tokens, state, rfl, .refl state, taken, resume_of_refused taken tokens⟩
    | some after =>
      have step := next?_eq_some_iff.mp taken
      rw [step.resume]
      rcases ih after with ⟨last, runs, read⟩ | ⟨before, found, rest, last, rfl, runs, refused, read⟩
      · exact .inl ⟨last, .step step runs, read⟩
      · exact .inr ⟨token :: before, found, rest, last, rfl, .step step runs, refused, read⟩

end ThreeAddress.Parser
