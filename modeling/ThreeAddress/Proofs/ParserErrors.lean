import ThreeAddress.Proofs.ParserGrammar

/-! A parse error is found as early as it can be. The tokens before it begin some
sentence, no sentence goes on with the token it names, and the kind of error says what
was expected there. The state of the halted machine knows all of this. -/

namespace ThreeAddress

def ParseError.found : ParseError → Option Token
  | .unexpectedToken found => found
  | .missingClosingParen found => found
  | .trailingToken found => some found

end ThreeAddress

namespace ThreeAddress.Parser

def reading (strict : Bool) (tokens : List Token) : Reading :=
  if strict then parseComplete tokens else parse tokens

/-- No tokens at all, or tokens that end in a sign or an open parenthesis. -/
def WantsOperand (tokens : List Token) : Prop :=
  ∀ token ∈ tokens.getLast?, token.kind ∈ [Kind.plus, .minus, .times, .divide, .lparen]

def EndsOperand (tokens : List Token) : Prop :=
  ∃ token ∈ tokens.getLast?, token.kind ∈ [Kind.number, .rparen]

def count (kind : Kind) (tokens : List Token) : Nat :=
  tokens.countP fun token => token.kind = kind

theorem count_append (kind : Kind) (first second : List Token) :
    count kind (first ++ second) = count kind first + count kind second :=
  List.countP_append

private theorem count_singleton (kind : Kind) (token : Token) :
    count kind [token] = if token.kind = kind then 1 else 0 := by
  simp [count, List.countP_cons]

private theorem count_of_joins {phrase : Phrase} {sign : Token} {op : Op} (joins : Joins phrase sign.kind op) :
    count .lparen [sign] = 0 ∧ count .rparen [sign] = 0 := by
  rw [count_singleton, count_singleton]
  generalize sign.kind = kind at joins
  cases joins <;> decide

private theorem wantsOperand_nil : WantsOperand [] := by simp [WantsOperand]

private theorem wantsOperand_of_joins {phrase : Phrase} {sign : Token} {op : Op} (tokens : List Token)
    (joins : Joins phrase sign.kind op) : WantsOperand (tokens ++ [sign]) := by
  intro token last
  rw [List.getLast?_concat] at last
  cases last
  generalize sign.kind = kind at joins
  cases joins <;> decide

theorem WantsOperand.append {first second : List Token} (before : WantsOperand first)
    (after : WantsOperand second) : WantsOperand (first ++ second) := by
  intro token last
  rw [List.getLast?_append] at last
  cases ending : second.getLast? with
  | none => exact before token (by simpa [ending] using last)
  | some other => exact after token (by simpa [ending] using last)

theorem EndsOperand.append (first : List Token) {second : List Token} (after : EndsOperand second) :
    EndsOperand (first ++ second) := by
  obtain ⟨token, last, kind⟩ := after
  exact ⟨token, by rw [List.getLast?_append, last]; rfl, kind⟩

private theorem WantsOperand.not_endsOperand {tokens : List Token} (wants : WantsOperand tokens) :
    ¬ EndsOperand tokens := by
  rintro ⟨token, last, kind⟩
  have other := wants token last
  cases same : token.kind <;> simp_all

theorem endsOperand_of_reads {phrase : Phrase} {tokens : List Token} {e : Expr}
    (reads : Reads phrase tokens e) : EndsOperand tokens := by
  induction reads using Reads.rules with
  | number token kind => exact ⟨token, rfl, by simp [kind]⟩
  | group opening inner closing e opens _ closes _ =>
    exact ⟨closing, by rw [List.getLast?_concat]; rfl, by simp [closes]⟩
  | factor tokens e _ single => exact single
  | product tokens e _ single => exact single
  | join phrase first sign second op left right _ joins _ _ after =>
    rw [List.append_cons]
    exact after.append _

theorem count_of_reads {phrase : Phrase} {tokens : List Token} {e : Expr}
    (reads : Reads phrase tokens e) : count .lparen tokens = count .rparen tokens := by
  induction reads using Reads.rules with
  | number token kind => simp [count_singleton, kind]
  | group opening inner closing e opens _ closes body =>
    rw [← List.singleton_append, count_append, count_append, count_append, count_append, body]
    simp [count_singleton, opens, closes]
    omega
  | factor tokens e _ single => exact single
  | product tokens e _ single => exact single
  | join phrase first sign second op left right _ joins _ before after =>
    have sign := count_of_joins joins
    rw [List.append_cons, count_append, count_append, count_append, count_append, before, after,
      sign.1, sign.2]

theorem Waiting.shape {phrase : Phrase} {pending : Option Pending} {tokens : List Token}
    (waiting : Waiting phrase pending tokens) :
    WantsOperand tokens ∧ count .lparen tokens = count .rparen tokens := by
  cases waiting with
  | nothing => exact ⟨wantsOperand_nil, rfl⟩
  | operation reads joins =>
    have sign := count_of_joins joins
    refine ⟨wantsOperand_of_joins _ joins, ?_⟩
    rw [count_append, count_append, count_of_reads reads, sign.1, sign.2]

theorem Opened.shape {frame : Frame} {level : List Token} (opened : Opened frame level) :
    WantsOperand level ∧ count .lparen level = count .rparen level := by
  obtain ⟨sum, product⟩ := opened
  refine ⟨sum.shape.1.append product.shape.1, ?_⟩
  rw [count_append, count_append, sum.shape.2, product.shape.2]

/-- The levels that are open are counted by the parentheses that are not closed. -/
theorem Enclosed.shape {outer : List Frame} {before : List Token} (enclosed : Enclosed outer before) :
    WantsOperand before ∧ count .lparen before = count .rparen before + outer.length := by
  induction enclosed with
  | outermost => exact ⟨wantsOperand_nil, rfl⟩
  | @level frame outer before tokens opening outside opened opens ih =>
    constructor
    · intro token last
      rw [List.getLast?_concat] at last
      cases last
      simp [opens]
    · simp only [count_append, count_singleton, opens, ih.2, opened.shape.2, List.length_cons]
      simp only [reduceCtorEq, if_false, if_true]
      omega

private theorem Holds.wantsOperand {frame : Frame} {outer : List Frame} {taken : List Token}
    (holds : Holds (.operand frame outer) taken) : WantsOperand taken := by
  obtain ⟨outside, opened⟩ := holds
  exact outside.shape.1.append opened.shape.1

private theorem Holds.endsOperand {frame : Frame} {outer : List Frame} {left : Expr} {taken : List Token}
    (holds : Holds (.operator frame outer left) taken) :
    EndsOperand taken ∧ count .lparen taken = count .rparen taken + outer.length := by
  cases holds with
  | operator outside opened reads =>
    refine ⟨(endsOperand_of_reads reads).append _, ?_⟩
    rw [count_append, count_append, count_append, count_append, count_of_reads reads,
      opened.shape.2, outside.shape.2]
    omega

/-- Open levels can always be closed again, around any sum. -/
private theorem Enclosed.viable {outer : List Frame} {before inner : List Token} {e : Expr}
    (enclosed : Enclosed outer before) (reads : Reads .sum inner e) :
    ∃ tail, Sentence (before ++ inner ++ tail) := by
  induction enclosed generalizing inner e with
  | outermost => exact ⟨[], e, by simpa using reads⟩
  | level outside opened opens ih =>
    have closes : (Token.mk .rparen ")" {} 0).kind = .rparen := rfl
    obtain ⟨tail, sentence⟩ := ih (opened.close (Reads.group opens reads closes))
    refine ⟨⟨.rparen, ")", {}, 0⟩ :: tail, ?_⟩
    simpa only [List.append_assoc, List.cons_append, List.nil_append] using sentence

/-- Whatever the machine has taken begins some sentence. -/
theorem Holds.viable {state : State} {taken : List Token} (holds : Holds state taken) :
    ∃ tail, Sentence (taken ++ tail) := by
  cases holds with
  | operand outside opened =>
    have number : (Token.mk .number "0" {} 0).kind = .number := rfl
    obtain ⟨tail, sentence⟩ := outside.viable (opened.close (Reads.number number))
    refine ⟨⟨.number, "0", {}, 0⟩ :: tail, ?_⟩
    simpa only [List.append_assoc, List.cons_append, List.nil_append] using sentence
  | operator outside opened reads =>
    obtain ⟨tail, sentence⟩ := outside.viable (opened.close reads)
    exact ⟨tail, by simpa only [List.append_assoc] using sentence⟩

/-- No sentence goes on with a token that the machine cannot take. The machine would
halt there, with that token still unread. -/
private theorem Runs.no_sentence {last : State} {taken : List Token} {token : Token}
    (runs : Runs .start taken last) (refused : last.next? token = none) (tail : List Token) :
    ¬ Sentence (taken ++ token :: tail) := by
  rintro ⟨e, reads⟩
  have read : State.start.resume (taken ++ token :: tail) = ⟨.ok e, []⟩ := parse_all_iff.mpr reads
  rw [runs.resume, State.resume_of_refused refused] at read
  obtain ⟨_, _, _, _, unread⟩ := State.halt_eq_ok read
  cases unread

inductive Reports : Bool → State → ParseError → Prop where
  | operand {strict : Bool} {frame : Frame} {outer : List Frame} (found : Option Token) :
      Reports strict (.operand frame outer) (.unexpectedToken found)
  | closing {strict : Bool} {frame enclosing : Frame} {outer : List Frame} {left : Expr}
      (found : Option Token) :
      Reports strict (.operator frame (enclosing :: outer) left) (.missingClosingParen found)
  | trailing {frame : Frame} {left : Expr} (found : Token) :
      Reports true (.operator frame [] left) (.trailingToken found)

theorem State.halt_eq_error {state : State} {found : Option Token} {after rest : List Token}
    {error : ParseError} (read : state.halt found after = ⟨.error error, rest⟩) (strict : Bool) :
    error.found = found ∧ after = rest ∧ Reports strict state error := by
  cases state with
  | operand frame outer =>
    cases read
    exact ⟨rfl, rfl, .operand found⟩
  | operator frame outer left =>
    cases outer with
    | nil => cases read
    | cons enclosing outer =>
      cases read
      exact ⟨rfl, rfl, .closing found⟩

/-- A failed reading, together with the state in which the machine halted. -/
structure Failed (strict : Bool) (tokens : List Token) (error : ParseError) (rest taken : List Token)
    (last : State) : Prop where
  runs : Runs .start taken last
  split : tokens = taken ++ error.found.toList ++ rest
  reports : Reports strict last error
  refused : ∀ token, error.found = some token → last.next? token = none
  finished : error.found = none → rest = []

theorem parse_fails {tokens rest : List Token} {error : ParseError}
    (failed : parse tokens = ⟨.error error, rest⟩) (strict : Bool) :
    ∃ taken last, Failed strict tokens error rest taken last := by
  change State.start.resume tokens = _ at failed
  rcases State.start.halts tokens with ⟨last, runs, halted⟩ | ⟨taken, found, after, last, rfl, runs, refused, halted⟩
  · obtain ⟨none, rfl, reports⟩ := State.halt_eq_error (halted.symm.trans failed) strict
    exact ⟨tokens, last, runs, by simp [none], reports, by simp [none], fun _ => rfl⟩
  · obtain ⟨some, rfl, reports⟩ := State.halt_eq_error (halted.symm.trans failed) strict
    refine ⟨taken, last, runs, by simp [some], reports, ?_, by simp [some]⟩
    intro token same
    cases some.symm.trans same
    exact refused

private theorem trailing_fails {tokens rest : List Token} {e : Expr} {token : Token}
    (read : parse tokens = ⟨.ok e, token :: rest⟩) :
    ∃ taken last, Failed true tokens (.trailingToken token) rest taken last := by
  change State.start.resume tokens = _ at read
  rcases State.start.halts tokens with ⟨last, _, halted⟩ | ⟨taken, found, after, last, rfl, runs, refused, halted⟩
  · obtain ⟨_, _, _, _, impossible⟩ := State.halt_eq_ok (halted.symm.trans read)
    cases impossible
  · obtain ⟨frame, left, rfl, _, unread⟩ := State.halt_eq_ok (halted.symm.trans read)
    cases unread
    refine ⟨taken, _, runs, by simp [ParseError.found], .trailing _, ?_, by simp [ParseError.found]⟩
    intro other same
    cases same
    exact refused

theorem reading_fails {strict : Bool} {tokens rest : List Token} {error : ParseError}
    (failed : reading strict tokens = ⟨.error error, rest⟩) :
    ∃ taken last, Failed strict tokens error rest taken last := by
  cases strict with
  | false => exact parse_fails failed false
  | true =>
    simp only [reading, if_true, parseComplete] at failed
    split at failed
    next read =>
      cases failed
      exact trailing_fails read
    next => exact parse_fails failed true

theorem reading_of_reads {tokens : List Token} {e : Expr} (reads : Reads .sum tokens e) (strict : Bool) :
    (reading strict tokens).result = .ok e := by
  cases strict with
  | false => exact congrArg Reading.result (parse_all_iff.mpr reads)
  | true => exact parseComplete_ok_iff.mpr reads

theorem Reports.shape {strict : Bool} {last : State} {error : ParseError} {taken : List Token}
    (reports : Reports strict last error) (holds : Holds last taken) :
    ((∃ found, error = .unexpectedToken found) ↔ WantsOperand taken) ∧
    ((∃ found, error = .missingClosingParen found) ↔
      EndsOperand taken ∧ count .rparen taken < count .lparen taken) ∧
    ((∃ found, error = .trailingToken found) ↔
      EndsOperand taken ∧ count .rparen taken = count .lparen taken) := by
  cases reports with
  | operand found =>
    have wants := holds.wantsOperand
    have other := wants.not_endsOperand
    simp [wants, other]
  | closing found =>
    obtain ⟨ends, opened⟩ := holds.endsOperand
    have other : ¬ WantsOperand taken := fun wants => wants.not_endsOperand ends
    simp [ends, other, opened]
  | trailing found =>
    obtain ⟨ends, opened⟩ := holds.endsOperand
    have other : ¬ WantsOperand taken := fun wants => wants.not_endsOperand ends
    simp [ends, other, opened]

/-- A reading fails at the first token that cannot go on. What was taken before it
begins a sentence, the token it names makes that impossible, and if it names none the
tokens end too early. The kind of error follows from the tokens taken: an operand is
missing, a parenthesis is still open, or a strict reading has come to its end. After an
operand no token is ever called unexpected. -/
theorem fails_at_first_impossible_token (strict : Bool) (tokens rest : List Token) (error : ParseError)
    (failed : reading strict tokens = ⟨.error error, rest⟩) :
    ∃ taken, tokens = taken ++ error.found.toList ++ rest ∧
      (∃ tail, Sentence (taken ++ tail)) ∧
      (∀ token, error.found = some token → ∀ tail, ¬ Sentence (taken ++ token :: tail)) ∧
      (error.found = none → taken = tokens ∧ ¬ Sentence tokens) ∧
      ((∃ found, error = .unexpectedToken found) ↔ WantsOperand taken) ∧
      ((∃ found, error = .missingClosingParen found) ↔
        EndsOperand taken ∧ count .rparen taken < count .lparen taken) ∧
      ((∃ found, error = .trailingToken found) ↔
        EndsOperand taken ∧ count .rparen taken = count .lparen taken) ∧
      (strict = false → ∀ found, error ≠ .trailingToken found) ∧
      (EndsOperand taken → ∀ found, error ≠ .unexpectedToken found) := by
  obtain ⟨taken, last, failure⟩ := reading_fails failed
  have holds : Holds last taken := holds_start.run failure.runs
  obtain ⟨operand, closing, trailing⟩ := failure.reports.shape holds
  refine ⟨taken, failure.split, holds.viable, ?_, ?_, operand, closing, trailing, ?_, ?_⟩
  · intro token named tail
    exact failure.runs.no_sentence (failure.refused token named) tail
  · intro none
    have whole := failure.split
    rw [none, failure.finished none] at whole
    refine ⟨by simpa using whole.symm, ?_⟩
    rintro ⟨e, reads⟩
    have succeeded := reading_of_reads reads strict
    rw [failed] at succeeded
    cases succeeded
  · rintro rfl found rfl
    cases failure.reports
  · rintro ends found rfl
    exact (operand.mp ⟨found, rfl⟩).not_endsOperand ends

theorem two_numbers_in_open_parenthesis :
    reading true [⟨.lparen, "(", {}, 1⟩, ⟨.number, "1", {}, 2⟩, ⟨.number, "2", {}, 4⟩] =
      ⟨.error (.missingClosingParen (some ⟨.number, "2", {}, 4⟩)), []⟩ ∧
    (∃ tail, Sentence ([⟨.lparen, "(", {}, 1⟩, ⟨.number, "1", {}, 2⟩] ++ tail)) ∧
    ∀ tail, ¬ Sentence ([⟨.lparen, "(", {}, 1⟩, ⟨.number, "1", {}, 2⟩] ++ ⟨.number, "2", {}, 4⟩ :: tail) := by
  refine ⟨rfl, ?_⟩
  obtain ⟨taken, split, viable, impossible, _⟩ := fails_at_first_impossible_token true
    [⟨.lparen, "(", {}, 1⟩, ⟨.number, "1", {}, 2⟩, ⟨.number, "2", {}, 4⟩] []
    (.missingClosingParen (some ⟨.number, "2", {}, 4⟩)) rfl
  have same : [⟨.lparen, "(", {}, 1⟩, ⟨.number, "1", {}, 2⟩] = taken := by
    rw [List.append_nil] at split
    exact List.append_inj_left' split rfl
  subst same
  exact ⟨viable, impossible _ rfl⟩

end ThreeAddress.Parser
