import ThreeAddress.Proofs.ParserErrors

/-! One parser over a whole history of calls, strict and lenient ones in any order. Each call goes
on where the one before it stopped, also after a failure, and no token is lost, repeated or moved
between them. -/

namespace ThreeAddress.Parser

/-- One call of a history: its mode, the tokens that it found unread, and what it made of them. -/
structure Turn where
  strict : Bool
  unread : List Token
  reading : Reading

/-- The calls made on a parser that starts with these tokens. A call is given by its mode. -/
def turns (tokens : List Token) : List Bool → List Turn
  | [] => []
  | strict :: calls => ⟨strict, tokens, reading strict tokens⟩ :: turns (reading strict tokens).rest calls

/-- The tokens that are left when all calls have been made. -/
def leftover (tokens : List Token) : List Bool → List Token
  | [] => tokens
  | strict :: calls => leftover (reading strict tokens).rest calls

/-- The tokens that a call used up: those in front of the ones that it left. -/
def Turn.taken (turn : Turn) : List Token :=
  turn.unread.take (turn.unread.length - turn.reading.rest.length)

/-- All that a call can do: take the tokens of an expression, take tokens up to the one that it
names in its error, or take everything and miss what should follow. -/
inductive Took (strict : Bool) : List Token → Reading → Prop where
  | expression {taken rest : List Token} {e : Expr} (reads : Reads .sum taken e)
      (stops : ∀ token ∈ rest.head?, token.kind ∉ signs) (complete : strict = true → rest = []) :
      Took strict taken ⟨.ok e, rest⟩
  | refused {before rest : List Token} {error : ParseError} {token : Token} (named : error.found = some token) :
      Took strict (before ++ [token]) ⟨.error error, rest⟩
  | ended {taken : List Token} {error : ParseError} (named : error.found = none) :
      Took strict taken ⟨.error error, []⟩

theorem parse_of_reading_ok {strict : Bool} {tokens rest : List Token} {e : Expr}
    (read : reading strict tokens = ⟨.ok e, rest⟩) :
    parse tokens = ⟨.ok e, rest⟩ ∧ (strict = true → rest = []) := by
  cases strict with
  | false => exact ⟨read, by simp⟩
  | true =>
    simp only [reading, if_true, parseComplete] at read
    cases outcome : parse tokens with
    | mk result left =>
      rw [outcome] at read
      cases result with
      | error error => cases read
      | ok other =>
        cases left with
        | nil =>
          cases read
          exact ⟨rfl, fun _ => rfl⟩
        | cons token left => cases read

private theorem reading_took (strict : Bool) (tokens : List Token) :
    ∃ taken, tokens = taken ++ (reading strict tokens).rest ∧ Took strict taken (reading strict tokens) := by
  cases outcome : reading strict tokens with
  | mk result rest =>
    cases result with
    | ok e =>
      obtain ⟨read, complete⟩ := parse_of_reading_ok outcome
      obtain ⟨taken, split, reads, stops⟩ := reads_of_parse read
      exact ⟨taken, split, .expression reads stops complete⟩
    | error error =>
      obtain ⟨taken, last, failure⟩ := reading_fails outcome
      have split := failure.split
      cases named : error.found with
      | some token =>
        rw [named] at split
        exact ⟨taken ++ [token], split, .refused named⟩
      | none =>
        obtain rfl := failure.finished named
        rw [named, Option.toList_none, List.append_nil] at split
        exact ⟨taken, split, .ended named⟩

private theorem Turn.taken_eq {turn : Turn} {taken : List Token}
    (split : turn.unread = taken ++ turn.reading.rest) :
    turn.taken = taken := by
  rw [Turn.taken, split, List.length_append, Nat.add_sub_cancel, List.take_left]

/-- A turn in which the parser was called on the tokens that it records. -/
structure Turn.Proper (turn : Turn) : Prop where
  fresh : turn.reading = Parser.reading turn.strict turn.unread
  split : turn.unread = turn.taken ++ turn.reading.rest
  took : Took turn.strict turn.taken turn.reading

theorem Turn.proper (strict : Bool) (tokens : List Token) :
    (Turn.mk strict tokens (Parser.reading strict tokens)).Proper := by
  obtain ⟨taken, split, took⟩ := reading_took strict tokens
  have same : (Turn.mk strict tokens (Parser.reading strict tokens)).taken = taken := Turn.taken_eq split
  exact ⟨rfl, same.symm ▸ split, same.symm ▸ took⟩

private theorem turns_proper {tokens : List Token} {calls : List Bool} {turn : Turn}
    (member : turn ∈ turns tokens calls) : turn.Proper := by
  induction calls generalizing tokens with
  | nil => cases member
  | cons strict calls ih =>
    rcases List.mem_cons.mp member with rfl | member
    · exact Turn.proper strict tokens
    · exact ih member

theorem turns_conserve (tokens : List Token) (calls : List Bool) :
    (turns tokens calls).flatMap Turn.taken ++ leftover tokens calls = tokens := by
  induction calls generalizing tokens with
  | nil => rfl
  | cons strict calls ih =>
    rw [turns, leftover, List.flatMap_cons, List.append_assoc, ih]
    exact (Turn.proper strict tokens).split.symm

/-- A history is cut by any of its turns into the history before it and the one that starts with
the tokens it found unread. -/
theorem turns_split {tokens : List Token} {calls : List Bool} {before after : List Turn} {turn : Turn}
    (split : turns tokens calls = before ++ turn :: after) :
    tokens = before.flatMap Turn.taken ++ turn.unread ∧
      ∃ later, turn :: after = turns turn.unread (turn.strict :: later) := by
  induction before generalizing tokens calls with
  | nil =>
    cases calls with
    | nil => cases split
    | cons strict calls =>
      obtain ⟨rfl, rfl⟩ := List.cons.inj split
      exact ⟨rfl, calls, rfl⟩
  | cons first before ih =>
    cases calls with
    | nil => cases split
    | cons strict calls =>
      obtain ⟨rfl, rest⟩ := List.cons.inj split
      obtain ⟨unread, later⟩ := ih rest
      refine ⟨?_, later⟩
      rw [List.flatMap_cons, List.append_assoc, ← unread]
      exact (Turn.proper strict tokens).split

private theorem reading_nil (strict : Bool) : reading strict [] = ⟨.error (.unexpectedToken none), []⟩ := by
  cases strict <;> rfl

private theorem turns_of_nothing {calls : List Bool} {turn : Turn} (member : turn ∈ turns [] calls) :
    turn.reading = ⟨.error (.unexpectedToken none), []⟩ := by
  induction calls with
  | nil => cases member
  | cons strict calls ih =>
    rw [turns, reading_nil] at member
    rcases List.mem_cons.mp member with rfl | member
    · rfl
    · exact ih member

theorem Took.ne_nil {strict : Bool} {taken : List Token} {reading : Reading} (took : Took strict taken reading)
    (some : taken ++ reading.rest ≠ []) : taken ≠ [] := by
  cases took with
  | expression reads stops complete =>
    obtain ⟨token, last, _⟩ := endsOperand_of_reads reads
    intro empty
    rw [empty] at last
    cases last
  | refused named => simp
  | ended named => simpa using some

private theorem Took.last_eq {strict : Bool} {taken : List Token} {reading : Reading} {error : ParseError}
    {token : Token} (took : Took strict taken reading) (failed : reading.result = .error error)
    (named : error.found = some token) : taken.getLast? = some token := by
  cases took with
  | expression reads stops complete => cases failed
  | refused other =>
    cases failed
    rw [List.getLast?_concat, ← other, named]
  | ended nothing =>
    cases failed
    cases nothing.symm.trans named

private theorem Took.rest_eq_nil {strict : Bool} {taken : List Token} {reading : Reading} {error : ParseError}
    (took : Took strict taken reading) (failed : reading.result = .error error) (named : error.found = none) :
    reading.rest = [] := by
  cases took with
  | expression reads stops complete => cases failed
  | refused other =>
    cases failed
    cases other.symm.trans named
  | ended nothing => rfl

theorem Took.reads {strict : Bool} {taken : List Token} {reading : Reading} {e : Expr}
    (took : Took strict taken reading) (read : reading.result = .ok e) :
    Reads .sum taken e ∧ (∀ token ∈ reading.rest.head?, token.kind ∉ signs) ∧
      (strict = true → reading.rest = []) := by
  cases took with
  | expression reads stops complete =>
    cases read
    exact ⟨reads, stops, complete⟩
  | refused named => cases read
  | ended named => cases read

/-- What any history of calls does with the tokens of one parser. The segments taken by the calls
and what is left make up the tokens, in order. Each call returns what a new parser would return
on the tokens unread at that point. While there are any it takes at least one; an error takes the
token it names as its last, or everything if it names none; an expression takes its own tokens and
not the one behind it. Once nothing is unread, every call misses an operand at the end. -/
theorem history_conserves_tokens (tokens : List Token) (calls : List Bool) :
    (turns tokens calls).map Turn.strict = calls ∧
    (turns tokens calls).flatMap Turn.taken ++ leftover tokens calls = tokens ∧
    ∀ before turn after, turns tokens calls = before ++ turn :: after →
      tokens = before.flatMap Turn.taken ++ turn.unread ∧
      turn.unread = turn.taken ++ turn.reading.rest ∧
      turn.reading = (if turn.strict then parseComplete turn.unread else parse turn.unread) ∧
      (turn.unread ≠ [] → turn.taken ≠ []) ∧
      (∀ error token, turn.reading.result = .error error → error.found = some token →
        turn.taken.getLast? = some token) ∧
      (∀ error, turn.reading.result = .error error → error.found = none → turn.reading.rest = []) ∧
      (∀ e, turn.reading.result = .ok e → Reads .sum turn.taken e ∧
        (∀ token ∈ turn.reading.rest.head?, token.kind ∉ [Kind.plus, .minus, .times, .divide]) ∧
        (turn.strict = true → turn.reading.rest = [])) ∧
      (turn.unread = [] → ∀ later ∈ turn :: after, later.reading.result = .error (.unexpectedToken none)) := by
  refine ⟨?_, turns_conserve tokens calls, ?_⟩
  · induction calls generalizing tokens with
    | nil => rfl
    | cons strict calls ih => exact congrArg (strict :: ·) (ih _)
  · intro before turn after split
    obtain ⟨unread, later, remaining⟩ := turns_split split
    have member : turn ∈ turns tokens calls := by
      rw [split]
      exact List.mem_append_right before List.mem_cons_self
    obtain ⟨fresh, parts, took⟩ := turns_proper member
    refine ⟨unread, parts, fresh, ?_, fun error token => took.last_eq, fun error => took.rest_eq_nil,
      fun e => took.reads, ?_⟩
    · intro some
      rw [parts] at some
      exact took.ne_nil some
    · intro empty other remains
      rw [remaining, empty] at remains
      rw [turns_of_nothing remains]

theorem number_then_failures :
    let tokens : List Token := [⟨.number, "7", {}, 1⟩, ⟨.lparen, "(", {}, 2⟩, ⟨.number, "1", {}, 3⟩,
      ⟨.number, "2", {}, 5⟩, ⟨.number, "3", {}, 7⟩, ⟨.plus, "+", {}, 8⟩]
    let calls := [false, false, true, false]
    (turns tokens calls).map Turn.taken = [tokens.take 1, (tokens.drop 1).take 3, tokens.drop 4, []] ∧
    (turns tokens calls).flatMap Turn.taken ++ leftover tokens calls = tokens ∧
    ∃ first second third last, turns tokens calls = [first, second, third, last] ∧
      Reads .sum first.taken (.number "7") ∧
      second.taken.getLast? = some ⟨.number, "2", {}, 5⟩ ∧
      third.unread = tokens.drop 4 ∧ third.taken ≠ [] ∧ third.reading.rest = [] ∧
      last.reading.result = .error (.unexpectedToken none) := by
  intro tokens calls
  obtain ⟨_, conserved, each⟩ := history_conserves_tokens tokens calls
  refine ⟨rfl, conserved, _, _, _, _, rfl, ?_, ?_, rfl, ?_, ?_, ?_⟩
  · obtain ⟨_, _, _, _, _, _, read, _⟩ := each [] _ _ rfl
    exact (read (.number "7") rfl).1
  · obtain ⟨_, _, _, _, named, _⟩ := each [_] _ _ rfl
    exact named (.missingClosingParen (some ⟨.number, "2", {}, 5⟩)) _ rfl rfl
  · obtain ⟨_, _, _, some, _⟩ := each [_, _] _ _ rfl
    exact some (List.cons_ne_nil _ _)
  · obtain ⟨_, _, _, _, _, ended, _⟩ := each [_, _] _ _ rfl
    exact ended (.unexpectedToken none) rfl rfl
  · obtain ⟨_, _, _, _, _, _, _, exhausted⟩ := each [_, _, _] _ _ rfl
    exact exhausted rfl _ List.mem_cons_self

end ThreeAddress.Parser
