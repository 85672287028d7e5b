import ThreeAddress.Proofs.Grammar
import ThreeAddress.Proofs.ParserMachine

/-! The parser reads exactly the sentences of the grammar. The tokens taken so far
always split into the levels of open parentheses, each with an unfinished sum and an
unfinished product; in the other direction, every derivation is a run of the machine. -/

namespace ThreeAddress.Parser

def signs : List Kind := [.plus, .minus, .times, .divide]

theorem op?_eq_none_iff {kind : Kind} : kind.op? = none ↔ kind ∉ signs := by
  cases kind <;> decide

theorem op?_of_joins {phrase : Phrase} {kind : Kind} {op : Op} (joins : Joins phrase kind op) :
    kind.op? = some op := by
  cases joins <;> rfl

private theorem joinsFactors_of_joins {kind : Kind} {op : Op} :
    (Joins .product kind op → op.joinsFactors = true) ∧ (Joins .sum kind op → op.joinsFactors = false) := by
  constructor
  all_goals
    intro joins
    cases joins <;> rfl

theorem joins_of_op? {kind : Kind} {op : Op} (sign : kind.op? = some op) :
    Joins (if op.joinsFactors then .product else .sum) kind op := by
  cases kind <;> cases sign
  · exact .plus
  · exact .minus
  · exact .times
  · exact .divide

private theorem reads_single {phrase : Phrase} {tokens : List Token} {e : Expr}
    (reads : Reads phrase.part tokens e) : Reads phrase tokens e := by
  cases phrase with
  | sum => exact .product reads
  | product => exact .factor reads
  | factor => exact reads

/-- The tokens of an operation that waits for its right operand. -/
inductive Waiting (phrase : Phrase) : Option Pending → List Token → Prop where
  | nothing : Waiting phrase none []
  | operation {tokens : List Token} {sign : Token} {left : Expr} {op : Op}
      (reads : Reads phrase tokens left) (joins : Joins phrase sign.kind op) :
      Waiting phrase (some ⟨left, op⟩) (tokens ++ [sign])

/-- The tokens of one level of parentheses, up to the operand that comes next. -/
inductive Opened (frame : Frame) : List Token → Prop where
  | level {before after : List Token} (sum : Waiting .sum frame.sum before)
      (product : Waiting .product frame.product after) : Opened frame (before ++ after)

/-- The tokens of the levels around the current one, each up to its open parenthesis. -/
inductive Enclosed : List Frame → List Token → Prop where
  | outermost : Enclosed [] []
  | level {frame : Frame} {outer : List Frame} {before tokens : List Token} {opening : Token}
      (outside : Enclosed outer before) (opened : Opened frame tokens) (opens : opening.kind = .lparen) :
      Enclosed (frame :: outer) (before ++ tokens ++ [opening])

/-- What the tokens taken so far have to do with the state of the machine. -/
inductive Holds : State → List Token → Prop where
  | operand {frame : Frame} {outer : List Frame} {before level : List Token}
      (outside : Enclosed outer before) (opened : Opened frame level) :
      Holds (.operand frame outer) (before ++ level)
  | operator {frame : Frame} {outer : List Frame} {left : Expr} {before level factor : List Token}
      (outside : Enclosed outer before) (opened : Opened frame level) (reads : Reads .factor factor left) :
      Holds (.operator frame outer left) (before ++ level ++ factor)

private theorem opened_empty : Opened {} [] :=
  show Opened {} ([] ++ []) from .level .nothing .nothing

theorem Waiting.close {phrase : Phrase} {pending : Option Pending} {before after : List Token} {e : Expr}
    (waiting : Waiting phrase pending before) (reads : Reads phrase.part after e) :
    Reads phrase (before ++ after) (Pending.close pending e) := by
  cases waiting with
  | nothing => exact reads_single reads
  | operation left joins =>
    rw [List.append_assoc]
    exact Reads.join left joins reads

theorem Opened.close {frame : Frame} {level factor : List Token} {left : Expr}
    (opened : Opened frame level) (reads : Reads .factor factor left) :
    Reads .sum (level ++ factor) (frame.close left) := by
  obtain ⟨sum, product⟩ := opened
  rw [List.append_assoc]
  exact sum.close (product.close reads)

theorem Opened.extend {frame : Frame} {level factor : List Token} {left : Expr} {sign : Token} {op : Op}
    (opened : Opened frame level) (reads : Reads .factor factor left) (found : sign.kind.op? = some op) :
    Opened (frame.extend left op) (level ++ factor ++ [sign]) := by
  have whole := opened.close reads
  have joins := joins_of_op? found
  unfold Frame.extend
  split
  next multiplies =>
    rw [if_pos multiplies] at joins
    obtain ⟨sum, product⟩ := opened
    rw [List.append_assoc, List.append_assoc, ← List.append_assoc _ factor]
    exact .level sum (.operation (product.close reads) joins)
  next adds =>
    rw [if_neg adds] at joins
    rw [← List.append_nil (level ++ factor ++ [sign])]
    exact .level (.operation whole joins) .nothing

theorem Holds.step {state after : State} {taken : List Token} {token : Token}
    (holds : Holds state taken) (step : Step state token after) : Holds after (taken ++ [token]) := by
  cases step with
  | number kind =>
    obtain ⟨outside, opened⟩ := holds
    exact .operator outside opened (Reads.number kind)
  | opening kind =>
    obtain ⟨outside, opened⟩ := holds
    have held := Holds.operand (Enclosed.level outside opened kind) opened_empty
    rwa [List.append_nil] at held
  | sign found =>
    cases holds with
    | operator outside opened reads =>
      rw [List.append_assoc, List.append_assoc, ← List.append_assoc _ _ [token]]
      exact .operand outside (opened.extend reads found)
  | closing kind =>
    cases holds with
    | @operator _ _ _ _ level factor outside opened reads =>
      cases outside with
      | @level _ _ before around opening outside enclosing opens =>
        have group := Reads.group opens (opened.close reads) kind
        have held := Holds.operator outside enclosing group
        simpa only [List.append_assoc, List.cons_append, List.nil_append] using held

theorem Holds.run {state last : State} {taken tokens : List Token} (holds : Holds state taken)
    (runs : Runs state tokens last) : Holds last (taken ++ tokens) := by
  induction runs generalizing taken with
  | refl state => rwa [List.append_nil]
  | step first rest ih =>
    rw [List.append_cons]
    exact ih (holds.step first)

theorem holds_start : Holds .start [] :=
  show Holds _ ([] ++ []) from .operand .outermost opened_empty

/-- How the machine moves over the tokens of a phrase. A product is read with any
unfinished sum before it, a factor in any frame at all. -/
def Accepts : Phrase → List Token → Expr → Prop
  | .sum, tokens, e => ∀ outer, ∃ frame left, frame.close left = e ∧
      Runs (.operand {} outer) tokens (.operator frame outer left)
  | .product, tokens, e => ∀ sum outer, ∃ product left, Pending.close product left = e ∧
      Runs (.operand ⟨sum, none⟩ outer) tokens (.operator ⟨sum, product⟩ outer left)
  | .factor, tokens, e => ∀ frame outer,
      Runs (.operand frame outer) tokens (.operator frame outer e)

private theorem accepts_group {opening closing : Token} {inner : List Token} {e : Expr}
    (opens : opening.kind = .lparen) (closes : closing.kind = .rparen) (body : Accepts .sum inner e) :
    Accepts .factor (opening :: inner ++ [closing]) e := by
  intro frame outer
  obtain ⟨level, left, rfl, runs⟩ := body (frame :: outer)
  exact .step (.opening opens) (runs.trans (.step (.closing closes) (.refl _)))

private theorem accepts_join {phrase : Phrase} {first second : List Token} {sign : Token} {op : Op}
    {left right : Expr} (joins : Joins phrase sign.kind op) (before : Accepts phrase first left)
    (after : Accepts phrase.part second right) :
    Accepts phrase (first ++ sign :: second) (.binary op left right) := by
  have found := op?_of_joins joins
  cases phrase with
  | sum =>
    intro outer
    obtain ⟨frame, last, rfl, early⟩ := before outer
    obtain ⟨product, operand, rfl, late⟩ := after (some ⟨frame.close last, op⟩) outer
    refine ⟨⟨some ⟨frame.close last, op⟩, product⟩, operand, rfl, early.trans (.step (.sign found) ?_)⟩
    rw [Frame.extend, joinsFactors_of_joins.2 joins]
    exact late
  | product =>
    intro sum outer
    obtain ⟨product, last, rfl, early⟩ := before sum outer
    refine ⟨some ⟨Pending.close product last, op⟩, right, rfl, early.trans (.step (.sign found) ?_)⟩
    rw [Frame.extend, joinsFactors_of_joins.1 joins]
    exact after _ outer
  | factor => cases joins

/-- Every derivation is a run of the machine. -/
theorem accepts_of_reads {phrase : Phrase} {tokens : List Token} {e : Expr}
    (reads : Reads phrase tokens e) : Accepts phrase tokens e := by
  induction reads using Reads.rules with
  | number token kind =>
    intro frame outer
    exact .step (.number kind) (.refl _)
  | group opening inner closing e opens _ closes body => exact accepts_group opens closes body
  | factor tokens e _ single =>
    intro sum outer
    exact ⟨none, e, rfl, single _ outer⟩
  | product tokens e _ single =>
    intro outer
    obtain ⟨product, left, close, runs⟩ := single none outer
    exact ⟨⟨none, product⟩, left, close, runs⟩
  | join phrase first sign second op left right _ joins _ before after =>
    exact accepts_join joins before after

theorem State.halt_eq_ok {state : State} {found : Option Token} {after rest : List Token} {e : Expr}
    (read : state.halt found after = ⟨.ok e, rest⟩) :
    ∃ frame left, state = .operator frame [] left ∧ frame.close left = e ∧ found.toList ++ after = rest := by
  cases state with
  | operand frame outer => cases read
  | operator frame outer left =>
    cases outer with
    | nil =>
      cases read
      exact ⟨frame, left, rfl, rfl, rfl⟩
    | cons enclosing outer => cases read

theorem Holds.reads_sum {frame : Frame} {left : Expr} {taken : List Token}
    (holds : Holds (.operator frame [] left) taken) : Reads .sum taken (frame.close left) := by
  cases holds with
  | operator outside opened reads =>
    cases outside with
    | outermost => exact opened.close reads

private theorem refused_outermost {frame : Frame} {left : Expr} {token : Token} :
    (State.operator frame [] left).next? token = none ↔ token.kind ∉ signs := by
  rw [← op?_eq_none_iff]
  simp only [State.next?]
  cases token.kind.op? with
  | none => simp
  | some op => simp

theorem reads_of_parse {tokens rest : List Token} {e : Expr} (read : parse tokens = ⟨.ok e, rest⟩) :
    ∃ taken, tokens = taken ++ rest ∧ Reads .sum taken e ∧ ∀ token ∈ rest.head?, token.kind ∉ signs := by
  change State.start.resume tokens = _ at read
  rcases State.start.halts tokens with ⟨last, runs, halted⟩ | ⟨taken, found, after, last, rfl, runs, refused, halted⟩
  all_goals
    obtain ⟨frame, left, rfl, rfl, rfl⟩ := State.halt_eq_ok (halted.symm.trans read)
    have reads := (holds_start.run runs).reads_sum
  · exact ⟨tokens, by simp, reads, by simp⟩
  · refine ⟨taken, rfl, reads, ?_⟩
    intro token member
    cases member
    exact refused_outermost.mp refused

theorem parse_of_reads {taken rest : List Token} {e : Expr} (reads : Reads .sum taken e)
    (stops : ∀ token ∈ rest.head?, token.kind ∉ signs) : parse (taken ++ rest) = ⟨.ok e, rest⟩ := by
  obtain ⟨frame, left, rfl, runs⟩ := accepts_of_reads reads []
  change State.start.resume (taken ++ rest) = _
  rw [State.start, runs.resume rest]
  cases rest with
  | nil => rw [State.resume_nil]; rfl
  | cons token rest =>
    rw [State.resume_of_refused (refused_outermost.mpr (stops token rfl))]
    rfl

theorem parse_all_iff {tokens : List Token} {e : Expr} :
    parse tokens = ⟨.ok e, []⟩ ↔ Reads .sum tokens e := by
  constructor
  · intro read
    obtain ⟨taken, rfl, reads, _⟩ := reads_of_parse read
    rwa [List.append_nil]
  · intro reads
    have stops : ∀ token ∈ ([] : List Token).head?, token.kind ∉ signs := by simp
    have read := parse_of_reads reads stops
    rwa [List.append_nil] at read

theorem parseComplete_of_reads {tokens : List Token} {e : Expr} (reads : Reads .sum tokens e) :
    parseComplete tokens = ⟨.ok e, []⟩ := by
  rw [parseComplete, parse_all_iff.mpr reads]

theorem parseComplete_ok_iff {tokens : List Token} {e : Expr} :
    (parseComplete tokens).result = .ok e ↔ Reads .sum tokens e := by
  rw [← parse_all_iff]
  unfold parseComplete
  cases read : parse tokens with
  | mk result rest =>
    cases result with
    | error error => simp
    | ok other =>
      cases rest with
      | nil => simp
      | cons token rest => simp

/-- Reading succeeds exactly on the sentences of the grammar. A lenient reading takes
all it can and stops where no sign goes on, a strict one takes everything. -/
theorem parse_ok_iff (tokens : List Token) (e : Expr) :
    (∀ rest, parse tokens = ⟨.ok e, rest⟩ ↔
      ∃ taken, tokens = taken ++ rest ∧ Reads .sum taken e ∧
        ∀ token ∈ rest.head?, token.kind ∉ [Kind.plus, .minus, .times, .divide]) ∧
    ((parseComplete tokens).result = .ok e ↔ Reads .sum tokens e) := by
  refine ⟨fun rest => ⟨reads_of_parse, ?_⟩, parseComplete_ok_iff⟩
  rintro ⟨taken, rfl, reads, stops⟩
  exact parse_of_reads reads stops

end ThreeAddress.Parser
