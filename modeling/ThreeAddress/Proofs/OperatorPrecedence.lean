import ThreeAddress.Proofs.ParserGrammar

/-! Numbers with operators between them, read without parentheses. What comes out is described on the
tree alone: from left to right it says what the tokens say, and every operation holds its operands
tighter than, or on the left as tight as, the operation around it. No other tree is like that. -/

namespace ThreeAddress

/-- How tight an operator holds its operands. -/
def Op.precedence : Op → Nat
  | .add | .subtract => 1
  | .multiply | .divide => 2

/-- A number is held together by nothing; an operation has the precedence of its operator. -/
def Expr.Binds (test : Nat → Prop) : Expr → Prop
  | .number _ => True
  | .binary op _ _ => test op.precedence

/-- Operators that bind tighter come first, and those that bind alike group to the left. -/
def Expr.Grouped : Expr → Prop
  | .number _ => True
  | .binary op left right =>
    left.Grouped ∧ right.Grouped ∧ left.Binds (op.precedence ≤ ·) ∧ right.Binds (op.precedence < ·)

/-- One entry of an expression that is written down from left to right. -/
inductive Item where
  | number (text : String)
  | sign (op : Op)
  deriving DecidableEq, Repr

def Expr.inOrder : Expr → List Item
  | .number text => [.number text]
  | .binary op left right => left.inOrder ++ .sign op :: right.inOrder

/-- What a token adds to an expression. The text of a sign does not matter. -/
def Token.item? (token : Token) : Option Item :=
  match token.kind with
  | .number => some (.number token.text)
  | .plus => some (.sign .add)
  | .minus => some (.sign .subtract)
  | .times => some (.sign .multiply)
  | .divide => some (.sign .divide)
  | .lparen | .rparen | .identifier | .whitespace => none

/-- The expression says from left to right what the tokens say, and every token says something. -/
def Expr.Recites (e : Expr) (tokens : List Token) : Prop :=
  tokens.map Token.item? = e.inOrder.map some

/-- One number, or several with an operator between each two. -/
inductive OperatorChain : List Token → Prop where
  | single {number : Token} (kind : number.kind = .number) : OperatorChain [number]
  | longer {number sign : Token} {rest : List Token} (kind : number.kind = .number)
      (operator : sign.kind ∈ [Kind.plus, .minus, .times, .divide]) (more : OperatorChain rest) :
      OperatorChain (number :: sign :: rest)

private theorem Token.item?_eq_number_iff {token : Token} {text : String} :
    token.item? = some (.number text) ↔ token.kind = .number ∧ token.text = text := by
  cases kind : token.kind <;> simp [item?, kind]

private theorem Token.item?_eq_sign_iff {token : Token} {op : Op} :
    token.item? = some (.sign op) ↔ token.kind.op? = some op := by
  cases kind : token.kind <;> simp [item?, kind, Kind.op?]

/-- The least precedence that an operation can have in a phrase. A factor has none without
parentheses. -/
def Phrase.level : Phrase → Nat
  | .sum => 1
  | .product => 2
  | .factor => 3

theorem Expr.Binds.imp {e : Expr} {test other : Nat → Prop} (binds : e.Binds test)
    (weaker : ∀ level, test level → other level) : e.Binds other := by
  cases e with
  | number text => trivial
  | binary op left right => exact weaker _ binds

theorem Joins.level {phrase : Phrase} {kind : Kind} {op : Op} (joins : Joins phrase kind op) :
    phrase.level = op.precedence ∧ phrase.part.level = op.precedence + 1 := by
  cases joins <;> exact ⟨rfl, rfl⟩

/-- What is read as one phrase is read as every phrase that allows looser operators. -/
theorem Reads.widen {narrow wide : Phrase} {tokens : List Token} {e : Expr} (reads : Reads narrow tokens e)
    (looser : wide.level ≤ narrow.level) : Reads wide tokens e := by
  cases wide with
  | sum => exact Derives.to_sum reads
  | product =>
    cases narrow with
    | sum => exact absurd looser (by decide)
    | product => exact reads
    | factor => exact .factor reads
  | factor =>
    cases narrow with
    | sum | product => exact absurd looser (by decide)
    | factor => exact reads

/-- Reading drops parentheses and keeps the order of everything else. -/
theorem Reads.inOrder {phrase : Phrase} {tokens : List Token} {e : Expr} (reads : Reads phrase tokens e) :
    e.inOrder = tokens.filterMap Token.item? := by
  induction reads using Reads.rules with
  | number token kind =>
    have item := Token.item?_eq_number_iff.mpr ⟨kind, rfl⟩
    simp [Expr.inOrder, item]
  | group opening inner closing e opens _ closes body =>
    have silent : opening.item? = none ∧ closing.item? = none := by simp [Token.item?, opens, closes]
    simp [body, silent]
  | factor tokens e _ single => exact single
  | product tokens e _ single => exact single
  | join phrase first sign second op left right _ joins _ before after =>
    have item := Token.item?_eq_sign_iff.mpr (Parser.op?_of_joins joins)
    simp [Expr.inOrder, before, after, item]

/-- Without parentheses, an operation stands only where its precedence is high enough. -/
theorem Reads.grouped {phrase : Phrase} {tokens : List Token} {e : Expr} (reads : Reads phrase tokens e)
    (bare : ∀ token ∈ tokens, token.kind ≠ .lparen) : e.Grouped ∧ e.Binds (phrase.level ≤ ·) := by
  induction reads using Reads.rules with
  | number token kind => exact ⟨trivial, trivial⟩
  | group opening inner closing e opens _ closes body => exact absurd opens (bare opening List.mem_cons_self)
  | factor tokens e _ single =>
    obtain ⟨grouped, binds⟩ := single bare
    exact ⟨grouped, binds.imp fun level high => Nat.le_trans (by decide) high⟩
  | product tokens e _ single =>
    obtain ⟨grouped, binds⟩ := single bare
    exact ⟨grouped, binds.imp fun level high => Nat.le_trans (by decide) high⟩
  | join phrase first sign second op left right _ joins _ before after =>
    obtain ⟨whole, part⟩ := joins.level
    obtain ⟨leftGrouped, leftBinds⟩ := before fun token member => bare token (List.mem_append_left _ member)
    obtain ⟨rightGrouped, rightBinds⟩ := after fun token member =>
      bare token (List.mem_append_right _ (List.mem_cons_of_mem sign member))
    rw [whole] at leftBinds ⊢
    rw [part] at rightBinds
    exact ⟨⟨leftGrouped, rightGrouped, leftBinds, rightBinds⟩, Nat.le_refl _⟩

/-- A grouped tree can be read from its own tokens, as every phrase that its root allows. -/
theorem Expr.Grouped.reads {e : Expr} {tokens : List Token} {phrase : Phrase} (grouped : e.Grouped)
    (recites : e.Recites tokens) (binds : e.Binds (phrase.level ≤ ·)) : Reads phrase tokens e := by
  induction e generalizing tokens phrase with
  | number text =>
    obtain ⟨token, rfl, item⟩ : ∃ token, tokens = [token] ∧ token.item? = some (.number text) := by
      simpa [Recites, inOrder, List.map_eq_cons_iff] using recites
    obtain ⟨kind, rfl⟩ := Token.item?_eq_number_iff.mp item
    exact Derives.of_factor (Reads.number kind) phrase
  | binary op left right first second =>
    obtain ⟨leftGrouped, rightGrouped, leftBinds, rightBinds⟩ := grouped
    rw [Recites, inOrder, List.map_append, List.map_cons] at recites
    obtain ⟨before, rest, rfl, leftRecites, behind⟩ := List.map_eq_append_iff.mp recites
    obtain ⟨sign, after, rfl, item, rightRecites⟩ := List.map_eq_cons_iff.mp behind
    obtain ⟨owner, joins⟩ : ∃ owner, Joins owner sign.kind op :=
      ⟨_, Parser.joins_of_op? (Token.item?_eq_sign_iff.mp item)⟩
    obtain ⟨whole, part⟩ := joins.level
    rw [← whole] at leftBinds
    have rightLevel : right.Binds (owner.part.level ≤ ·) := by
      rw [part]
      exact rightBinds
    have joined := Reads.join (first leftGrouped leftRecites leftBinds) joins
      (second rightGrouped rightRecites rightLevel)
    exact joined.widen (whole ▸ binds)

private theorem Expr.binds_sum (e : Expr) : e.Binds (Phrase.sum.level ≤ ·) := by
  cases e with
  | number text => trivial
  | binary op left right =>
    change 1 ≤ op.precedence
    cases op <;> decide

namespace OperatorChain
variable {tokens : List Token}

theorem kinds (chain : OperatorChain tokens) : ∀ token ∈ tokens, token.kind ≠ .lparen ∧ token.item?.isSome := by
  have number {token : Token} (kind : token.kind = .number) : token.kind ≠ .lparen ∧ token.item?.isSome := by
    simp [Token.item?, kind]
  have sign {token : Token} (operator : token.kind ∈ [Kind.plus, .minus, .times, .divide]) :
      token.kind ≠ .lparen ∧ token.item?.isSome := by
    cases kind : token.kind <;> simp_all [Token.item?]
  induction chain with
  | single kind =>
    intro token member
    cases List.mem_singleton.mp member
    exact number kind
  | longer kind operator more ih =>
    intro token member
    rcases List.mem_cons.mp member with rfl | member
    · exact number kind
    · rcases List.mem_cons.mp member with rfl | later
      · exact sign operator
      · exact ih token later

/-- The machine takes every token of a chain, whatever sum or product is unfinished before it. -/
theorem runs (chain : OperatorChain tokens) (frame : Frame) :
    ∃ last left, Parser.Runs (.operand frame []) tokens (.operator last [] left) := by
  induction chain generalizing frame with
  | single kind => exact ⟨frame, _, .step (.number kind) (.refl _)⟩
  | @longer number sign rest kind operator more ih =>
    obtain ⟨op, found⟩ : ∃ op, sign.kind.op? = some op := by
      cases absent : sign.kind.op? with
      | none => exact absurd operator (Parser.op?_eq_none_iff.mp absent)
      | some op => exact ⟨op, rfl⟩
    obtain ⟨last, left, later⟩ := ih (frame.extend (.number number.text) op)
    exact ⟨last, left, .step (.number kind) (.step (.sign found) later)⟩

theorem sentence (chain : OperatorChain tokens) : ∃ e, Reads .sum tokens e := by
  obtain ⟨last, left, taken⟩ := chain.runs {}
  exact ⟨_, (Parser.holds_start.run taken).reads_sum⟩

end OperatorChain

theorem Reads.recites {tokens : List Token} {e : Expr} (reads : Reads .sum tokens e)
    (each : ∀ token ∈ tokens, token.item?.isSome) : e.Recites tokens := by
  rw [Expr.Recites, reads.inOrder, List.map_filterMap_some_eq_filter_map_isSome]
  apply Eq.symm
  apply List.filter_eq_self.mpr
  intro item member
  obtain ⟨token, inside, rfl⟩ := List.mem_map.mp member
  exact each token inside

/-- Numbers with operators between them are always read, and the tree is the only one that says what the
tokens say and groups its operations by precedence and to the left. -/
theorem Parser.chain_grouped_by_precedence {tokens : List Token} (chain : OperatorChain tokens) :
    ∃ e, parseComplete tokens = ⟨.ok e, []⟩ ∧ e.Recites tokens ∧ e.Grouped ∧
      ∀ other : Expr, other.Recites tokens → other.Grouped → other = e := by
  obtain ⟨e, reads⟩ := chain.sentence
  have read := parseComplete_of_reads reads
  have recites := reads.recites fun token member => (chain.kinds token member).2
  have grouped := (reads.grouped fun token member => (chain.kinds token member).1).1
  refine ⟨e, read, recites, grouped, ?_⟩
  intro other otherRecites otherGrouped
  have otherRead := parseComplete_of_reads (otherGrouped.reads otherRecites other.binds_sum)
  rw [read] at otherRead
  cases otherRead
  rfl

/-- Four numbers, with a product between two differences. -/
def differences : List Token :=
  [⟨.number, "8", {}, 1⟩, ⟨.minus, "-", {}, 2⟩, ⟨.number, "2", {}, 3⟩, ⟨.times, "*", {}, 4⟩, ⟨.number, "3", {}, 5⟩,
    ⟨.minus, "-", {}, 6⟩, ⟨.number, "4", {}, 7⟩]

theorem Parser.product_between_differences :
    OperatorChain differences ∧
    parseComplete differences = ⟨.ok (.binary .subtract
      (.binary .subtract (.number "8") (.binary .multiply (.number "2") (.number "3"))) (.number "4")), []⟩ := by
  have chain : OperatorChain differences :=
    .longer rfl (by decide) (.longer rfl (by decide) (.longer rfl (by decide) (.single rfl)))
  refine ⟨chain, ?_⟩
  obtain ⟨e, read, -, -, only⟩ := chain_grouped_by_precedence chain
  have same : Expr.binary .subtract
      (.binary .subtract (.number "8") (.binary .multiply (.number "2") (.number "3"))) (.number "4") = e :=
    only _ rfl (by simp [Expr.Grouped, Expr.Binds, Op.precedence])
  rw [read, same]

end ThreeAddress
