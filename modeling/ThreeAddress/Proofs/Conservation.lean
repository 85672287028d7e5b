import ThreeAddress.Proofs.Layout
import ThreeAddress.Proofs.OperatorPrecedence
import ThreeAddress.Proofs.ParserSessions
import ThreeAddress.Proofs.PipelineCorrectness
import ThreeAddress.Proofs.StackOrder

/-! Nothing is dropped or made up between a source and its program. Reading keeps the order of the
tokens and drops parentheses only, in pairs. Lowering changes the order: an operator moves behind both of
its operands, and a number into the instruction that uses it, or into the result if there is none. What
an instruction uses, and how often, stays what the tokens say. -/

namespace ThreeAddress

def Item.text : Item → String
  | .number text => text
  | .sign op => op.symbol

def Operand.literals : Operand → List String
  | .literal text => [text]
  | .temp _ => []

def Instruction.literals (instruction : Instruction) : List String :=
  instruction.lhs.literals ++ instruction.rhs.literals

/-- The literals of code, one entry for each time a literal is an operand. -/
def allLiterals (code : List Instruction) : List String :=
  code.flatMap Instruction.literals

/-- The literals of all operands of a program, and of its result. -/
def Program.literals (program : Program) : List String :=
  allLiterals program.instructions ++ program.result.literals

/-- What an expression and its program say, compared with what the tokens say. -/
structure Conserves (tokens : List Token) (e : Expr) (program : Program) : Prop where
  inOrder : e.inOrder.map Item.text =
    (tokens.filter fun token => token.kind ∉ [Kind.lparen, .rparen]).map Token.text
  parentheses : (tokens.countP fun token => token.kind = .lparen) = tokens.countP fun token => token.kind = .rparen
  instructions : program.instructions.length =
    tokens.countP fun token => token.kind ∈ [Kind.plus, .minus, .times, .divide]
  operators : (program.instructions.map Instruction.op).Perm (tokens.filterMap fun token => token.kind.op?)
  literals : program.literals.Perm ((tokens.filter fun token => token.kind = .number).map Token.text)

private theorem allLiterals_append (before after : List Instruction) :
    allLiterals (before ++ after) = allLiterals before ++ allLiterals after :=
  List.flatMap_append

/-- Every leaf of an expression is an operand once, or the result if it is the only one. -/
theorem Expr.lower_literals (e : Expr) (temps : TempSupply) :
    (allLiterals (e.lower temps).code ++ (e.lower temps).result.literals).Perm e.leaves := by
  induction e generalizing temps with
  | number text => exact .refl _
  | binary op left right first second =>
    have early := first temps
    have late := second (left.lower temps).temps
    rw [lower_binary_code, lower_binary_result, allLiterals_append, allLiterals_append]
    refine .trans ?_ (early.append late)
    simp only [allLiterals, List.flatMap_singleton, Instruction.literals, Operand.literals, List.append_nil,
      List.append_assoc]
    apply List.Perm.append_left
    exact List.perm_append_comm_assoc ..

/-- The operations of a tree are those that its tokens sign for, each moved behind its right operand. -/
theorem Reads.operators {phrase : Phrase} {tokens : List Token} {e : Expr} (reads : Reads phrase tokens e) :
    (e.nodes.map Node.op).Perm (tokens.filterMap fun token => token.kind.op?) := by
  induction reads using Reads.rules with
  | number token kind => simp [Expr.nodes, kind, Kind.op?]
  | group opening inner closing e opens _ closes body => simpa [opens, closes, Kind.op?] using body
  | factor tokens e _ single => exact single
  | product tokens e _ single => exact single
  | join phrase first sign second op left right _ joins _ before after =>
    have found := Parser.op?_of_joins joins
    simp only [Expr.nodes, List.map_append, List.map_cons, List.map_nil, List.filterMap_append,
      List.filterMap_cons, found]
    apply List.Perm.trans (List.perm_append_singleton _ _)
    apply List.Perm.trans _ List.perm_middle.symm
    exact (before.append after).cons op

private theorem Spells.sign_text {token : Token} {op : Op} (spells : Spells token.kind token.text.toList)
    (found : token.kind.op? = some op) : token.text = op.symbol := by
  apply String.toList_inj.mp
  generalize token.kind = kind at spells found
  generalize token.text.toList = word at spells
  cases spells with
  | symbol symbol => cases symbol <;> cases found <;> rfl
  | number numeral => cases found
  | identifier => cases found

/-- From left to right a tree says what its tokens say, word for word. -/
theorem Reads.texts {phrase : Phrase} {tokens : List Token} {e : Expr} (reads : Reads phrase tokens e)
    (spelled : ∀ token ∈ tokens, Spells token.kind token.text.toList) :
    e.inOrder.map Item.text =
      (tokens.filter fun token => token.kind ∉ [Kind.lparen, .rparen]).map Token.text := by
  induction reads using Reads.rules with
  | number token kind => simp [Expr.inOrder, Item.text, kind]
  | group opening inner closing e opens _ closes body =>
    have inside := body fun token member =>
      spelled token (List.mem_append_left _ (List.mem_cons_of_mem opening member))
    simp [inside, opens, closes]
  | factor tokens e _ single => exact single spelled
  | product tokens e _ single => exact single spelled
  | join phrase first sign second op left right _ joins _ before after =>
    have found := Parser.op?_of_joins joins
    have leftTexts := before fun token member => spelled token (List.mem_append_left _ member)
    have rightTexts := after fun token member =>
      spelled token (List.mem_append_right _ (List.mem_cons_of_mem sign member))
    have text := (spelled sign (List.mem_append_right _ List.mem_cons_self)).sign_text found
    have other : sign.kind ∉ [Kind.lparen, .rparen] := by
      intro parenthesis
      cases kind : sign.kind <;> simp_all [Kind.op?]
    simp only [Expr.inOrder, List.map_append, List.map_cons, List.filter_append, List.filter_cons, other,
      leftTexts, rightTexts, Item.text, text, not_false_eq_true, decide_true, if_true]

private theorem countP_signs (tokens : List Token) :
    (tokens.countP fun token => token.kind ∈ [Kind.plus, .minus, .times, .divide]) =
      (tokens.filterMap fun token => token.kind.op?).length := by
  rw [List.length_filterMap_eq_countP]
  apply List.countP_congr
  intro token _
  cases token.kind <;> decide

theorem Reads.conserves {tokens : List Token} {e : Expr} (reads : Reads .sum tokens e)
    (spelled : ∀ token ∈ tokens, Spells token.kind token.text.toList) : Conserves tokens e (.ofExpr e) := by
  have operators : ((e.lower {}).code.map Instruction.op).Perm (tokens.filterMap fun token => token.kind.op?) := by
    rw [Expr.lower_ops]
    exact reads.operators
  refine ⟨reads.texts spelled, Parser.count_of_reads reads, ?_, operators, ?_⟩
  · have length := operators.length_eq
    rwa [List.length_map, ← countP_signs] at length
  · rw [← leaves_of_reads reads]
    exact e.lower_literals {}

/-- A source that compiles is conserved by its expression and its program: in strict mode all of its
tokens, in lenient mode those that the parser has taken. -/
theorem compile_conserves {source : String} {strict : Bool} {made : Compilation}
    (compiled : compile source none strict = .ok made) :
    ∃ e program taken rest, made.expression = some e ∧ made.program = some program ∧
      tokenize source = .ok made.tokens ∧ made.tokens = taken ++ rest ∧
      Parser.parse made.tokens = ⟨.ok e, rest⟩ ∧ (strict = true → taken = made.tokens) ∧
      Conserves taken e program := by
  obtain ⟨tokens, e, scanned, parsed, rfl⟩ := compile_program_ok_iff.mp compiled
  obtain ⟨place, scans⟩ := Scanner.tokens_eq_ok_iff.mp scanned
  rw [Expr.ofTokens_eq_reading] at parsed
  cases outcome : Parser.reading strict tokens with
  | mk result rest =>
    rw [outcome] at parsed
    change result = .ok e at parsed
    subst parsed
    obtain ⟨read, complete⟩ := Parser.parse_of_reading_ok outcome
    obtain ⟨taken, rfl, reads, _⟩ := Parser.reads_of_parse read
    have spelled : ∀ token ∈ taken, Spells token.kind token.text.toList := fun token member =>
      scans.spelled token (List.mem_append_left rest member)
    refine ⟨e, .ofExpr e, taken, rest, rfl, rfl, scanned, rfl, read, ?_, reads.conserves spelled⟩
    intro isStrict
    rw [complete isStrict, List.append_nil]

/-- A number in two pairs of parentheses becomes the result itself; a product is conserved without the
word behind it, which a lenient reading leaves. -/
theorem result_and_front_are_conserved :
    (∃ made, compile "((5))" none true = .ok made ∧
      Conserves made.tokens (.number "5") ⟨[], .literal "5"⟩) ∧
    ∃ made, compile "2*(07-1) id" none false = .ok made ∧
      ((made.tokens.drop 7).map Token.text) = ["id"] ∧
      Conserves (made.tokens.take 7)
        (.binary .multiply (.number "2") (.binary .subtract (.number "07") (.number "1")))
        ⟨[⟨"temp1", .subtract, .literal "07", .literal "1"⟩, ⟨"temp2", .multiply, .literal "2", .temp "temp1"⟩],
          .temp "temp2"⟩ := by
  constructor
  · have compiled : compile "((5))" none true = .ok
        ⟨[⟨.lparen, "(", ⟨0, 1, 1⟩, 1⟩, ⟨.lparen, "(", ⟨1, 1, 2⟩, 2⟩, ⟨.number, "5", ⟨2, 1, 3⟩, 3⟩,
          ⟨.rparen, ")", ⟨3, 1, 4⟩, 4⟩, ⟨.rparen, ")", ⟨4, 1, 5⟩, 5⟩],
          some (.number "5"), some ⟨[], .literal "5"⟩⟩ := by
      with_unfolding_all rfl
    obtain ⟨e, program, taken, rest, first, second, _, _, _, whole, conserves⟩ := compile_conserves compiled
    cases first
    cases second
    rw [whole rfl] at conserves
    exact ⟨_, compiled, conserves⟩
  · have compiled : compile "2*(07-1) id" none false = .ok
        ⟨[⟨.number, "2", ⟨0, 1, 1⟩, 1⟩, ⟨.times, "*", ⟨1, 1, 2⟩, 2⟩, ⟨.lparen, "(", ⟨2, 1, 3⟩, 3⟩,
          ⟨.number, "07", ⟨3, 1, 4⟩, 5⟩, ⟨.minus, "-", ⟨5, 1, 6⟩, 6⟩, ⟨.number, "1", ⟨6, 1, 7⟩, 7⟩,
          ⟨.rparen, ")", ⟨7, 1, 8⟩, 8⟩, ⟨.identifier, "id", ⟨9, 1, 10⟩, 11⟩],
          some (.binary .multiply (.number "2") (.binary .subtract (.number "07") (.number "1"))),
          some ⟨[⟨"temp1", .subtract, .literal "07", .literal "1"⟩,
            ⟨"temp2", .multiply, .literal "2", .temp "temp1"⟩], .temp "temp2"⟩⟩ := by
      with_unfolding_all rfl
    obtain ⟨e, program, taken, rest, first, second, _, split, read, _, conserves⟩ := compile_conserves compiled
    cases first
    cases second
    have left : rest = [⟨.identifier, "id", ⟨9, 1, 10⟩, 11⟩] := (congrArg Reading.rest read).symm
    subst left
    obtain rfl := List.append_cancel_right (show [_, _, _, _, _, _, _] ++ [_] = taken ++ [_] from split)
    exact ⟨_, compiled, rfl, conserves⟩

end ThreeAddress
