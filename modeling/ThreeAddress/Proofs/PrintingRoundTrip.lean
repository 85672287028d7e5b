import ThreeAddress.Expr.Printer
import ThreeAddress.Proofs.PipelineCorrectness

/-! Printing an expression and compiling the printed text. The text of an expression with plain
numbers is written in the grammar of characters, so reading it gives that expression back. All
expressions that come from a source text have plain numbers. -/

namespace ThreeAddress

/-- Every number of the expression is written with digits alone, and with at least one. -/
def Expr.Plain (e : Expr) : Prop :=
  ∀ text ∈ e.leaves, Word.Numeral text.toList

instance (e : Expr) : Decidable e.Plain :=
  inferInstanceAs (Decidable (∀ text ∈ e.leaves, Word.Numeral text.toList))

theorem Padded.refl (core : List Char) : Padded core core :=
  ⟨[], [], blanks_nil, blanks_nil, by simp⟩

theorem Symbol.written {kind : Kind} {c : Char} (symbol : Symbol kind c) :
    Terminals.characters.symbol kind [c] :=
  ⟨c, symbol, .refl [c]⟩

theorem Op.joins (op : Op) :
    ∃ phrase kind, Joins phrase kind op ∧
      Terminals.characters.symbol kind ([' '] ++ op.symbol.toList ++ [' ']) := by
  have blank : Blanks [' '] := by decide
  cases op with
  | add => exact ⟨_, _, .plus, '+', .plus, [' '], [' '], blank, blank, rfl⟩
  | subtract => exact ⟨_, _, .minus, '-', .minus, [' '], [' '], blank, blank, rfl⟩
  | multiply => exact ⟨_, _, .times, '*', .times, [' '], [' '], blank, blank, rfl⟩
  | divide => exact ⟨_, _, .divide, '/', .divide, [' '], [' '], blank, blank, rfl⟩

private theorem Expr.parenthesized_binary (op : Op) (left right : Expr) :
    (Expr.binary op left right).parenthesized.toList =
      ['('] ++ (left.parenthesized.toList ++ ([' '] ++ op.symbol.toList ++ [' ']) ++
        right.parenthesized.toList) ++ [')'] := by
  simp [parenthesized]

-- A printed operation is a factor whatever its operator, so no precedence has to be compared.
theorem Expr.written_parenthesized {e : Expr} (plain : e.Plain) :
    Written .factor e.parenthesized.toList e := by
  induction e with
  | number text =>
    have numeral : Word.Numeral text.toList := plain text (List.mem_singleton.mpr rfl)
    exact .number ⟨numeral, .refl text.toList⟩ rfl
  | binary op left right first second =>
    have leftWritten := first fun text leaf => plain text (leaves_subset_left op left right leaf)
    have rightWritten := second fun text leaf => plain text (leaves_subset_right op left right leaf)
    obtain ⟨phrase, kind, joins, sign⟩ := op.joins
    have body : Written phrase _ (.binary op left right) :=
      .join (leftWritten.of_factor phrase) joins sign (rightWritten.of_factor phrase.part) rfl
    rw [parenthesized_binary]
    exact .group Symbol.lparen.written body.to_sum Symbol.rparen.written

theorem Expr.tokenize_parenthesized {e : Expr} (plain : e.Plain) :
    ∃ tokens, tokenize e.parenthesized = .ok tokens ∧ Reads .sum tokens e :=
  written_iff_tokenize.mp (written_parenthesized plain).to_sum

private theorem Expr.ofTokens_reads {strict : Bool} {tokens : List Token} {e : Expr}
    (read : Expr.ofTokens strict tokens = .ok e) :
    ∃ taken rest, tokens = taken ++ rest ∧ Reads .sum taken e := by
  unfold Expr.ofTokens at read
  split at read
  · exact ⟨tokens, [], by simp, Parser.parseComplete_ok_iff.mp read⟩
  · cases parsed : Parser.parse tokens with
    | mk result rest =>
      rw [parsed] at read
      obtain ⟨taken, cut, reads, _⟩ := Parser.reads_of_parse (parsed.trans (congrArg (Reading.mk · rest) read))
      exact ⟨taken, rest, cut, reads⟩

theorem Expr.plain_of_tokenize {source : String} {strict : Bool} {tokens : List Token} {e : Expr}
    (scanned : tokenize source = .ok tokens) (read : Expr.ofTokens strict tokens = .ok e) : e.Plain := by
  obtain ⟨place, scans⟩ := Scanner.tokens_eq_ok_iff.mp scanned
  obtain ⟨taken, rest, rfl, reads⟩ := ofTokens_reads read
  intro text leaf
  exact (reads.leaf_is_digitRun scans (List.subset_append_left taken rest) leaf).1

/-- A printed expression with plain numbers reads back as itself. The expression of any
compilation, strict or not, has plain numbers, and its text compiles strictly to the same program. -/
theorem compile_parenthesized :
    (∀ e : Expr, e.Plain →
      ∃ tokens, tokenize e.parenthesized = .ok tokens ∧ Parser.parseComplete tokens = ⟨.ok e, []⟩) ∧
    (∀ source strict tokens e, tokenize source = .ok tokens → Expr.ofTokens strict tokens = .ok e → e.Plain) ∧
    ∀ source strict compilation, compile source none strict = .ok compilation →
      ∃ e program again, compilation.expression = some e ∧ compilation.program = some program ∧
        compile e.parenthesized none true = .ok again ∧
        again.expression = some e ∧ again.program = some program := by
  refine ⟨?_, fun source strict tokens e => Expr.plain_of_tokenize, ?_⟩
  · intro e plain
    obtain ⟨tokens, scanned, reads⟩ := Expr.tokenize_parenthesized plain
    exact ⟨tokens, scanned, Parser.parseComplete_of_reads reads⟩
  · intro source strict compilation compiled
    obtain ⟨tokens, e, scanned, read, rfl⟩ := compile_program_ok_iff.mp compiled
    obtain ⟨printed, rescanned, reads⟩ := Expr.tokenize_parenthesized (Expr.plain_of_tokenize scanned read)
    exact ⟨e, .ofExpr e, _, rfl, rfl, compile_strict_ok_iff.mpr ⟨printed, e, rescanned, reads, rfl⟩, rfl, rfl⟩

theorem difference_reads_back :
    (∃ e : Expr, e = .binary .subtract (.number "8") (.binary .subtract (.number "03") (.number "4")) ∧
      e.Plain ∧
      ∃ tokens, tokenize e.parenthesized = .ok tokens ∧ Parser.parseComplete tokens = ⟨.ok e, []⟩) ∧
    (∃ tokens e, tokenize "8-(03-4) 7" = .ok tokens ∧ Expr.ofTokens false tokens = .ok e ∧ e.Plain) ∧
    ∃ compilation, compile "8-(03-4) 7" none false = .ok compilation ∧
      ∃ e program again, compilation.expression = some e ∧ compilation.program = some program ∧
        compile e.parenthesized none true = .ok again ∧
        again.expression = some e ∧ again.program = some program := by
  obtain ⟨printed, plain, compiled⟩ := compile_parenthesized
  have succeeds : (compile "8-(03-4) 7" none false).isOk = true := by decide +kernel
  cases outcome : compile "8-(03-4) 7" none false with
  | error error => simp [outcome, Except.isOk, Except.toBool] at succeeds
  | ok compilation =>
    obtain ⟨tokens, e, scanned, read, _⟩ := compile_program_ok_iff.mp outcome
    refine ⟨⟨_, rfl, by decide, printed _ (by decide)⟩, ⟨tokens, e, scanned, read, ?_⟩, ?_⟩
    · exact plain _ _ _ _ scanned read
    · exact ⟨compilation, rfl, compiled _ _ _ outcome⟩

end ThreeAddress
