import ThreeAddress.Expr.Parser

/-! The grammar of expressions. A sum is products joined by plus and minus signs, a
product is factors joined by times and division signs, and a factor is a number or a
sum in parentheses. The rules are given once, for any way to write the terminals and
for anything that is computed along a derivation. -/

namespace ThreeAddress

inductive Phrase where
  | sum
  | product
  | factor
  deriving DecidableEq

def Phrase.part : Phrase → Phrase
  | .sum => .product
  | .product | .factor => .factor

/-- The signs that join the parts of a phrase. -/
inductive Joins : Phrase → Kind → Op → Prop where
  | plus : Joins .sum .plus .add
  | minus : Joins .sum .minus .subtract
  | times : Joins .product .times .multiply
  | divide : Joins .product .divide .divide

structure Terminals (σ : Type) where
  numeral : List σ → String → Prop
  symbol : Kind → List σ → Prop

structure Attribute (α : Type) where
  literal : String → α → Prop
  operation : Op → α → α → α → Prop

/-- What a phrase derives. A phrase with several parts is folded from the left, and
parentheses leave no trace in the attribute. -/
inductive Derives {σ α : Type} (terminals : Terminals σ) (meaning : Attribute α) :
    Phrase → List σ → α → Prop where
  | number {word text value} (written : terminals.numeral word text)
      (literal : meaning.literal text value) :
      Derives terminals meaning .factor word value
  | group {opening inner closing value} (opens : terminals.symbol .lparen opening)
      (body : Derives terminals meaning .sum inner value)
      (closes : terminals.symbol .rparen closing) :
      Derives terminals meaning .factor (opening ++ inner ++ closing) value
  | factor {word value} (single : Derives terminals meaning .factor word value) :
      Derives terminals meaning .product word value
  | product {word value} (single : Derives terminals meaning .product word value) :
      Derives terminals meaning .sum word value
  | join {phrase first sign second kind op a b value}
      (left : Derives terminals meaning phrase first a)
      (joins : Joins phrase kind op) (written : terminals.symbol kind sign)
      (right : Derives terminals meaning phrase.part second b)
      (operation : meaning.operation op a b value) :
      Derives terminals meaning phrase (first ++ sign ++ second) value

theorem Derives.of_factor {σ α : Type} {terminals : Terminals σ} {meaning : Attribute α} {word : List σ}
    {value : α} (single : Derives terminals meaning .factor word value) (phrase : Phrase) :
    Derives terminals meaning phrase word value := by
  cases phrase with
  | sum => exact .product (.factor single)
  | product => exact .factor single
  | factor => exact single

theorem Derives.to_sum {σ α : Type} {terminals : Terminals σ} {meaning : Attribute α} {phrase : Phrase}
    {word : List σ} {value : α} (derives : Derives terminals meaning phrase word value) :
    Derives terminals meaning .sum word value := by
  cases phrase with
  | sum => exact derives
  | product => exact .product derives
  | factor => exact .product (.factor derives)

def Terminals.tokens : Terminals Token where
  numeral word text := ∃ token, word = [token] ∧ token.kind = .number ∧ token.text = text
  symbol kind word := ∃ token, word = [token] ∧ token.kind = kind

/-- The tree of a phrase. Its leaves keep the texts of the numbers. -/
def Attribute.tree : Attribute Expr where
  literal text e := e = .number text
  operation op left right e := e = .binary op left right

def Attribute.Of {α : Type} (meaning : Attribute α) : Expr → α → Prop
  | .number text, value => meaning.literal text value
  | .binary op left right, value =>
    ∃ a b, meaning.Of left a ∧ meaning.Of right b ∧ meaning.operation op a b value

/-- Every attribute can be computed on the tree, after the derivation. -/
theorem derives_iff_tree {σ α : Type} {terminals : Terminals σ} {meaning : Attribute α}
    {phrase : Phrase} {word : List σ} {value : α} :
    Derives terminals meaning phrase word value ↔
      ∃ e, Derives terminals .tree phrase word e ∧ meaning.Of e value := by
  constructor
  · intro derives
    induction derives with
    | number written known => exact ⟨_, .number written rfl, known⟩
    | group opens body closes ih =>
      obtain ⟨e, tree, value⟩ := ih
      exact ⟨e, .group opens tree closes, value⟩
    | factor single ih =>
      obtain ⟨e, tree, value⟩ := ih
      exact ⟨e, .factor tree, value⟩
    | product single ih =>
      obtain ⟨e, tree, value⟩ := ih
      exact ⟨e, .product tree, value⟩
    | join left joins written right known before after =>
      obtain ⟨first, leftTree, a⟩ := before
      obtain ⟨second, rightTree, b⟩ := after
      exact ⟨_, .join leftTree joins written rightTree rfl, _, _, a, b, known⟩
  · rintro ⟨e, tree, of⟩
    induction tree generalizing value with
    | number written literal =>
      cases literal
      exact .number written of
    | group opens body closes ih => exact .group opens (ih of) closes
    | factor single ih => exact .factor (ih of)
    | product single ih => exact .product (ih of)
    | join left joins written right operation before after =>
      cases operation
      obtain ⟨a, b, first, second, known⟩ := of
      exact .join (before first) joins written (after second) known

/-- Tokens that read as a phrase, and the tree they stand for. -/
abbrev Reads : Phrase → List Token → Expr → Prop := Derives .tokens .tree

def Sentence (tokens : List Token) : Prop := ∃ e, Reads .sum tokens e

theorem Reads.number {token : Token} (kind : token.kind = .number) :
    Reads .factor [token] (.number token.text) :=
  Derives.number ⟨token, rfl, kind, rfl⟩ rfl

theorem Reads.group {opening closing : Token} {inner : List Token} {e : Expr}
    (opens : opening.kind = .lparen) (body : Reads .sum inner e) (closes : closing.kind = .rparen) :
    Reads .factor (opening :: inner ++ [closing]) e := by
  have grouped : Reads .factor ([opening] ++ inner ++ [closing]) e :=
    Derives.group ⟨opening, rfl, opens⟩ body ⟨closing, rfl, closes⟩
  exact grouped

theorem Reads.join {phrase : Phrase} {first second : List Token} {sign : Token} {op : Op}
    {left right : Expr} (before : Reads phrase first left) (joins : Joins phrase sign.kind op)
    (after : Reads phrase.part second right) :
    Reads phrase (first ++ sign :: second) (.binary op left right) := by
  have joined : Reads phrase (first ++ [sign] ++ second) (.binary op left right) :=
    Derives.join before joins ⟨sign, rfl, rfl⟩ after rfl
  rwa [List.append_assoc] at joined

@[elab_as_elim]
theorem Reads.rules {motive : ∀ phrase tokens e, Reads phrase tokens e → Prop}
    (number : ∀ token (kind : token.kind = .number),
      motive .factor [token] (.number token.text) (.number kind))
    (group : ∀ opening inner closing e (opens : opening.kind = .lparen) (body : Reads .sum inner e)
      (closes : closing.kind = .rparen), motive .sum inner e body →
      motive .factor (opening :: inner ++ [closing]) e (.group opens body closes))
    (factor : ∀ tokens e (single : Reads .factor tokens e), motive .factor tokens e single →
      motive .product tokens e (.factor single))
    (product : ∀ tokens e (single : Reads .product tokens e), motive .product tokens e single →
      motive .sum tokens e (.product single))
    (join : ∀ phrase first sign second op left right (before : Reads phrase first left)
      (joins : Joins phrase sign.kind op) (after : Reads phrase.part second right),
      motive phrase first left before → motive phrase.part second right after →
      motive phrase (first ++ sign :: second) (.binary op left right) (.join before joins after))
    {phrase : Phrase} {tokens : List Token} {e : Expr} (reads : Reads phrase tokens e) :
    motive phrase tokens e reads := by
  induction reads with
  | number written literal =>
    obtain ⟨token, rfl, kind, rfl⟩ := written
    cases literal
    exact number token kind
  | group opens body closes ih =>
    obtain ⟨opening, rfl, opens⟩ := opens
    obtain ⟨closing, rfl, closes⟩ := closes
    exact group opening _ closing _ opens body closes ih
  | factor single ih => exact factor _ _ single ih
  | product single ih => exact product _ _ single ih
  | join left joins written right operation first second =>
    obtain ⟨sign, rfl, rfl⟩ := written
    cases operation
    have joined := join _ _ sign _ _ _ _ left joins right first second
    simpa only [List.append_assoc, List.singleton_append] using joined

end ThreeAddress
