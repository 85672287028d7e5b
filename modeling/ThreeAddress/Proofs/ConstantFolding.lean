import ThreeAddress.Proofs.LoweringCorrectness

/-! Folding a part of an expression into the number that is its value. The part is picked by the way
that leads to it from the root, so one occurrence is folded and equal parts elsewhere stay. The code
gets shorter and its temporaries are numbered anew, but whether it has a value, and which, does not
change. -/

namespace ThreeAddress

/-- One step down a tree. -/
inductive Side where
  | left
  | right
  deriving DecidableEq, Repr

/-- The part of an expression at the end of a way from its root. -/
def Expr.at? : Expr → List Side → Option Expr
  | e, [] => some e
  | .number _, _ :: _ => none
  | .binary _ left _, .left :: way => left.at? way
  | .binary _ _ right, .right :: way => right.at? way

/-- The expression with `part` at the end of a way. A way that leaves the tree changes nothing. -/
def Expr.replaceAt : Expr → List Side → Expr → Expr
  | _, [], part => part
  | .number text, _ :: _, _ => .number text
  | .binary op left right, .left :: way, part => .binary op (left.replaceAt way part) right
  | .binary op left right, .right :: way, part => .binary op left (right.replaceAt way part)

/-- Two expressions have the same value, or neither has one. -/
def Expr.SameValue (first second : Expr) : Prop :=
  ∀ value, first.Evaluates value ↔ second.Evaluates value

theorem Expr.SameValue.refl (e : Expr) : e.SameValue e := fun _ => .rfl

theorem Expr.SameValue.symm {first second : Expr} (same : first.SameValue second) : second.SameValue first :=
  fun value => (same value).symm

private theorem Expr.SameValue.evaluates_binary {op : Op} {left right otherLeft otherRight : Expr} {value : Int}
    (sameLeft : left.SameValue otherLeft) (sameRight : right.SameValue otherRight)
    (evaluates : (Expr.binary op left right).Evaluates value) :
    (Expr.binary op otherLeft otherRight).Evaluates value := by
  cases evaluates with
  | @binary _ _ _ a b first second nonzero fits =>
    exact .binary ((sameLeft a).mp first) ((sameRight b).mp second) nonzero fits

/-- An operation depends on the values of its operands alone. -/
theorem Expr.SameValue.binary (op : Op) {left right otherLeft otherRight : Expr}
    (sameLeft : left.SameValue otherLeft) (sameRight : right.SameValue otherRight) :
    (Expr.binary op left right).SameValue (.binary op otherLeft otherRight) := by
  intro value
  exact ⟨evaluates_binary sameLeft sameRight, evaluates_binary sameLeft.symm sameRight.symm⟩

/-- So does every expression around a part, step by step from the part up to the root. -/
theorem Expr.SameValue.replaceAt {e part other : Expr} {way : List Side} (found : e.at? way = some part)
    (same : part.SameValue other) : e.SameValue (e.replaceAt way other) := by
  induction e, way using Expr.at?.induct with
  | case1 e =>
    rw [Expr.at?] at found
    cases found
    rwa [Expr.replaceAt]
  | case2 text side way => cases found
  | case3 op left right way ih => exact .binary op (ih found) (.refl right)
  | case4 op left right way ih => exact .binary op (.refl left) (ih found)

theorem Expr.evaluates_unique {e : Expr} {value other : Int} (first : e.Evaluates value)
    (second : e.Evaluates other) : value = other := by
  have computed := Expr.meaning_eq_ok_iff.mpr first
  rw [Expr.meaning_eq_ok_iff.mpr second] at computed
  exact (Except.ok.inj computed).symm

/-- An expression has the same value as the decimal text of its value. -/
theorem Expr.Evaluates.sameValue {e : Expr} {word : Int} (evaluates : e.Evaluates word) :
    e.SameValue (.number word.repr) := by
  have written : (Expr.number word.repr).Evaluates word :=
    Expr.evaluates_number.mpr (Word.ofLiteral?_repr evaluates.fits)
  intro value
  constructor
  · intro computed
    rwa [evaluates_unique computed evaluates]
  · intro computed
    rwa [evaluates_unique computed written]

theorem Program.eval_eq_ok_iff {e : Expr} {value : Int} :
    (Program.ofExpr e).eval = .ok value ↔ e.Evaluates value := by
  rw [Program.eval_eq_meaning, Expr.meaning_eq_ok_iff]

/-- Folding one part of an expression, anywhere in it, into the decimal text of the part's value keeps
the value of the whole. -/
theorem Program.eval_folded {e part : Expr} {way : List Side} (found : e.at? way = some part) {word : Int}
    (known : (Program.ofExpr part).eval = .ok word) (value : Int) :
    (Program.ofExpr e).eval = .ok value ↔
      (Program.ofExpr (e.replaceAt way (.number word.repr))).eval = .ok value := by
  have evaluates : part.Evaluates word := Program.eval_eq_ok_iff.mp known
  rw [Program.eval_eq_ok_iff, Program.eval_eq_ok_iff]
  exact evaluates.sameValue.replaceAt found value

/-- The least word without a sign, which no single numeral denotes. -/
def leastWord : Expr :=
  .binary .subtract (.binary .subtract (.number "0") (.number "9223372036854775807")) (.number "1")

theorem least_word_is_folded :
    (Expr.binary .add (.number "1") (.binary .divide leastWord (.number "+2"))).at? [.right, .left] =
      some leastWord ∧
    (Program.ofExpr leastWord).eval = .ok (-9223372036854775808) ∧
    (Program.ofExpr (.binary .add (.number "1")
      (.binary .divide (.number "-9223372036854775808") (.number "+2")))).eval = .ok (-4611686018427387903) := by
  have found : (Expr.binary .add (.number "1") (.binary .divide leastWord (.number "+2"))).at? [.right, .left] =
      some leastWord := rfl
  have known : (Program.ofExpr leastWord).eval = .ok (-9223372036854775808) := rfl
  have whole : (Program.ofExpr (.binary .add (.number "1") (.binary .divide leastWord (.number "+2")))).eval =
      .ok (-4611686018427387903) := rfl
  exact ⟨found, known, (Program.eval_folded found known _).mp whole⟩

end ThreeAddress
