import ThreeAddress.Program.Eval
import ThreeAddress.Program.Lower
import ThreeAddress.Proofs.Literals
import ThreeAddress.Proofs.Outcomes

/-! What an expression means, read off its tree without any code. The operations
of a tree stand in post-order and are numbered from one. They are done in that
order over the integers, and the first that cannot be done decides the error.
`Means` says this as a relation, `meaning` computes it. -/

namespace ThreeAddress

/-- The result of an operation over the integers. A quotient is rounded toward zero. -/
def Op.exact : Op → Int → Int → Int
  | .add, a, b => a + b
  | .subtract, a, b => a - b
  | .multiply, a, b => a * b
  | .divide, a, b => a.tdiv b

structure Node where
  op : Op
  left : Expr
  right : Expr

def Expr.nodes : Expr → List Node
  | .number _ => []
  | .binary op left right => left.nodes ++ right.nodes ++ [⟨op, left, right⟩]

/-- The value of a tree in which every literal denotes a word and every operation can
be done. -/
inductive Expr.Evaluates : Expr → Int → Prop where
  | number {text : String} {value : Int} (signed : Word.Signed text.toList value) (fits : Word.Fits value) :
      Evaluates (.number text) value
  | binary {op : Op} {left right : Expr} {a b : Int} (first : Evaluates left a) (second : Evaluates right b)
      (nonzero : ¬ (op = .divide ∧ b = 0)) (fits : Word.Fits (op.exact a b)) :
      Evaluates (.binary op left right) (op.exact a b)

def Node.Possible (node : Node) : Prop :=
  ∃ value, (Expr.binary node.op node.left node.right).Evaluates value

/-- Why an operation cannot be done, when all before it could. Its left operand is read
first, then its right one, then the divisor and the size of the result are looked at. -/
inductive Node.Fails (index : Nat) (node : Node) : EvalError → Prop where
  | left {text : String} (leaf : node.left = .number text) (invalid : ∀ value, ¬ node.left.Evaluates value) :
      Fails index node (.invalidLiteral text)
  | right {text : String} {a : Int} (first : node.left.Evaluates a) (leaf : node.right = .number text)
      (invalid : ∀ value, ¬ node.right.Evaluates value) : Fails index node (.invalidLiteral text)
  | divisor {a : Int} (first : node.left.Evaluates a) (second : node.right.Evaluates 0)
      (division : node.op = .divide) : Fails index node (.divisionByZero ("temp" ++ index.repr))
  | size {a b : Int} (first : node.left.Evaluates a) (second : node.right.Evaluates b)
      (nonzero : ¬ (node.op = .divide ∧ b = 0)) (wide : ¬ Word.Fits (node.op.exact a b)) :
      Fails index node (.overflow ("temp" ++ index.repr))

/-- What becomes of a tree: its value, or the error of the first operation that cannot
be done. A tree without operations is a literal. -/
inductive Expr.Means (e : Expr) : Except EvalError Int → Prop where
  | value {value : Int} (evaluates : e.Evaluates value) : Means e (.ok value)
  | operation {before after : List Node} {node : Node} {error : EvalError}
      (order : e.nodes = before ++ node :: after) (possible : ∀ earlier ∈ before, earlier.Possible)
      (fails : node.Fails (before.length + 1) error) : Means e (.error error)
  | literal {text : String} (leaf : e = .number text) (invalid : ∀ value, ¬ e.Evaluates value) :
      Means e (.error (.invalidLiteral text))

/-- The integer that a tree stands for. Only a literal can fail here: nothing is
said about the size of results or about zero divisors. -/
def Expr.exact : Expr → Except EvalError Int
  | .number text =>
    match Word.ofLiteral? text with
    | some value => .ok value
    | none => .error (.invalidLiteral text)
  | .binary op left right => do
    let a ← left.exact
    let b ← right.exact
    .ok (op.exact a b)

/-- Whether the operation with this number can be done. -/
def Node.check (index : Nat) (node : Node) : Except EvalError Unit := do
  let a ← node.left.exact
  let b ← node.right.exact
  if node.op = .divide ∧ b = 0 then .error (.divisionByZero (tempName index))
  else if Word.Fits (node.op.exact a b) then .ok ()
  else .error (.overflow (tempName index))

def Expr.checks (issued : Nat) (e : Expr) : Except EvalError Unit :=
  (e.nodes.zipIdx (issued + 1)).forM fun (node, index) => node.check index

def Expr.meaning (e : Expr) : Except EvalError Int := do
  e.checks 0
  e.exact

theorem Expr.nodes_length (e : Expr) : e.nodes.length = e.operators := by
  induction e with
  | number text => rfl
  | binary op left right first second => simp [nodes, operators, first, second, Nat.add_assoc]

theorem Expr.checks_binary (issued : Nat) (op : Op) (left right : Expr) :
    (Expr.binary op left right).checks issued = (do
      left.checks issued
      right.checks (issued + left.operators)
      Node.check (issued + left.operators + right.operators + 1) ⟨op, left, right⟩) := by
  have middle : issued + 1 + left.operators = issued + left.operators + 1 := by omega
  have last : issued + 1 + (left.operators + right.operators) =
      issued + left.operators + right.operators + 1 := by omega
  simp only [checks, nodes, List.zipIdx_append, List.length_append, nodes_length, middle, last,
    List.forM_eq_forM, List.forM_append, List.zipIdx_cons, List.zipIdx_nil, List.forM_cons,
    List.forM_nil, bind_assoc, bind_pure_unit]

theorem Node.check_eq_ok_iff {index : Nat} {node : Node} :
    node.check index = .ok () ↔ ∃ a b, node.left.exact = .ok a ∧ node.right.exact = .ok b ∧
      ¬ (node.op = .divide ∧ b = 0) ∧ Word.Fits (node.op.exact a b) := by
  constructor
  · intro possible
    obtain ⟨a, first, possible⟩ := bind_eq_ok.mp possible
    obtain ⟨b, second, possible⟩ := bind_eq_ok.mp possible
    refine ⟨a, b, first, second, ?_⟩
    split at possible
    · cases possible
    next nonzero =>
      split at possible
      next fits => exact ⟨nonzero, fits⟩
      next => cases possible
  · rintro ⟨a, b, first, second, nonzero, fits⟩
    simp only [check, first, second, ok_bind, if_neg nonzero, if_pos fits]

theorem Expr.exact_binary {op : Op} {left right : Expr} {a b : Int} (first : left.exact = .ok a)
    (second : right.exact = .ok b) : (Expr.binary op left right).exact = .ok (op.exact a b) := by
  simp only [exact, first, second, ok_bind]

theorem Expr.evaluates_number {text : String} {value : Int} :
    (Expr.number text).Evaluates value ↔ Word.ofLiteral? text = some value := by
  rw [Word.ofLiteral?_eq_some_iff]
  constructor
  · intro evaluates
    cases evaluates with
    | number signed fits => exact ⟨signed, fits⟩
  · intro ⟨signed, fits⟩
    exact .number signed fits

private theorem Expr.exact_number {text : String} {value : Int} :
    (Expr.number text).exact = .ok value ↔ (Expr.number text).Evaluates value := by
  rw [evaluates_number, exact]
  cases Word.ofLiteral? text <;> simp

private theorem Expr.refused_of_invalid {text : String} (invalid : ∀ value, ¬ (Expr.number text).Evaluates value) :
    Word.ofLiteral? text = none := by
  cases read : Word.ofLiteral? text with
  | some value => exact absurd (evaluates_number.mpr read) (invalid value)
  | none => rfl

private theorem Expr.exact_of_invalid {text : String} (invalid : ∀ value, ¬ (Expr.number text).Evaluates value) :
    (Expr.number text).exact = .error (.invalidLiteral text) := by
  rw [exact, refused_of_invalid invalid]

theorem Expr.evaluates_iff {e : Expr} {value : Int} (issued : Nat) :
    e.Evaluates value ↔ e.checks issued = .ok () ∧ e.exact = .ok value := by
  constructor
  · intro evaluates
    induction evaluates generalizing issued with
    | number signed fits => exact ⟨rfl, exact_number.mpr (.number signed fits)⟩
    | @binary op left right a b _ _ nonzero fits before after =>
      have first := before issued
      have second := after (issued + left.operators)
      refine ⟨?_, exact_binary first.2 second.2⟩
      rw [checks_binary, first.1, ok_bind, second.1, ok_bind]
      exact Node.check_eq_ok_iff.mpr ⟨a, b, first.2, second.2, nonzero, fits⟩
  · rintro ⟨possible, exact⟩
    induction e generalizing issued value with
    | number text => exact exact_number.mp exact
    | binary op left right before after =>
      rw [checks_binary] at possible
      obtain ⟨_, leftPossible, possible⟩ := bind_eq_ok.mp possible
      obtain ⟨_, rightPossible, possible⟩ := bind_eq_ok.mp possible
      obtain ⟨a, b, first, second, nonzero, fits⟩ := Node.check_eq_ok_iff.mp possible
      cases exact.symm.trans (exact_binary first second)
      exact .binary (before issued leftPossible first) (after _ rightPossible second) nonzero fits

theorem Expr.meaning_eq_ok_iff {e : Expr} {value : Int} : e.meaning = .ok value ↔ e.Evaluates value := by
  rw [evaluates_iff 0]
  constructor
  · intro computed
    obtain ⟨_, possible, exact⟩ := bind_eq_ok.mp computed
    exact ⟨possible, exact⟩
  · rintro ⟨possible, exact⟩
    simp only [meaning, possible, ok_bind, exact]

theorem Expr.Evaluates.fits {e : Expr} {value : Int} (evaluates : e.Evaluates value) : Word.Fits value := by
  cases evaluates with
  | number _ fits => exact fits
  | binary _ _ _ fits => exact fits

theorem Expr.exact_of_evaluates {e : Expr} {value : Int} (evaluates : e.Evaluates value) : e.exact = .ok value :=
  ((evaluates_iff 0).mp evaluates).2

private theorem Node.Possible.check_eq {node : Node} (possible : node.Possible) (index : Nat) :
    node.check index = .ok () := by
  obtain ⟨value, evaluates⟩ := possible
  cases evaluates with
  | binary first second nonzero fits =>
    have left := Expr.exact_of_evaluates first
    have right := Expr.exact_of_evaluates second
    exact check_eq_ok_iff.mpr ⟨_, _, left, right, nonzero, fits⟩

private theorem Node.Fails.check_eq {node : Node} {index : Nat} {error : EvalError} (fails : node.Fails index error) :
    node.check index = .error error := by
  cases fails with
  | left leaf invalid =>
    rw [leaf] at invalid
    rw [check, leaf, Expr.exact_of_invalid invalid, error_bind]
  | right first leaf invalid =>
    rw [leaf] at invalid
    rw [check, Expr.exact_of_evaluates first, ok_bind, leaf, Expr.exact_of_invalid invalid, error_bind]
  | divisor first second division =>
    rw [check, Expr.exact_of_evaluates first, ok_bind, Expr.exact_of_evaluates second, ok_bind,
      if_pos ⟨division, rfl⟩]
    rfl
  | size first second nonzero wide =>
    rw [check, Expr.exact_of_evaluates first, ok_bind, Expr.exact_of_evaluates second, ok_bind,
      if_neg nonzero, if_neg wide]
    rfl

private theorem Node.check_fails {before after : List Node} {node : Node} {error : EvalError} (start : Nat)
    (possible : ∀ earlier ∈ before, earlier.Possible) (fails : node.Fails (start + before.length) error) :
    ((before ++ node :: after).zipIdx start).forM (fun (node, index) => node.check index) = .error error := by
  induction before generalizing start with
  | nil =>
    have failed : node.check start = .error error := fails.check_eq
    rw [List.nil_append, List.zipIdx_cons, List.forM_eq_forM, List.forM_cons]
    simp only [failed, error_bind]
  | cons earlier before ih =>
    have first := (possible earlier List.mem_cons_self).check_eq start
    have rest := ih (start + 1) (fun node member => possible node (List.mem_cons_of_mem earlier member))
      (by rwa [Nat.add_assoc, Nat.add_comm 1])
    rw [List.cons_append, List.zipIdx_cons, List.forM_eq_forM, List.forM_cons]
    simp only [first, ok_bind]
    exact rest

theorem Expr.possible_of_checks {e : Expr} {issued : Nat} (checked : e.checks issued = .ok ()) :
    ∀ node ∈ e.nodes, node.Possible := by
  induction e generalizing issued with
  | number text => exact nofun
  | binary op left right first second =>
    have whole := checked
    rw [checks_binary] at checked
    obtain ⟨_, leftChecked, checked⟩ := bind_eq_ok.mp checked
    obtain ⟨_, rightChecked, checked⟩ := bind_eq_ok.mp checked
    obtain ⟨a, b, leftValue, rightValue, _⟩ := Node.check_eq_ok_iff.mp checked
    intro node member
    rcases List.mem_append.mp member with member | member
    · rcases List.mem_append.mp member with member | member
      · exact first leftChecked node member
      · exact second rightChecked node member
    · rw [List.mem_singleton.mp member]
      exact ⟨_, (evaluates_iff issued).mpr ⟨whole, exact_binary leftValue rightValue⟩⟩

/-- Past its operations, only a tree that is a literal can fail. -/
private theorem Expr.invalid_of_checks {e : Expr} {issued : Nat} {error : EvalError}
    (checked : e.checks issued = .ok ()) (failed : e.exact = .error error) :
    ∃ text, e = .number text ∧ error = .invalidLiteral text ∧ ∀ value, ¬ e.Evaluates value := by
  have invalid : ∀ value, ¬ e.Evaluates value := by
    intro value evaluates
    cases (exact_of_evaluates evaluates).symm.trans failed
  cases e with
  | number text =>
    cases (exact_of_invalid invalid).symm.trans failed
    exact ⟨text, rfl, rfl, invalid⟩
  | binary op left right =>
    obtain ⟨value, evaluates⟩ := possible_of_checks checked ⟨op, left, right⟩ (by simp [nodes])
    exact absurd evaluates (invalid value)

private theorem Node.fails_of_check {index issued later : Nat} {op : Op} {left right : Expr} {error : EvalError}
    (first : left.checks issued = .ok ()) (second : right.checks later = .ok ())
    (failed : Node.check index ⟨op, left, right⟩ = .error error) : Node.Fails index ⟨op, left, right⟩ error := by
  rcases bind_eq_error.mp failed with failed | ⟨a, leftValue, failed⟩
  · obtain ⟨text, leaf, rfl, invalid⟩ := Expr.invalid_of_checks first failed
    exact .left leaf invalid
  · have leftEvaluates := (Expr.evaluates_iff issued).mpr ⟨first, leftValue⟩
    rcases bind_eq_error.mp failed with failed | ⟨b, rightValue, failed⟩
    · obtain ⟨text, leaf, rfl, invalid⟩ := Expr.invalid_of_checks second failed
      exact .right leftEvaluates leaf invalid
    · have rightEvaluates := (Expr.evaluates_iff later).mpr ⟨second, rightValue⟩
      split at failed
      next zero =>
        cases failed
        exact .divisor leftEvaluates (zero.2 ▸ rightEvaluates) zero.1
      next nonzero =>
        split at failed
        · cases failed
        next wide =>
          cases failed
          exact .size leftEvaluates rightEvaluates nonzero wide

theorem Expr.fails_of_checks {e : Expr} {issued : Nat} {error : EvalError} (failed : e.checks issued = .error error) :
    ∃ before node after, e.nodes = before ++ node :: after ∧ (∀ earlier ∈ before, earlier.Possible) ∧
      node.Fails (issued + before.length + 1) error := by
  induction e generalizing issued with
  | number text => cases failed
  | binary op left right first second =>
    rw [checks_binary] at failed
    rcases bind_eq_error.mp failed with failed | ⟨_, leftChecked, failed⟩
    · obtain ⟨before, node, after, order, possible, fails⟩ := first failed
      refine ⟨before, node, after ++ right.nodes ++ [⟨op, left, right⟩], ?_, possible, fails⟩
      simp [nodes, order]
    · rcases bind_eq_error.mp failed with failed | ⟨_, rightChecked, failed⟩
      · obtain ⟨before, node, after, order, possible, fails⟩ := second failed
        refine ⟨left.nodes ++ before, node, after ++ [⟨op, left, right⟩], ?_, ?_, ?_⟩
        · simp [nodes, order]
        · intro earlier member
          rcases List.mem_append.mp member with member | member
          · exact possible_of_checks leftChecked earlier member
          · exact possible earlier member
        · rwa [List.length_append, nodes_length, ← Nat.add_assoc]
      · refine ⟨left.nodes ++ right.nodes, ⟨op, left, right⟩, [], rfl, ?_, ?_⟩
        · intro earlier member
          rcases List.mem_append.mp member with member | member
          · exact possible_of_checks leftChecked earlier member
          · exact possible_of_checks rightChecked earlier member
        · rw [List.length_append, nodes_length, nodes_length, ← Nat.add_assoc]
          exact Node.fails_of_check leftChecked rightChecked failed

/-- The computed meaning is the one that the relation describes, and there is no other. -/
theorem Expr.meaning_iff {e : Expr} {outcome : Except EvalError Int} : e.meaning = outcome ↔ e.Means outcome := by
  constructor
  · intro computed
    cases outcome with
    | ok value => exact .value (meaning_eq_ok_iff.mp computed)
    | error error =>
      rcases bind_eq_error.mp computed with failed | ⟨_, checked, failed⟩
      · obtain ⟨before, node, after, order, possible, fails⟩ := fails_of_checks failed
        rw [Nat.zero_add] at fails
        exact .operation order possible fails
      · obtain ⟨text, leaf, rfl, invalid⟩ := invalid_of_checks checked failed
        exact .literal leaf invalid
  · intro means
    cases means with
    | value evaluates => exact meaning_eq_ok_iff.mpr evaluates
    | operation order possible fails =>
      rw [Nat.add_comm] at fails
      rw [meaning, checks, order, Node.check_fails (0 + 1) possible fails, error_bind]
    | literal leaf invalid =>
      subst leaf
      exact exact_of_invalid invalid

def Expr.leaves : Expr → List String
  | .number text => [text]
  | .binary _ left right => left.leaves ++ right.leaves

/-- What can go wrong in a tree. No temporary is ever missing. -/
inductive Expr.Fault (e : Expr) : EvalError → Prop where
  | literal {text : String} (member : text ∈ e.leaves) (invalid : Word.ofLiteral? text = none) :
      Fault e (.invalidLiteral text)
  | divisor (dest : String) : Fault e (.divisionByZero dest)
  | size (dest : String) : Fault e (.overflow dest)

theorem Expr.leaves_subset_left (op : Op) (left right : Expr) :
    left.leaves ⊆ (Expr.binary op left right).leaves :=
  List.subset_append_left _ _

theorem Expr.leaves_subset_right (op : Op) (left right : Expr) :
    right.leaves ⊆ (Expr.binary op left right).leaves :=
  List.subset_append_right _ _

private theorem Expr.leaves_of_node {e : Expr} {node : Node} (member : node ∈ e.nodes) :
    node.left.leaves ⊆ e.leaves ∧ node.right.leaves ⊆ e.leaves := by
  induction e with
  | number text => cases member
  | binary op left right first second =>
    have inLeft := leaves_subset_left op left right
    have inRight := leaves_subset_right op left right
    rcases List.mem_append.mp member with member | member
    · rcases List.mem_append.mp member with member | member
      · obtain ⟨before, after⟩ := first member
        exact ⟨List.Subset.trans before inLeft, List.Subset.trans after inLeft⟩
      · obtain ⟨before, after⟩ := second member
        exact ⟨List.Subset.trans before inRight, List.Subset.trans after inRight⟩
    · rw [List.mem_singleton.mp member]
      exact ⟨inLeft, inRight⟩

theorem Expr.meaning_fault {e : Expr} {error : EvalError} (failed : e.meaning = .error error) :
    e.Fault error := by
  cases meaning_iff.mp failed with
  | @operation before after node _ order possible fails =>
    have inside := leaves_of_node (order ▸ List.mem_append_right before List.mem_cons_self : node ∈ e.nodes)
    cases fails with
    | left leaf invalid =>
      rw [leaf] at inside invalid
      exact .literal (inside.1 List.mem_cons_self) (refused_of_invalid invalid)
    | right first leaf invalid =>
      rw [leaf] at inside invalid
      exact .literal (inside.2 List.mem_cons_self) (refused_of_invalid invalid)
    | divisor => exact .divisor _
    | size => exact .size _
  | literal leaf invalid =>
    subst leaf
    exact .literal List.mem_cons_self (refused_of_invalid invalid)

end ThreeAddress
