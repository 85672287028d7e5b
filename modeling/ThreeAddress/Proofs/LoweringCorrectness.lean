import ThreeAddress.Proofs.TreeMeaning

/-! The code of an expression computes what its tree means, with the same error
when there is one. A literal is read by the instruction that uses it, so an error
in the operations of a right operand comes before a bad literal on the left. -/

namespace ThreeAddress

theorem tempName_injective {first second : Nat} (same : tempName first = tempName second) :
    first = second := by
  have digits : Nat.toDigits 10 first = Nat.toDigits 10 second := by
    have lists := congrArg String.toList same
    simpa [tempName, Nat.repr_eq_ofList_toDigits] using lists
  have values := congrArg (fun list => Nat.ofDigitChars 10 list 0) digits
  simpa using values

/-- Two stores give the same values to the temporaries up to a number. -/
def Store.Agree (issued : Nat) (first second : Store) : Prop :=
  ∀ index ≤ issued, first (tempName index) = second (tempName index)

private theorem Store.agree_assign (store : Store) (value : Int) {issued index : Nat} (later : issued < index) :
    Agree issued (store.assign (tempName index) value) store := by
  intro other earlier
  apply store.assign_of_ne value
  intro same
  have := tempName_injective same
  omega

/-- What the code of an expression leaves behind. Its result keeps its value until
a temporary is assigned again, and the temporaries issued earlier are not touched. -/
structure Expr.Computed (e : Expr) (temps : TempSupply) (before after : Store) : Prop where
  result : ∀ store, Store.Agree (e.lower temps).temps.issued store after →
    (e.lower temps).result.value store = e.exact
  frame : Store.Agree temps.issued after before

private theorem checked_eq (dest : String) (result : Int) :
    checked dest result = if Word.Fits result then .ok result else .error (.overflow dest) := by
  rw [checked, Word.check_eq]
  by_cases fits : Word.Fits result
  · simp only [if_pos fits]
  · simp only [if_neg fits]

theorem Op.apply_eq (op : Op) (dest : String) (a b : Int) :
    op.apply dest a b =
      if op = .divide ∧ b = 0 then .error (.divisionByZero dest)
      else if Word.Fits (op.exact a b) then .ok (op.exact a b)
      else .error (.overflow dest) := by
  cases op with
  | add | subtract | multiply => exact checked_eq dest _
  | divide =>
    by_cases zero : b = 0
    · simp [apply, zero]
    · rw [if_neg (fun both => zero both.2), apply, if_neg zero]
      exact checked_eq dest _

private theorem Instruction.value_eq_check {store : Store} {index : Nat} {op : Op} {lhs rhs : Operand}
    {left right : Expr} (first : lhs.value store = left.exact) (second : rhs.value store = right.exact) :
    Instruction.value store ⟨tempName index, op, lhs, rhs⟩ = (do
      Node.check index ⟨op, left, right⟩
      (Expr.binary op left right).exact) := by
  simp only [Instruction.value, first, second, Node.check, Expr.exact, bind_assoc]
  cases left.exact with
  | error error => rfl
  | ok a =>
    cases right.exact with
    | error error => rfl
    | ok b =>
      simp only [ok_bind, Op.apply_eq]
      split
      · rfl
      · split
        · rfl
        · rfl

theorem Expr.lower_binary_code (op : Op) (left right : Expr) (temps : TempSupply) :
    ((Expr.binary op left right).lower temps).code =
      (left.lower temps).code ++ (right.lower (left.lower temps).temps).code ++
        [⟨tempName (temps.issued + left.operators + right.operators + 1), op,
          (left.lower temps).result, (right.lower (left.lower temps).temps).result⟩] := by
  simp only [lower, TempSupply.fresh, lower_issued]

/-- Once both operands have been computed, the last instruction decides. -/
private theorem Expr.lower_binary_run (op : Op) {left right : Expr} {temps : TempSupply}
    {store middle last : Store}
    (first : store.run (left.lower temps).code = .ok middle)
    (second : middle.run (right.lower (left.lower temps).temps).code = .ok last)
    (leftDone : left.Computed temps store middle)
    (rightDone : right.Computed (left.lower temps).temps middle last) :
    store.run ((Expr.binary op left right).lower temps).code = (do
      Node.check (temps.issued + left.operators + right.operators + 1) ⟨op, left, right⟩
      let value ← (Expr.binary op left right).exact
      .ok (last.assign (tempName (temps.issued + left.operators + right.operators + 1)) value)) := by
  have lhs : (left.lower temps).result.value last = left.exact := leftDone.result last rightDone.frame
  have rhs : (right.lower (left.lower temps).temps).result.value last = right.exact :=
    rightDone.result last (fun _ _ => rfl)
  rw [lower_binary_code, Store.run_append, Store.run_append, first, ok_bind, second, ok_bind]
  simp only [Store.run, Instruction.value_eq_check lhs rhs, bind_assoc]

theorem Expr.lower_computes {e : Expr} (temps : TempSupply) (store : Store)
    (possible : e.checks temps.issued = .ok ()) :
    ∃ after, store.run (e.lower temps).code = .ok after ∧ e.Computed temps store after := by
  induction e generalizing temps store with
  | number text => exact ⟨store, rfl, fun _ _ => rfl, fun _ _ => rfl⟩
  | binary op left right first second =>
    rw [checks_binary] at possible
    obtain ⟨_, leftPossible, possible⟩ := bind_eq_ok.mp possible
    obtain ⟨_, rightPossible, possible⟩ := bind_eq_ok.mp possible
    obtain ⟨middle, leftRan, leftDone⟩ := first temps store leftPossible
    rw [← lower_issued] at rightPossible
    obtain ⟨last, rightRan, rightDone⟩ := second _ middle rightPossible
    obtain ⟨a, b, leftValue, rightValue, _⟩ := Node.check_eq_ok_iff.mp possible
    have exact : (Expr.binary op left right).exact = .ok (op.exact a b) := exact_binary leftValue rightValue
    have ran := lower_binary_run op leftRan rightRan leftDone rightDone
    rw [possible, exact, ok_bind, ok_bind] at ran
    refine ⟨_, ran, ?_, ?_⟩
    · intro later agree
      have assigned := agree (temps.issued + left.operators + right.operators + 1)
        (by simp only [lower_issued, operators]; omega)
      simp only [lower, TempSupply.fresh, lower_issued, Operand.value, assigned, Store.assign_self]
      exact exact.symm
    · intro index issued
      rw [Store.agree_assign last _ (Nat.lt_succ_self _) index (by omega),
        rightDone.frame index (by rw [lower_issued]; omega), leftDone.frame index issued]

/-- If some operation is not possible, the code fails as the first of them does. -/
theorem Expr.lower_fails {e : Expr} (temps : TempSupply) (store : Store) {error : EvalError}
    (failed : e.checks temps.issued = .error error) :
    store.run (e.lower temps).code = .error error := by
  induction e generalizing temps store with
  | number text => cases failed
  | binary op left right first second =>
    rw [checks_binary] at failed
    rcases bind_eq_error.mp failed with failed | ⟨_, leftPossible, failed⟩
    · rw [lower_binary_code, Store.run_append, Store.run_append, first temps store failed]
      rfl
    · obtain ⟨middle, leftRan, leftDone⟩ := lower_computes temps store leftPossible
      rw [← lower_issued] at failed
      rcases bind_eq_error.mp failed with failed | ⟨_, rightPossible, failed⟩
      · rw [lower_binary_code, Store.run_append, Store.run_append, leftRan, ok_bind, second _ middle failed]
        rfl
      · obtain ⟨last, rightRan, rightDone⟩ := lower_computes _ middle rightPossible
        rw [lower_issued] at failed
        rw [lower_binary_run op leftRan rightRan leftDone rightDone, failed]
        rfl

theorem Program.eval_eq_meaning (e : Expr) : (Program.ofExpr e).eval = e.meaning := by
  unfold Program.eval Program.ofExpr Expr.meaning
  cases checked : e.checks 0 with
  | error error =>
    simp only [Expr.lower_fails {} Store.empty checked, error_bind]
  | ok _ =>
    obtain ⟨after, ran, done⟩ := Expr.lower_computes {} Store.empty checked
    simp only [ran, ok_bind]
    exact done.result after (fun _ _ => rfl)

/-- Running the code of an expression gives what its tree means, value or error, and nothing else.
No value is wrapped, no temporary is read too early, and a counter of 32 bits numbers the
temporaries of every expression with fewer than two to the power 32 operations. -/
theorem Program.eval_ofExpr (e : Expr) :
    (∀ outcome, (Program.ofExpr e).eval = outcome ↔ e.Means outcome) ∧
    (∀ value, (Program.ofExpr e).eval = .ok value →
      -9223372036854775808 ≤ value ∧ value ≤ 9223372036854775807) ∧
    (∀ name, (Program.ofExpr e).eval ≠ .error (.undefinedTemp name)) ∧
    (e.operators < UInt32.size → (e.lower {}).temps.issued < UInt32.size ∧
      ∀ instruction ∈ (Program.ofExpr e).instructions, ∃ counter : UInt32,
        instruction.dest = "temp" ++ counter.toNat.repr) := by
  rw [Program.eval_eq_meaning]
  refine ⟨fun _ => Expr.meaning_iff, ?_, ?_, ?_⟩
  · intro value computed
    exact (Expr.meaning_eq_ok_iff.mp computed).fits
  · intro name failed
    cases Expr.meaning_fault failed
  · intro few
    exact Expr.lower_counted (by rwa [Nat.zero_add])

/-- A zero divisor on the right is met before a bad literal on the left, and a quotient of a
negative number is rounded up. -/
theorem divisor_before_literal_and_rounded_quotient :
    (Program.ofExpr (.binary .add (.number "x") (.binary .divide (.number "1") (.number "0")))).eval =
      .error (.divisionByZero "temp1") ∧
    (Program.ofExpr (.binary .divide (.number "-7") (.number "+2"))).eval = .ok (-3) := by
  constructor
  · apply ((Program.eval_ofExpr _).1 _).mpr
    have order : (Expr.binary .add (.number "x") (.binary .divide (.number "1") (.number "0"))).nodes =
        [] ++ ⟨.divide, .number "1", .number "0"⟩ ::
          [⟨.add, .number "x", .binary .divide (.number "1") (.number "0")⟩] := rfl
    have one : (Expr.number "1").Evaluates 1 := .number (.unsigned (by decide)) (by decide)
    have zero : (Expr.number "0").Evaluates 0 := .number (.unsigned (by decide)) (by decide)
    exact .operation order nofun (.divisor one zero rfl)
  · apply ((Program.eval_ofExpr _).1 _).mpr
    have seven : (Expr.number "-7").Evaluates (-7) := .number (.minus (by decide)) (by decide)
    have two : (Expr.number "+2").Evaluates 2 := .number (.plus (by decide)) (by decide)
    exact .value (.binary seven two (by decide) (by decide))

end ThreeAddress
