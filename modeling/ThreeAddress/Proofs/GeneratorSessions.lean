import ThreeAddress.Proofs.Renaming

/-! A generator over a whole history of calls. It is emptied now and then; in between, it lays the
code of one expression behind that of another. Every expression keeps the code, the result and
the error that it has on its own, under temporaries that are moved up. -/

namespace ThreeAddress

/-- A call on a generator. Taking the instructions leaves a fresh generator behind. -/
inductive Call where
  | generate (e : Expr)
  | reset
  | take

/-- A generator and what it has lowered since it was last emptied: the expressions in order, each
with the operand that was returned for it. -/
structure Session where
  generator : Generator := {}
  lowered : List (Expr × Operand) := []

def Session.call (session : Session) : Call → Session
  | .generate e =>
    let (operand, generator) := session.generator.generate e
    ⟨generator, session.lowered ++ [(e, operand)]⟩
  | .reset => ⟨session.generator.reset, []⟩
  | .take => ⟨session.generator.take.2, []⟩

def Session.run (calls : List Call) : Session :=
  calls.foldl Session.call {}

def Session.expressions (session : Session) : List Expr :=
  session.lowered.map Prod.fst

def operatorsOf : List Expr → Nat
  | [] => 0
  | e :: es => e.operators + operatorsOf es

/-- The program of each expression, with its temporaries moved behind those of the expressions
before it. -/
def placed (es : List Expr) : List Program :=
  es.mapIdx fun index e => (Program.ofExpr e).rename (renumber (operatorsOf (es.take index)))

def Expr.IsOperation (e : Expr) : Prop :=
  ∃ op left right, e = .binary op left right

private theorem operatorsOf_concat (es : List Expr) (e : Expr) :
    operatorsOf (es ++ [e]) = operatorsOf es + e.operators := by
  induction es with
  | nil => simp [operatorsOf]
  | cons first es ih => simp only [List.cons_append, operatorsOf, ih, Nat.add_assoc]

private theorem placed_concat (es : List Expr) (e : Expr) :
    placed (es ++ [e]) = placed es ++ [(Program.ofExpr e).rename (renumber (operatorsOf es))] := by
  have same : ∀ index, index ≤ es.length → (es ++ [e]).take index = es.take index :=
    fun index inside => List.take_append_of_le_length inside
  rw [placed, List.mapIdx_concat, same _ (Nat.le_refl _), List.take_length]
  apply congrArg (· ++ _)
  apply List.mapIdx_eq_mapIdx_iff.mpr
  intro index inside
  rw [same index (Nat.le_of_lt inside)]

/-- All that calls can have left in a generator: code that was laid out expression by expression. -/
inductive Laid : List (Expr × Operand) → Generator → Prop where
  | empty : Laid [] {}
  | snoc {lowered : List (Expr × Operand)} {generator : Generator} (earlier : Laid lowered generator) (e : Expr) :
      Laid (lowered ++ [(e, (generator.generate e).1)]) (generator.generate e).2

private theorem Laid.call {session : Session} (laid : Laid session.lowered session.generator) (call : Call) :
    Laid (session.call call).lowered (session.call call).generator := by
  cases call with
  | generate e => exact .snoc laid e
  | reset => exact .empty
  | take => exact .empty

theorem Session.laid (calls : List Call) : Laid (run calls).lowered (run calls).generator := by
  suffices keeps : ∀ session : Session, Laid session.lowered session.generator →
      Laid (calls.foldl Session.call session).lowered (calls.foldl Session.call session).generator from
    keeps {} .empty
  induction calls with
  | nil => exact fun session laid => laid
  | cons call calls ih => exact fun session laid => ih _ (laid.call call)

section
variable {lowered : List (Expr × Operand)} {generator : Generator}

theorem Laid.issued (laid : Laid lowered generator) :
    generator.temps = ⟨operatorsOf (lowered.map Prod.fst)⟩ := by
  induction laid with
  | empty => rfl
  | snoc earlier e ih =>
    rw [List.map_append, List.map_singleton, operatorsOf_concat, Generator.generate, Expr.lower_temps, ih]

private theorem Expr.lower_eq_rename (e : Expr) (count : Nat) :
    (e.lower ⟨count⟩).code = ((Program.ofExpr e).rename (renumber count)).instructions ∧
    (e.lower ⟨count⟩).result = ((Program.ofExpr e).rename (renumber count)).result := by
  have moved := e.lower_renumber 0 count
  rwa [Nat.zero_add] at moved

private theorem Laid.placed (laid : Laid lowered generator) :
    generator.instructions = (placed (lowered.map Prod.fst)).flatMap Program.instructions ∧
    lowered.map Prod.snd = (placed (lowered.map Prod.fst)).map Program.result := by
  induction laid with
  | empty => exact ⟨rfl, rfl⟩
  | @snoc lowered generator earlier e ih =>
    obtain ⟨code, result⟩ := e.lower_eq_rename (operatorsOf (lowered.map Prod.fst))
    rw [← earlier.issued] at code result
    constructor
    · simp only [Generator.generate, ih.1, code, List.map_append, List.map_singleton, placed_concat,
        List.flatMap_append, List.flatMap_singleton]
    · simp only [Generator.generate, ih.2, result, List.map_append, List.map_singleton, placed_concat]

/-- If no operation fails, every operand returned so far holds the value of its expression. -/
theorem Laid.computes (laid : Laid lowered generator)
    (possible : ∀ e ∈ lowered.map Prod.fst, e.checks 0 = .ok ()) :
    ∃ after, Store.empty.run generator.instructions = .ok after ∧
      ∀ e operand, (e, operand) ∈ lowered → ∀ store, Store.Agree generator.temps.issued store after →
        operand.value store = e.exact := by
  induction laid with
  | empty => exact ⟨Store.empty, rfl, by simp⟩
  | @snoc lowered generator earlier e ih =>
    rw [List.map_append] at possible
    obtain ⟨middle, ran, values⟩ := ih fun f member => possible f (List.mem_append_left _ member)
    have checked := Expr.checks_moved (possible e (by simp)) generator.temps.issued
    obtain ⟨after, codeRan, computed⟩ := Expr.lower_computes generator.temps middle checked
    refine ⟨after, ?_, ?_⟩
    · rw [Generator.generate, Store.run_append, ran]
      exact codeRan
    · intro f operand member store agree
      rcases List.mem_append.mp member with member | member
      · apply values f operand member store
        intro index issued
        rw [agree index (by rw [Generator.generate, Expr.lower_issued]; omega), computed.frame index issued]
      · cases List.mem_singleton.mp member
        exact computed.result store agree

/-- The first expression with an operation that fails decides the error. -/
theorem Laid.fails (laid : Laid lowered generator)
    {before after : List (Expr × Operand)} {f : Expr} {operand : Operand} {error : EvalError}
    (split : lowered = before ++ (f, operand) :: after)
    (possible : ∀ e ∈ before.map Prod.fst, e.checks 0 = .ok ()) (failed : f.checks 0 = .error error) :
    Store.empty.run generator.instructions =
      .error (error.rename (renumber (operatorsOf (before.map Prod.fst)))) := by
  induction laid generalizing after with
  | empty => simp at split
  | @snoc lowered generator earlier e ih =>
    rw [Generator.generate, Store.run_append]
    -- The expression that fails is the last one, or its error has already ended the run.
    rcases List.eq_nil_or_concat after with rfl | ⟨later, last, rfl⟩
    · obtain ⟨rfl, same⟩ := List.append_inj' split rfl
      cases same
      obtain ⟨middle, ran, _⟩ := earlier.computes possible
      rw [ran, ok_bind, Expr.lower_fails]
      rw [earlier.issued]
      exact Expr.checks_fail_moved failed _
    · rw [List.concat_eq_append, ← List.cons_append, ← List.append_assoc] at split
      obtain ⟨rfl, _⟩ := List.append_inj' split rfl
      rw [ih rfl, error_bind]

end

private theorem Expr.possible_of_eval {e : Expr}
    (evaluates : e.IsOperation → ∃ value, (Program.ofExpr e).eval = .ok value) : e.checks 0 = .ok () := by
  cases e with
  | number text => rfl
  | binary op left right =>
    obtain ⟨value, result⟩ := evaluates ⟨op, left, right, rfl⟩
    rw [Program.eval_eq_meaning] at result
    obtain ⟨_, possible, _⟩ := bind_eq_ok.mp result
    exact possible

private theorem Expr.checks_of_eval_fails {e : Expr} {error : EvalError} (operation : e.IsOperation)
    (failed : (Program.ofExpr e).eval = .error error) : e.checks 0 = .error error := by
  obtain ⟨op, left, right, rfl⟩ := operation
  rw [Program.eval_eq_meaning] at failed
  rcases bind_eq_error.mp failed with failed | ⟨_, possible, inexact⟩
  · exact failed
  · rw [checks_binary] at possible
    obtain ⟨_, _, possible⟩ := bind_eq_ok.mp possible
    obtain ⟨_, _, possible⟩ := bind_eq_ok.mp possible
    obtain ⟨a, b, first, second, _⟩ := Node.check_eq_ok_iff.mp possible
    rw [exact_binary first second] at inexact
    cases inexact

theorem Expr.eval_of_possible {e : Expr} (possible : e.checks 0 = .ok ()) : (Program.ofExpr e).eval = e.exact := by
  rw [Program.eval_eq_meaning, meaning, possible, ok_bind]

/-- What a generator holds after any calls. The instructions and the operands are those of the
expressions lowered since it was last emptied, each moved behind the ones before. A program that
ends in one of the operands does what its expression does alone, unless an operation fails: then
the first expression that fails decides, with its temporaries moved. -/
theorem Session.run_lowers (calls : List Call) :
    let session := Session.run calls
    let es := session.expressions
    session.generator.instructions = (placed es).flatMap Program.instructions ∧
    session.lowered.map Prod.snd = (placed es).map Program.result ∧
    ∀ e operand, (e, operand) ∈ session.lowered →
      ((∀ f ∈ es, f.IsOperation → ∃ value, (Program.ofExpr f).eval = .ok value) →
        (session.generator.program operand).eval = (Program.ofExpr e).eval) ∧
      ∀ before f after error, es = before ++ f :: after →
        (∀ earlier ∈ before, earlier.IsOperation → ∃ value, (Program.ofExpr earlier).eval = .ok value) →
        f.IsOperation → (Program.ofExpr f).eval = .error error →
        (session.generator.program operand).eval = .error (error.rename (renumber (operatorsOf before))) := by
  intro session es
  have laid : Laid session.lowered session.generator := Session.laid calls
  refine ⟨laid.placed.1, laid.placed.2, ?_⟩
  intro e operand member
  constructor
  · intro evaluate
    have possible : ∀ f ∈ es, f.checks 0 = .ok () := fun f inside => Expr.possible_of_eval (evaluate f inside)
    obtain ⟨after, ran, values⟩ := laid.computes possible
    have computed := values e operand member after fun _ _ => rfl
    have own := possible e (List.mem_map_of_mem member)
    rw [Program.eval, Generator.program, ran, ok_bind, computed, Expr.eval_of_possible own]
  · intro before f after error split evaluate operation failed
    obtain ⟨first, rest, parts, rfl, tail⟩ := List.map_eq_append_iff.mp split
    obtain ⟨⟨g, result⟩, last, rfl, rfl, _⟩ := List.map_eq_cons_iff.mp tail
    have possible : ∀ e ∈ first.map Prod.fst, e.checks 0 = .ok () :=
      fun e inside => Expr.possible_of_eval (evaluate e inside)
    have stopped := laid.fails parts possible (Expr.checks_of_eval_fails operation failed)
    rw [Program.eval, Generator.program, stopped, error_bind]

theorem quotient_fails_behind_sum :
    let sum : Expr := .binary .add (.number "2") (.number "3")
    let quotient : Expr := .binary .divide (.number "6") (.binary .subtract (.number "4") (.number "4"))
    let held := Session.run [.generate quotient, .reset, .generate sum, .generate (.number "7")]
    let failing := Session.run [.generate sum, .take, .generate sum, .generate quotient, .generate sum]
    (held.generator.program (.temp "temp1")).eval = (Program.ofExpr sum).eval ∧
    (failing.generator.program (.temp "temp4")).eval = .error (.divisionByZero "temp3") := by
  intro sum quotient held failing
  have heldPairs : held.lowered = [(sum, .temp "temp1"), (.number "7", .literal "7")] := by decide +kernel
  have failingPairs : failing.lowered =
      [(sum, .temp "temp1"), (quotient, .temp "temp3"), (sum, .temp "temp4")] := by decide +kernel
  have sumValue : (Program.ofExpr sum).eval = .ok 5 := rfl
  have quotientFails : (Program.ofExpr quotient).eval = .error (.divisionByZero "temp2") := rfl
  constructor
  · apply ((Session.run_lowers _).2.2 sum (.temp "temp1") (by rw [heldPairs]; simp)).1
    intro f member operation
    change f ∈ held.lowered.map Prod.fst at member
    rw [heldPairs] at member
    rcases List.mem_cons.mp member with rfl | member
    · exact ⟨5, sumValue⟩
    · obtain ⟨op, left, right, rfl⟩ := operation
      simp at member
  · have moved : EvalError.rename (renumber (operatorsOf [sum])) (.divisionByZero "temp2") =
        .divisionByZero "temp3" := by decide +kernel
    rw [← moved]
    apply ((Session.run_lowers _).2.2 sum (.temp "temp4") (by rw [failingPairs]; simp)).2 [sum] quotient [sum]
    · change failing.lowered.map Prod.fst = _
      rw [failingPairs]
      rfl
    · intro earlier member operation
      cases List.mem_singleton.mp member
      exact ⟨5, sumValue⟩
    · exact ⟨_, _, _, rfl⟩
    · exact quotientFails

end ThreeAddress
