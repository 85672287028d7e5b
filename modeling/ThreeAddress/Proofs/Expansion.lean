import ThreeAddress.Proofs.StackOrder

/-! Code read back as an expression. Every temporary stands for the operation that defined it; put in
their places one after another, the operations give the tree that was lowered, whatever its leaves
look like. So lowering loses nothing. -/

namespace ThreeAddress

/-- The expressions that temporaries stand for. -/
abbrev Bindings := String → Option Expr

namespace Bindings

def empty : Bindings := fun _ => none

def define (bindings : Bindings) (name : String) (e : Expr) : Bindings :=
  fun other => if other = name then some e else bindings other

end Bindings

/-- The expression that an operand stands for, or the name that stands for nothing. A literal is a leaf,
even if it looks like a temporary. -/
def Operand.expanded (bindings : Bindings) : Operand → Except String Expr
  | .literal text => .ok (.number text)
  | .temp name =>
    match bindings name with
    | some e => .ok e
    | none => .error name

def Instruction.expanded (bindings : Bindings) (instruction : Instruction) : Except String Expr := do
  let left ← instruction.lhs.expanded bindings
  let right ← instruction.rhs.expanded bindings
  .ok (.binary instruction.op left right)

/-- What temporaries stand for after some instructions. -/
def Bindings.after (bindings : Bindings) : List Instruction → Except String Bindings
  | [] => .ok bindings
  | instruction :: rest => do
    let e ← instruction.expanded bindings
    (bindings.define instruction.dest e).after rest

/-- The expression that a program computes, with its temporaries put back. -/
def Program.expanded (program : Program) : Except String Expr := do
  let bindings ← Bindings.empty.after program.instructions
  program.result.expanded bindings

namespace Bindings
variable {bindings last : Bindings}

private theorem after_append (bindings : Bindings) (before rest : List Instruction) :
    bindings.after (before ++ rest) = bindings.after before >>= fun middle => middle.after rest := by
  induction before generalizing bindings with
  | nil => rfl
  | cons instruction before ih => simp only [List.cons_append, after, bind_assoc, ih]

/-- Code changes only what it defines. -/
private theorem after_of_not_mem {code : List Instruction} {name : String}
    (defined : bindings.after code = .ok last) (other : name ∉ dests code) : last name = bindings name := by
  induction code generalizing bindings with
  | nil =>
    cases defined
    rfl
  | cons instruction code ih =>
    obtain ⟨e, _, defined⟩ := bind_eq_ok.mp defined
    have different : name ≠ instruction.dest := fun same => other (same ▸ List.mem_cons_self)
    rw [ih defined fun later => other (List.mem_cons_of_mem _ later), define, if_neg different]

end Bindings

private theorem Operand.expanded_congr {operand : Operand} {first second : Bindings}
    (same : ∀ name ∈ operand.temps, first name = second name) : operand.expanded first = operand.expanded second := by
  cases operand with
  | literal text => rfl
  | temp name => rw [expanded, expanded, same name List.mem_cons_self]

private theorem Expr.result_defined {e : Expr} {temps : TempSupply} {name : String}
    (member : name ∈ (e.lower temps).result.temps) : name ∈ dests (e.lower temps).code :=
  (e.lower_reads temps).subset (List.mem_append_right _ member)

/-- Two operands are computed with different temporaries. -/
private theorem Expr.operands_apart (left right : Expr) (temps : TempSupply) :
    ∀ name ∈ dests (left.lower temps).code, name ∉ dests (right.lower (left.lower temps).temps).code := by
  have distinct := (Expr.binary .add left right).lower_distinct temps
  rw [lower_binary_code, dests_append, dests_append] at distinct
  have apart := (List.nodup_append.mp (List.nodup_append.mp distinct).1).2.2
  intro name first second
  exact apart name first name second rfl

/-- The code of an expression binds its result to the expression, whatever was bound before. -/
theorem Expr.lower_expands (e : Expr) (temps : TempSupply) (bindings : Bindings) :
    ∃ last, bindings.after (e.lower temps).code = .ok last ∧ (e.lower temps).result.expanded last = .ok e := by
  induction e generalizing temps bindings with
  | number text => exact ⟨bindings, rfl, rfl⟩
  | binary op left right first second =>
    obtain ⟨middle, leftDone, leftResult⟩ := first temps bindings
    obtain ⟨last, rightDone, rightResult⟩ := second (left.lower temps).temps middle
    -- The code of the right operand defines other temporaries, so the left one still stands.
    have kept : (left.lower temps).result.expanded last = .ok left := by
      rw [← leftResult]
      apply Operand.expanded_congr
      intro name member
      exact Bindings.after_of_not_mem rightDone (left.operands_apart right temps name (result_defined member))
    rw [lower_binary_code, lower_binary_result, Bindings.after_append, Bindings.after_append, leftDone, ok_bind,
      rightDone, ok_bind]
    simp only [Bindings.after, Instruction.expanded, kept, rightResult, ok_bind]
    refine ⟨_, rfl, ?_⟩
    simp [Operand.expanded, Bindings.define]

theorem Program.expanded_ofExpr (e : Expr) : (Program.ofExpr e).expanded = .ok e := by
  obtain ⟨last, defined, result⟩ := e.lower_expands {} Bindings.empty
  change (Bindings.empty.after (e.lower {}).code >>= fun bindings => (e.lower {}).result.expanded bindings) = _
  rw [defined, ok_bind, result]

example : (Program.ofExpr (.binary .subtract (.number "temp1") (.binary .add (.number "1") (.number "2")))).expanded =
    .ok (.binary .subtract (.number "temp1") (.binary .add (.number "1") (.number "2"))) := rfl

/-- Lowering loses nothing: a program read back is the expression it came from, so no two expressions
have the same program. -/
theorem Program.ofExpr_faithful (e : Expr) :
    (Program.ofExpr e).expanded = .ok e ∧ ∀ other, Program.ofExpr other = Program.ofExpr e → other = e := by
  refine ⟨Program.expanded_ofExpr e, ?_⟩
  intro other same
  have read := Program.expanded_ofExpr other
  rw [same, Program.expanded_ofExpr] at read
  exact (Except.ok.inj read).symm

end ThreeAddress
