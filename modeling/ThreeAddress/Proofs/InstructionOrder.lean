import ThreeAddress.Proofs.DefinedTemporaries

/-! The order of independent instructions. Two neighbours that assign different names and do not read each
other's result compute the same two values in either order and leave the same store behind, so all that
follows goes on alike. The order is seen in one case only: if both of them fail, the one in front is
the one that is reported. -/

namespace ThreeAddress

/-- The instructions assign different names, and neither reads what the other assigns. -/
structure Instruction.Independent (first second : Instruction) : Prop where
  dests : first.dest ≠ second.dest
  firstReads : second.dest ∉ first.reads
  secondReads : first.dest ∉ second.reads

theorem Instruction.Independent.symm {first second : Instruction} (independent : first.Independent second) :
    second.Independent first where
  dests := independent.dests.symm
  firstReads := independent.secondReads
  secondReads := independent.firstReads

/-- Two computations that do not need each other's value may change places, unless both of them fail. -/
private theorem bind_exchange {ε α β γ : Type} (x : Except ε α) (y : Except ε β) (next : α → β → Except ε γ) :
    (y >>= fun b => x >>= fun a => next a b) = (x >>= fun a => y >>= fun b => next a b) ∨
    ∃ error other, x = .error error ∧ y = .error other := by
  cases x with
  | ok a => exact .inl rfl
  | error error =>
    cases y with
    | ok b => exact .inl rfl
    | error other => exact .inr ⟨error, other, rfl, rfl⟩

section
variable (store : Store)

theorem Store.assign_comm {first second : String} (different : first ≠ second) (a b : Int) :
    (store.assign second b).assign first a = (store.assign first a).assign second b := by
  funext name
  by_cases same : name = first
  · subst same
    rw [assign_self, assign_of_ne _ _ different, assign_self]
  · simp only [assign, same, if_false]

private theorem Operand.value_assign {operand : Operand} {name : String} (unread : name ∉ operand.temps)
    (value : Int) :
    operand.value (store.assign name value) = operand.value store := by
  cases operand with
  | literal text => rfl
  | temp other =>
    have different : other ≠ name := by
      intro same
      exact unread (List.mem_singleton.mpr same.symm)
    simp only [Operand.value, store.assign_of_ne value different]

private theorem Instruction.value_assign {instruction : Instruction} {name : String}
    (unread : name ∉ instruction.reads)
    (value : Int) : instruction.value (store.assign name value) = instruction.value store := by
  obtain ⟨left, right⟩ := not_or.mp (mt List.mem_append.mpr unread)
  simp only [Instruction.value, Operand.value_assign store left, Operand.value_assign store right]

variable {first second : Instruction}

/-- Both instructions compute their values from the store in front of them. -/
theorem Store.run_independent (independent : first.Independent second) (after : List Instruction) :
    store.run (first :: second :: after) =
      first.value store >>= fun a => second.value store >>= fun b =>
        ((store.assign first.dest a).assign second.dest b).run after := by
  simp only [run, Instruction.value_assign store independent.secondReads]

theorem Store.run_exchange (independent : first.Independent second) (after : List Instruction) :
    store.run (second :: first :: after) = store.run (first :: second :: after) ∨
    ∃ error other, first.value store = .error error ∧ second.value store = .error other := by
  rw [store.run_independent independent, store.run_independent independent.symm]
  simp only [store.assign_comm independent.dests]
  exact bind_exchange _ _ _

end

namespace Program
variable {before after : List Instruction} {result : Operand} {first second : Instruction}

/-- An instruction that fails where a run comes to it ends the run, whatever follows. -/
private theorem eval_fails {store : Store} {error : EvalError} (ran : Store.empty.run before = .ok store)
    (failed : first.value store = .error error) : eval ⟨before ++ first :: after, result⟩ = .error error := by
  apply bind_eq_error.mpr
  exact .inl (Store.run_eq_error_iff.mpr ⟨before, first, after, store, rfl, ran, failed⟩)

theorem eval_exchange_or (before after : List Instruction) (result : Operand) (independent : first.Independent second) :
    eval ⟨before ++ second :: first :: after, result⟩ = eval ⟨before ++ first :: second :: after, result⟩ ∨
    ∃ store error other, Store.empty.run before = .ok store ∧
      first.value store = .error error ∧ second.value store = .error other := by
  simp only [eval, Store.run_append]
  cases Store.empty.run before with
  | error error => exact .inl rfl
  | ok store =>
    rcases store.run_exchange independent after with same | ⟨error, other, failed, otherFailed⟩
    · exact .inl (by rw [ok_bind, ok_bind, same])
    · exact .inr ⟨store, error, other, rfl, failed, otherFailed⟩

/-- Two independent neighbours may change places. The program keeps its value if it has one, and fails if it
has none; it fails in the same way unless both neighbours fail where a run comes to them, and then each
order reports the one in front. -/
theorem eval_exchange (before after : List Instruction) (result : Operand) {first second : Instruction}
    (independent : first.Independent second) :
    (∀ value, eval ⟨before ++ second :: first :: after, result⟩ = .ok value ↔
      eval ⟨before ++ first :: second :: after, result⟩ = .ok value) ∧
    ((∃ error, eval ⟨before ++ second :: first :: after, result⟩ = .error error) ↔
      ∃ error, eval ⟨before ++ first :: second :: after, result⟩ = .error error) ∧
    (eval ⟨before ++ second :: first :: after, result⟩ ≠ eval ⟨before ++ first :: second :: after, result⟩ →
      ∃ store error other, Store.empty.run before = .ok store ∧
        first.value store = .error error ∧ second.value store = .error other ∧
        eval ⟨before ++ first :: second :: after, result⟩ = .error error ∧
        eval ⟨before ++ second :: first :: after, result⟩ = .error other) := by
  rcases eval_exchange_or before after result independent with
    same | ⟨store, error, other, ran, failed, otherFailed⟩
  · rw [same]
    exact ⟨fun _ => .rfl, .rfl, fun different => absurd rfl different⟩
  · rw [eval_fails ran failed, eval_fails ran otherFailed]
    exact ⟨by simp, by simp, fun _ => ⟨store, error, other, ran, failed, otherFailed, rfl, rfl⟩⟩

/-- Divides a temporary, and fails if the divisor is zero. -/
def quotientBy (divisor : String) : Instruction :=
  ⟨"a", .divide, .temp "t", .literal divisor⟩

/-- Multiplies the same temporary, and fails if the product does not fit. -/
def productWith (factor : String) : Instruction :=
  ⟨"b", .multiply, .literal factor, .temp "t"⟩

/-- Computes a sum, runs two instructions, and puts the difference of their results in the place of the sum. -/
def differenceOf (first second : Instruction) : Program :=
  ⟨[⟨"t", .add, .literal "4", .literal "2"⟩] ++ first :: second :: [⟨"t", .subtract, .temp "a", .temp "b"⟩],
    .temp "t"⟩

theorem quotient_and_product_change_places :
    (quotientBy "3").Independent (productWith "5") ∧
    (differenceOf (quotientBy "3") (productWith "5")).eval = .ok (-28) ∧
    (differenceOf (productWith "5") (quotientBy "3")).eval = .ok (-28) ∧
    (quotientBy "0").Independent (productWith "9223372036854775807") ∧
    (differenceOf (quotientBy "0") (productWith "9223372036854775807")).eval = .error (.divisionByZero "a") ∧
    ∃ error, (differenceOf (productWith "9223372036854775807") (quotientBy "0")).eval = .error error := by
  have computing : (quotientBy "3").Independent (productWith "5") := ⟨by decide, by decide, by decide⟩
  have value : (differenceOf (quotientBy "3") (productWith "5")).eval = .ok (-28) := rfl
  have failing : (quotientBy "0").Independent (productWith "9223372036854775807") :=
    ⟨by decide, by decide, by decide⟩
  have failed : (differenceOf (quotientBy "0") (productWith "9223372036854775807")).eval =
      .error (.divisionByZero "a") := rfl
  exact ⟨computing, value, ((eval_exchange _ _ _ computing).1 _).mpr value, failing, failed,
    (eval_exchange _ _ _ failing).2.1.mpr ⟨_, failed⟩⟩

end Program

end ThreeAddress
