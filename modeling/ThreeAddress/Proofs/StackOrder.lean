import ThreeAddress.Proofs.Renaming

/-! Generated code runs on a stack. Every temporary is defined once and read once, and an instruction
reads the temporaries that were defined last among those not read yet, so their names never
matter: a result is found on top of the stack or right below it. -/

namespace ThreeAddress

def Operand.temps : Operand → List String
  | .literal _ => []
  | .temp name => [name]

/-- The temporaries that an instruction reads, the left operand first. -/
def Instruction.reads (instruction : Instruction) : List String :=
  instruction.lhs.temps ++ instruction.rhs.temps

def dests (code : List Instruction) : List String :=
  code.map Instruction.dest

/-- All that code reads, one entry for each time a temporary is an operand. -/
def allReads (code : List Instruction) : List String :=
  code.flatMap Instruction.reads

/-- The temporaries that code has defined and not read, the last one first. -/
def unread (code : List Instruction) : List String :=
  ((dests code).filter (· ∉ allReads code)).reverse

/-- Running code on a stack of temporaries. An instruction takes the ones it reads off the top, the
right operand first, and puts its own there. -/
inductive OnStack : List String → List Instruction → List String → Prop where
  | done (stack : List String) : OnStack stack [] stack
  | step {instruction : Instruction} {below last : List String} {rest : List Instruction}
      (more : OnStack (instruction.dest :: below) rest last) :
      OnStack (instruction.rhs.temps ++ instruction.lhs.temps ++ below) (instruction :: rest) last

theorem OnStack.single (instruction : Instruction) (below : List String) :
    OnStack (instruction.rhs.temps ++ instruction.lhs.temps ++ below) [instruction] (instruction.dest :: below) :=
  .step (.done _)

section
variable {first middle last : List String} {before after : List Instruction}

theorem OnStack.trans (earlier : OnStack first before middle) (later : OnStack middle after last) :
    OnStack first (before ++ after) last := by
  induction earlier with
  | done stack => exact later
  | step more ih => exact .step (ih later)

theorem OnStack.split (runs : OnStack first (before ++ after) last) :
    ∃ middle, OnStack first before middle ∧ OnStack middle after last := by
  induction before generalizing first with
  | nil => exact ⟨first, .done first, runs⟩
  | cons instruction before ih =>
    cases runs with
    | step more =>
      obtain ⟨middle, earlier, later⟩ := ih more
      exact ⟨middle, .step earlier, later⟩

end

theorem dests_append (before after : List Instruction) : dests (before ++ after) = dests before ++ dests after :=
  List.map_append

private theorem allReads_append (before after : List Instruction) :
    allReads (before ++ after) = allReads before ++ allReads after :=
  List.flatMap_append

private theorem allReads_single (instruction : Instruction) :
    allReads [instruction] = instruction.lhs.temps ++ instruction.rhs.temps :=
  List.flatMap_singleton ..

/-- The temporaries of an expression, in the order in which they are defined. -/
theorem Expr.lower_dests (e : Expr) (temps : TempSupply) :
    dests (e.lower temps).code = (List.range' (temps.issued + 1) e.operators).map tempName := by
  induction e generalizing temps with
  | number text => rfl
  | binary op left right first second =>
    have middle : temps.issued + left.operators + 1 = temps.issued + 1 + left.operators := by omega
    have last : temps.issued + left.operators + right.operators + 1 =
        temps.issued + 1 + (left.operators + right.operators) := by omega
    rw [lower_binary_code, dests_append, dests_append, first, second, lower_issued, middle, last, operators,
      List.range'_1_concat, ← List.range'_append_1, List.map_append, List.map_append]
    rfl

theorem Expr.lower_ops (e : Expr) (temps : TempSupply) :
    (e.lower temps).code.map Instruction.op = e.nodes.map Node.op := by
  induction e generalizing temps with
  | number text => rfl
  | binary op left right first second =>
    rw [lower_binary_code, nodes, List.map_append, List.map_append, List.map_append, List.map_append, first, second]
    rfl

/-- Each temporary is an operand once, the last one as the result. -/
theorem Expr.lower_reads (e : Expr) (temps : TempSupply) :
    (allReads (e.lower temps).code ++ (e.lower temps).result.temps).Perm (dests (e.lower temps).code) := by
  induction e generalizing temps with
  | number text => exact .refl _
  | binary op left right first second =>
    rw [lower_binary_code, lower_binary_result, dests_append, dests_append, allReads_append, allReads_append]
    have early := first temps
    have late := second (left.lower temps).temps
    refine List.Perm.append_right _ (.trans ?_ (early.append late))
    simp only [List.append_assoc]
    refine List.Perm.append_left _ ?_
    rw [allReads_single]
    exact List.perm_append_comm_assoc ..

private theorem filter_not_mem_append {front below : List String} (distinct : (front ++ below).Nodup) :
    (front ++ below).filter (· ∉ front) = below := by
  obtain ⟨_, _, apart⟩ := List.nodup_append.mp distinct
  have gone : front.filter (· ∉ front) = [] := by simp
  have kept : below.filter (· ∉ front) = below := by
    apply List.filter_eq_self.mpr
    intro name inside
    apply decide_eq_true
    intro member
    exact apart name member name inside rfl
  rw [List.filter_append, gone, kept, List.nil_append]

/-- What code has left unread, when it defines no temporary twice and reads none too early. -/
structure Tracks (code : List Instruction) (stack : List String) : Prop where
  distinct : (dests code).Nodup
  known : ∀ name ∈ allReads code, name ∈ dests code
  pending : unread code = stack

private theorem Tracks.mem_dests {code : List Instruction} {stack : List String} {name : String}
    (tracks : Tracks code stack) (member : name ∈ stack) : name ∈ dests code := by
  rw [← tracks.pending, unread, List.mem_reverse] at member
  exact (List.mem_filter.mp member).1

section
variable {code : List Instruction} {instruction : Instruction} {below : List String}

private theorem Tracks.reads_known
    (tracks : Tracks code (instruction.rhs.temps ++ instruction.lhs.temps ++ below)) :
    ∀ name ∈ instruction.reads, name ∈ dests code := by
  intro name member
  apply tracks.mem_dests
  rcases List.mem_append.mp member with left | right
  · exact List.mem_append_left _ (List.mem_append_right _ left)
  · exact List.mem_append_left _ (List.mem_append_left _ right)

private theorem Tracks.unread_concat
    (tracks : Tracks code (instruction.rhs.temps ++ instruction.lhs.temps ++ below))
    (fresh : instruction.dest ∉ allReads (code ++ [instruction])) :
    unread (code ++ [instruction]) = instruction.dest :: below := by
  have distinct : (unread code).Nodup := (List.reverse_perm _).nodup_iff.mpr (tracks.distinct.filter _)
  rw [tracks.pending] at distinct
  -- What is left of the earlier temporaries is what was left before, without the two operands.
  have earlier : (dests code).filter (· ∉ allReads (code ++ [instruction])) =
      ((dests code).filter (· ∉ allReads code)).filter (· ∉ instruction.rhs.temps ++ instruction.lhs.temps) := by
    rw [List.filter_filter, allReads_append, allReads_single]
    apply List.filter_congr
    intro name _
    simp only [List.mem_append]
    grind
  have own : (dests [instruction]).filter (· ∉ allReads (code ++ [instruction])) = [instruction.dest] :=
    List.filter_eq_self.mpr (by simpa [dests] using fresh)
  rw [unread, dests_append, List.filter_append, own, earlier, List.reverse_append, ← List.filter_reverse]
  change instruction.dest :: (unread code).filter _ = _
  rw [tracks.pending, filter_not_mem_append distinct]

theorem Tracks.step (tracks : Tracks code (instruction.rhs.temps ++ instruction.lhs.temps ++ below))
    (fresh : instruction.dest ∉ dests code) : Tracks (code ++ [instruction]) (instruction.dest :: below) := by
  have known : ∀ name ∈ allReads (code ++ [instruction]), name ∈ dests code := by
    intro name member
    rw [allReads_append, allReads_single] at member
    rcases List.mem_append.mp member with earlier | here
    · exact tracks.known name earlier
    · exact tracks.reads_known name here
  refine ⟨?_, ?_, ?_⟩
  · rw [dests_append]
    refine List.nodup_append.mpr ⟨tracks.distinct, by simp [dests], ?_⟩
    intro name earlier other here same
    cases List.mem_singleton.mp here
    exact fresh (same ▸ earlier)
  · intro name member
    rw [dests_append]
    exact List.mem_append_left _ (known name member)
  · exact tracks.unread_concat fun member => fresh (known _ member)

end

/-- A run on a stack always has there what is left unread. -/
theorem OnStack.tracks {stack last : List String} {code rest : List Instruction} (runs : OnStack stack rest last)
    (tracks : Tracks code stack) (distinct : (dests (code ++ rest)).Nodup) : Tracks (code ++ rest) last := by
  induction runs generalizing code with
  | done stack => rwa [List.append_nil]
  | @step instruction below last rest more ih =>
    rw [List.append_cons] at distinct ⊢
    apply ih _ distinct
    apply tracks.step
    intro again
    rw [dests_append, dests_append] at distinct
    have both := (List.nodup_append.mp (List.nodup_append.mp distinct).1).2.2
    exact both _ again instruction.dest List.mem_cons_self rfl

private theorem tempName_nodup (start count : Nat) : ((List.range' start count).map tempName).Nodup := by
  have numbers : (List.range' start count).Nodup := List.nodup_range' ..
  apply List.pairwise_map.mpr
  exact numbers.imp fun different same => different (tempName_injective same)

theorem Expr.lower_distinct (e : Expr) (temps : TempSupply) : (dests (e.lower temps).code).Nodup := by
  rw [lower_dests]
  exact tempName_nodup _ _

end ThreeAddress
