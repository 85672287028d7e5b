import ThreeAddress.Command.Invocation

/-! Every request can be made. A source, a stage and flags in any combination have a command line
that asks for exactly them, whatever the path or the expression looks like. -/

namespace ThreeAddress.Command

/-- The arguments are accepted, and they ask for this compilation. -/
def Asks (arguments : List String) (request : Request) : Prop :=
  Invocation.ofArguments arguments = .ok (.compile request)

/-- The flags of a request. -/
def Request.flags (request : Request) : List Flag :=
  (match request.stop with
    | some .tokens => [.lex]
    | some .expression => [.parse]
    | some .program => [.tac]
    | none => [])
    ++ (if request.strict then [.strict] else [])
    ++ (if request.listing then [.listing] else [])
    ++ (if request.evaluate then [.eval] else [])

/-- The arguments that name a source. A path stands behind `--`, where nothing is an option. -/
def Source.arguments : Source → List String
  | .file path => ["--", path]
  | .text given => ["--expr=" ++ given]
  | .demo => []

def Source.items : Source → List Item
  | .file path => [.path path]
  | .text given => [.expr given]
  | .demo => []

def Request.arguments (request : Request) : List String :=
  request.flags.map Flag.name ++ request.source.arguments

private theorem items_cons {argument : String} {meant : List Item} (plain : argument ≠ "--")
    (piece : Piece.ofArgument argument = { items := meant }) (rest : List String) :
    items (argument :: rest) = meant ++ items rest := by
  rw [items.eq_def]
  simp only [if_neg plain, piece]
  rfl

theorem items_flags (flags : List Flag) (rest : List String) :
    items (flags.map Flag.name ++ rest) = flags.map Item.flag ++ items rest := by
  induction flags with
  | nil => rfl
  | cons flag flags ih =>
    have plain : flag.name ≠ "--" := by cases flag <;> decide
    have piece : Piece.ofArgument flag.name = { items := [.flag flag] } := by
      cases flag <;> decide +kernel
    rw [List.map_cons, List.cons_append, items_cons plain piece, ih]
    rfl

private theorem items_expression (given : String) : items ["--expr=" ++ given] = [.expr given] := by
  have characters : ("--expr=" ++ given).toList = '-' :: '-' :: ("expr".toList ++ '=' :: given.toList) := by
    rw [String.toList_append]
    rfl
  have plain : "--expr=" ++ given ≠ "--" := by
    intro same
    rw [same] at characters
    cases characters
  have piece : Piece.ofArgument ("--expr=" ++ given) = { items := [.expr given] } := by
    have letters : ∀ c ∈ "expr".toList, decide (c ≠ '=') = true := List.all_eq_true.mp rfl
    have name : ("expr".toList ++ '=' :: given.toList).takeWhile (· ≠ '=') = "expr".toList := by
      rw [List.takeWhile_append_of_pos letters]
      simp
    have value : ("expr".toList ++ '=' :: given.toList).dropWhile (· ≠ '=') = '=' :: given.toList := by
      rw [List.dropWhile_append_of_pos letters]
      simp
    have known : Switch.ofLong? "expr" = some .expr := by decide +kernel
    unfold Piece.ofArgument
    rw [characters]
    simp only [Piece.ofLong, name, value, String.ofList_toList, known]
  exact items_cons plain piece []

theorem items_source (source : Source) : items source.arguments = source.items := by
  cases source with
  | file path => rfl
  | text given => exact items_expression given
  | demo => rfl

theorem Request.asks_arguments (request : Request) : Asks request.arguments request := by
  obtain ⟨source, stop, strict, listing, evaluate⟩ := request
  rw [Asks, Invocation.ofArguments, Request.arguments, items_flags, items_source]
  rcases stop with _ | _ | _ | _ <;> cases source <;> cases strict <;> cases listing <;> cases evaluate <;> rfl

end ThreeAddress.Command
