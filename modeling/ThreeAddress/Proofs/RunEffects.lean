import ThreeAddress.Command.Run
import ThreeAddress.Proofs.CommandLines
import ThreeAddress.Proofs.CompilationStages

/-! What a run of the command does to the files and what it shows. A run can go in six ways; which
one it takes follows from the source, the compilation and the place for the listing. -/

namespace ThreeAddress

private theorem run_bind_of_run {σ α β : Type} {action : StateM σ α} {next : α → StateM σ β} {before after : σ}
    {a : α} (ran : action.run before = (a, after)) : (action >>= next).run before = (next a).run after := by
  rw [StateT.run_bind, ran]
  rfl

namespace FileTree
variable {tree after : FileTree} {path : String} {location : Location} {contents : ByteArray}

/-- Where a path asks for a file, if one can be there: a directory must not be in its place. -/
def Creatable (tree : FileTree) (path : String) (location : Location) : Prop :=
  tree.locateFile path = .ok location ∧ tree.at? location ≠ some .directory

theorem write_of_creatable (creatable : tree.Creatable path location) (contents : ByteArray) :
    tree.write path contents = .ok (tree.insert location (.file contents)) := by
  obtain ⟨located, free⟩ := creatable
  unfold write
  rw [located, ok_bind]
  split
  next occupied => exact absurd occupied free
  next => rfl

theorem creatable_of_write (wrote : tree.write path contents = .ok after) :
    ∃ location, tree.Creatable path location ∧ after = tree.insert location (.file contents) := by
  obtain ⟨location, located, wrote⟩ := bind_eq_ok.mp wrote
  split at wrote
  next => cases wrote
  next free =>
    cases wrote
    exact ⟨location, ⟨located, free⟩, rfl⟩

theorem Creatable.below (creatable : tree.Creatable path location) : location ≠ [] := by
  intro top
  subst top
  exact creatable.2 rfl

private theorem access_read (tree : FileTree) (path : String) :
    (access.read path).run tree = (tree.read path, tree) := rfl

private theorem access_write_ok (wrote : tree.write path contents = .ok after) :
    (access.write path contents).run tree = (.ok (), after) := by
  have got : (get : StateM FileTree FileTree).run tree = (tree, tree) := rfl
  unfold access
  simp only
  rw [run_bind_of_run got]
  simp only [wrote]
  rfl

private theorem access_write_error {error : FileError} (refused : tree.write path contents = .error error) :
    (access.write path contents).run tree = (.error error, tree) := by
  have got : (get : StateM FileTree FileTree).run tree = (tree, tree) := rfl
  unfold access
  simp only
  rw [run_bind_of_run got]
  simp only [refused]
  rfl

end FileTree

/-- These bytes are the listing of a program: a line for each instruction and one for the result, and
all that is written where there is room for them. -/
structure Program.ListedAs (program : Program) (contents : ByteArray) : Prop where
  lines : contents = (String.join (program.instructions.map fun instruction =>
    instruction.dest ++ " = " ++ instruction.lhs.text ++ " " ++ instruction.op.symbol ++ " " ++
      instruction.rhs.text ++ "\n") ++ ("result = " ++ program.result.text ++ "\n")).toUTF8
  written : ∀ capacity, contents.size ≤ capacity →
    program.writeTo ⟨capacity, []⟩ = (.ok (), ⟨capacity, contents.data.toList⟩)

theorem Program.listedAs_listing (program : Program) : program.ListedAs program.listing.toUTF8 := by
  refine ⟨?_, fun _ => program.writeTo_of_room⟩
  rw [program.listing_eq_lines, Program.lines, List.map_map]
  rfl

end ThreeAddress

namespace ThreeAddress.Command

/-- The text of a source, if it can be read. A file has to hold UTF-8. -/
def Source.textIn (tree : FileTree) : Source → Except FileError String
  | .file path => do
    match String.fromUTF8? (← tree.read path) with
    | some decoded => .ok decoded
    | none => .error .notText
  | .text given => .ok given
  | .demo => .ok demoSource

/-- The source is read and compiled, as far as the request asks. -/
def Request.Compiles (request : Request) (tree : FileTree) (compilation : Compilation) : Prop :=
  ∃ source, request.source.textIn tree = .ok source ∧
    compile source request.stop request.strict = .ok compilation

def HoldsListing (tree : FileTree) (location : Location) (program : Program) : Prop :=
  ∃ contents, tree.at? location = some (.file contents) ∧ program.ListedAs contents

/-- The listing of the program is where the request asks for it. -/
def Request.Listed (request : Request) (tree after : FileTree) (program : Program) : Prop :=
  ∃ location, tree.locateFile request.source.listingPath = .ok location ∧ HoldsListing after location program

/-- What a request shows, run over a tree, and the tree that it leaves. -/
def Request.effect (request : Request) (tree : FileTree) : Outcome × FileTree :=
  (request.run FileTree.access).run tree

/-- What a command line shows, run over a tree, and the tree that it leaves. -/
def runOver (tree : FileTree) (arguments : List String) : Outcome × FileTree :=
  (run FileTree.access arguments).run tree

/-- All that a run can do with a compilation. The listing comes before the value. -/
inductive Handled (request : Request) (tree : FileTree) (compilation : Compilation) :
    Outcome × FileTree → Prop where
  | stopped (early : compilation.program = none) :
      Handled request tree compilation (.success (report compilation), tree)
  | unwritable {program : Program} {error : FileError} (made : compilation.program = some program)
      (asked : request.listing = true)
      (refused : tree.write request.source.listingPath program.listing.toUTF8 = .error error) :
      Handled request tree compilation
        (.failure (report compilation) ("Unable to write " ++ request.source.listingPath) [error.message], tree)
  | written {program : Program} {after : FileTree} (made : compilation.program = some program)
      (asked : request.listing = true)
      (wrote : tree.write request.source.listingPath program.listing.toUTF8 = .ok after) :
      Handled request tree compilation (request.finish program (report compilation), after)
  | unlisted {program : Program} (made : compilation.program = some program) (unasked : request.listing = false) :
      Handled request tree compilation (request.finish program (report compilation), tree)

/-- All that a run can do. -/
inductive Ran (request : Request) (tree : FileTree) : Outcome × FileTree → Prop where
  | unreadable {error : FileError} (unread : request.source.textIn tree = .error error) :
      Ran request tree
        (.failure "" ("Unable to read source file: " ++ request.source.name) [error.message], tree)
  | uncompilable {source : String} {error : CompileError} (read : request.source.textIn tree = .ok source)
      (failed : compile source request.stop request.strict = .error error) :
      Ran request tree
        (.failure "" ("Failed to compile " ++ request.source.name) [error.message, error.cause], tree)
  | compiled {compilation : Compilation} {result : Outcome × FileTree}
      (compiles : request.Compiles tree compilation) (handled : Handled request tree compilation result) :
      Ran request tree result

/-- How a run ends once it is past the listing. -/
inductive Finished (request : Request) (program : Program) (printed : String) : Outcome → Prop where
  | unasked (unasked : request.evaluate = false) : Finished request program printed (.success printed)
  | failed {error : EvalError} (asked : request.evaluate = true) (failed : program.eval = .error error)
      (message : String) (causes : List String) : Finished request program printed (.failure printed message causes)
  | evaluated {value : Int} (asked : request.evaluate = true) (result : program.eval = .ok value) (shown : String) :
      Finished request program printed (.success (printed ++ shown))

private theorem Source.load_access (source : Source) (tree : FileTree) :
    (source.load FileTree.access).run tree = (source.textIn tree, tree) := by
  cases source with
  | file path =>
    unfold load FileAccess.readText textIn
    simp only
    rw [run_bind_of_run (tree.access_read path)]
    cases tree.read path with
    | error error => rfl
    | ok contents =>
      simp only [ok_bind]
      cases String.fromUTF8? contents <;> rfl
  | text given => rfl
  | demo => rfl

section
variable {request : Request} {tree : FileTree} {compilation : Compilation} {result : Outcome × FileTree}

theorem Ran.effect_eq (ran : Ran request tree result) : request.effect tree = result := by
  have loaded := request.source.load_access tree
  unfold Request.effect Request.run
  rw [run_bind_of_run loaded]
  cases ran with
  | unreadable unread =>
    simp only [unread]
    rfl
  | uncompilable read failed =>
    simp only [read, failed]
    rfl
  | compiled compiles handled =>
    obtain ⟨source, read, compiled⟩ := compiles
    cases handled with
    | stopped early =>
      simp only [read, compiled, early]
      rfl
    | unwritable made asked refused =>
      simp only [read, compiled, made, asked, if_true]
      rw [Program.saveTo_eq]
      exact run_bind_of_run (FileTree.access_write_error refused)
    | written made asked wrote =>
      simp only [read, compiled, made, asked, if_true]
      rw [Program.saveTo_eq]
      exact run_bind_of_run (FileTree.access_write_ok wrote)
    | unlisted made unasked =>
      simp only [read, compiled, made, unasked]
      rfl

private theorem exists_handled (request : Request) (tree : FileTree) (compilation : Compilation) :
    ∃ result, Handled request tree compilation result := by
  cases made : compilation.program with
  | none => exact ⟨_, .stopped made⟩
  | some program =>
    cases asked : request.listing with
    | false => exact ⟨_, .unlisted made asked⟩
    | true =>
      cases wrote : tree.write request.source.listingPath program.listing.toUTF8 with
      | error error => exact ⟨_, .unwritable made asked wrote⟩
      | ok after => exact ⟨_, .written made asked wrote⟩

theorem Request.ran (request : Request) (tree : FileTree) : Ran request tree (request.effect tree) := by
  have possible : ∃ result, Ran request tree result := by
    cases read : request.source.textIn tree with
    | error error => exact ⟨_, .unreadable read⟩
    | ok source =>
      cases compiled : compile source request.stop request.strict with
      | error error => exact ⟨_, .uncompilable read compiled⟩
      | ok compilation =>
        obtain ⟨result, handled⟩ := exists_handled request tree compilation
        exact ⟨result, .compiled ⟨source, read, compiled⟩ handled⟩
  obtain ⟨result, ran⟩ := possible
  rw [ran.effect_eq]
  exact ran

theorem Request.Compiles.program_iff (compiles : request.Compiles tree compilation) :
    (∃ program, compilation.program = some program) ↔ RunsWhole request.stop := by
  obtain ⟨source, _, compiled⟩ := compiles
  exact program_of_compile compiled

theorem Request.Compiles.handled (compiles : request.Compiles tree compilation) :
    Handled request tree compilation (request.effect tree) := by
  obtain ⟨result, handled⟩ := exists_handled request tree compilation
  rw [(Ran.compiled compiles handled).effect_eq]
  exact handled

theorem Request.effect_of_uncompiled (fails : ¬ ∃ compilation, request.Compiles tree compilation) :
    (request.effect tree).1.stdout = "" ∧ (request.effect tree).2 = tree ∧ (request.effect tree).1.exit = 1 := by
  generalize effected : request.effect tree = result
  have ran := request.ran tree
  rw [effected] at ran
  cases ran with
  | unreadable | uncompilable => exact ⟨rfl, rfl, rfl⟩
  | compiled compiles handled => exact absurd ⟨_, compiles⟩ fails

theorem Request.finished (request : Request) (program : Program) (printed : String) :
    Finished request program printed (request.finish program printed) := by
  unfold finish
  split
  next asked =>
    unfold Program.evaluate
    cases result : program.eval with
    | error error => exact .failed asked result _ _
    | ok value =>
      rw [mapError_ok]
      simp only [String.append_assoc]
      exact .evaluated asked result _
  next unasked => exact .unasked (Bool.eq_false_iff.mpr unasked)

end

section
variable {request : Request} {program : Program} {printed : String} {outcome : Outcome}

theorem Finished.exit_iff (finished : Finished request program printed outcome) :
    outcome.exit = 0 ↔ (request.evaluate = true → ∃ value, program.eval = .ok value) := by
  cases finished with
  | unasked unasked => simp [Outcome.success, unasked]
  | failed asked failed => simp [Outcome.failure, asked, failed]
  | evaluated asked result => simp [Outcome.success, asked, result]

private theorem Finished.stdout_eq (finished : Finished request program printed outcome)
    (valueless : request.evaluate = true → ∃ error, program.eval = .error error) : outcome.stdout = printed := by
  cases finished with
  | unasked unasked => rfl
  | failed asked failed => rfl
  | evaluated asked result =>
    obtain ⟨error, failed⟩ := valueless asked
    cases result.symm.trans failed

private theorem Finished.stdout_begins (finished : Finished request program printed outcome) :
    printed.toList <+: outcome.stdout.toList := by
  cases finished with
  | unasked unasked => exact List.prefix_refl _
  | failed asked failed => exact List.prefix_refl _
  | evaluated asked result shown =>
    change _ <+: (printed ++ shown).toList
    rw [String.toList_append]
    exact List.prefix_append _ _

end

section
variable {request : Request} {tree : FileTree} {compilation : Compilation} {result : Outcome × FileTree}

theorem Handled.changes (handled : Handled request tree compilation result) {location : Location}
    (changed : result.2.at? location ≠ tree.at? location) :
    request.listing = true ∧ (∃ program, compilation.program = some program) ∧
      tree.locateFile request.source.listingPath = .ok location := by
  cases handled with
  | written made asked wrote =>
    obtain ⟨place, creatable, rfl⟩ := FileTree.creatable_of_write wrote
    by_cases here : location = place
    · subst here
      exact ⟨asked, ⟨_, made⟩, creatable.1⟩
    · exact absurd (tree.at?_insert_of_ne _ here) changed
  | stopped | unwritable | unlisted => exact absurd rfl changed

theorem Handled.lists {program : Program} {location : Location} (handled : Handled request tree compilation result)
    (made : compilation.program = some program) (asked : request.listing = true)
    (creatable : tree.Creatable request.source.listingPath location) :
    result.2.at? location = some (.file program.listing.toUTF8) := by
  have possible := FileTree.write_of_creatable creatable program.listing.toUTF8
  cases handled with
  | stopped early => cases early.symm.trans made
  | unwritable remade _ refused =>
    cases made.symm.trans remade
    cases possible.symm.trans refused
  | written remade _ wrote =>
    cases made.symm.trans remade
    cases possible.symm.trans wrote
    exact tree.at?_insert_self _ creatable.below
  | unlisted _ unasked => cases asked.symm.trans unasked

private theorem Request.not_listed_of_refused {program : Program} {error : FileError}
    (refused : tree.write request.source.listingPath program.listing.toUTF8 = .error error) :
    ¬ request.Listed tree tree program := by
  intro ⟨location, located, contents, listed, _⟩
  -- Where the listing stands already, it could have been written again.
  have creatable : tree.Creatable request.source.listingPath location := by
    refine ⟨located, ?_⟩
    rw [listed]
    simp
  rw [FileTree.write_of_creatable creatable] at refused
  cases refused

private theorem Request.listed_of_write {program : Program} {after : FileTree}
    (wrote : tree.write request.source.listingPath program.listing.toUTF8 = .ok after) :
    request.Listed tree after program := by
  obtain ⟨location, creatable, rfl⟩ := FileTree.creatable_of_write wrote
  exact ⟨location, creatable.1, _, tree.at?_insert_self _ creatable.below, program.listedAs_listing⟩

theorem Handled.exit_iff (handled : Handled request tree compilation result) :
    result.1.exit = 0 ↔ ∀ program, compilation.program = some program →
      (request.listing = true → request.Listed tree result.2 program) ∧
      (request.evaluate = true → ∃ value, program.eval = .ok value) := by
  cases handled with
  | stopped early => simp [Outcome.success, early]
  | unwritable made asked refused =>
    have unlisted := Request.not_listed_of_refused refused
    simp [Outcome.failure, made, asked, unlisted]
  | written made asked wrote =>
    have listed := Request.listed_of_write wrote
    simp [(request.finished _ _).exit_iff, made, asked, listed]
  | unlisted made unasked => simp [(request.finished _ _).exit_iff, made, unasked]

/-- Everything that was compiled is shown before anything else can go wrong. -/
theorem Handled.report_begins (handled : Handled request tree compilation result) :
    (report compilation).toList <+: result.1.stdout.toList := by
  cases handled with
  | stopped | unwritable => exact List.prefix_refl _
  | written | unlisted => exact (request.finished _ _).stdout_begins

theorem Handled.stdout_eq_report (handled : Handled request tree compilation result)
    (valueless : request.evaluate = true → ∀ program, compilation.program = some program →
      ∃ error, program.eval = .error error) : result.1.stdout = report compilation := by
  cases handled with
  | stopped | unwritable => rfl
  | written made | unlisted made =>
    exact (request.finished _ _).stdout_eq fun asked => valueless asked _ made

private theorem Handled.stdout_of_uncreatable (handled : Handled request tree compilation result)
    (asked : request.listing = true)
    (uncreatable : ∀ location, ¬ tree.Creatable request.source.listingPath location) :
    result.1.stdout = report compilation := by
  cases handled with
  | stopped | unwritable => rfl
  | written _ _ wrote =>
    obtain ⟨location, creatable, _⟩ := FileTree.creatable_of_write wrote
    exact absurd creatable (uncreatable location)
  | unlisted _ unasked => cases asked.symm.trans unasked

end

section
variable {request : Request} {tree : FileTree} {arguments : List String}

theorem runOver_of_asks (asks : Asks arguments request) : runOver tree arguments = request.effect tree := by
  unfold runOver run
  rw [asks]
  rfl

theorem Request.changes {location : Location}
    (changed : (request.effect tree).2.at? location ≠ tree.at? location) :
    request.listing = true ∧ RunsWhole request.stop ∧ (∃ compilation, request.Compiles tree compilation) ∧
      tree.locateFile request.source.listingPath = .ok location := by
  by_cases compilable : ∃ compilation, request.Compiles tree compilation
  · obtain ⟨compilation, compiles⟩ := compilable
    obtain ⟨asked, made, located⟩ := compiles.handled.changes changed
    exact ⟨asked, compiles.program_iff.mp made, ⟨compilation, compiles⟩, located⟩
  · rw [(effect_of_uncompiled compilable).2.1] at changed
    exact absurd rfl changed

theorem Request.exit_iff (request : Request) (tree : FileTree) :
    (request.effect tree).1.exit = 0 ↔ ∃ compilation, request.Compiles tree compilation ∧
      ∀ program, compilation.program = some program →
        (request.listing = true → request.Listed tree (request.effect tree).2 program) ∧
        (request.evaluate = true → ∃ value, program.eval = .ok value) := by
  constructor
  · intro succeeded
    by_cases compilable : ∃ compilation, request.Compiles tree compilation
    · obtain ⟨compilation, compiles⟩ := compilable
      exact ⟨compilation, compiles, compiles.handled.exit_iff.mp succeeded⟩
    · cases succeeded.symm.trans (effect_of_uncompiled compilable).2.2
  · intro ⟨compilation, compiles, complete⟩
    exact compiles.handled.exit_iff.mpr complete

private theorem Request.stdout_without_value {compilation : Compilation} {program : Program} {error : EvalError}
    (compiles : request.Compiles tree compilation) (made : compilation.program = some program)
    (failed : program.eval = .error error) :
    (request.effect tree).1.stdout = ({ request with evaluate := false }.effect tree).1.stdout := by
  have quiet : { request with evaluate := false }.Compiles tree compilation := compiles
  rw [quiet.handled.stdout_eq_report nofun]
  apply compiles.handled.stdout_eq_report
  intro _ other remade
  cases made.symm.trans remade
  exact ⟨error, failed⟩

private theorem Request.stdout_without_listing (asked : request.listing = true)
    (uncreatable : ∀ location, ¬ tree.Creatable request.source.listingPath location) :
    (request.effect tree).1.stdout =
      ({ request with listing := false, evaluate := false }.effect tree).1.stdout := by
  by_cases compilable : ∃ compilation, request.Compiles tree compilation
  · obtain ⟨compilation, compiles⟩ := compilable
    have quiet : { request with listing := false, evaluate := false }.Compiles tree compilation := compiles
    rw [compiles.handled.stdout_of_uncreatable asked uncreatable, quiet.handled.stdout_eq_report nofun]
  · have quiet : ¬ ∃ compilation,
        { request with listing := false, evaluate := false }.Compiles tree compilation := compilable
    rw [(effect_of_uncompiled compilable).1, (effect_of_uncompiled quiet).1]

/-- A source that compiles does so at every stage, with the same tokens and the same expression. -/
private theorem Request.compiles_upTo {stop : Option Stage} (whole : RunsWhole stop)
    (compiles : ∃ compilation, { request with stop }.Compiles tree compilation) :
    ∃ tokens e, ∀ stop, { request with stop }.Compiles tree (.upTo tokens e stop) := by
  obtain ⟨compilation, source, read, compiled⟩ := compiles
  obtain ⟨tokens, scanned, ⟨early, _⟩ | ⟨e, parsed, _⟩⟩ := compile_ok_cases compiled
  · exact absurd early whole.1
  · exact ⟨tokens, e, fun stop => ⟨source, read, compile_of_read scanned parsed stop⟩⟩

private theorem report_expression_begins (tokens : List Token) (e : Expr) :
    (report (.upTo tokens e (some .tokens))).toList <+: (report (.upTo tokens e (some .expression))).toList := by
  simp [report, Compilation.upTo]

private theorem report_program_begins (tokens : List Token) (e : Expr) :
    (report (.upTo tokens e (some .expression))).toList <+: (report (.upTo tokens e none)).toList := by
  simp [report, Compilation.upTo]

private theorem Request.stdout_stages {stop : Option Stage} (whole : RunsWhole stop)
    (compiles : ∃ compilation, { request with stop }.Compiles tree compilation) :
    ({ request with stop := some .tokens }.effect tree).1.stdout.toList <+:
        ({ request with stop := some .expression }.effect tree).1.stdout.toList ∧
      ({ request with stop := some .expression }.effect tree).1.stdout.toList <+:
        ({ request with stop }.effect tree).1.stdout.toList := by
  obtain ⟨tokens, e, compiles⟩ := compiles_upTo whole compiles
  have lexed := (compiles (some .tokens)).handled.stdout_eq_report nofun
  have parsed := (compiles (some .expression)).handled.stdout_eq_report nofun
  have shown := (compiles stop).handled.report_begins
  rw [Compilation.upTo_of_whole whole] at shown
  rw [lexed, parsed]
  exact ⟨report_expression_begins tokens e, (report_program_begins tokens e).trans shown⟩

end

/-- What a command line does to a tree and shows, when it asks for a request. The last three parts
compare it with command lines that ask for something else. -/
structure Effects (tree : FileTree) (request : Request) (arguments : List String) : Prop where
  /-- Only the listing changes, and only after a whole compilation. -/
  changes : ∀ location, (runOver tree arguments).2.at? location ≠ tree.at? location →
    request.listing = true ∧ RunsWhole request.stop ∧ (∃ compilation, request.Compiles tree compilation) ∧
      tree.locateFile request.source.listingPath = .ok location
  /-- The listing is there whether or not the program has a value. -/
  lists : ∀ compilation location, request.listing = true → RunsWhole request.stop →
    request.Compiles tree compilation → tree.Creatable request.source.listingPath location →
      ∃ program, compilation.program = some program ∧ HoldsListing (runOver tree arguments).2 location program
  fails : (¬ ∃ compilation, request.Compiles tree compilation) →
    (runOver tree arguments).1.stdout = "" ∧ (runOver tree arguments).2 = tree ∧ (runOver tree arguments).1.exit = 1
  succeeds : (runOver tree arguments).1.exit = 0 ↔ ∃ compilation, request.Compiles tree compilation ∧
    ∀ program, compilation.program = some program →
      (request.listing = true → request.Listed tree (runOver tree arguments).2 program) ∧
      (request.evaluate = true → ∃ value, program.eval = .ok value)
  valueless : ∀ compilation program error others, Asks others { request with evaluate := false } →
    request.Compiles tree compilation → compilation.program = some program → program.eval = .error error →
      (runOver tree arguments).1.stdout = (runOver tree others).1.stdout
  unlisted : ∀ others, Asks others { request with listing := false, evaluate := false } →
    request.listing = true → (∀ location, ¬ tree.Creatable request.source.listingPath location) →
      (runOver tree arguments).1.stdout = (runOver tree others).1.stdout
  stages : ∀ lexed parsed others stop, Asks lexed { request with stop := some .tokens } →
    Asks parsed { request with stop := some .expression } → RunsWhole stop → Asks others { request with stop } →
    (∃ compilation, { request with stop }.Compiles tree compilation) →
      (runOver tree lexed).1.stdout.toList <+: (runOver tree parsed).1.stdout.toList ∧
        (runOver tree parsed).1.stdout.toList <+: (runOver tree others).1.stdout.toList

/-- Every request has a command line, and every command line that is accepted for a request keeps to
its effects, over every tree. -/
theorem run_effects : (∀ request, ∃ arguments, Asks arguments request) ∧
    ∀ tree request arguments, Asks arguments request → Effects tree request arguments := by
  refine ⟨fun request => ⟨request.arguments, request.asks_arguments⟩, ?_⟩
  intro tree request arguments asks
  have ran : runOver tree arguments = request.effect tree := runOver_of_asks asks
  constructor
  case changes =>
    intro location changed
    rw [ran] at changed
    exact Request.changes changed
  case lists =>
    intro compilation location asked whole compiles creatable
    obtain ⟨program, made⟩ := compiles.program_iff.mpr whole
    rw [ran]
    exact ⟨program, made, _, compiles.handled.lists made asked creatable, program.listedAs_listing⟩
  case fails =>
    rw [ran]
    exact Request.effect_of_uncompiled
  case succeeds =>
    rw [ran]
    exact request.exit_iff tree
  case valueless =>
    intro compilation program error others without compiles made failed
    rw [ran, runOver_of_asks without]
    exact Request.stdout_without_value compiles made failed
  case unlisted =>
    intro others without asked uncreatable
    rw [ran, runOver_of_asks without]
    exact Request.stdout_without_listing asked uncreatable
  case stages =>
    intro lexed parsed others stop asksLexed asksParsed whole asksOthers compiles
    rw [runOver_of_asks asksLexed, runOver_of_asks asksParsed, runOver_of_asks asksOthers]
    exact Request.stdout_stages whole compiles

/-- A quotient by zero leaves its listing behind and shows what it shows when it is not run. -/
theorem quotient_by_zero_is_listed :
    ∃ tree request program, tree = FileTree.ofContents [] [("d/a.txt", "6/(2-2)".toUTF8)] ∧
      request = { source := .file "d/a.txt", listing := true, evaluate := true } ∧
      program = Program.ofExpr (.binary .divide (.number "6") (.binary .subtract (.number "2") (.number "2"))) ∧
      Asks ["-d", "--eval", "d/a.txt"] request ∧ Effects tree request ["-d", "--eval", "d/a.txt"] ∧
      (runOver tree ["-d", "--eval", "d/a.txt"]).1.exit ≠ 0 ∧
      (runOver tree ["-d", "--eval", "d/a.txt"]).2.at? ["a.tac", "d"] =
        some (.file "temp1 = 2 - 2\ntemp2 = 6 / temp1\nresult = temp2\n".toUTF8) ∧
      (runOver tree ["-d", "--eval", "d/a.txt"]).1.stdout = (runOver tree ["-d", "d/a.txt"]).1.stdout := by
  refine ⟨_, _, _, rfl, rfl, rfl, ?_⟩
  generalize arranged : FileTree.ofContents [] [("d/a.txt", "6/(2-2)".toUTF8)] = tree
  generalize asked : ({ source := .file "d/a.txt", listing := true, evaluate := true } : Request) = request
  generalize meant : Program.ofExpr
    (.binary .divide (.number "6") (.binary .subtract (.number "2") (.number "2"))) = program
  have read : request.source.textIn tree = .ok "6/(2-2)" := by
    subst arranged asked
    with_unfolding_all rfl
  have creatable : tree.Creatable request.source.listingPath ["a.tac", "d"] := by
    subst arranged asked
    exact ⟨by with_unfolding_all rfl, nofun⟩
  have compiled : (compile "6/(2-2)" request.stop request.strict).map Compilation.program = .ok (some program) := by
    subst asked meant
    with_unfolding_all rfl
  have stopped : program.eval = .error (.divisionByZero "temp2") := by
    subst meant
    rfl
  have asks : Asks ["-d", "--eval", "d/a.txt"] request := by
    subst asked
    with_unfolding_all rfl
  have without : Asks ["-d", "d/a.txt"] { request with evaluate := false } := by
    subst asked
    with_unfolding_all rfl
  have effects := run_effects.2 tree request _ asks
  cases outcome : compile "6/(2-2)" request.stop request.strict with
  | error error => simp [outcome, Except.map] at compiled
  | ok compilation =>
    have made : compilation.program = some program := by
      simpa [outcome, Except.map] using compiled
    have compiles : request.Compiles tree compilation := ⟨_, read, outcome⟩
    refine ⟨asks, effects, ?_, ?_, effects.valueless _ _ _ _ without compiles made stopped⟩
    · intro succeeded
      obtain ⟨other, ⟨source, reread, recompiled⟩, complete⟩ := effects.succeeds.mp succeeded
      cases read.symm.trans reread
      cases outcome.symm.trans recompiled
      obtain ⟨value, result⟩ := (complete program made).2 (by rw [← asked])
      cases stopped.symm.trans result
    · obtain ⟨listed, remade, contents, there, listing⟩ :=
        effects.lists _ _ (by rw [← asked]) (by rw [← asked]; decide) compiles creatable
      cases made.symm.trans remade
      rw [there, listing.lines, ← meant]
      with_unfolding_all rfl

end ThreeAddress.Command
