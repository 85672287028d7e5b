import ThreeAddress.Proofs.LexicalLanguage
import ThreeAddress.Proofs.ListingPaths
import ThreeAddress.Proofs.RunEffects

/-! What becomes of the source file of a run. A run writes its listing at most, and a listing is never
a source itself, so the source file keeps its contents exactly as long as the listing goes to
another file. -/

namespace ThreeAddress

/-- The characters of the language. The word `id` has two that do not stand alone. -/
theorem Lexical.char {text : List Char} {c : Char} (lexical : Lexical text) (member : c ∈ text) :
    Elementary [c] ∨ c = 'i' ∨ c = 'd' := by
  obtain ⟨words, elementary, rfl⟩ := lexical
  obtain ⟨word, inside, here⟩ := List.mem_flatten.mp member
  have known := elementary word inside
  rcases known.shape with ⟨single, rfl⟩ | rfl
  · cases List.mem_singleton.mp here
    exact .inl known
  · simpa using Or.inr here

/-- The last line of a listing names the result, in letters that no source has. -/
private theorem Program.listing_not_lexical (program : Program) : ¬ Lexical program.listing.toList := by
  intro lexical
  have member : 'r' ∈ program.listing.toList := by
    rw [Program.listing, Program.pieces, String.join_append, String.join_cons, String.toList_append,
      String.toList_append]
    exact List.mem_append_right _ (List.mem_append_left _ (by decide))
  rcases lexical.char member with single | same | same
  · cases single with
    | digit digit => exact absurd digit (by decide)
    | symbol symbol => cases symbol
    | blank blank => exact absurd blank (by decide)
  · cases same
  · cases same

private theorem lexical_of_compile {source : String} {stop : Option Stage} {strict : Bool}
    {compilation : Compilation}
    (compiled : compile source stop strict = .ok compilation) : Lexical source.toList := by
  obtain ⟨tokens, scanned, _⟩ := compile_ok_cases compiled
  rcases tokenize_cases source with ⟨lexical, _⟩ | ⟨_, front, c, rest, _, _, failed⟩
  · exact lexical
  · cases scanned.symm.trans failed

private theorem fromUTF8?_toUTF8 (text : String) : String.fromUTF8? text.toUTF8 = some text := by
  have valid : text.toUTF8.IsValidUTF8 := text.isValidUTF8
  rw [String.fromUTF8?, dif_pos valid]
  rfl

namespace FileTree
variable {tree : FileTree} {path : String} {location : Location} {contents : ByteArray}

theorem read_eq_ok_iff : tree.read path = .ok contents ↔
    ∃ location, tree.locate path = .ok location ∧ tree.at? location = some (.file contents) := by
  constructor
  · intro read
    obtain ⟨location, located, found⟩ := bind_eq_ok.mp read
    refine ⟨location, located, ?_⟩
    split at found
    · cases found
    · cases found
    next file =>
      cases found
      exact file
  · rintro ⟨location, located, file⟩
    rw [read, located, ok_bind, file]

/-- A walk goes through directories only, so a file may appear or change without turning it. -/
private theorem walk_insert {here there : Location} {names : List String} {entry : Entry}
    (free : tree.at? location ≠ some .directory) (walked : tree.walk here names = .ok there) :
    (tree.insert location entry).walk here names = .ok there := by
  induction names generalizing here with
  | nil => exact walked
  | cons name rest ih =>
    simp only [walk] at walked
    split at walked
    · cases walked
    · cases walked
    next directory =>
      have elsewhere : here ≠ location := by
        intro same
        subst same
        exact free directory
      simp only [walk, tree.at?_insert_of_ne entry elsewhere, directory]
      exact ih walked

private theorem locate_insert {place : Location} {entry : Entry} (free : tree.at? place ≠ some .directory)
    (located : tree.locate path = .ok location) : (tree.insert place entry).locate path = .ok location := by
  unfold locate at located ⊢
  split at located
  · cases located
  next given =>
    rw [if_neg given]
    exact walk_insert free located

end FileTree

end ThreeAddress

namespace ThreeAddress.Command

section
variable {request : Request} {tree : FileTree} {compilation : Compilation} {path : String} {location : Location}

private theorem Handled.locate_eq {result : Outcome × FileTree} (handled : Handled request tree compilation result)
    (located : tree.locate path = .ok location) : result.2.locate path = .ok location := by
  cases handled with
  | written made asked wrote =>
    obtain ⟨place, creatable, rfl⟩ := FileTree.creatable_of_write wrote
    exact FileTree.locate_insert creatable.2 located
  | stopped | unwritable | unlisted => exact located

/-- A source file that compiles is a file, and its text belongs to the language. -/
private theorem Request.Compiles.source_file (compiles : request.Compiles tree compilation)
    (named : request.source = .file path) :
    ∃ location contents source, tree.locate path = .ok location ∧ tree.at? location = some (.file contents) ∧
      String.fromUTF8? contents = some source ∧ Lexical source.toList := by
  obtain ⟨source, read, compiled⟩ := compiles
  rw [named] at read
  obtain ⟨contents, readBytes, decoded⟩ := bind_eq_ok.mp read
  obtain ⟨location, located, file⟩ := FileTree.read_eq_ok_iff.mp readBytes
  split at decoded
  next text valid =>
    cases decoded
    exact ⟨location, contents, source, located, file, valid, lexical_of_compile compiled⟩
  next => cases decoded

private theorem Request.source_changed (named : request.source = .file path)
    (changed : (request.effect tree).2.read path ≠ tree.read path) :
    Path.IsListing path ∧ request.listing = true ∧ RunsWhole request.stop ∧
      ∃ compilation, request.Compiles tree compilation := by
  by_cases compilable : ∃ compilation, request.Compiles tree compilation
  · obtain ⟨compilation, compiles⟩ := compilable
    obtain ⟨location, contents, _, located, file, _⟩ := compiles.source_file named
    have moved : (request.effect tree).2.at? location ≠ tree.at? location := by
      intro kept
      apply changed
      rw [FileTree.read_eq_ok_iff.mpr ⟨location, located, file⟩]
      exact FileTree.read_eq_ok_iff.mpr ⟨location, compiles.handled.locate_eq located, kept.trans file⟩
    obtain ⟨asked, whole, _, place⟩ := Request.changes moved
    rw [named] at place
    exact ⟨(FileTree.locateFile_listing_iff located file).mp place, asked, whole, compilation, compiles⟩
  · exact absurd (by rw [(effect_of_uncompiled compilable).2.1]) changed

/-- A source with the name of a listing gives way to its own. -/
theorem Request.read_overwritten {program : Program} (named : request.source = .file path)
    (listed : Path.IsListing path) (asked : request.listing = true)
    (compiles : request.Compiles tree compilation) (made : compilation.program = some program) :
    (request.effect tree).2.read path = .ok program.listing.toUTF8 := by
  obtain ⟨location, contents, _, located, file, _⟩ := compiles.source_file named
  have creatable : tree.Creatable request.source.listingPath location := by
    rw [named]
    refine ⟨(FileTree.locateFile_listing_iff located file).mpr listed, ?_⟩
    rw [file]
    simp
  have written := compiles.handled.lists made asked creatable
  exact FileTree.read_eq_ok_iff.mpr ⟨location, compiles.handled.locate_eq located, written⟩

private theorem Request.source_overwritten (named : request.source = .file path) (listed : Path.IsListing path)
    (asked : request.listing = true) (whole : RunsWhole request.stop)
    (compiles : request.Compiles tree compilation) :
    (request.effect tree).2.read path ≠ tree.read path := by
  obtain ⟨program, made⟩ := compiles.program_iff.mpr whole
  obtain ⟨location, contents, source, located, file, decoded, lexical⟩ := compiles.source_file named
  rw [Request.read_overwritten named listed asked compiles made,
    FileTree.read_eq_ok_iff.mpr ⟨location, located, file⟩]
  intro same
  rw [← Except.ok.inj same, fromUTF8?_toUTF8] at decoded
  cases decoded
  exact program.listing_not_lexical lexical

end

/-- A run on a source file changes that file exactly when it writes a listing and the file already
has the name of a listing. Under any other name the listing goes to another file. -/
theorem source_changes_iff {arguments : List String} {request : Request} {path : String} (tree : FileTree)
    (asks : Asks arguments request) (named : request.source = .file path) :
    ((runOver tree arguments).2.read path ≠ tree.read path ↔
      Path.IsListing path ∧ request.listing = true ∧ RunsWhole request.stop ∧
        ∃ compilation, request.Compiles tree compilation) ∧
    ∀ location contents, tree.locate path = .ok location → tree.at? location = some (.file contents) →
      (tree.locateFile request.source.listingPath = .ok location ↔ Path.IsListing path) := by
  rw [runOver_of_asks asks]
  refine ⟨⟨Request.source_changed named, ?_⟩, ?_⟩
  · rintro ⟨listed, asked, whole, compilation, compiles⟩
    exact Request.source_overwritten named listed asked whole compiles
  · intro location contents located file
    rw [named]
    exact FileTree.locateFile_listing_iff located file

/-- A name that is all extension is no listing's name, and a run leaves such a source alone. -/
theorem hidden_source_is_kept :
    ∃ tree, tree = FileTree.ofContents [] [("d/.tac", "1+2".toUTF8)] ∧
      Asks ["-d", "d/.tac"] { source := .file "d/.tac", listing := true } ∧
      (runOver tree ["-d", "d/.tac"]).2.read "d/.tac" = .ok "1+2".toUTF8 ∧
      tree.locateFile "d/.tac.tac" ≠ tree.locate "d/.tac" := by
  refine ⟨_, rfl, ?_⟩
  generalize arranged : FileTree.ofContents [] [("d/.tac", "1+2".toUTF8)] = tree
  have asks : Asks ["-d", "d/.tac"] { source := .file "d/.tac", listing := true } := by with_unfolding_all rfl
  have located : tree.locate "d/.tac" = .ok [".tac", "d"] := by
    subst arranged
    with_unfolding_all rfl
  have file : tree.at? [".tac", "d"] = some (.file "1+2".toUTF8) := by
    subst arranged
    rfl
  have unlisted : ¬ Path.IsListing "d/.tac" := by
    have cut : Path.cutAfterLast '/' "d/.tac".toList = ("d/".toList, ".tac".toList) := by decide
    rw [Path.isListing_iff cut]
    rintro ⟨stem, same, given, _⟩
    cases stem with
    | nil => exact given rfl
    | cons c stem => simpa using congrArg List.length same
  obtain ⟨changes, places⟩ := source_changes_iff tree asks rfl
  refine ⟨asks, ?_, ?_⟩
  · rw [Classical.not_not.mp fun changed => unlisted (changes.mp changed).1]
    exact FileTree.read_eq_ok_iff.mpr ⟨_, located, file⟩
  · rw [located]
    exact fun same => unlisted ((places _ _ located file).mp same)

/-- A source with a listing's name does not outlive its listing. -/
theorem listing_replaces_source :
    ∃ tree, tree = FileTree.ofContents [] [("sum.tac", "1+2".toUTF8)] ∧
      Asks ["-d", "sum.tac"] { source := .file "sum.tac", listing := true } ∧
      tree.read "sum.tac" = .ok "1+2".toUTF8 ∧
      (runOver tree ["-d", "sum.tac"]).2.read "sum.tac" = .ok "temp1 = 1 + 2\nresult = temp1\n".toUTF8 ∧
      (runOver tree ["-d", "sum.tac"]).2.read "sum.tac" ≠ tree.read "sum.tac" := by
  refine ⟨_, rfl, ?_⟩
  generalize arranged : FileTree.ofContents [] [("sum.tac", "1+2".toUTF8)] = tree
  generalize meant : ({ source := .file "sum.tac", listing := true } : Request) = request
  have asks : Asks ["-d", "sum.tac"] request := by
    subst meant
    with_unfolding_all rfl
  have located : tree.locate "sum.tac" = .ok ["sum.tac"] := by
    subst arranged
    with_unfolding_all rfl
  have file : tree.at? ["sum.tac"] = some (.file "1+2".toUTF8) := by
    subst arranged
    rfl
  have read : tree.read "sum.tac" = .ok "1+2".toUTF8 := FileTree.read_eq_ok_iff.mpr ⟨_, located, file⟩
  have compiles : ∃ compilation, request.Compiles tree compilation ∧
      compilation.program = some (.ofExpr (.binary .add (.number "1") (.number "2"))) := by
    subst meant
    refine ⟨_, ⟨"1+2", ?_, by with_unfolding_all rfl⟩, rfl⟩
    simp only [Source.textIn, read, ok_bind, fromUTF8?_toUTF8]
  obtain ⟨compilation, compiles, made⟩ := compiles
  have listed : Path.IsListing "sum.tac" :=
    ⟨[], "sum.tac".toList, rfl, .nothing, by decide, "sum".toList, rfl, by decide, by decide⟩
  rw [runOver_of_asks asks]
  refine ⟨asks, read, ?_, ?_⟩
  · exact Request.read_overwritten (by rw [← meant]) listed (by rw [← meant]) compiles made
  · exact Request.source_overwritten (by rw [← meant]) listed (by rw [← meant]) (by rw [← meant]; decide) compiles

end ThreeAddress.Command
