import ThreeAddress.Files.Tree
import ThreeAddress.Proofs.Outcomes

/-! The path of a listing beside the path of its source. Both end in the same folder, so they lead
to one file exactly when the name of the file is kept, and it is kept exactly when its extension is
the one that listings have. -/

namespace ThreeAddress.Path

/-- What can stand before a cut that is made after the last `mark`. -/
inductive Front (mark : Char) : List Char → Prop where
  | nothing : Front mark []
  | marked (before : List Char) : Front mark (before ++ [mark])

private theorem front_dropWhile (mark : Char) (text : List Char) :
    Front mark (text.dropWhile (· ≠ mark)).reverse := by
  cases rest : text.dropWhile (· ≠ mark) with
  | nil => exact .nothing
  | cons c cs =>
    have stopped := List.head?_dropWhile_not (· ≠ mark) text
    rw [rest] at stopped
    have same : c = mark := by simpa using stopped
    subst same
    rw [List.reverse_cons]
    exact .marked cs.reverse

private theorem takeWhile_front {mark : Char} {front : List Char} (shape : Front mark front) :
    front.reverse.takeWhile (· ≠ mark) = [] ∧ front.reverse.dropWhile (· ≠ mark) = front.reverse := by
  cases shape with
  | nothing => exact ⟨rfl, rfl⟩
  | marked before => simp

theorem cutAfterLast_eq_iff {mark : Char} {text front back : List Char} :
    cutAfterLast mark text = (front, back) ↔ text = front ++ back ∧ Front mark front ∧ mark ∉ back := by
  constructor
  · intro cut
    obtain ⟨rfl, rfl⟩ := Prod.mk.inj cut
    refine ⟨?_, front_dropWhile mark text.reverse, ?_⟩
    · rw [← List.reverse_append, List.takeWhile_append_dropWhile, List.reverse_reverse]
    · intro member
      have before := List.all_eq_true.mp List.all_takeWhile mark (List.mem_reverse.mp member)
      simp at before
  · rintro ⟨rfl, shape, unmarked⟩
    have plain : ∀ c ∈ back.reverse, decide (c ≠ mark) = true := by
      intro c member
      apply decide_eq_true
      intro same
      subst same
      exact unmarked (List.mem_reverse.mp member)
    obtain ⟨taken, dropped⟩ := takeWhile_front shape
    rw [cutAfterLast, List.reverse_append, List.takeWhile_append_of_pos plain, List.dropWhile_append_of_pos plain,
      taken, dropped, List.append_nil, List.reverse_reverse, List.reverse_reverse]

theorem cutAfterLast_cases (mark : Char) (text : List Char) :
    ∃ front back, cutAfterLast mark text = (front, back) ∧ text = front ++ back ∧ Front mark front ∧ mark ∉ back :=
  ⟨_, _, rfl, cutAfterLast_eq_iff.mp rfl⟩

/-- A path is walked through its folder, whatever name stands behind it. -/
private theorem names_of_folder {folder : List Char} (shape : Front '/' folder) :
    ∃ way, ∀ name, '/' ∉ name → names (String.ofList (folder ++ name)) = way ++ [String.ofList name] := by
  cases shape with
  | nothing =>
    refine ⟨[], ?_⟩
    intro name plain
    rw [names, String.toList_ofList, List.nil_append, List.splitOn_eq_singleton plain]
    rfl
  | marked before =>
    refine ⟨(before.splitOn '/').map String.ofList, ?_⟩
    intro name plain
    rw [names, String.toList_ofList, List.append_assoc, List.singleton_append, List.splitOn_append_cons_self,
      List.splitOn_eq_singleton plain, List.map_append]
    rfl

private theorem ofList_ne_empty {name : List Char} (given : name ≠ []) : String.ofList name ≠ "" := by
  intro empty
  apply given
  rw [← String.toList_ofList (l := name), empty]
  rfl

private theorem properNames_of_named {path : String} {way : List String} {name : List Char} (given : name ≠ [])
    (walked : names path = way ++ [String.ofList name]) : properNames path = names path := by
  have proper := ofList_ne_empty given
  rw [properNames, walked, List.reverse_append, List.reverse_singleton, List.singleton_append,
    List.dropWhile_cons_of_neg (by simpa using proper), List.reverse_cons, List.reverse_reverse]

private theorem endsInSlash_of_named {folder name : List Char} (given : name ≠ []) (plain : '/' ∉ name) :
    endsInSlash (String.ofList (folder ++ name)) = false := by
  rw [endsInSlash, String.toList_ofList, List.getLast?_append, List.getLast?_eq_some_getLast given]
  apply decide_eq_false
  intro last
  apply plain
  have same : name.getLast given = '/' := by simpa using last
  rw [← same]
  exact List.getLast_mem given

/-- The name of the listing that belongs to a file of this name. -/
def listingName (name : List Char) : List Char :=
  let stem := (cutAfterLast '.' name).1
  if stem = [] ∨ stem = ['.'] then name ++ ".tac".toList
  else if stem = ['.', '.'] then stem
  else stem ++ "tac".toList

/-- A listing stays in the folder of its source. -/
theorem listing_eq {path : String} {folder name : List Char} (cut : cutAfterLast '/' path.toList = (folder, name)) :
    listing path = String.ofList (folder ++ listingName name) := by
  have whole : path.toList = folder ++ name := (cutAfterLast_eq_iff.mp cut).1
  unfold listing listingName
  simp only [cut]
  split
  · apply String.toList_inj.mp
    simp [whole]
  · split
    · rfl
    · apply String.toList_inj.mp
      simp

private theorem listingName_ne_nil (name : List Char) : listingName name ≠ [] := by
  unfold listingName
  dsimp only
  split
  · simp
  · split
    next pair => simp [pair]
    next => simp

private theorem slash_not_mem_listingName {name : List Char} (plain : '/' ∉ name) : '/' ∉ listingName name := by
  obtain ⟨stem, extension, cut, rfl, _, _⟩ := cutAfterLast_cases '.' name
  have inStem : '/' ∉ stem := fun member => plain (List.mem_append_left _ member)
  unfold listingName
  rw [cut]
  dsimp only
  split
  · simpa using plain
  · split
    · exact inStem
    · simpa using inStem

/-- A name with the extension of a listing. What stands before the extension is a name of its own. -/
def HasListingName (name : List Char) : Prop :=
  ∃ stem, name = stem ++ ".tac".toList ∧ stem ≠ [] ∧ stem ≠ ['.']

/-- A path to a file that could be the listing of another file. -/
def IsListing (path : String) : Prop :=
  ∃ folder name, path = String.ofList (folder ++ name) ∧ Front '/' folder ∧ '/' ∉ name ∧ HasListingName name

private theorem listingName_eq_self_iff {name : List Char} (proper : name ≠ ['.', '.']) :
    listingName name = name ↔ HasListingName name := by
  constructor
  · intro kept
    obtain ⟨stem, extension, cut, rfl, shape, _⟩ := cutAfterLast_cases '.' name
    unfold listingName at kept
    rw [cut] at kept
    dsimp only at kept
    split at kept
    · simp at kept
    next dotted =>
      split at kept
      next pair => exact absurd (kept.symm.trans pair) proper
      next longer =>
        have same : "tac".toList = extension := List.append_cancel_left kept
        cases shape with
        | nothing => simp at dotted
        | marked before =>
          refine ⟨before, ?_, ?_, ?_⟩
          · rw [← same, List.append_assoc]
            rfl
          · intro none
            simp [none] at dotted
          · intro dot
            simp [dot] at longer
  · rintro ⟨stem, rfl, given, named⟩
    have cut : cutAfterLast '.' (stem ++ ".tac".toList) = (stem ++ ['.'], "tac".toList) := by
      apply cutAfterLast_eq_iff.mpr
      refine ⟨?_, .marked stem, by decide⟩
      rw [List.append_assoc]
      rfl
    have dotted : ¬ (stem ++ ['.'] = [] ∨ stem ++ ['.'] = ['.']) := by simpa using given
    have longer : stem ++ ['.'] ≠ ['.', '.'] := by
      intro pair
      apply named
      exact List.append_cancel_right (show stem ++ ['.'] = ['.'] ++ ['.'] from pair)
    unfold listingName
    rw [cut]
    dsimp only
    rw [if_neg dotted, if_neg longer, List.append_assoc]
    rfl

theorem isListing_iff {path : String} {folder name : List Char} (cut : cutAfterLast '/' path.toList = (folder, name)) :
    IsListing path ↔ HasListingName name := by
  obtain ⟨whole, shape, plain⟩ := cutAfterLast_eq_iff.mp cut
  constructor
  · rintro ⟨otherFolder, otherName, rfl, otherShape, otherPlain, has⟩
    rw [String.toList_ofList, cutAfterLast_eq_iff.mpr ⟨rfl, otherShape, otherPlain⟩] at cut
    cases cut
    exact has
  · intro has
    refine ⟨folder, name, ?_, shape, plain, has⟩
    rw [← whole, String.ofList_toList]

end ThreeAddress.Path

namespace ThreeAddress

/-- A name that leads further down, and not to the place where it is used or above it. -/
def Location.LeadsDown (name : String) : Prop :=
  name ≠ "" ∧ name ≠ "." ∧ name ≠ ".."

private theorem Location.follow_cases (here : Location) (name : String) :
    here.follow name = here ∨ here.follow name = here.tail ∨ LeadsDown name ∧ here.follow name = name :: here := by
  unfold follow
  split
  · exact .inl rfl
  next moves =>
    split
    · exact .inr (.inl rfl)
    next down =>
      obtain ⟨given, leaves⟩ := not_or.mp moves
      exact .inr (.inr ⟨⟨given, leaves, down⟩, rfl⟩)

private theorem Location.follow_eq_cons_iff {here : Location} {name other : String} (down : LeadsDown other) :
    here.follow name = other :: here ↔ name = other := by
  constructor
  · intro same
    rcases here.follow_cases name with stays | up | ⟨_, further⟩
    · exact absurd (congrArg List.length (stays.symm.trans same)) (by simp)
    · exact absurd (congrArg List.length (up.symm.trans same)) (by simp)
    · exact (List.cons.inj (further.symm.trans same)).1
  · rintro rfl
    obtain ⟨given, leaves, further⟩ := down
    rw [follow, if_neg (not_or.mpr ⟨given, leaves⟩), if_neg further]

namespace FileTree
variable {tree : FileTree} {here there location : Location} {path : String} {contents : ByteArray}

theorem walk_append (tree : FileTree) (here : Location) (first second : List String) :
    tree.walk here (first ++ second) = tree.walk here first >>= fun there => tree.walk there second := by
  induction first generalizing here with
  | nil => rfl
  | cons name rest ih =>
    simp only [List.cons_append, walk]
    split
    · rfl
    · rfl
    · exact ih _

private theorem walk_single {name : String} :
    tree.walk here [name] = .ok there ↔ tree.at? here = some .directory ∧ here.follow name = there := by
  simp only [walk]
  split
  next missing => simp [missing]
  next file => simp [file]
  next directory => simp [directory]

/-- Directories all the way from the top to a location, which may itself be anything. -/
def Inside (tree : FileTree) : Location → Prop
  | [] => True
  | _ :: above => tree.at? above = some .directory ∧ tree.Inside above

theorem Inside.tail (inside : tree.Inside here) : tree.Inside here.tail := by
  cases here with
  | nil => exact inside
  | cons name above => exact inside.2

private theorem Inside.directory_above (inside : tree.Inside here) (directory : tree.at? here = some .directory) :
    tree.at? here.tail = some .directory := by
  cases here with
  | nil => exact directory
  | cons name above => exact inside.1

theorem Inside.follow (inside : tree.Inside here) (directory : tree.at? here = some .directory) (name : String) :
    tree.Inside (here.follow name) := by
  rcases here.follow_cases name with stays | up | ⟨_, down⟩
  · rwa [stays]
  · rw [up]
    exact inside.tail
  · rw [down]
    exact ⟨directory, inside⟩

theorem Inside.walk {names : List String} (inside : tree.Inside here) (walked : tree.walk here names = .ok there) :
    tree.Inside there := by
  induction names generalizing here with
  | nil =>
    cases walked
    exact inside
  | cons name rest ih =>
    simp only [FileTree.walk] at walked
    split at walked
    · cases walked
    · cases walked
    next directory => exact ih (inside.follow directory name) walked

/-- Only a name that leads down can end a walk at a file. -/
private theorem Inside.file_below {name : String} (inside : tree.Inside here)
    (directory : tree.at? here = some .directory)
    (file : tree.at? (here.follow name) = some (.file contents)) :
    Location.LeadsDown name ∧ here.follow name = name :: here := by
  rcases here.follow_cases name with stays | up | down
  · rw [stays, directory] at file
    cases file
  · rw [up, inside.directory_above directory] at file
    cases file
  · exact down

private theorem locate_named {folder name : List Char} (shape : Path.Front '/' folder) (plain : '/' ∉ name)
    (located : tree.locate (String.ofList (folder ++ name)) = .ok location) :
    ∃ above, tree.Inside above ∧ tree.at? above = some .directory ∧ above.follow (String.ofList name) = location ∧
      ∀ other, other ≠ [] → '/' ∉ other →
        tree.locateFile (String.ofList (folder ++ other)) = .ok (above.follow (String.ofList other)) := by
  obtain ⟨way, names⟩ := Path.names_of_folder shape
  unfold locate at located
  split at located
  · cases located
  rw [names name plain, walk_append] at located
  obtain ⟨above, walked, last⟩ := bind_eq_ok.mp located
  obtain ⟨directory, rfl⟩ := walk_single.mp last
  have top : tree.Inside [] := trivial
  refine ⟨above, top.walk walked, directory, rfl, ?_⟩
  intro other given otherPlain
  have proper := Path.properNames_of_named given (names other otherPlain)
  have unslashed : Path.endsInSlash (String.ofList (folder ++ other)) = false := Path.endsInSlash_of_named given otherPlain
  have nonempty : String.ofList (folder ++ other) ≠ "" := Path.ofList_ne_empty (by simp [given])
  rw [locateFile, if_neg nonempty, proper, names other otherPlain, walk_append, walked, ok_bind,
    walk_single.mpr ⟨directory, rfl⟩, ok_bind, unslashed]
  rfl

/-- A source and its listing are one file exactly when the source is named like a listing. -/
theorem locateFile_listing_iff (located : tree.locate path = .ok location)
    (file : tree.at? location = some (.file contents)) :
    tree.locateFile (Path.listing path) = .ok location ↔ Path.IsListing path := by
  obtain ⟨folder, name, cut, whole, shape, plain⟩ := Path.cutAfterLast_cases '/' path.toList
  rw [Path.isListing_iff cut, Path.listing_eq cut]
  rw [← String.ofList_toList (s := path), whole] at located
  obtain ⟨above, inside, directory, rfl, beside⟩ := locate_named shape plain located
  obtain ⟨down, below⟩ := inside.file_below directory file
  have proper : name ≠ ['.', '.'] := by
    rintro rfl
    exact down.2.2 rfl
  rw [beside _ (Path.listingName_ne_nil name) (Path.slash_not_mem_listingName plain), below,
    ← Path.listingName_eq_self_iff proper, Except.ok.injEq, Location.follow_eq_cons_iff down, String.ofList_inj]

end FileTree

end ThreeAddress
