import ThreeAddress.Files.Error
import ThreeAddress.Files.Path

/-! A tree of directories and files, held in memory. Paths are walked from the top of the tree, and
every name on the way, the last one apart, has to lead to a directory. -/

namespace ThreeAddress

/-- A place in a tree: the names that lead to it, the last one first. The top has none. -/
abbrev Location := List String

/-- The location one name further on. An empty name and `.` stay, and `..` goes up. -/
def Location.follow (here : Location) (name : String) : Location :=
  if name = "" ∨ name = "." then here
  else if name = ".." then here.tail
  else name :: here

inductive Entry where
  | directory
  | file (contents : ByteArray)

/-- The entries of a tree, each with its location. The top is always a directory. -/
structure FileTree where
  entries : List (Location × Entry) := []

namespace FileTree

def at? (tree : FileTree) (location : Location) : Option Entry :=
  if location = [] then some .directory else tree.entries.lookup location

def insert (tree : FileTree) (location : Location) (entry : Entry) : FileTree :=
  ⟨(location, entry) :: tree.entries.filter (·.1 ≠ location)⟩

theorem at?_insert_self (tree : FileTree) {location : Location} (entry : Entry)
    (below : location ≠ []) : (tree.insert location entry).at? location = some entry := by
  simp [at?, insert, below]

theorem at?_insert_of_ne (tree : FileTree) {location other : Location} (entry : Entry)
    (different : other ≠ location) : (tree.insert location entry).at? other = tree.at? other := by
  simp only [at?, insert]
  split
  · rfl
  · rw [List.lookup_cons, beq_false_of_ne different]
    induction tree.entries with
    | nil => rfl
    | cons head rest ih =>
      obtain ⟨place, found⟩ := head
      by_cases here : place = location
      · subst here
        simpa [List.lookup_cons, beq_false_of_ne different] using ih
      · simp only [ne_eq, here, not_false_eq_true, decide_true, List.filter_cons_of_pos,
          List.lookup_cons]
        split
        · rfl
        · exact ih

def walk (tree : FileTree) (here : Location) : List String → Except FileError Location
  | [] => .ok here
  | name :: rest =>
    match tree.at? here with
    | none => .error .notFound
    | some (.file _) => .error .notADirectory
    | some .directory => tree.walk (here.follow name) rest

/-- The location that a path leads to. The empty path leads nowhere. -/
def locate (tree : FileTree) (path : String) : Except FileError Location :=
  if path = "" then .error .notFound else tree.walk [] (Path.names path)

def read (tree : FileTree) (path : String) : Except FileError ByteArray := do
  let location ← tree.locate path
  match tree.at? location with
  | none => .error .notFound
  | some .directory => .error .isADirectory
  | some (.file contents) => .ok contents

/-- The location at which a path asks for a file. A slash at its end asks for a directory instead,
whatever stands there; this is noticed once the directory around it has been reached. -/
def locateFile (tree : FileTree) (path : String) : Except FileError Location := do
  if path = "" then .error .notFound
  else
    let location ← tree.walk [] (Path.properNames path)
    if Path.endsInSlash path then .error .isADirectory else .ok location

def write (tree : FileTree) (path : String) (contents : ByteArray) : Except FileError FileTree := do
  let location ← tree.locateFile path
  match tree.at? location with
  | some .directory => .error .isADirectory
  | _ => .ok (tree.insert location (.file contents))

def addDirectory (tree : FileTree) : Location → FileTree
  | [] => tree
  | name :: parent => (tree.addDirectory parent).insert (name :: parent) .directory

def addFile (tree : FileTree) (location : Location) (contents : ByteArray) : FileTree :=
  (tree.addDirectory location.tail).insert location (.file contents)

def ofContents (directories : List String) (files : List (String × ByteArray)) : FileTree :=
  let location (path : String) := (Path.names path).foldl Location.follow []
  let bare := directories.foldl (fun tree path => tree.addDirectory (location path)) {}
  files.foldl (fun tree (path, contents) => tree.addFile (location path) contents) bare

end FileTree

end ThreeAddress
