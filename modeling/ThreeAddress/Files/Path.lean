/-! Path texts. A path is walked from name to name; here it is only taken apart. -/

namespace ThreeAddress.Path

/-- The names on a path, in the order in which they are walked. Two slashes in a row, and a slash
at either end, leave an empty name between or beside them. -/
def names (path : String) : List String :=
  (path.toList.splitOn '/').map String.ofList

def properNames (path : String) : List String :=
  ((names path).reverse.dropWhile (· = "")).reverse

def endsInSlash (path : String) : Bool :=
  path.toList.getLast? = some '/'

/-- A text cut after the last `mark`. Without a mark in the text, nothing stands before the cut. -/
def cutAfterLast (mark : Char) (text : List Char) : List Char × List Char :=
  ((text.reverse.dropWhile (· ≠ mark)).reverse, (text.reverse.takeWhile (· ≠ mark)).reverse)

/-- The path of the listing that belongs to a source path: the extension of the file's name is
replaced by `tac`. A dot that starts the name starts no extension. If only `..` stands before the
extension, what remains names a directory and gets no new one. -/
def listing (source : String) : String :=
  let (folder, name) := cutAfterLast '/' source.toList
  let (stem, _) := cutAfterLast '.' name
  if stem = [] ∨ stem = ['.'] then source ++ ".tac"
  else if stem = ['.', '.'] then String.ofList (folder ++ stem)
  else String.ofList (folder ++ stem) ++ "tac"

end ThreeAddress.Path
