import ThreeAddress.Files.Tree

/-! Access to files: the two operations that a run needs, for any place where files may be kept. -/

namespace ThreeAddress

/-- How files are read and written. Writing replaces a file that exists. -/
structure FileAccess (m : Type → Type) where
  read : String → m (Except FileError ByteArray)
  write : String → ByteArray → m (Except FileError Unit)

def FileAccess.readText [Monad m] (files : FileAccess m) (path : String) :
    m (Except FileError String) := do
  match ← files.read path with
  | .error error => return .error error
  | .ok contents =>
    match String.fromUTF8? contents with
    | some text => return .ok text
    | none => return .error .notText

def FileTree.access : FileAccess (StateM FileTree) where
  read path := return (← get).read path
  write path contents := do
    match (← get).write path contents with
    | .error error => return .error error
    | .ok tree => set tree; return .ok ()

end ThreeAddress
