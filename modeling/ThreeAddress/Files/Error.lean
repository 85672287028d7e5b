/-! What can go wrong when texts are read from files or written to them. -/

namespace ThreeAddress

inductive FileError where
  | notFound
  | notADirectory
  | isADirectory
  | noRoom
  | notText
  | other (message : String)
  deriving DecidableEq, Repr

def FileError.message : FileError → String
  | .notFound => "No such file or directory (os error 2)"
  | .notADirectory => "Not a directory (os error 20)"
  | .isADirectory => "Is a directory (os error 21)"
  | .noRoom => "failed to write whole buffer"
  | .notText => "stream did not contain valid UTF-8"
  | .other message => message

end ThreeAddress
