import ThreeAddress.Command.Run

/-! The command itself, over the files of the system it runs on. -/

namespace ThreeAddress.Command

/-- The number of a fault. Some calls of the system report it with its sign turned round. -/
def faultNumber (code : UInt32) : Nat :=
  if code.toNat < 2147483648 then code.toNat else 4294967296 - code.toNat

def faultOf : IO.Error → FileError
  | .noFileOrDirectory .. => .notFound
  | .permissionDenied .. => .other "Permission denied (os error 13)"
  | .inappropriateType name code details =>
    if faultNumber code = 20 then .notADirectory
    else if faultNumber code = 21 then .isADirectory
    else .other (toString (IO.Error.inappropriateType name code details))
  | error => .other (toString error)

def systemFiles : FileAccess IO where
  read path := do
    try return .ok (← IO.FS.readBinFile path)
    catch error => return .error (faultOf error)
  write path contents := do
    try return .ok (← IO.FS.writeBinFile path contents)
    catch error => return .error (faultOf error)

end ThreeAddress.Command

def main (arguments : List String) : IO UInt32 := do
  let outcome ← ThreeAddress.Command.run ThreeAddress.Command.systemFiles arguments
  IO.print outcome.stdout
  IO.eprint outcome.stderr
  return outcome.exit.toUInt32
