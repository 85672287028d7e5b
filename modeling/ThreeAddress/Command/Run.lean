import ThreeAddress.Command.Invocation
import ThreeAddress.Command.Usage
import ThreeAddress.Expr.Printer
import ThreeAddress.Program.Listing
import ThreeAddress.Token.Listing

/-! Running the command. A run reads at most one file and writes at most one, and it reports by what
it prints and by its exit status: 0 for success, 1 for a failure, 2 for arguments that are refused.
What was printed before a failure stays printed. -/

namespace ThreeAddress.Command

structure Outcome where
  exit : Nat
  stdout : String
  stderr : String
  deriving DecidableEq, Repr

def Outcome.success (stdout : String) : Outcome :=
  ⟨0, stdout, ""⟩

/-- The causes of a failure, each on its own line. Several causes are numbered, and each is the
cause of the one above it. -/
def causeLines : List String → String
  | [cause] => "    " ++ cause ++ "\n"
  | causes => String.join (causes.mapIdx fun index cause => "    " ++ index.repr ++ ": " ++ cause ++ "\n")

def Outcome.failure (stdout message : String) (causes : List String) : Outcome :=
  ⟨1, stdout, "Error: " ++ message ++ "\n\nCaused by:\n" ++ causeLines causes⟩

def Outcome.refusal (error : UsageError) : Outcome :=
  ⟨2, "", "error: " ++ error.message ++ "\n"⟩

def report (compilation : Compilation) : String :=
  "Tokens:\n" ++ Token.listing compilation.tokens ++ "\n"
    ++ (match compilation.expression with
      | none => ""
      | some e => "\nAST:\n" ++ e.outline 0 ++ "\n" ++ e.parenthesized ++ "\n")
    ++ (match compilation.program with
      | none => ""
      | some program =>
        "\nThree-address code:\n" ++ unlines program.lines)

def Source.load [Monad m] (files : FileAccess m) : Source → m (Except FileError String)
  | .file path => files.readText path
  | .text given => return .ok given
  | .demo => return .ok demoSource

def Request.finish (request : Request) (program : Program) (printed : String) : Outcome :=
  if request.evaluate then
    match program.evaluate with
    | .error error => .failure printed error.message [error.cause]
    | .ok value => .success (printed ++ "\n" ++ program.result.text ++ " = " ++ value.repr ++ "\n")
  else .success printed

/-- Does what a request asks for. The listing is written before the program is run, so that it is
there even if the program has no value. -/
def Request.run [Monad m] (files : FileAccess m) (request : Request) : m Outcome := do
  match ← request.source.load files with
  | .error error =>
    return .failure "" ("Unable to read source file: " ++ request.source.name) [error.message]
  | .ok source =>
    match compile source request.stop request.strict with
    | .error error =>
      return .failure "" ("Failed to compile " ++ request.source.name) [error.message, error.cause]
    | .ok compilation =>
      let printed := report compilation
      match compilation.program with
      | none => return .success printed
      | some program =>
        if request.listing then
          match ← program.saveTo files request.source.listingPath with
          | .error error =>
            return .failure printed ("Unable to write " ++ request.source.listingPath) [error.message]
          | .ok () => return request.finish program printed
        else return request.finish program printed

def run [Monad m] (files : FileAccess m) (arguments : List String) : m Outcome :=
  match Invocation.ofArguments arguments with
  | .error error => return .refusal error
  | .ok (.help true) => return .success longHelp
  | .ok (.help false) => return .success shortHelp
  | .ok .version => return .success versionText
  | .ok (.compile request) => request.run files

end ThreeAddress.Command
