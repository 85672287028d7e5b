import ThreeAddress.Compilation
import ThreeAddress.Files.Path

/-! What a command line asks for. The arguments are read from left to right. A fault in them ends
the reading where it stands, and so does a request for help or for the version: nothing after it is
looked at. Whether the options go together is asked only when all of them have been read. -/

namespace ThreeAddress.Command

inductive Flag where
  | lex
  | parse
  | tac
  | strict
  | eval
  | listing
  deriving DecidableEq, Repr

def Flag.name : Flag → String
  | .lex => "--lex"
  | .parse => "--parse"
  | .tac => "--tac"
  | .strict => "--strict"
  | .eval => "--eval"
  | .listing => "-d"

def Flag.stage? : Flag → Option Stage
  | .lex => some .tokens
  | .parse => some .expression
  | .tac => some .program
  | _ => none

inductive Switch where
  | flag (flag : Flag)
  | expr
  | help (long : Bool)
  | version
  deriving DecidableEq, Repr

def Switch.ofLong? : String → Option Switch
  | "lex" => some (.flag .lex)
  | "parse" => some (.flag .parse)
  | "tac" => some (.flag .tac)
  | "strict" => some (.flag .strict)
  | "eval" => some (.flag .eval)
  | "expr" => some .expr
  | "help" => some (.help true)
  | "version" => some .version
  | _ => none

def Switch.ofShort? : Char → Option Switch
  | 'd' => some (.flag .listing)
  | 'e' => some .expr
  | 'h' => some (.help false)
  | 'V' => some .version
  | _ => none

inductive UsageError where
  | unknownOption (option : String)
  | unexpectedValue (option : String)
  | missingValue (option : String)
  | repeatedOption (option : String)
  | extraArgument (argument : String)
  | conflict (first second : String)
  deriving DecidableEq, Repr

def UsageError.message : UsageError → String
  | .unknownOption option => "there is no option '" ++ option ++ "'"
  | .unexpectedValue option => "option '" ++ option ++ "' takes no value"
  | .missingValue option => "option '" ++ option ++ "' needs a value"
  | .repeatedOption option => "option '" ++ option ++ "' is given twice"
  | .extraArgument argument => "there is no use for '" ++ argument ++ "'"
  | .conflict first second => "'" ++ first ++ "' and '" ++ second ++ "' exclude each other"

inductive Item where
  | flag (flag : Flag)
  | expr (text : String)
  | path (text : String)
  | help (long : Bool)
  | version
  | fault (error : UsageError)
  deriving DecidableEq, Repr

/-- What an argument says, and whether the value of `--expr` is still to come. -/
structure Piece where
  items : List Item
  awaitsValue : Bool := false
  deriving DecidableEq, Repr

/-- What letters after one dash say. `-e` takes the rest of the argument as its value, without the
equals sign that may stand before it. -/
def Piece.ofLetters : List Char → Piece
  | [] => { items := [] }
  | letter :: rest =>
    match Switch.ofShort? letter with
    | some (.flag flag) =>
      let after := ofLetters rest
      { after with items := .flag flag :: after.items }
    | some (.help long) => { items := [.help long] }
    | some .version => { items := [.version] }
    | some .expr =>
      match rest with
      | [] => { items := [], awaitsValue := true }
      | '=' :: value => { items := [.expr (String.ofList value)] }
      | value => { items := [.expr (String.ofList value)] }
    | none => { items := [.fault (.unknownOption ("-" ++ letter.toString))] }

def Piece.ofLong (text : List Char) : Piece :=
  let name := String.ofList (text.takeWhile (· ≠ '='))
  match Switch.ofLong? name, text.dropWhile (· ≠ '=') with
  | none, _ => { items := [.fault (.unknownOption ("--" ++ name))] }
  | some .expr, [] => { items := [], awaitsValue := true }
  | some .expr, _ :: value => { items := [.expr (String.ofList value)] }
  | some _, _ :: _ => { items := [.fault (.unexpectedValue ("--" ++ name))] }
  | some (.flag flag), [] => { items := [.flag flag] }
  | some (.help long), [] => { items := [.help long] }
  | some .version, [] => { items := [.version] }

/-- What one argument says. A single dash and the empty argument are paths. -/
def Piece.ofArgument (argument : String) : Piece :=
  match argument.toList with
  | '-' :: '-' :: text => .ofLong text
  | '-' :: letter :: rest => .ofLetters (letter :: rest)
  | _ => { items := [.path argument] }

def mayBeValue (argument : String) : Bool :=
  match argument.toList with
  | '-' :: _ :: _ => false
  | _ => true

/-- What the arguments say, in order. After `--` every argument is a path. -/
def items : List String → List Item
  | [] => []
  | argument :: rest =>
    if argument = "--" then rest.map .path
    else
      let piece := Piece.ofArgument argument
      if piece.awaitsValue then
        match rest with
        | [] => piece.items ++ [.fault (.missingValue "--expr")]
        | value :: rest =>
          if mayBeValue value then piece.items ++ .expr value :: items rest
          else piece.items ++ [.fault (.missingValue "--expr")]
      else piece.items ++ items rest

inductive Source where
  | file (path : String)
  | text (source : String)
  | demo
  deriving DecidableEq, Repr

def Source.name : Source → String
  | .file path => path
  | .text _ => "<expr>"
  | .demo => "<demo>"

def Source.listingPath : Source → String
  | .file path => Path.listing path
  | _ => "expr.tac"

structure Request where
  source : Source := .demo
  stop : Option Stage := none
  strict : Bool := false
  listing : Bool := false
  evaluate : Bool := false
  deriving DecidableEq, Repr

inductive Invocation where
  | compile (request : Request)
  | help (long : Bool)
  | version
  deriving DecidableEq, Repr

structure Options where
  path : Option String := none
  expr : Option String := none
  flags : List Flag := []
  deriving DecidableEq, Repr

def Options.source (options : Options) : Except UsageError Source :=
  match options.path, options.expr with
  | some _, some _ => .error (.conflict "[PATH]" "--expr")
  | some path, none => .ok (.file path)
  | none, some text => .ok (.text text)
  | none, none => .ok .demo

def Options.stop (options : Options) : Except UsageError (Option Stage) :=
  match options.flags.filter (·.stage?.isSome) with
  | first :: second :: _ => .error (.conflict first.name second.name)
  | [flag] => .ok flag.stage?
  | [] => .ok none

def Options.request (options : Options) : Except UsageError Request := do
  let source ← options.source
  let stop ← options.stop
  return {
    source, stop
    strict := options.flags.contains .strict
    listing := options.flags.contains .listing
    evaluate := options.flags.contains .eval }

/-- What the options read so far and the items still to come ask for. -/
def Options.invocation (options : Options) : List Item → Except UsageError Invocation
  | [] => .compile <$> options.request
  | .fault error :: _ => .error error
  | .help long :: _ => .ok (.help long)
  | .version :: _ => .ok .version
  | .flag flag :: rest =>
    if options.flags.contains flag then .error (.repeatedOption flag.name)
    else { options with flags := flag :: options.flags }.invocation rest
  | .expr text :: rest =>
    if options.expr.isSome then .error (.repeatedOption "--expr")
    else { options with expr := some text }.invocation rest
  | .path text :: rest =>
    if options.path.isSome then .error (.extraArgument text)
    else { options with path := some text }.invocation rest

def Invocation.ofArguments (arguments : List String) : Except UsageError Invocation :=
  ({} : Options).invocation (items arguments)

end ThreeAddress.Command
