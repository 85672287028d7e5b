import ThreeAddress.Expr.Parser
import ThreeAddress.Program.Eval
import ThreeAddress.Program.Lower
import ThreeAddress.Token.Scanner

/-! Compiling a source text: tokens, then an expression, then a program. A compilation may stop
early, and then holds only what was made up to that point. -/

namespace ThreeAddress

inductive Stage where
  | tokens
  | expression
  | program
  deriving DecidableEq, Repr

structure Compilation where
  tokens : List Token
  expression : Option Expr := none
  program : Option Program := none
  deriving DecidableEq, Repr

inductive CompileError where
  | lexer (cause : LexError)
  | parser (cause : ParseError)
  | eval (cause : EvalError)
  deriving DecidableEq, Repr

def CompileError.cause : CompileError → String
  | .lexer cause => cause.message
  | .parser cause => cause.message
  | .eval cause => cause.message

def CompileError.message : CompileError → String
  | .lexer cause => "Lexer encountered an error: " ++ cause.message
  | .parser cause => "Parser encountered an error: " ++ cause.message
  | .eval cause => "Evaluation failed: " ++ cause.message

/-- Compiles a source text, up to the stage after which it is to stop, if there is one. In strict
mode the expression has to use up all tokens. -/
def compile (source : String) (stop : Option Stage) (strict : Bool) : Except CompileError Compilation := do
  let tokens ← (tokenize source).mapError .lexer
  if stop = some .tokens then return { tokens }
  let e ← (Expr.ofTokens strict tokens).mapError .parser
  if stop = some .expression then return { tokens, expression := some e }
  return { tokens, expression := some e, program := some (.ofExpr e) }

def Program.evaluate (program : Program) : Except CompileError Int :=
  program.eval.mapError .eval

def demoSource : String := "4+7*14+(7+6)*3"

end ThreeAddress
