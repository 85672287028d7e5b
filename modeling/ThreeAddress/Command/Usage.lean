/-! The texts that explain the command. -/

namespace ThreeAddress.Command

def unlines (lines : List String) : String :=
  String.join (lines.map (· ++ "\n"))

def shortHelp : String :=
  unlines
    ["Usage: triad [OPTIONS] [PATH]",
      "",
      "Arguments:",
      "  [PATH]  Path to a source file containing one expression",
      "",
      "Options:",
      "  -e, --expr <EXPR>  Expression text to compile instead of a file",
      "      --lex          Stop after lexer",
      "      --parse        Stop after parser",
      "      --tac          Stop after three-address code generation",
      "      --strict       Reject tokens left over after the expression",
      "      --eval         Interpret the generated code and print its value",
      "  -d                 Write the three-address listing to a .tac file",
      "  -h, --help         Print help (see more with '--help')",
      "  -V, --version      Print version"]

def longHelp : String :=
  unlines
    ["Lowers an arithmetic expression to three-address code",
      "",
      "Usage: triad [OPTIONS] [PATH]",
      "",
      "Arguments:",
      "  [PATH]",
      "          Path to a source file containing one expression",
      "",
      "Options:",
      "  -e, --expr <EXPR>",
      "          Expression text to compile instead of a file",
      "",
      "      --lex",
      "          Stop after lexer",
      "",
      "      --parse",
      "          Stop after parser",
      "",
      "      --tac",
      "          Stop after three-address code generation",
      "",
      "      --strict",
      "          Reject tokens left over after the expression",
      "",
      "      --eval",
      "          Interpret the generated code and print its value",
      "",
      "  -d",
      "          Write the three-address listing to a .tac file",
      "",
      "  -h, --help",
      "          Print help (see a summary with '-h')",
      "",
      "  -V, --version",
      "          Print version"]

def versionText : String :=
  unlines ["triad_driver 0.1.0"]

end ThreeAddress.Command
