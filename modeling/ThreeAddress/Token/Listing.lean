import ThreeAddress.Text.Quoted
import ThreeAddress.Token.Basic

/-! The token listing: the kind and the quoted text of each token, in order, between brackets. -/

namespace ThreeAddress

def Token.entry (token : Token) : String :=
  "(" ++ token.kind.name ++ ", " ++ Text.quote token.text ++ ")"

def Token.listing (tokens : List Token) : String :=
  "[" ++ String.intercalate ", " (tokens.map Token.entry) ++ "]"

end ThreeAddress
