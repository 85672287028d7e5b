/-! The supply of temporary names. Names are numbered from one, and a supply never issues the same
name twice unless it is reset. -/

namespace ThreeAddress

def tempName (index : Nat) : String :=
  "temp" ++ index.repr

/-- A supply that has issued the temporaries up to number `issued`. -/
structure TempSupply where
  issued : Nat := 0
  deriving DecidableEq, Repr, Inhabited

def TempSupply.fresh (supply : TempSupply) : String × TempSupply :=
  (tempName (supply.issued + 1), ⟨supply.issued + 1⟩)

def TempSupply.reset (_ : TempSupply) : TempSupply := {}

end ThreeAddress
