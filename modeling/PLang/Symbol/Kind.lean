/-!
# Kinds of symbol
-/

namespace PLang

/-- What a name can stand for. -/
inductive SymbolKind where
  | program
  | function
  | parameter
  | var
  | loopVar
  | constant
deriving DecidableEq

namespace SymbolKind

/-- The name of a kind. -/
def text : SymbolKind → String
  | program => "program"
  | function => "function"
  | parameter => "parameter"
  | var => "variable"
  | loopVar => "loop_var"
  | constant => "constant"

/-- The kinds that a variable reference can name. -/
def isVariable : SymbolKind → Bool
  | parameter | var | loopVar | constant => true
  | _ => false

end SymbolKind

end PLang
