/-!
# Operators

The operators of expressions. Three of them only wrap a constant, a variable reference or a call.
-/

namespace PLang

/-- The operators of expressions. -/
inductive Operator where
  | add
  | subtract
  | multiply
  | divide
  | negate
  | modulo
  | and
  | or
  | not
  | less
  | lessEqual
  | equal
  | greaterEqual
  | greater
  | notEqual
  /-- What an addition becomes once both operands are known to be strings. -/
  | concat
  | constant
  | reference
  | call
deriving DecidableEq

namespace Operator

/-- The symbol of an operator. -/
def symbol : Operator → String
  | add => "+"
  | subtract => "-"
  | multiply => "*"
  | divide => "/"
  | negate => "neg"
  | modulo => "mod"
  | and => "and"
  | or => "or"
  | not => "not"
  | less => "<"
  | lessEqual => "<="
  | equal => "="
  | greaterEqual => ">="
  | greater => ">"
  | notEqual => "<>"
  | concat => "+"
  | constant => "constant"
  | reference => "variable reference"
  | call => "function invocation"

/-- The operators that wrap a terminal. -/
def isTerminal : Operator → Bool
  | constant | reference | call => true
  | _ => false

/-- The operators with one operand. -/
def isUnary : Operator → Bool
  | negate | not => true
  | _ => false

/-- The operators on two numbers of any type that give a number. -/
def isArithmetic : Operator → Bool
  | add | subtract | multiply | divide => true
  | _ => false

/-- The comparisons. -/
def isRelational : Operator → Bool
  | less | lessEqual | equal | greaterEqual | greater | notEqual => true
  | _ => false

/-- The operators on two truth values. -/
def isLogical : Operator → Bool
  | and | or => true
  | _ => false

end Operator

end PLang
