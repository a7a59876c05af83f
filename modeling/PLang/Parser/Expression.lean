import PLang.Number.Integer
import PLang.Parser.Basic

/-!
# Rules for expressions

The rules take the action `nested` that reads a construct one level further down.
-/

namespace PLang.Parse

/-- The whole number that a token spells. -/
def wordOf (token : Token) : Except Error Int :=
  match wordOfText? token.value with
  | some value => .ok value
  | none => .error ⟨.malformedNumber token.value, token.location⟩

/-- The whole number that a token spells, or a failure at that token. -/
def integer (token : Token) : Parse Int := fun p =>
  match wordOf token with
  | .ok value => .ok value p
  | .error e => .error e p

/-- The real number that a token spells, or a failure at that token. -/
def real (token : Token) : Parse Binary64 := fun p =>
  match Binary64.ofText? token.value with
  | some value => .ok value p
  | none => .error ⟨.malformedNumber token.value, token.location⟩ p

/-- The value of a literal token. After a minus sign only numbers are literals. -/
def literalValue (token : Token) (negative : Bool) : Parse LiteralValue :=
  match token.kind, negative with
  | .integer, _ => do
    let value ← integer token
    pure (.integer (if negative then negateWord value else value))
  | .real, _ => do
    let value ← real token
    pure (.real (if negative then value.negate else value))
  | .string, false => pure (.string token.value)
  | .trueWord, false => pure (.boolean true)
  | .falseWord, false => pure (.boolean false)
  | _, _ => fail (·.unexpected "expected literal constant")

/-- A literal. It stands where the minus sign before it stands, if there is one. -/
def literal (minus : Option Token) : Parse NodeId := do
  let token ← current
  let value ← literalValue token minus.isSome
  let node ← build (Build.literal (minus.getD token).location value)
  let _ ← advance
  pure node

/-- A literal as an expression. -/
def literalExpr : Parse NodeId := do
  let place ← location
  let value ← literal none
  build (Build.expression place .constant (some value) none)

/-- One subscript with its brackets. -/
def subscript (nested : Nested → Parse NodeId) : Parse NodeId := do
  let _ ← advance
  let index ← nested (.expression .default)
  let _ ← expect .closeBracket
  pure index

/-- A variable with its subscripts. -/
def reference (nested : Nested → Parse NodeId) : Parse NodeId := do
  let name ← expectFor .identifier "expected variable name"
  let indices ← many (· == .openBracket) (subscript nested) none
  build (Build.reference name.location name.value indices)

/-- The arguments of a call, up to the closing parenthesis. -/
def arguments (nested : Nested → Parse NodeId) : Parse (Option NodeId) := do
  if (← currentKind) = .closeParen then
    pure none
  else
    some <$> separated .comma (nested (.expression .default)) (nested (.expression .default))

/-- A call of a function. -/
def call (nested : Nested → Parse NodeId) : Parse NodeId := do
  let name ← expectFor .identifier "expected function name"
  let _ ← expect .openParen
  let list ← arguments nested
  let _ ← expectFor .closeParen "expected ')' after arguments"
  build (Build.call name.location name.value list)

/-- A name in an expression: a call if a parenthesis follows, else a variable. -/
def symbolExpr (nested : Nested → Parse NodeId) : Parse NodeId := do
  let place ← location
  if (← nextKind) = .openParen then
    let node ← call nested
    build (Build.expression place .call (some node) none)
  else
    let node ← reference nested
    build (Build.expression place .reference (some node) none)

/-- An expression in parentheses, which leave no trace. -/
def groupingExpr (nested : Nested → Parse NodeId) : Parse NodeId := do
  let _ ← expect .openParen
  let node ← nested (.expression .default)
  let _ ← expectFor .closeParen "expected ')' to close the group"
  pure node

/-- The unary operator that a token spells and how strongly it binds its operand. -/
def unaryOperator : TokenKind → Operator × BindingPower
  | .notWord => (.not, .not)
  | _ => (.negate, .unary)

/-- A unary operator with its operand. -/
def unaryExpr (nested : Nested → Parse NodeId) : Parse NodeId := do
  let token ← advance
  let operand ← nested (.expression (unaryOperator token.kind).2)
  build (Build.expression token.location (unaryOperator token.kind).1 none (some operand))

/-- The binary operator that a token spells. -/
def binaryOperator? : TokenKind → Option Operator
  | .plus => some .add
  | .dash => some .subtract
  | .star => some .multiply
  | .slash => some .divide
  | .modWord => some .modulo
  | .andWord => some .and
  | .orWord => some .or
  | .less => some .less
  | .lessEquals => some .lessEqual
  | .equals => some .equal
  | .greaterEquals => some .greaterEqual
  | .greater => some .greater
  | .notEquals => some .notEqual
  | _ => none

/-- A binary operator and its right operand, after the left one has been read. -/
def binaryExpr (nested : Nested → Parse NodeId) (left : NodeId) (power : BindingPower) :
    Parse NodeId := do
  let token ← advance
  match binaryOperator? token.kind with
  | none => fail fun _ => ⟨.unexpectedToken token.value, token.location⟩
  | some operator =>
    let right ← nested (.expression power)
    build (Build.expression token.location operator (some left) (some right))

/-- The binding power of the current token as an operator, if it exceeds a given one. -/
def operatorAbove? (power : BindingPower) : Parse (Option BindingPower) := fun p =>
  .ok ((p.tables.operator p.stream.current.kind).filter (power.rank < ·.rank)) p

/-- Extends an expression by at most `n` binary operators that bind more strongly than `power`. -/
def operatorsUpTo (nested : Nested → Parse NodeId) (power : BindingPower) :
    Nat → NodeId → Parse NodeId
  | 0, left => pure left
  | n + 1, left => do
    match ← operatorAbove? power with
    | none => pure left
    | some next =>
      let node ← binaryExpr nested left next
      operatorsUpTo nested power n node

/-- Extends an expression by all binary operators that bind more strongly than `power`. Each takes a
token, so that there are no more of them than tokens. -/
def operators (nested : Nested → Parse NodeId) (power : BindingPower) (left : NodeId) :
    Parse NodeId := fun p =>
  operatorsUpTo nested power (p.remaining + 1) left p

end PLang.Parse
