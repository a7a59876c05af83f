import PLang.Checker.Basic

/-!
# Checking expressions

The types of operators, wrappers, variable references and calls. The checks take the action `visit`
that checks a part, and write the types that they find into the program tree.
-/

namespace PLang

/-- Whether a known type is numeric. -/
def isNumeric? (type : Option ScalarType) : Bool := type.any ScalarType.isNumeric

/-- The operator that is meant, once the types of the operands are known: the sum of two strings is
their concatenation. -/
def Operator.resolve (operator : Operator) (left right : Option ScalarType) : Operator :=
  if operator = .add ∧ left = some .string ∧ right = some .string then .concat else operator

/-- Only sums turn out to be other operators. -/
theorem Operator.resolve_ne {operator : Operator} {left right : Option ScalarType}
    (h : operator.resolve left right ≠ operator) :
    operator = .add ∧ operator.resolve left right = .concat := by
  unfold resolve at h ⊢
  split at h
  next hadd => exact ⟨hadd.1, if_pos hadd⟩
  next => exact absurd rfl h

/-- The type that an operator gives for the types of its operands, if it takes them. -/
def Operator.result? (operator : Operator) (left right : Option ScalarType) :
    Option ScalarType :=
  match operator with
  | .negate => if isNumeric? right then right else none
  | .not => if right = some .boolean then right else none
  | .modulo => if left = some .integer ∧ right = some .integer then some .integer else none
  | .concat => if left = some .string ∧ right = some .string then some .string else none
  | _ =>
    if operator.isArithmetic ∧ isNumeric? left ∧ isNumeric? right then
      if left = some .real ∨ right = some .real then some .real else some .integer
    else if operator.isRelational ∧ isNumeric? left ∧ isNumeric? right then some .boolean
    else if operator.isLogical ∧ left = some .boolean ∧ right = some .boolean then some .boolean
    else none

namespace Checker

/-- The variable reference that an expression wraps. -/
def wrappedReference? (c : Checker) (operand : NodeId) : Option ReferenceNode :=
  ((c.store.expression? operand).filter (·.operator = .reference)).bind fun e =>
    e.left.bind c.store.reference?

/-- The name of an operand's type in messages. An array is named by the type it was declared
with. -/
def typeName (c : Checker) (operand : NodeId) : String :=
  match c.store.resultType? operand with
  | some type => type.text
  | none =>
    (((c.wrappedReference? operand).bind fun r => c.symbols.lookup r.name).map
      Symbol.typeText).getD "unknown"

/-- The name of the type of an operand that may be missing. -/
def typeName? (c : Checker) (operand : Option NodeId) : String :=
  (operand.map c.typeName).getD "unknown"

/-- The text of the array type that is left of a variable after its subscripts. -/
def arrayText? (c : Checker) (operand : NodeId) : Option String := do
  let reference ← c.wrappedReference? operand
  let symbol ← c.symbols.lookup reference.name
  let scalar ← symbol.scalar
  let left := (c.store.dimensions symbol.node).drop (c.store.listLength reference.indices)
  if left.isEmpty then none else some (arrayTypeText scalar left)

/-- Whether an argument may be passed for a parameter of a type: a scalar that coerces to it, or
an array of exactly that type. -/
def passes (c : Checker) (argument : NodeId) (parameter : TypeNode) : Bool :=
  match parameter.dimensions with
  | none => (c.store.resultType? argument).any (·.coercesTo parameter.scalar)
  | some _ =>
    (c.store.resultType? argument).isNone && c.arrayText? argument == some parameter.text

/-- The name of an argument's type in messages: what is left of an array, or the operand's type. -/
def argumentName (c : Checker) (argument : NodeId) : String :=
  match c.arrayText? argument, c.store.resultType? argument with
  | some text, none => text
  | _, _ => c.typeName argument

/-- The complaint about an operator that does not take its operands. -/
def operandCause (c : Checker) (operator : Operator) (left right : Option NodeId) : Cause :=
  if operator.isUnary then .invalidOperand operator.symbol (c.typeName? right)
  else .invalidOperands operator.symbol (c.typeName? left) (c.typeName? right)

end Checker

namespace Check

/-- The type of an operand that may be missing. -/
def operandType (operand : Option NodeId) : Check (Option ScalarType) :=
  inStore fun s => operand.bind s.resultType?

/-- Checks an operator whose operands are checked. -/
def operator (id : NodeId) (e : ExpressionNode) : Check Nat := do
  let left ← operandType e.left
  let right ← operandType e.right
  let meant := e.operator.resolve left right
  if meant ≠ e.operator then
    write fun s => s.setOperator id meant
  match meant.result? left right with
  | some type =>
    write fun s => s.setResult id (some type)
    pure 0
  | none =>
    let cause ← view fun c => c.operandCause meant e.left e.right
    report cause id

/-- The type of what a wrapper wraps. -/
def wrappedType (operator : Operator) (part : Option NodeId) (s : Store) : Option ScalarType :=
  match operator with
  | .constant => (part.bind s.literal?).map fun l => l.value.scalarType
  | .reference => (part.bind s.reference?).bind ReferenceNode.result
  | .call => (part.bind s.call?).bind CallNode.result
  | _ => none

/-- Checks a wrapper or an operator whose parts are checked. -/
def resolved (id : NodeId) (e : ExpressionNode) : Check Nat := do
  if e.operator.isTerminal then
    let type ← inStore (wrappedType e.operator e.left)
    write fun s => s.setResult id type
    pure 0
  else
    operator id e

/-- Checks both operands, the left one first. -/
def operands (visit : NodeId → Check Nat) (e : ExpressionNode) : Check Nat := do
  let left ← optional visit e.left
  let right ← optional visit e.right
  pure (left + right)

/-- Checks an expression. -/
def expression (visit : NodeId → Check Nat) (id : NodeId) (e : ExpressionNode) : Check Nat :=
  andThen (operands visit e) (resolved id e)

/-- Checks one subscript. -/
def index (visit : NodeId → Check Nat) (id : NodeId) : Check Nat :=
  andThen (visit id) do
    if (← inStore fun s => s.resultType? id) = some .integer then pure 0
    else report .nonIntegerIndex id

/-- Compares the subscripts of a variable with its dimensions and writes its type: a scalar if it
has as many subscripts as dimensions. -/
def subscripted (id : NodeId) (r : ReferenceNode) (symbol : Symbol) : Check Nat := do
  let declared ← inStore fun s => (s.dimensions symbol.node).length
  let used ← inStore fun s => s.listLength r.indices
  if declared < used then
    report (.overSubscript r.name) id
  else
    write fun s => s.setReferenceType id (if used = declared then symbol.scalar else none)
    pure 0

/-- Checks a variable reference. -/
def reference (visit : NodeId → Check Nat) (id : NodeId) (r : ReferenceNode) : Check Nat := do
  match ← lookup r.name with
  | none => report (.undeclared r.name) id
  | some symbol =>
    if symbol.kind.isVariable then
      andThen (list (index visit) .reportAll r.indices) (subscripted id r symbol)
    else
      report (.notVariable r.name) id

/-- Compares arguments with parameter types, up to the first argument that does not pass. -/
def passed : List (NodeId × NodeId) → Check Nat
  | [] => pure 0
  | (argument, parameter) :: pairs => do
    match ← inStore fun s => s.type? parameter with
    | none => passed pairs
    | some type =>
      if ← view fun c => c.passes argument type then
        passed pairs
      else
        let name ← view fun c => c.argumentName argument
        report (.incompatibleArgument name type.text) argument

/-- Compares the arguments of a call with the parameters of the function. -/
def passing (id : NodeId) (call : CallNode) (symbol : Symbol) : Check Nat := do
  let arguments ← inStore fun s => s.siblings call.arguments
  let parameters ← inStore fun s =>
    s.siblings ((s.function? symbol.node).bind FunctionNode.parameterTypes)
  if arguments.length = parameters.length then
    passed (arguments.zip parameters)
  else
    report (.argumentCount call.name) id

/-- Checks a call. -/
def call (visit : NodeId → Check Nat) (id : NodeId) (call : CallNode) : Check Nat := do
  match ← lookup call.name with
  | none => report (.undeclared call.name) id
  | some symbol =>
    if symbol.kind = .function then
      write fun s => s.setCallType id symbol.scalar
      andThen (list visit .stopAtFirst call.arguments) (passing id call symbol)
    else
      report (.notFunction call.name) id

end Check

end PLang
