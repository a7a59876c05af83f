import PLang.Checker.Expression

/-!
# Checking declarations and statements

The checks take the action `visit` that checks a part.
-/

namespace PLang.Check

/-- Whether a name may not be declared here: it is declared in this scope, or it is that of a loop
around. -/
def clashes (c : Checker) (name : String) : Bool :=
  (c.symbols.lookup name).any fun symbol =>
    some symbol.level == c.symbols.level? || symbol.kind == .loopVar

/-- Declares one name of a declaration. -/
def declareName (d : DeclarationNode) (type : TypeNode) (detail : String) (id : NodeId) :
    Check Nat := do
  let name ← inStore fun s => (s.name? id).getD ""
  if ← view fun c => clashes c name then
    report (.redeclared name) id
  else
    declare name d.kind (some type.scalar) type.text detail d.type
    pure 0

/-- Checks that the dimensions of a declared type are positive. -/
def positive (d : DeclarationNode) : Check Nat := do
  if ← inStore fun s => (s.dimensions d.type).any (· ≤ 0) then
    let name ← inStore fun s => (s.name? d.names).getD ""
    report (.nonPositiveDimension name) d.names
  else
    pure 0

/-- Checks a declaration and declares its names. -/
def declaration (d : DeclarationNode) : Check Nat := do
  match ← inStore fun s => s.type? d.type with
  | none => pure 0
  | some type =>
    let detail ← inStore fun s => ((d.literal.bind s.literal?).map LiteralNode.text).getD ""
    let redeclared ← list (declareName d type detail) .reportAll (some d.names)
    let misshapen ← positive d
    pure (redeclared + misshapen)

/-- Checks a program. -/
def program (visit : NodeId → Check Nat) (id : NodeId) (p : ProgramNode) : Check Nat :=
  inScope do
    declare p.name .program (some .void) "void" "" id
    let declarations ← list visit .reportAll p.declarations
    let functions ← list visit .reportAll p.functions
    let body ← visit p.body
    pure (declarations + functions + body)

/-- Checks a block. -/
def compound (visit : NodeId → Check Nat) (b : CompoundNode) : Check Nat :=
  inScope do
    let declarations ← list visit .reportAll b.declarations
    let statements ← list visit .reportAll b.statements
    pure (declarations + statements)

/-- Checks a print statement: its value is a scalar. -/
def print (visit : NodeId → Check Nat) (value : NodeId) : Check Nat :=
  andThen (visit value) do
    match ← inStore fun s => s.resultType? value with
    | none => report .printNonScalar value
    | some .void => report .printNonScalar value
    | some _ => pure 0

/-- Checks that a value may be assigned to a variable of a type. -/
def assignable (id value : NodeId) (target : ScalarType) : Check Nat := do
  match ← inStore fun s => s.resultType? value with
  | none => report .arrayAssignment value
  | some type =>
    if type.coercesTo target then pure 0
    else report (.incompatibleAssignment target.text type.text) id

/-- The complaint about an assignment to a name that is not to be changed. -/
def protection? (name : String) (kind : SymbolKind) : Option Cause :=
  match kind with
  | .constant => some (.assignToConstant name)
  | .loopVar => some .assignToLoopVariable
  | _ => none

/-- Checks an assignment whose variable is checked. -/
def assigned (visit : NodeId → Check Nat) (id target value : NodeId) : Check Nat := do
  match ← inStore fun s => s.reference? target with
  | none => pure 0
  | some reference =>
    match reference.result with
    | none => report .arrayAssignment target
    | some type =>
      match (← lookup reference.name).bind fun symbol => protection? reference.name symbol.kind with
      | some cause => report cause target
      | none => andThen (visit value) (assignable id value type)

/-- Checks an assignment. -/
def assign (visit : NodeId → Check Nat) (id target value : NodeId) : Check Nat :=
  andThen (visit target) (assigned visit id target value)

/-- Checks a read statement: its variable is a scalar and may be changed. -/
def read (visit : NodeId → Check Nat) (target : NodeId) : Check Nat :=
  andThen (visit target) do
    match ← inStore fun s => s.reference? target with
    | none => pure 0
    | some reference =>
      if reference.result.isNone then
        report .readNonScalar target
      else if (← lookup reference.name).any fun symbol =>
          symbol.kind == .constant || symbol.kind == .loopVar then
        report .readProtected target
      else
        pure 0

/-- Checks a guard: it is a truth value. -/
def guard (visit : NodeId → Check Nat) (id : NodeId) : Check Nat :=
  andThen (visit id) do
    if (← inStore fun s => s.resultType? id) = some .boolean then pure 0
    else report .nonBooleanGuard id

/-- Checks a conditional statement. -/
def condition (visit : NodeId → Check Nat) (c : ConditionNode) : Check Nat := do
  let inGuard ← guard visit c.guard
  let inThen ← visit c.thenBody
  let inElse ← optional visit c.elseBody
  pure (inGuard + inThen + inElse)

/-- Checks a loop with a guard. -/
def whileLoop (visit : NodeId → Check Nat) (guardNode body : NodeId) : Check Nat := do
  let inGuard ← guard visit guardNode
  let inBody ← visit body
  pure (inGuard + inBody)

/-- Checks a counting loop. -/
def forLoop (visit : NodeId → Check Nat) (id : NodeId) (f : ForNode) : Check Nat :=
  inScope do
    let bounds ← if f.upper < f.lower then report .decreasingBounds id else pure 0
    let declaration ← visit f.declaration
    let body ← visit f.body
    pure (bounds + declaration + body)

/-- Checks that a value may be returned where a type is expected. -/
def returnable (value : NodeId) (expected : ScalarType) : Check Nat := do
  if (← inStore fun s => s.resultType? value).any (·.coercesTo expected) then
    pure 0
  else
    let name ← view fun c => c.typeName value
    report (.incompatibleReturn name expected.text) value

/-- Checks a return statement against the function around it. -/
def returnValue (visit : NodeId → Check Nat) (id : NodeId) (value : Option NodeId) :
    Check Nat := do
  match ← view fun c => c.function.bind c.store.function? with
  | none => report .returnOutsideFunction id
  | some function =>
    match function.result, value with
    | .void, none => pure 0
    | .void, some _ => report (.returnFromProcedure function.name) id
    | expected, none => report (.missingReturnValue function.name expected.text) id
    | expected, some value => andThen (visit value) (returnable value expected)

/-- Declares a function, unless its name is declared in this scope. -/
def declareFunction (id : NodeId) (f : FunctionNode) : Check Nat := do
  let redeclared ← view fun c =>
    (c.symbols.lookup f.name).any fun symbol => some symbol.level == c.symbols.level?
  if redeclared then
    report (.redeclared f.name) id
  else
    declare f.name .function (some f.result) f.result.text f.parameterText id
    pure 0

/-- Checks a function and, if it has one, its body. -/
def function (visit : NodeId → Check Nat) (id : NodeId) (f : FunctionNode) : Check Nat := do
  let header ← declareFunction id f
  match f.body with
  | none => pure header
  | some body =>
    let inside ← within id <| inScope do
      let parameters ← list visit .reportAll f.parameters
      let statements ← list visit .reportAll (some body)
      pure (parameters + statements)
    pure (header + inside)

end PLang.Check
