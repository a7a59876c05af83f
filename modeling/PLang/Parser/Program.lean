import PLang.Parser.Statement

/-!
# Parsing

Ties the rules together. Only expressions and statements contain each other without end, and they
count as levels of nesting, so that the nesting limit bounds the recursion.
-/

namespace PLang

namespace Parse

/-- The action of a rule, given how to read what is nested in it and how to read a type. -/
def rule (nested : Nested → Parse NodeId) (type : Parse NodeId) : Rule → Parse NodeId
  | .type => type
  | .scalarType => scalarType
  | .arrayType => arrayType
  | .literalExpr => literalExpr
  | .reference => reference nested
  | .call => call nested
  | .symbolExpr => symbolExpr nested
  | .groupingExpr => groupingExpr nested
  | .unaryExpr => unaryExpr nested
  | .program => program nested type
  | .declaration => declaration type
  | .function => function type (compound nested type)
  | .statement => nested .statement
  | .compound => compound nested type
  | .print => print nested
  | .read => read nested
  | .condition => condition nested type
  | .whileLoop => whileLoop nested type
  | .forLoop => forLoop nested type
  | .returnValue => returnValue nested
  | .identifierStatement => identifierStatement nested

/-- A type, inside at most `n` other ones. The rule for a type is found in the table. -/
def typeUpTo (nested : Nested → Parse NodeId) : Nat → Parse NodeId
  | 0 => fail Parser.misplaced
  | n + 1 => fun p =>
    match p.tables.type p.stream.current.kind with
    | none => fail Parser.misplaced p
    | some r => rule nested (typeUpTo nested n) r p

/-- A type. A type inside another one stands further on in the tokens. -/
def type (nested : Nested → Parse NodeId) : Parse NodeId := fun p =>
  typeUpTo nested (p.remaining + 1) p

/-- An expression whose operators bind more strongly than `power`: an operand, and what operators
make of it. -/
def expression (nested : Nested → Parse NodeId) (power : BindingPower) : Parse NodeId := fun p =>
  match p.tables.operand p.stream.current.kind with
  | none => fail (·.unexpected "expected expression") p
  | some r =>
    (do
      let left ← rule nested (type nested) r
      operators nested power left) p

/-- A statement. -/
def statement (nested : Nested → Parse NodeId) : Parse NodeId := fun p =>
  match p.tables.statement p.stream.current.kind with
  | none => fail (·.unexpected "expected statement") p
  | some r => rule nested (type nested) r p

/-- A construct on its own level of nesting, when `n` more levels are allowed. -/
def nestedUpTo : Nat → Nested → Parse NodeId
  | 0, _ => overstep
  | n + 1, .expression power => do
    descend
    let node ← expression (nestedUpTo n) power
    leave
    pure node
  | n + 1, .statement => do
    descend
    let node ← statement (nestedUpTo n)
    leave
    pure node

/-- A construct on its own level of nesting, as far as the limit allows. -/
def nested (construct : Nested) : Parse NodeId := fun p =>
  nestedUpTo (p.limit - p.depth) construct p

/-- Reads a construct by its rule. -/
def run (r : Rule) : Parse NodeId := rule nested (type nested) r

/-- A program and the end of the file. -/
def wholeProgram : Parse NodeId := do
  let root ← run .program
  let _ ← expectFor .endOfFile "expected end of file after the program"
  pure root

end Parse

/-- The program tree of a list of tokens and its root. -/
def parseTokens (tokens : List Token) (limit : Nat) : Except Error (Store × NodeId) :=
  match Parse.wholeProgram (.ofTokens tokens limit .standard) with
  | .ok root p => .ok (p.store, root)
  | .error e _ => .error e

end PLang
