import PLang.Parser.Declaration

/-!
# Rules for statements and programs

The rules take the action `nested` that reads a construct one level further down and the action
`type` that reads a type.
-/

namespace PLang.Parse

/-- A statement inside a block, which the end of the file cuts short. -/
def blockStatement (nested : Nested → Parse NodeId) : Parse NodeId := do
  if (← currentKind) = .endOfFile then
    fail (·.unexpected "expected 'end'")
  else
    nested .statement

/-- A block. -/
def compound (nested : Nested → Parse NodeId) (type : Parse NodeId) : Parse NodeId := do
  let token ← expect .beginWord
  let declared ← declarations type
  let statements ← many (· != .endWord) (blockStatement nested) none
  let _ ← advance
  build (Build.compound token.location declared statements)

/-- A print statement. -/
def print (nested : Nested → Parse NodeId) : Parse NodeId := do
  let token ← advance
  let value ← nested (.expression .default)
  let _ ← expect .semicolon
  build (Build.print token.location value)

/-- A read statement. -/
def read (nested : Nested → Parse NodeId) : Parse NodeId := do
  let token ← advance
  let target ← reference nested
  let _ ← expect .semicolon
  build (Build.read token.location target)

/-- A conditional statement. -/
def condition (nested : Nested → Parse NodeId) (type : Parse NodeId) : Parse NodeId := do
  let token ← advance
  let guard ← nested (.expression .default)
  let _ ← expectFor .thenWord "expected 'then' after condition"
  let thenBody ← compound nested type
  let elseBody ←
    match ← accept? .elseWord with
    | some _ => some <$> compound nested type
    | none => pure none
  let _ ← expectFor .endWord "expected 'end if'"
  let _ ← expectFor .ifWord "expected 'end if'"
  build (Build.condition token.location guard thenBody elseBody)

/-- The block of a loop, up to the words that end it. -/
def loopBody (nested : Nested → Parse NodeId) (type : Parse NodeId) : Parse NodeId := do
  let body ← compound nested type
  let _ ← expectFor .endWord "expected 'end do'"
  let _ ← expectFor .doWord "expected 'end do'"
  pure body

/-- A loop with a guard. -/
def whileLoop (nested : Nested → Parse NodeId) (type : Parse NodeId) : Parse NodeId := do
  let token ← advance
  let guard ← nested (.expression .default)
  let _ ← expectFor .doWord "expected 'do' after condition"
  let body ← loopBody nested type
  build (Build.whileLoop token.location guard body)

/-- A counting loop. Its bounds are read as numbers after its body. -/
def forLoop (nested : Nested → Parse NodeId) (type : Parse NodeId) : Parse NodeId := do
  let token ← advance
  let name ← expectFor .identifier "expected loop variable"
  let assign ← expectFor .assignment "expected ':=' after loop variable"
  let lower ← expectFor .integer "expected integer lower bound"
  let _ ← expectFor .toWord "expected 'to'"
  let upper ← expectFor .integer "expected integer upper bound"
  let _ ← expectFor .doWord "expected 'do' after loop bounds"
  let body ← loopBody nested type
  let lowerValue ← integer lower
  let upperValue ← integer upper
  build do
    let variableNode ← Build.name name.location name.value
    let assignNode ← Build.name assign.location assign.value
    let lowerNode ← Build.number lower.location lowerValue
    let upperNode ← Build.number upper.location upperValue
    Build.forLoop token.location variableNode assignNode lowerNode upperNode body

/-- A return statement. -/
def returnValue (nested : Nested → Parse NodeId) : Parse NodeId := do
  let token ← advance
  let value ←
    if (← currentKind) = .semicolon then pure none
    else some <$> nested (.expression .default)
  let _ ← expect .semicolon
  build (Build.returnValue token.location value)

/-- A statement that starts with a name: a call if a parenthesis follows, else an assignment. -/
def identifierStatement (nested : Nested → Parse NodeId) : Parse NodeId := do
  if (← nextKind) = .openParen then
    let node ← call nested
    let _ ← expect .semicolon
    pure node
  else
    let target ← reference nested
    let assign ← expectFor .assignment "expected ':=' in assignment"
    let value ← nested (.expression .default)
    let _ ← expect .semicolon
    build (Build.assign assign.location target value)

/-- The body of a program. -/
def programBody (nested : Nested → Parse NodeId) (type : Parse NodeId) : Parse NodeId := do
  if (← currentKind) = .beginWord then
    compound nested type
  else
    fail (·.unexpected "expected 'begin' of the program body")

/-- A program. -/
def program (nested : Nested → Parse NodeId) (type : Parse NodeId) : Parse NodeId := do
  let name ← expectFor .identifier "expected program name"
  let _ ← expect .semicolon
  let declared ← declarations type
  let functions ← many (· == .identifier) (function type (compound nested type)) none
  let body ← programBody nested type
  let _ ← expectFor .endWord "expected 'end' after the program body"
  build (Build.program name.location name.value declared functions body)

end PLang.Parse
