import PLang.Parser.Expression

/-!
# Rules for types, declarations and functions

The rules take the action `type` that reads a type.
-/

namespace PLang.Parse

/-- The scalar type that a token names. -/
def scalarOf? : TokenKind → Option ScalarType
  | .integerWord => some .integer
  | .realWord => some .real
  | .booleanWord => some .boolean
  | .stringWord => some .string
  | _ => none

/-- A scalar type. -/
def scalarType : Parse NodeId := do
  match scalarOf? (← currentKind) with
  | none => fail (·.unexpected "expected scalar type")
  | some scalar =>
    let token ← advance
    build (Build.scalarType token.location scalar)

/-- One dimension of an array type, with the word before it and the one after it. -/
def dimension : Parse NodeId := do
  let _ ← advance
  let size ← expectFor .integer "expected array size"
  let value ← integer size
  let _ ← expectFor .ofWord "expected 'of' after array size"
  build (Build.number size.location value)

/-- An array type. -/
def arrayType : Parse NodeId := do
  let place ← location
  let dimensions ← many (· == .arrayWord) dimension none
  match scalarOf? (← currentKind) with
  | none => fail (·.unexpected "expected element type of array")
  | some scalar =>
    let _ ← advance
    match dimensions with
    | some first => build (Build.arrayType place first scalar)
    | none => fail (·.unexpected "expected 'array'")

/-- One name of a list of names. -/
def declaredName (wanted : String) : Parse NodeId := do
  let token ← expectFor .identifier wanted
  build (Build.name token.location token.value)

/-- A list of names with commas between them. -/
def nameList : Parse NodeId :=
  separated .comma (declaredName "expected identifier")
    (declaredName "expected identifier after ','")

/-- The type or the literal of a declaration, which makes it one of variables or of constants. -/
def declared (type : Parse NodeId) (place : Location) (names : NodeId) : Parse NodeId := fun p =>
  if (p.tables.type p.stream.current.kind).isSome then
    (do
      let node ← type
      build (Build.declaration place names node .var)) p
  else
    (do
      let minus ← accept? .dash
      let node ← literal minus
      build (Build.constant place names node)) p

/-- A declaration of variables or constants. -/
def declaration (type : Parse NodeId) : Parse NodeId := do
  let token ← expect .varWord
  let names ← nameList
  let _ ← expectFor .colon "expected ':' after declared names"
  let node ← declared type token.location names
  let _ ← expect .semicolon
  pure node

/-- All declarations that stand here. -/
def declarations (type : Parse NodeId) : Parse (Option NodeId) :=
  many (· == .varWord) (declaration type) none

/-- A declaration of parameters. -/
def parameter (type : Parse NodeId) : Parse NodeId := do
  let place ← location
  let names ← nameList
  let _ ← expectFor .colon "expected ':' after parameter names"
  let node ← type
  build (Build.declaration place names node .parameter)

/-- The parameters of a function, up to the closing parenthesis. -/
def parameters (type : Parse NodeId) : Parse (Option NodeId) := do
  if (← currentKind) = .closeParen then
    pure none
  else
    some <$> separated .semicolon (parameter type) (parameter type)

/-- The return type of a function, if there is one. -/
def returnType : Parse (Option NodeId) := do
  match ← accept? .colon with
  | some _ => some <$> scalarType
  | none => pure none

/-- The body of a function, or the semicolon that stands for a missing one. -/
def functionBody (compound : Parse NodeId) : Parse (Option NodeId) := do
  match ← accept? .semicolon with
  | some _ => pure none
  | none =>
    let body ← compound
    let _ ← expectFor .endWord "expected 'end' after function body"
    pure (some body)

/-- A function. -/
def function (type compound : Parse NodeId) : Parse NodeId := do
  let name ← expect .identifier
  let _ ← expectFor .openParen "expected '(' after function name"
  let list ← parameters type
  let _ ← expectFor .closeParen "expected ')' after parameters"
  let result ← returnType
  let body ← functionBody compound
  build (Build.function name.location name.value list result body)

end PLang.Parse
