import PLang.Tree.Store

/-!
# Building program trees

Every builder adds nodes to a store and returns the number of the last one, the node it is named
for. Builders take nodes of any kind for their parts; a part of an unexpected kind counts as
missing.
-/

namespace PLang

/-- An action that adds to a store. -/
abbrev Build := StateM Store

namespace Build

/-- Adds a node that is followed by none. -/
def add (location : Location) (kind : NodeKind) : Build NodeId := fun s =>
  (s.size, ⟨s.nodes.push ⟨location, kind, none⟩⟩)

@[simp]
theorem fst_add (location : Location) (kind : NodeKind) (s : Store) :
    (add location kind s).1 = s.size := rfl

@[simp]
theorem size_add (location : Location) (kind : NodeKind) (s : Store) :
    (add location kind s).2.size = s.size + 1 := by
  simp [add, Store.size]

/-- A new node leaves the others as they are. -/
theorem node?_add (location : Location) (kind : NodeKind) (s : Store) (id : NodeId) :
    (add location kind s).2.node? id =
      if id = s.size then some ⟨location, kind, none⟩ else s.node? id := by
  exact Array.getElem?_push

/-- Reads something off the store. -/
def view (f : Store → α) : Build α := fun s => (f s, s)

/-- Lets a node follow the last one of a list and returns the first one. -/
def append (head node : NodeId) : Build NodeId := fun s => (head, s.append head node)

/-- Adds a node to the end of a list that may be empty and returns the first one. -/
def appendTo (list : Option NodeId) (node : NodeId) : Build NodeId :=
  match list with
  | some head => append head node
  | none => pure node

/-- Copies a node. The copy shares the node's parts and is followed by none. -/
def duplicate (id : NodeId) : Build NodeId := fun s =>
  match s.node? id with
  | some node => add node.location node.kind s
  | none => (id, s)

/-- A name. -/
def name (location : Location) (text : String) : Build NodeId := add location (.name text)

/-- A whole number. -/
def number (location : Location) (value : Int) : Build NodeId := add location (.number value)

/-- Two texts around a location. -/
def epsilon (location : Location) (before after : String) : Build NodeId :=
  add location (.epsilon before after)

/-- A scalar type. -/
def scalarType (location : Location) (scalar : ScalarType) : Build NodeId :=
  add location (.type ⟨scalar, none, scalar.text⟩)

/-- The type of arrays with a list of dimensions. -/
def arrayType (location : Location) (dimensions : NodeId) (scalar : ScalarType) :
    Build NodeId := do
  let sizes ← view fun s => s.numbers (some dimensions)
  add location (.type ⟨scalar, some dimensions, arrayTypeText scalar sizes⟩)

/-- A literal. -/
def literal (location : Location) (value : LiteralValue) : Build NodeId :=
  add location (.literal ⟨value, value.text⟩)

/-- An expression that is not checked yet. -/
def expression (location : Location) (operator : Operator) (left right : Option NodeId) :
    Build NodeId :=
  add location (.expression ⟨operator, left, right, none⟩)

/-- A variable reference that is not checked yet. -/
def reference (location : Location) (name : String) (indices : Option NodeId) : Build NodeId :=
  add location (.reference ⟨name, indices, none⟩)

/-- A call that is not checked yet. -/
def call (location : Location) (name : String) (arguments : Option NodeId) : Build NodeId :=
  add location (.call ⟨name, arguments, none⟩)

/-- A program. -/
def program (location : Location) (name : String) (declarations functions : Option NodeId)
    (body : NodeId) : Build NodeId :=
  add location (.program ⟨name, declarations, functions, body⟩)

/-- A declaration of names that are no constants. -/
def declaration (location : Location) (names type : NodeId) (kind : SymbolKind) : Build NodeId :=
  add location (.declaration ⟨kind, names, type, none⟩)

/-- A declaration of constants. Their type is that of the literal. -/
def constant (location : Location) (names literal : NodeId) : Build NodeId := do
  let value ← view fun s => s.literal? literal
  let type ← scalarType location ((value.map fun l => l.value.scalarType).getD .integer)
  add location (.declaration ⟨.constant, names, type, some literal⟩)

/-- A block. -/
def compound (location : Location) (declarations statements : Option NodeId) : Build NodeId :=
  add location (.compound ⟨declarations, statements⟩)

/-- A print statement. -/
def print (location : Location) (value : NodeId) : Build NodeId := add location (.print value)

/-- An assignment. -/
def assign (location : Location) (target value : NodeId) : Build NodeId :=
  add location (.assign target value)

/-- A read statement. -/
def read (location : Location) (target : NodeId) : Build NodeId := add location (.read target)

/-- A conditional statement. -/
def condition (location : Location) (guard thenBody : NodeId) (elseBody : Option NodeId) :
    Build NodeId :=
  add location (.condition ⟨guard, thenBody, elseBody⟩)

/-- A loop with a guard. -/
def whileLoop (location : Location) (guard body : NodeId) : Build NodeId :=
  add location (.whileLoop guard body)

/-- A return statement. -/
def returnValue (location : Location) (value : Option NodeId) : Build NodeId :=
  add location (.returnValue value)

/-- A counting loop. Its variable is declared as an integer, where the loop names it. -/
def forLoop (location : Location) (variableNode assignNode lowerNode upperNode body : NodeId) :
    Build NodeId := do
  let loopVariable ← view fun s => (s.name? variableNode).getD ""
  let lower ← view fun s => (s.number? lowerNode).getD 0
  let upper ← view fun s => (s.number? upperNode).getD 0
  let place ← view fun s => s.location variableNode
  let declared ← duplicate variableNode
  let type ← scalarType place .integer
  let declaration ← declaration place declared type .loopVar
  add location (.forLoop
    { loopVariable, lower, upper, variableNode, assignNode, lowerNode, upperNode, declaration,
      body })

/-- Copies a type `n` times to the end of a list of types. -/
def copies (type : NodeId) : Nat → Option NodeId → Build (Option NodeId)
  | 0, list => pure list
  | n + 1, list => do
    let copy ← duplicate type
    copies type n (some (← appendTo list copy))

/-- One copy of a parameter's type for every parameter name, to the end of a list. -/
def parameterTypes : List DeclarationNode → Option NodeId → Build (Option NodeId)
  | [], list => pure list
  | parameter :: parameters, list => do
    let count ← view fun s => s.listLength (some parameter.names)
    parameterTypes parameters (← copies parameter.type count list)

/-- A function. Without a return type it returns nothing. -/
def function (location : Location) (name : String) (parameters resultType body : Option NodeId) :
    Build NodeId := do
  let resultType ←
    match resultType with
    | some type => pure type
    | none => scalarType ⟨location.line, 0⟩ .void
  let result ← view fun s => ((s.type? resultType).map TypeNode.scalar).getD .void
  let declared ← view fun s => (s.siblings parameters).filterMap s.declaration?
  let types ← parameterTypes declared none
  let texts ← view fun s => ((s.siblings types).filterMap s.type?).map TypeNode.text
  add location (.function
    { name, result, resultType, parameters, parameterTypes := types,
      parameterText := "(" ++ ", ".intercalate texts ++ ")", body })

end Build

end PLang
