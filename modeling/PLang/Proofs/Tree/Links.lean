import Mathlib.Data.List.Forall2
import PLang.Tree.Store

/-!
# Links between nodes

A node leads to the nodes in its slots and to the node that follows it. `NodeKind.parts` lists the
slots of every kind of node and what belongs there, and `Store.walk?` follows a path of links.
`StoreOk` says that all slots of all nodes are filled as they should be.
-/

namespace PLang

/-- The slots in which nodes hold others. -/
inductive Slot where
  | declarations
  | functions
  | statements
  | body
  | names
  | type
  | literal
  | dimensions
  | left
  | right
  | indices
  | arguments
  | value
  | target
  | guard
  | thenBody
  | elseBody
  | variableNode
  | assignNode
  | lowerNode
  | upperNode
  | declaration
  | parameters
  | parameterTypes
  | resultType
deriving DecidableEq

/-- Whether a slot holds the first node of a list. All other slots hold one node. -/
def Slot.isList : Slot → Bool
  | declarations | functions | statements | names | dimensions | indices | arguments | parameters
  | parameterTypes => true
  | _ => false

/-- A slot of a node, the node in it, if there is one, and the kinds of nodes that belong there. -/
structure Part where
  slot : Slot
  node : Option NodeId
  fits : NodeKind → Bool

namespace NodeKind

/-- Declarations with symbols of some kinds. -/
def declares (kinds : List SymbolKind) : NodeKind → Bool
  | declaration d => kinds.contains d.kind
  | _ => false

/-- Functions. -/
def isFunction : NodeKind → Bool
  | function _ => true
  | _ => false

/-- Blocks. -/
def isCompound : NodeKind → Bool
  | compound _ => true
  | _ => false

/-- Nodes that declare names for the construct around them. -/
def isDeclaring : NodeKind → Bool
  | declaration _ | function _ => true
  | _ => false

/-- Whether checking a node of a kind takes place in a scope of its own as a whole. -/
def hasOwnScope : NodeKind → Bool
  | program _ | compound _ | forLoop _ => true
  | _ => false

/-- Statements. -/
def isStatement : NodeKind → Bool
  | compound _ | print _ | assign _ _ | read _ | condition _ | whileLoop _ _ | forLoop _
  | returnValue _ | call _ => true
  | _ => false

/-- Expressions. -/
def isExpression : NodeKind → Bool
  | expression _ => true
  | _ => false

/-- Variables with their subscripts. -/
def isReference : NodeKind → Bool
  | reference _ => true
  | _ => false

/-- Calls. -/
def isCall : NodeKind → Bool
  | call _ => true
  | _ => false

/-- Literals. -/
def isLiteral : NodeKind → Bool
  | literal _ => true
  | _ => false

/-- Types. -/
def isType : NodeKind → Bool
  | type _ => true
  | _ => false

/-- Names. -/
def isName : NodeKind → Bool
  | name _ => true
  | _ => false

/-- Whole numbers. -/
def isNumber : NodeKind → Bool
  | number _ => true
  | _ => false

end NodeKind

/-- What stands on the left of an operator. -/
def Operator.fitsLeft : Operator → NodeKind → Bool
  | constant => NodeKind.isLiteral
  | reference => NodeKind.isReference
  | call => NodeKind.isCall
  | _ => NodeKind.isExpression

/-- Whether an expression has the operands that its operator asks for: a wrapper has one on the
left, a unary operator one on the right, and a binary one has both. -/
def ExpressionNode.isComplete (e : ExpressionNode) : Bool :=
  match e.operator with
  | .constant | .reference | .call => e.left.isSome && e.right.isNone
  | .negate | .not => e.left.isNone && e.right.isSome
  | _ => e.left.isSome && e.right.isSome

/-- The slots of a counting loop's header. -/
def ForNode.headerParts (f : ForNode) : List Part :=
  [⟨.variableNode, some f.variableNode, NodeKind.isName⟩,
    ⟨.assignNode, some f.assignNode, NodeKind.isName⟩,
    ⟨.lowerNode, some f.lowerNode, NodeKind.isNumber⟩,
    ⟨.upperNode, some f.upperNode, NodeKind.isNumber⟩,
    ⟨.declaration, some f.declaration, NodeKind.declares [.loopVar]⟩]

namespace NodeKind

/-- The slots of a node. -/
def parts : NodeKind → List Part
  | program p => [⟨.declarations, p.declarations, declares [.var, .constant]⟩,
      ⟨.functions, p.functions, isFunction⟩, ⟨.body, some p.body, isCompound⟩]
  | declaration d => [⟨.names, some d.names, isName⟩, ⟨.type, some d.type, isType⟩,
      ⟨.literal, d.literal, isLiteral⟩]
  | type t => [⟨.dimensions, t.dimensions, isNumber⟩]
  | expression e => [⟨.left, e.left, e.operator.fitsLeft⟩, ⟨.right, e.right, isExpression⟩]
  | compound b => [⟨.declarations, b.declarations, declares [.var, .constant]⟩,
      ⟨.statements, b.statements, isStatement⟩]
  | print value => [⟨.value, some value, isExpression⟩]
  | reference r => [⟨.indices, r.indices, isExpression⟩]
  | assign target value => [⟨.target, some target, isReference⟩, ⟨.value, some value, isExpression⟩]
  | read target => [⟨.target, some target, isReference⟩]
  | condition c => [⟨.guard, some c.guard, isExpression⟩, ⟨.thenBody, some c.thenBody, isCompound⟩,
      ⟨.elseBody, c.elseBody, isCompound⟩]
  | whileLoop guard body => [⟨.guard, some guard, isExpression⟩, ⟨.body, some body, isCompound⟩]
  | returnValue value => [⟨.value, value, isExpression⟩]
  | forLoop f => f.headerParts ++ [⟨.body, some f.body, isCompound⟩]
  | call c => [⟨.arguments, c.arguments, isExpression⟩]
  | function f => [⟨.parameters, f.parameters, declares [.parameter]⟩,
      ⟨.parameterTypes, f.parameterTypes, isType⟩, ⟨.resultType, some f.resultType, isType⟩,
      ⟨.body, f.body, isCompound⟩]
  | literal _ | name _ | number _ | epsilon _ _ => []

/-- Whether a node has all parts that it needs. -/
def isComplete : NodeKind → Bool
  | expression e => e.isComplete
  | declaration d => (d.kind == .constant) == d.literal.isSome
  | _ => true

/-- The node in a slot. -/
def slot? (k : NodeKind) (slot : Slot) : Option NodeId :=
  (k.parts.find? fun part => part.slot == slot).bind Part.node

/-- A node has every slot once. -/
theorem nodup_slots (k : NodeKind) : (k.parts.map Part.slot).Nodup := by
  cases k <;> exact of_decide_eq_true rfl

end NodeKind

/-- A step from one node to another. -/
inductive Link where
  /-- To the node in a slot. -/
  | slot (slot : Slot)
  /-- To the node that follows. -/
  | next
deriving DecidableEq

namespace Store

variable (s : Store)

/-- The node to which a link leads. -/
def follow? (id : NodeId) : Link → Option NodeId
  | .slot slot => (s.kind? id).bind fun k => k.slot? slot
  | .next => s.next? id

/-- The node to which a path of links leads. -/
def walk? : NodeId → List Link → Option NodeId
  | id, [] => some id
  | id, link :: path => (s.follow? id link).bind fun id => walk? id path

variable {s}

theorem walk?_append {id : NodeId} {path more : List Link} :
    s.walk? id (path ++ more) = (s.walk? id path).bind fun id => s.walk? id more := by
  induction path generalizing id with
  | nil => rfl
  | cons link path ih =>
    rw [List.cons_append, walk?, walk?, Option.bind_assoc]
    exact congrArg _ (funext fun id => ih)

/-- A type holds a dimension. -/
def Holds (s : Store) (owner id : NodeId) : Prop :=
  ∃ type, s.kind? owner = some (.type type) ∧ id ∈ s.siblings type.dimensions

/-- The dimensions of the types of formal parameters: a function shares them between the declaration
of its parameters and its list of parameter types. -/
def FormalDimension (s : Store) (id : NodeId) : Prop :=
  ∃ declaration d, s.kind? declaration = some (.declaration d) ∧ d.kind = .parameter ∧
    s.Holds d.type id

/-- A path goes from a node through the dimensions of a type. -/
def Through (s : Store) (root owner : NodeId) (path : List Link) : Prop :=
  ∃ before after, path = before ++ .slot .dimensions :: after ∧ s.walk? root before = some owner

end Store

/-- Whether a slot of a node is filled as it should be: the node in it is older, and the nodes of
the list that it starts are of the right kind. -/
structure PartOk (s : Store) (id : NodeId) (part : Part) (child : NodeId) : Prop where
  lt : child < id
  members : ∀ member ∈ s.siblings (some child), ∃ k, s.kind? member = some k ∧ part.fits k = true
  alone : part.slot.isList = false → s.next? child = none

/-- Whether all nodes have the parts they need, older than they are and of the right kind, and are
followed by newer nodes only. -/
structure StoreOk (s : Store) : Prop where
  complete : ∀ id k, s.kind? id = some k → k.isComplete = true
  parts : ∀ id k, s.kind? id = some k → ∀ part ∈ k.parts, ∀ child, part.node = some child →
    child < s.size ∧ PartOk s id part child
  next : ∀ id other, s.next? id = some other → id < other ∧ other < s.size

end PLang
