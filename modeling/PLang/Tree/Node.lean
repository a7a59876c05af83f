import PLang.Number.Binary64
import PLang.Operator
import PLang.ScalarType
import PLang.Source.Location
import PLang.Symbol.Kind

/-!
# Nodes of the program tree

Nodes are numbered and refer to each other by number. An ordered list of nodes is given by its first
node; every node names the one that follows it.
-/

namespace PLang

/-- The number of a node. -/
abbrev NodeId := Nat

/-- The value of a literal. -/
inductive LiteralValue where
  | integer (value : Int)
  | real (value : Binary64)
  | string (value : String)
  | boolean (value : Bool)
deriving DecidableEq

namespace LiteralValue

/-- The type of a literal. -/
def scalarType : LiteralValue → ScalarType
  | integer _ => .integer
  | real _ => .real
  | string _ => .string
  | boolean _ => .boolean

/-- The text of a literal. -/
def text : LiteralValue → String
  | integer value => toString value
  | real value => value.fixedText
  | string value => value
  | boolean value => if value then "true" else "false"

end LiteralValue

/-- A whole program: its declarations and functions, which are lists, and its body. -/
structure ProgramNode where
  name : String
  declarations : Option NodeId
  functions : Option NodeId
  body : NodeId
deriving DecidableEq

/-- A declaration of a list of names with one type. Constants also have a literal. -/
structure DeclarationNode where
  kind : SymbolKind
  names : NodeId
  type : NodeId
  literal : Option NodeId
deriving DecidableEq

/-- A type: a scalar, or an array with a list of dimensions, outermost first. -/
structure TypeNode where
  scalar : ScalarType
  dimensions : Option NodeId
  text : String
deriving DecidableEq

/-- A literal and its text. -/
structure LiteralNode where
  value : LiteralValue
  text : String
deriving DecidableEq

/-- An operator with its operands. A unary operator has its operand on the right, a wrapper has what
it wraps on the left. -/
structure ExpressionNode where
  operator : Operator
  left : Option NodeId
  right : Option NodeId
  /-- The scalar type found by checking; none for arrays. -/
  result : Option ScalarType
deriving DecidableEq

/-- A variable with a list of subscripts. -/
structure ReferenceNode where
  name : String
  indices : Option NodeId
  /-- The scalar type found by checking; none as long as it is an array. -/
  result : Option ScalarType
deriving DecidableEq

/-- A call of a function with a list of arguments. -/
structure CallNode where
  name : String
  arguments : Option NodeId
  /-- The return type found by checking. -/
  result : Option ScalarType
deriving DecidableEq

/-- A block: a list of declarations and a list of statements. -/
structure CompoundNode where
  declarations : Option NodeId
  statements : Option NodeId
deriving DecidableEq

/-- A conditional statement. -/
structure ConditionNode where
  guard : NodeId
  thenBody : NodeId
  elseBody : Option NodeId
deriving DecidableEq

/-- A counting loop. It keeps the nodes of its header and the declaration of its variable. -/
structure ForNode where
  loopVariable : String
  lower : Int
  upper : Int
  variableNode : NodeId
  assignNode : NodeId
  lowerNode : NodeId
  upperNode : NodeId
  declaration : NodeId
  body : NodeId
deriving DecidableEq

/-- A function. Without a body it is only announced. -/
structure FunctionNode where
  name : String
  result : ScalarType
  resultType : NodeId
  parameters : Option NodeId
  /-- A list with one type for every parameter name. -/
  parameterTypes : Option NodeId
  parameterText : String
  body : Option NodeId
deriving DecidableEq

/-- What a node holds. -/
inductive NodeKind where
  | program (node : ProgramNode)
  | declaration (node : DeclarationNode)
  | type (node : TypeNode)
  | literal (node : LiteralNode)
  | expression (node : ExpressionNode)
  | compound (node : CompoundNode)
  | print (value : NodeId)
  | reference (node : ReferenceNode)
  | assign (target value : NodeId)
  | read (target : NodeId)
  | condition (node : ConditionNode)
  | whileLoop (guard body : NodeId)
  | returnValue (value : Option NodeId)
  | forLoop (node : ForNode)
  | call (node : CallNode)
  | function (node : FunctionNode)
  /-- A name in a declaration or a loop header. -/
  | name (text : String)
  /-- A whole number: a dimension or a loop bound. -/
  | number (value : Int)
  /-- Two texts that are shown around the location. -/
  | epsilon (before after : String)
deriving DecidableEq

/-- A node: its location, what it holds, and the node that follows it in its list. -/
structure Node where
  location : Location
  kind : NodeKind
  next : Option NodeId
deriving DecidableEq

end PLang
