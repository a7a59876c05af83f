import PLang.Parser.Expression

/-!
# Abstract syntax

Programs as trees, free of node numbers, locations and tokens. The nodes of a store stand for such a
tree, the tokens of a source spell one, and the typing rules are stated on them.
-/

namespace PLang.Syntax

/-- The operators with one operand. -/
inductive UnaryOperator where
  | negate
  | not
deriving DecidableEq

namespace UnaryOperator

/-- The operator as expression nodes hold it. -/
def operator : UnaryOperator → Operator
  | negate => .negate
  | not => .not

/-- The token that spells the operator. -/
def kind : UnaryOperator → TokenKind
  | negate => .dash
  | not => .notWord

/-- How strongly the operator binds its operand. -/
def power : UnaryOperator → BindingPower
  | negate => .unary
  | not => .not

/-- Prefix tokens are read as the operators that they spell. -/
theorem unaryOperator_kind (o : UnaryOperator) :
    Parse.unaryOperator o.kind = (o.operator, o.power) := by
  cases o <;> rfl

end UnaryOperator

/-- The operators with two operands. -/
inductive BinaryOperator where
  | or
  | and
  | less
  | lessEqual
  | equal
  | greaterEqual
  | greater
  | notEqual
  | add
  | subtract
  | multiply
  | divide
  | modulo
deriving DecidableEq

namespace BinaryOperator

/-- The operator as expression nodes hold it. -/
def operator : BinaryOperator → Operator
  | or => .or
  | and => .and
  | less => .less
  | lessEqual => .lessEqual
  | equal => .equal
  | greaterEqual => .greaterEqual
  | greater => .greater
  | notEqual => .notEqual
  | add => .add
  | subtract => .subtract
  | multiply => .multiply
  | divide => .divide
  | modulo => .modulo

/-- The token that spells the operator. -/
def kind : BinaryOperator → TokenKind
  | or => .orWord
  | and => .andWord
  | less => .less
  | lessEqual => .lessEquals
  | equal => .equals
  | greaterEqual => .greaterEquals
  | greater => .greater
  | notEqual => .notEquals
  | add => .plus
  | subtract => .dash
  | multiply => .star
  | divide => .slash
  | modulo => .modWord

/-- How strongly the operator binds its operands. -/
def power : BinaryOperator → BindingPower
  | or => .or
  | and => .and
  | less | lessEqual | equal | greaterEqual | greater | notEqual => .relational
  | add | subtract => .additive
  | multiply | divide | modulo => .multiplicative

/-- The operator that a token spells between two operands. -/
def ofKind? : TokenKind → Option BinaryOperator
  | .orWord => some or
  | .andWord => some and
  | .less => some less
  | .lessEquals => some lessEqual
  | .equals => some equal
  | .greaterEquals => some greaterEqual
  | .greater => some greater
  | .notEquals => some notEqual
  | .plus => some add
  | .dash => some subtract
  | .star => some multiply
  | .slash => some divide
  | .modWord => some modulo
  | _ => none

theorem ofKind?_eq_some {k : TokenKind} {o : BinaryOperator} :
    ofKind? k = some o ↔ k = o.kind := by
  cases o <;> cases k <;> decide

@[simp]
theorem ofKind?_kind (o : BinaryOperator) : ofKind? o.kind = some o := ofKind?_eq_some.2 rfl

/-- The table of binding powers knows the binary operators and nothing else. -/
theorem standardOperator_eq (k : TokenKind) :
    RuleTables.standardOperator k = (ofKind? k).map power := by
  cases k <;> rfl

theorem binaryOperator?_eq (k : TokenKind) :
    Parse.binaryOperator? k = (ofKind? k).map operator := by
  cases k <;> rfl

/-- Every operator binds more strongly than nothing at all. -/
theorem rank_default_lt_power (o : BinaryOperator) : BindingPower.default.rank < o.power.rank := by
  cases o <;> decide

/-- A binary operator never binds exactly as strongly as a unary one. -/
theorem rank_power_ne (o : BinaryOperator) (u : UnaryOperator) :
    o.power.rank ≠ u.power.rank := by
  cases o <;> cases u <;> decide

end BinaryOperator

/-- A type: a scalar if there are no dimensions, else an array with its dimensions, outermost
first. -/
@[ext]
structure DataType where
  scalar : ScalarType
  dimensions : List Int
deriving DecidableEq

namespace DataType

/-- The type of single values. -/
def ofScalar (scalar : ScalarType) : DataType := ⟨scalar, []⟩

/-- The text of a type. -/
def text (type : DataType) : String := arrayTypeText type.scalar type.dimensions

/-- The scalar type of the values of a type, unless they are arrays. -/
def scalar? (type : DataType) : Option ScalarType :=
  if type.dimensions = [] then some type.scalar else none

end DataType

/-- One name or several ones. -/
structure Names where
  first : String
  others : List String
deriving DecidableEq

/-- All names in order. -/
def Names.toList (names : Names) : List String := names.first :: names.others

/-- An expression. Grouping is in the shape of the tree. -/
inductive Expr where
  | literal (value : LiteralValue)
  | reference (name : String) (indices : List Expr)
  | call (name : String) (arguments : List Expr)
  | unary (operator : UnaryOperator) (operand : Expr)
  | binary (operator : BinaryOperator) (left right : Expr)

/-- Names that are declared together. -/
inductive Declaration where
  | vars (names : Names) (type : DataType)
  | constants (names : Names) (value : LiteralValue)
deriving DecidableEq

/-- Parameters that are declared together. -/
structure Parameter where
  names : Names
  type : DataType
deriving DecidableEq

mutual

/-- A statement. -/
inductive Statement where
  | block (body : Block)
  | assign (name : String) (indices : List Expr) (value : Expr)
  | print (value : Expr)
  | read (name : String) (indices : List Expr)
  | condition (guard : Expr) (thenBody : Block) (elseBody : Option Block)
  | whileLoop (guard : Expr) (body : Block)
  | forLoop (loopVariable : String) (lower upper : Int) (body : Block)
  | returnValue (value : Option Expr)
  | call (name : String) (arguments : List Expr)

/-- Statements with the declarations that they share. -/
inductive Block where
  | mk (declarations : List Declaration) (statements : List Statement)

end

/-- A function. One that returns nothing has the type `void`; one without a body is only
announced. -/
structure Function where
  name : String
  parameters : List Parameter
  result : ScalarType
  body : Option Block

/-- A program. -/
structure Program where
  name : String
  declarations : List Declaration
  functions : List Function
  body : Block

/-- One type for every parameter name of a list of parameters, in order. -/
def parameterTypes (parameters : List Parameter) : List DataType :=
  parameters.flatMap fun parameter => parameter.names.toList.map fun _ => parameter.type

/-- The text of the types of a list of parameters. -/
def parameterText (parameters : List Parameter) : String :=
  "(" ++ ", ".intercalate ((parameterTypes parameters).map DataType.text) ++ ")"

/-! ### Induction over expressions and statements -/

/-- Induction over expressions, with a hypothesis for every subscript and every argument. -/
@[induction_eliminator]
theorem Expr.induction {motive : Expr → Prop}
    (literal : ∀ value, motive (.literal value))
    (reference : ∀ name indices, (∀ e ∈ indices, motive e) → motive (.reference name indices))
    (call : ∀ name arguments, (∀ e ∈ arguments, motive e) → motive (.call name arguments))
    (unary : ∀ operator operand, motive operand → motive (.unary operator operand))
    (binary : ∀ operator left right, motive left → motive right →
      motive (.binary operator left right)) (e : Expr) : motive e :=
  @Expr.rec motive (fun es => ∀ e ∈ es, motive e) literal reference call unary binary
    (fun _ h => absurd h List.not_mem_nil)
    (fun _ _ head tail _ h => (List.mem_cons.1 h).elim (fun he => he ▸ head) (tail _)) e

/-- Induction over statements and blocks together, with a hypothesis for every statement of a
block. -/
theorem Statement.induction {statement : Statement → Prop} {block : Block → Prop}
    (ofBlock : ∀ body, block body → statement (.block body))
    (assign : ∀ name indices value, statement (.assign name indices value))
    (print : ∀ value, statement (.print value))
    (read : ∀ name indices, statement (.read name indices))
    (condition : ∀ guard thenBody elseBody, block thenBody → (∀ b ∈ elseBody, block b) →
      statement (.condition guard thenBody elseBody))
    (whileLoop : ∀ guard body, block body → statement (.whileLoop guard body))
    (forLoop : ∀ loopVariable lower upper body, block body →
      statement (.forLoop loopVariable lower upper body))
    (returnValue : ∀ value, statement (.returnValue value))
    (call : ∀ name arguments, statement (.call name arguments))
    (mk : ∀ declarations statements, (∀ s ∈ statements, statement s) →
      block (.mk declarations statements)) : (∀ s, statement s) ∧ ∀ b, block b := by
  have members : ∀ s, statement s :=
    @Statement.rec statement block (fun b => ∀ x ∈ b, block x) (fun ss => ∀ s ∈ ss, statement s)
      ofBlock assign print read condition whileLoop forLoop returnValue call mk
      (fun _ h => absurd h (Option.not_mem_none _))
      (fun _ hb _ h => Option.mem_some.1 h ▸ hb)
      (fun _ h => absurd h List.not_mem_nil)
      (fun _ _ head tail _ h => (List.mem_cons.1 h).elim (fun he => he ▸ head) (tail _))
  exact ⟨members, fun b => b.casesOn fun ds ss => mk ds ss fun s _ => members s⟩

end PLang.Syntax
