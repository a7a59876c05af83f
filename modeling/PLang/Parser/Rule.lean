import PLang.Token.Basic

/-!
# Rules and their tables

A rule reads one construct of the language. Tables say, by the kind of the token at hand, which rule
reads a statement, an operand or a type, and how strongly an operator binds.
-/

namespace PLang

/-- How strongly an operator binds its operands, weakest first. -/
inductive BindingPower where
  | default
  | or
  | and
  | not
  | relational
  | additive
  | multiplicative
  | unary
  | primary
deriving DecidableEq

/-- The place of a binding power in their order. -/
def BindingPower.rank : BindingPower → Nat
  | default => 0
  | or => 1
  | and => 2
  | not => 3
  | relational => 4
  | additive => 5
  | multiplicative => 6
  | unary => 7
  | primary => 8

/-- The rules that read a construct. -/
inductive Rule where
  | type
  | scalarType
  | arrayType
  | literalExpr
  | reference
  | call
  | symbolExpr
  | groupingExpr
  | unaryExpr
  | program
  | declaration
  | function
  | statement
  | compound
  | print
  | read
  | condition
  | whileLoop
  | forLoop
  | returnValue
  | identifierStatement
deriving DecidableEq

/-- The rules and binding powers by kind of token. -/
structure RuleTables where
  statement : TokenKind → Option Rule
  operand : TokenKind → Option Rule
  operator : TokenKind → Option BindingPower
  type : TokenKind → Option Rule

namespace RuleTables

/-- A table with the entry of one kind replaced. -/
def replace {α : Type} (table : TokenKind → Option α) (kind : TokenKind) (entry : α) :
    TokenKind → Option α :=
  fun k => if k = kind then some entry else table k

/-- Tables without entries. -/
def empty : RuleTables := ⟨fun _ => none, fun _ => none, fun _ => none, fun _ => none⟩

/-- The rules for the statements of the language. -/
def standardStatement : TokenKind → Option Rule
  | .beginWord => some .compound
  | .printWord => some .print
  | .readWord => some .read
  | .ifWord => some .condition
  | .whileWord => some .whileLoop
  | .forWord => some .forLoop
  | .returnWord => some .returnValue
  | .identifier => some .identifierStatement
  | _ => none

/-- The rules for the operands of the language. -/
def standardOperand : TokenKind → Option Rule
  | .integer | .real | .string | .trueWord | .falseWord => some .literalExpr
  | .identifier => some .symbolExpr
  | .openParen => some .groupingExpr
  | .dash | .notWord => some .unaryExpr
  | _ => none

/-- The binding powers of the binary operators of the language. -/
def standardOperator : TokenKind → Option BindingPower
  | .orWord => some .or
  | .andWord => some .and
  | .less | .lessEquals | .greater | .greaterEquals | .equals | .notEquals => some .relational
  | .plus | .dash => some .additive
  | .star | .slash | .modWord => some .multiplicative
  | _ => none

/-- The rules for the types of the language. -/
def standardType : TokenKind → Option Rule
  | .integerWord | .realWord | .booleanWord | .stringWord => some .scalarType
  | .arrayWord => some .arrayType
  | _ => none

/-- The tables of the language. -/
def standard : RuleTables :=
  ⟨standardStatement, standardOperand, standardOperator, standardType⟩

end RuleTables

end PLang
