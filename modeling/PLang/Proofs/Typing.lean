import Mathlib.Data.List.Forall2
import PLang.Proofs.Syntax

/-!
# Typing rules

Which programs are well typed. The rules are about the syntax of programs and about environments; no
tree is walked, nothing is counted and nothing is reported.

A name is visible from its declaration on, and the innermost declaration counts. A name is declared
at most once in a scope, and the variable of a loop is not declared again inside the loop. Names
stand for the program, for functions, and for objects, which have a type.
-/

namespace PLang.Typing

open Syntax

/-! ### Environments -/

/-- What an object is. -/
inductive Role where
  | parameter
  | var
  | loopVariable
  | constant
deriving DecidableEq

/-- The objects that can be assigned to. -/
def Role.Mutable (role : Role) : Prop := role = .parameter ∨ role = .var

/-- What a name stands for. -/
inductive Meaning where
  | program
  | function (parameters : List DataType) (result : ScalarType)
  | object (role : Role) (type : DataType)

/-- The names that are declared in one scope, newest first. -/
abbrev Scope := List (String × Meaning)

/-- The open scopes, innermost first. -/
abbrev Env := List Scope

namespace Env

/-- What a name stands for: the innermost declaration counts. -/
def lookup (Γ : Env) (x : String) : Option Meaning := Γ.flatten.lookup x

/-- The names that are declared in the innermost scope. -/
def here (Γ : Env) : List String := (Γ.headD []).map Prod.fst

/-- Declares a name in the innermost scope. -/
def declare (Γ : Env) (x : String) (m : Meaning) : Env :=
  match Γ with
  | [] => []
  | scope :: outer => ((x, m) :: scope) :: outer

/-- Whether a name is the variable of a loop around. -/
def LoopVariable (Γ : Env) (x : String) : Prop :=
  ∃ scope ∈ Γ, ∃ t, (x, .object .loopVariable t) ∈ scope

/-- Whether a name can be declared here. -/
def Free (Γ : Env) (x : String) : Prop := x ∉ Γ.here ∧ ¬Γ.LoopVariable x

end Env

/-- What a list of constructs makes of an environment, if each sees what the ones before it have
declared. -/
inductive Sequence {α : Type} (R : Env → α → Env → Prop) : Env → List α → Env → Prop
  | nil {Γ : Env} : Sequence R Γ [] Γ
  | cons {Γ Γ1 Γ2 : Env} {a : α} {as : List α} :
      R Γ a Γ1 → Sequence R Γ1 as Γ2 → Sequence R Γ (a :: as) Γ2

theorem sequence_singleton {α : Type} {R : Env → α → Env → Prop} {Γ Γ' : Env} {a : α} :
    Sequence R Γ [a] Γ' ↔ R Γ a Γ' := by
  constructor
  · intro h
    cases h with
    | cons ha hnil =>
      cases hnil
      exact ha
  · exact fun h => .cons h .nil

/-! ### Expressions -/

/-- The types of numbers. -/
def Numeric (t : ScalarType) : Prop := t = .integer ∨ t = .real

/-- A value of a type can stand where another type is expected: they are the same, or an integer
stands for a real. -/
def Coerces (t expected : ScalarType) : Prop := t = expected ∨ t = .integer ∧ expected = .real

/-- An argument of a type can be passed for a parameter: a scalar that coerces to it, or an array of
exactly the same type. -/
inductive Passes : DataType → DataType → Prop
  | scalar {t expected : ScalarType} :
      Coerces t expected → Passes (.ofScalar t) (.ofScalar expected)
  | array {t : DataType} : t.dimensions ≠ [] → Passes t t

/-- The types of the operators with one operand. -/
inductive UnaryType : UnaryOperator → ScalarType → ScalarType → Prop
  | negate {t : ScalarType} : Numeric t → UnaryType .negate t t
  | not : UnaryType .not .boolean .boolean

/-- The types of the operators with two operands. -/
inductive BinaryType : BinaryOperator → ScalarType → ScalarType → ScalarType → Prop
  | concat : BinaryType .add .string .string .string
  | modulo : BinaryType .modulo .integer .integer .integer
  | integers {o : BinaryOperator} : o ∈ [.add, .subtract, .multiply, .divide] →
      BinaryType o .integer .integer .integer
  | reals {o : BinaryOperator} {t1 t2 : ScalarType} : o ∈ [.add, .subtract, .multiply, .divide] →
      Numeric t1 → Numeric t2 → t1 = .real ∨ t2 = .real → BinaryType o t1 t2 .real
  | comparison {o : BinaryOperator} {t1 t2 : ScalarType} :
      o ∈ [.less, .lessEqual, .equal, .greaterEqual, .greater, .notEqual] →
      Numeric t1 → Numeric t2 → BinaryType o t1 t2 .boolean
  | logic {o : BinaryOperator} : o ∈ [.and, .or] → BinaryType o .boolean .boolean .boolean

/-- An expression has a type. A variable has what is left of its dimensions after the subscripts, so
that it is a scalar if it has as many subscripts as dimensions; a call of a function that returns
nothing has the type `void`. -/
inductive HasType (Γ : Env) : Expr → DataType → Prop
  | literal {v : LiteralValue} : HasType Γ (.literal v) (.ofScalar v.scalarType)
  | reference {x : String} {es : List Expr} {role : Role} {t : DataType} :
      Γ.lookup x = some (.object role t) → (∀ e ∈ es, HasType Γ e (.ofScalar .integer)) →
      es.length ≤ t.dimensions.length →
      HasType Γ (.reference x es) ⟨t.scalar, t.dimensions.drop es.length⟩
  | call {f : String} {es : List Expr} {ps ts : List DataType} {result : ScalarType} :
      Γ.lookup f = some (.function ps result) → List.Forall₂ (HasType Γ) es ts →
      List.Forall₂ Passes ts ps → HasType Γ (.call f es) (.ofScalar result)
  | unary {o : UnaryOperator} {e : Expr} {t1 t : ScalarType} :
      HasType Γ e (.ofScalar t1) → UnaryType o t1 t → HasType Γ (.unary o e) (.ofScalar t)
  | binary {o : BinaryOperator} {e1 e2 : Expr} {t1 t2 t : ScalarType} :
      HasType Γ e1 (.ofScalar t1) → HasType Γ e2 (.ofScalar t2) → BinaryType o t1 t2 t →
      HasType Γ (.binary o e1 e2) (.ofScalar t)

/-! ### Declarations -/

/-- A name is declared. -/
def Declares (m : Meaning) (Γ : Env) (x : String) (Γ' : Env) : Prop :=
  Γ.Free x ∧ Γ' = Γ.declare x m

/-- All dimensions of a type are positive. -/
def Positive (t : DataType) : Prop := ∀ n ∈ t.dimensions, 0 < n

/-- A declaration is well typed. -/
inductive DeclarationOk : Env → Declaration → Env → Prop
  | vars {Γ Γ' : Env} {names : Names} {t : DataType} : Positive t →
      Sequence (Declares (.object .var t)) Γ names.toList Γ' →
      DeclarationOk Γ (.vars names t) Γ'
  | constants {Γ Γ' : Env} {names : Names} {v : LiteralValue} :
      Sequence (Declares (.object .constant (.ofScalar v.scalarType))) Γ names.toList Γ' →
      DeclarationOk Γ (.constants names v) Γ'

/-- A declaration of parameters is well typed. -/
def ParameterOk (Γ : Env) (p : Parameter) (Γ' : Env) : Prop :=
  Positive p.type ∧ Sequence (Declares (.object .parameter p.type)) Γ p.names.toList Γ'

/-! ### Statements -/

/-- A variable with its subscripts is a scalar that can be changed. -/
def Assignable (Γ : Env) (x : String) (es : List Expr) (t : ScalarType) : Prop :=
  HasType Γ (.reference x es) (.ofScalar t) ∧
    ∃ role type, Γ.lookup x = some (.object role type) ∧ role.Mutable

mutual

/-- A statement is well typed, where a function around it returns the type `result`. -/
inductive StatementOk : Env → Option ScalarType → Statement → Prop
  | block {Γ : Env} {result : Option ScalarType} {b : Block} :
      BlockOk Γ result b → StatementOk Γ result (.block b)
  | assign {Γ : Env} {result : Option ScalarType} {x : String} {es : List Expr} {e : Expr}
      {t t' : ScalarType} : Assignable Γ x es t → HasType Γ e (.ofScalar t') → Coerces t' t →
      StatementOk Γ result (.assign x es e)
  | print {Γ : Env} {result : Option ScalarType} {e : Expr} {t : ScalarType} :
      HasType Γ e (.ofScalar t) → t ≠ .void → StatementOk Γ result (.print e)
  | read {Γ : Env} {result : Option ScalarType} {x : String} {es : List Expr} {t : ScalarType} :
      Assignable Γ x es t → StatementOk Γ result (.read x es)
  | condition {Γ : Env} {result : Option ScalarType} {e : Expr} {b : Block} {b' : Option Block} :
      HasType Γ e (.ofScalar .boolean) → BlockOk Γ result b → (∀ x ∈ b', BlockOk Γ result x) →
      StatementOk Γ result (.condition e b b')
  | whileLoop {Γ : Env} {result : Option ScalarType} {e : Expr} {b : Block} :
      HasType Γ e (.ofScalar .boolean) → BlockOk Γ result b → StatementOk Γ result (.whileLoop e b)
  | forLoop {Γ Γ' : Env} {result : Option ScalarType} {x : String} {m n : Int} {b : Block} :
      m ≤ n → Declares (.object .loopVariable (.ofScalar .integer)) ([] :: Γ) x Γ' →
      BlockOk Γ' result b → StatementOk Γ result (.forLoop x m n b)
  | returnNothing {Γ : Env} : StatementOk Γ (some .void) (.returnValue none)
  | returnValue {Γ : Env} {expected t : ScalarType} {e : Expr} : expected ≠ .void →
      HasType Γ e (.ofScalar t) → Coerces t expected →
      StatementOk Γ (some expected) (.returnValue (some e))
  | call {Γ : Env} {result : Option ScalarType} {f : String} {es : List Expr} {t : DataType} :
      HasType Γ (.call f es) t → StatementOk Γ result (.call f es)

/-- A block is well typed. It has a scope of its own. -/
inductive BlockOk : Env → Option ScalarType → Block → Prop
  | mk {Γ Γ' : Env} {result : Option ScalarType} {ds : List Declaration} {ss : List Statement} :
      Sequence DeclarationOk ([] :: Γ) ds Γ' → (∀ s ∈ ss, StatementOk Γ' result s) →
      BlockOk Γ result (.mk ds ss)

end

/-! ### Functions and programs -/

/-- The body of a function is well typed. The parameters have a scope of their own around that of
the body. -/
def BodyOk (Γ : Env) (f : Function) (b : Block) : Prop :=
  ∃ Γ', Sequence ParameterOk ([] :: Γ) f.parameters Γ' ∧ BlockOk Γ' (some f.result) b

/-- A function is well typed. It can be called in its own body; the parameters of one without a body
are not looked at. -/
def FunctionOk (Γ : Env) (f : Function) (Γ' : Env) : Prop :=
  f.name ∉ Γ.here ∧ Γ' = Γ.declare f.name (.function (parameterTypes f.parameters) f.result) ∧
    ∀ b ∈ f.body, BodyOk Γ' f b

/-- A program is well typed. -/
def ProgramOk (P : Program) : Prop :=
  ∃ Γ Γ', Sequence DeclarationOk [[(P.name, .program)]] P.declarations Γ ∧
    Sequence FunctionOk Γ P.functions Γ' ∧ BlockOk Γ' none P.body

end PLang.Typing
