import PLang.Source.Location
import PLang.Text.Quoted

/-!
# Errors

An error is a cause and the location at which it was found. The wording of every cause is
`Cause.message`; the advice that goes with some of them is `Cause.tip?`.
-/

namespace PLang

/-- What can be wrong with a program. -/
inductive Cause where
  | unrecognisedToken (token : String)
  | unexpectedToken (token : String)
  | unexpectedTokenFor (token wanted : String)
  | malformedNumber (token : String)
  | nestingTooDeep (limit : Nat)
  | redeclared (name : String)
  | nonPositiveDimension (name : String)
  | undeclared (name : String)
  | notVariable (name : String)
  | notFunction (name : String)
  | nonIntegerIndex
  | overSubscript (name : String)
  | arrayAssignment
  | assignToConstant (name : String)
  | assignToLoopVariable
  | incompatibleAssignment (target value : String)
  | readNonScalar
  | readProtected
  | printNonScalar
  | nonBooleanGuard
  | decreasingBounds
  | returnOutsideFunction
  | returnFromProcedure (function : String)
  | missingReturnValue (function expected : String)
  | incompatibleReturn (value expected : String)
  | argumentCount (function : String)
  | incompatibleArgument (argument parameter : String)
  | invalidOperand (operator operand : String)
  | invalidOperands (operator left right : String)
deriving DecidableEq

namespace Cause

/-- The text of a message that names something between single quotes. -/
def naming (before name after : String) : String :=
  before ++ "'" ++ name ++ "'" ++ after

/-- The wording of a cause. -/
def message : Cause → String
  | unrecognisedToken token => "unrecognised token: " ++ quoted token
  | unexpectedToken token => "unexpected token: " ++ quoted token
  | unexpectedTokenFor token wanted =>
    "unexpected token (" ++ quoted wanted ++ "): " ++ quoted token
  | malformedNumber token => "error parsing number: " ++ quoted token
  | nestingTooDeep limit =>
    "program nesting exceeds the limit of " ++ toString limit ++ " levels"
  | redeclared name => naming "symbol " name " is redeclared"
  | nonPositiveDimension name =>
    naming "" name " declared as an array with an index that is not greater than 0"
  | undeclared name => naming "use of undeclared symbol " name ""
  | notVariable name => naming "use of non-variable symbol " name ""
  | notFunction name => naming "call of non-function symbol " name ""
  | nonIntegerIndex => "index of array reference must be an integer"
  | overSubscript name => naming "there is an over array subscript on " name ""
  | arrayAssignment => "array assignment is not allowed"
  | assignToConstant name => naming "cannot assign to variable " name " which is a constant"
  | assignToLoopVariable =>
    "the value of loop variable cannot be modified inside the loop body"
  | incompatibleAssignment target value =>
    naming "assigning to " target (naming " from incompatible type " value "")
  | readNonScalar => "variable reference of read statement must be scalar type"
  | readProtected =>
    "variable reference of read statement cannot be a constant or loop variable"
  | printNonScalar => "expression of print statement must be scalar type"
  | nonBooleanGuard => "the expression of condition must be boolean type"
  | decreasingBounds =>
    "the lower bound and upper bound of iteration count must be in the incremental order"
  | returnOutsideFunction => "return statement is not allowed outside of a function"
  | returnFromProcedure function => naming "procedure " function " should not return a value"
  | missingReturnValue function expected =>
    naming "function " function (naming " must return a value of type " expected "")
  | incompatibleReturn value expected =>
    naming "return " value (naming " from a function with return type " expected "")
  | argumentCount function =>
    naming "too few/much arguments provided for function " function ""
  | incompatibleArgument argument parameter =>
    naming "incompatible type passing " argument (naming " to parameter of type " parameter "")
  | invalidOperand operator operand =>
    naming "invalid operand to unary operator " operator (" ('" ++ operand ++ "')")
  | invalidOperands operator left right =>
    naming "invalid operands to binary operator " operator
      (" ('" ++ left ++ "' and '" ++ right ++ "')")

/-- Advice on how to mend the program, for the causes that have some. -/
def tip? : Cause → Option String
  | unexpectedToken token =>
    some ("Unexpected token: `" ++ token ++ "`, did you miss a semicolon?")
  | unexpectedTokenFor token wanted => some ("Unexpected token: `" ++ token ++ "`, " ++ wanted)
  | malformedNumber token =>
    some ("Invalid number: `" ++ token ++ "`, is it above the integer limit?")
  | nestingTooDeep limit =>
    some ("Program nests deeper than " ++ toString limit ++ " levels, try raising --max-depth")
  | _ => none

/-- Whether checking stops at this cause. -/
def isFatal : Cause → Bool
  | nestingTooDeep _ => true
  | _ => false

end Cause

/-- A cause and where it was found. -/
structure Error where
  cause : Cause
  location : Location
deriving DecidableEq

end PLang
