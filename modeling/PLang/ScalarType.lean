/-!
# Types

A value is a scalar or an array of scalars. Types are compared and shown by their text.
-/

namespace PLang

/-- The scalar types. Only functions that return nothing have the type `void`. -/
inductive ScalarType where
  | integer
  | real
  | boolean
  | string
  | void
deriving DecidableEq

namespace ScalarType

/-- The name of a scalar type. -/
def text : ScalarType → String
  | integer => "integer"
  | real => "real"
  | boolean => "boolean"
  | string => "string"
  | void => "void"

/-- Whether values of the type are numbers. -/
def isNumeric : ScalarType → Bool
  | integer => true
  | real => true
  | _ => false

/-- Whether a value of one type may stand where another one is expected: the same type, or an
integer for a real. -/
def coercesTo (value target : ScalarType) : Bool :=
  value == target || (value == integer && target == real)

end ScalarType

/-- The text of the type of an array with the given dimensions, such as `integer [3][4]`. Without
dimensions it is the scalar type. -/
def arrayTypeText (scalar : ScalarType) (dimensions : List Int) : String :=
  if dimensions.isEmpty then scalar.text
  else scalar.text ++ " " ++ String.join (dimensions.map fun d => "[" ++ toString d ++ "]")

end PLang
