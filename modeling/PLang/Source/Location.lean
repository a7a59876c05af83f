/-!
# Locations

A place in a source text is a line and a column. Lines are counted from one by newlines,
columns from one by bytes of the UTF-8 encoding. Both are 32-bit numbers, and counting starts over
behind the largest one.
-/

namespace PLang

/-- A line and a column of a source text. -/
structure Location where
  line : UInt32
  col : UInt32
deriving DecidableEq, Inhabited

/-- The stretch of text from one location up to another one. -/
structure Span where
  start : Location
  stop : Location
deriving DecidableEq, Inhabited

namespace Location

/-- The location of what has no text of its own. -/
def nowhere : Location := ⟨0, 0⟩

/-- The written form, such as `<line: 3, col: 7>`. -/
def text (l : Location) : String :=
  "<line: " ++ toString l.line ++ ", col: " ++ toString l.col ++ ">"

end Location

end PLang
