/-!
# Lines of a text

A line ends at a newline and leaves out one carriage return right before it. A text that ends in
a newline has no empty last line, and a carriage return at the very end of a text stays.
-/

namespace PLang

/-- The lines of a text, as lists of characters. -/
def linesOf : List Char → List (List Char)
  | [] => []
  | '\r' :: '\n' :: text => [] :: linesOf text
  | '\n' :: text => [] :: linesOf text
  | c :: text =>
    match linesOf text with
    | [] => [[c]]
    | line :: lines => (c :: line) :: lines

/-- The lines of a text. -/
def textLines (text : String) : List String :=
  (linesOf text.toList).map String.ofList

end PLang
