import PLang.Symbol.Table

/-!
# The symbol table as text

A listing has a heading and one row for each symbol of the open scopes, oldest first. Cells are
filled with blanks up to the width of their column; a longer text is not cut.
-/

namespace PLang

/-- A text with blanks after it up to a number of characters. -/
def padded (width : Nat) (text : String) : String :=
  text ++ String.ofList (List.replicate (width - text.length) ' ')

/-- A line across the listing. -/
def listingRule (c : Char) : String := String.ofList (List.replicate 110 c) ++ "\n"

/-- The heading of the listing. -/
def listingHeading : String :=
  padded 33 "Name" ++ padded 11 "Kind" ++ padded 11 "Level" ++ padded 17 "Type" ++
    padded 11 "Attribute" ++ "\n"

/-- The row of a symbol. -/
def Symbol.row (symbol : Symbol) : String :=
  padded 33 symbol.name ++ padded 11 symbol.kind.text ++ toString symbol.level ++
    padded 10 (if symbol.level = 0 then "(global)" else "(local)") ++
    padded 17 symbol.typeText ++ padded 11 symbol.detail ++ "\n"

namespace SymbolTable

/-- The listing of the symbols in open scopes. -/
def listing (t : SymbolTable) : String :=
  listingRule '=' ++ listingHeading ++ listingRule '-' ++
    String.join ((t.live.reverse.filterMap t.symbol?).map Symbol.row) ++ listingRule '-'

/-- What closing the innermost scope shows. -/
def popText (t : SymbolTable) : String := if t.showOnPop then t.listing else ""

end SymbolTable

end PLang
