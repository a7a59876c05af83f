import PLang.Error
import PLang.Source.Lines

/-!
# Diagnostics

Errors are collected in the order in which they are found and shown with the line of source text
they point into.
-/

namespace PLang

/-- The errors found so far, and the source lines to show them with. -/
structure Diagnostics where
  lines : List String
  /-- Whether an error is shown when it is reported. -/
  echo : Bool
  /-- The errors, oldest first. -/
  errors : List Error

namespace Diagnostics

/-- No errors yet, for a source text; reports are shown. -/
def ofSource (source : String) : Diagnostics := ⟨textLines source, true, []⟩

/-- No errors yet and no source text; reports are only collected. -/
def silent : Diagnostics := ⟨[], false, []⟩

/-- Turns showing reports on or off. -/
def withEcho (d : Diagnostics) (echo : Bool) : Diagnostics := { d with echo := echo }

/-- The line with the given number, counted from one; empty outside of the text. -/
def sourceLine (d : Diagnostics) (line : UInt32) : String :=
  if line = 0 then "" else d.lines.getD (line.toNat - 1) ""

/-- An error as three lines: what and where, the source line, and a caret under the column. -/
def render (d : Diagnostics) (e : Error) : String :=
  "<Error> Found in line " ++ toString e.location.line ++ ", column " ++
    toString e.location.col ++ ": " ++ e.cause.message ++ "\n" ++
    d.sourceLine e.location.line ++ "\n" ++
    String.ofList (List.replicate (e.location.col.toNat - 1) ' ') ++ "^\n"

/-- Collects an error. -/
def report (d : Diagnostics) (e : Error) : Diagnostics :=
  { d with errors := d.errors ++ [e] }

/-- What reporting an error shows. -/
def echoText (d : Diagnostics) (e : Error) : String :=
  if d.echo then d.render e else ""

/-- What reporting all the collected errors has shown. -/
def echoed (d : Diagnostics) : String :=
  String.join (d.errors.map d.echoText)

end Diagnostics

end PLang
