import PLang.Checker.Visit
import PLang.Parser.Program
import PLang.Token.Lexer

/-!
# The front end

From a source text to a checked program tree.
-/

namespace PLang

/-- The program tree of a source text and its root, or the first error. -/
def parseSource (source : String) (limit : Nat) : Except Error (Store × NodeId) :=
  match tokenize source with
  | .ok tokens => parseTokens tokens limit
  | .error e => .error e

/-- A program tree that has been checked, and the number of errors found in it. -/
structure Checked where
  store : Store
  root : NodeId
  errorCount : Nat

/-- How checking a source text has ended: with a checked tree, or with the error that stopped it. -/
structure CheckReport where
  outcome : Except Error Checked
  diagnostics : Diagnostics
  /-- The symbol table listings shown. -/
  shown : String

/-- Parses a source text and checks it. -/
def checkSource (source : String) (options : CheckOptions) (diagnostics : Diagnostics) :
    CheckReport :=
  match parseSource source options.limit with
  | .error e => ⟨.error e, diagnostics, ""⟩
  | .ok (store, root) =>
    match Check.visit root (.start store .empty diagnostics options) with
    | .error e c => ⟨.error e, c.diagnostics, c.shown⟩
    | .ok errorCount c => ⟨.ok ⟨c.store, root, errorCount⟩, c.diagnostics, c.shown⟩

end PLang
