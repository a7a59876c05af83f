import PLang.Error
import PLang.Parser.Rule
import PLang.Token.Stream
import PLang.Tree.Build

/-!
# Parsing actions

The state of a parser and the steps that all rules are made of. An action that fails keeps the state
that it has reached: the tokens it has consumed, the nodes it has added and the nesting levels it
has entered.
-/

namespace PLang

/-- The state of a parser. -/
structure Parser where
  stream : TokenStream
  store : Store
  tables : RuleTables
  /-- The nesting levels entered and not left. -/
  depth : Nat
  /-- The greatest depth allowed. -/
  limit : Nat

namespace Parser

/-- A parser at the start of a list of tokens. -/
def ofTokens (tokens : List Token) (limit : Nat) (tables : RuleTables) : Parser :=
  ⟨.ofList tokens, .empty, tables, 0, limit⟩

/-- The number of tokens after the current one. -/
def remaining (p : Parser) : Nat := p.stream.rest.length

/-- Where the current token starts. -/
def location (p : Parser) : Location := p.stream.current.location

/-- The complaint that the current token is not the one that was wanted. -/
def unexpected (p : Parser) (wanted : String) : Error :=
  ⟨.unexpectedTokenFor p.stream.current.value wanted, p.location⟩

/-- The complaint that the current token cannot stand here. -/
def misplaced (p : Parser) : Error :=
  ⟨.unexpectedToken p.stream.current.value, p.location⟩

/-- The complaint that the current token is nested too deeply. -/
def tooDeep (p : Parser) : Error := ⟨.nestingTooDeep p.limit, p.location⟩

end Parser

/-- An action on a parser. -/
abbrev Parse := EStateM Error Parser

namespace Parse

/-- Fails with a complaint about the current token. -/
def fail {α : Type} (complaint : Parser → Error) : Parse α := fun p => .error (complaint p) p

/-- The current token. -/
def current : Parse Token := fun p => .ok p.stream.current p

/-- The kind of the current token. -/
def currentKind : Parse TokenKind := fun p => .ok p.stream.current.kind p

/-- The location of the current token. -/
def location : Parse Location := fun p => .ok p.location p

/-- The kind of the token after the current one. -/
def nextKind : Parse TokenKind := fun p => .ok (p.stream.peek 1).kind p

/-- Consumes the current token and returns it. -/
def advance : Parse Token := fun p =>
  .ok p.stream.current { p with stream := p.stream.advance }

/-- Consumes a token of a kind, or fails. -/
def expectOr (kind : TokenKind) (complaint : Parser → Error) : Parse Token := fun p =>
  if p.stream.current.kind = kind then advance p else fail complaint p

/-- Consumes a token of a kind. -/
def expect (kind : TokenKind) : Parse Token := expectOr kind Parser.misplaced

/-- Consumes a token of a kind; the complaint says what was wanted. -/
def expectFor (kind : TokenKind) (wanted : String) : Parse Token :=
  expectOr kind (·.unexpected wanted)

/-- Consumes a token of a kind if it is the current one. -/
def accept? (kind : TokenKind) : Parse (Option Token) := fun p =>
  if p.stream.current.kind = kind then
    .ok (some p.stream.current) { p with stream := p.stream.advance }
  else .ok none p

/-- Adds to the program tree. -/
def build {α : Type} (action : Build α) : Parse α := fun p =>
  let result := action p.store
  .ok result.1 { p with store := result.2 }

/-- Goes one nesting level down. -/
def descend : Parse Unit := fun p => .ok () { p with depth := p.depth + 1 }

/-- Goes one nesting level down and finds that it is one too many. -/
def overstep {α : Type} : Parse α := fun p => fail Parser.tooDeep { p with depth := p.depth + 1 }

/-- Goes one nesting level down, if the limit allows it. -/
def enter : Parse Unit := fun p => if p.depth < p.limit then descend p else overstep p

/-- Goes one nesting level up. -/
def leave : Parse Unit := fun p => .ok () { p with depth := p.depth - 1 }

/-- Reads at most `n` elements, as long as the current token is of the right kind, and puts them at
the end of a list. -/
def manyUpTo (more : TokenKind → Bool) (element : Parse NodeId) :
    Nat → Option NodeId → Parse (Option NodeId)
  | 0, list => pure list
  | n + 1, list => do
    if more (← currentKind) then
      let node ← element
      manyUpTo more element n (some (← build (Build.appendTo list node)))
    else
      pure list

/-- Reads elements as long as the current token is of the right kind, and puts them at the end of a
list. An element takes a token, so that there are no more elements than tokens. -/
def many (more : TokenKind → Bool) (element : Parse NodeId) (list : Option NodeId) :
    Parse (Option NodeId) := fun p =>
  manyUpTo more element (p.remaining + 1) list p

/-- Reads one element and then one after each separator; returns the list. -/
def separated (separator : TokenKind) (first element : Parse NodeId) : Parse NodeId := do
  let head ← first
  let _ ← many (· == separator) (do let _ ← advance; element) (some head)
  pure head

end Parse

/-- The constructs that count as one level of nesting: an expression whose operators bind more
strongly than a given power, and a statement. -/
inductive Nested where
  | expression (power : BindingPower)
  | statement
deriving DecidableEq

end PLang
