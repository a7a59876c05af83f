import PLang.ScalarType
import PLang.Symbol.Kind
import PLang.Tree.Node

/-!
# The symbol table

Symbols are numbered in the order of insertion and keep their numbers until the table is cleared.
The open scopes form a stack; each holds the numbers of its symbols. `SymbolTable.lookup` finds the
newest symbol of a name in the innermost scope that has one.
-/

namespace PLang

/-- The number of a symbol. -/
abbrev SymbolId := Nat

/-- What is known of a name. -/
structure Symbol where
  /-- The scope in which it was declared; the outermost one is zero. -/
  level : Nat
  name : String
  kind : SymbolKind
  scalar : Option ScalarType
  typeText : String
  /-- The value of a constant, or the parameter types of a function. -/
  detail : String
  /-- The type of a variable, or the function or program itself. -/
  node : NodeId
deriving DecidableEq

/-- All symbols inserted and the scopes that are open. -/
structure SymbolTable where
  entries : Array Symbol
  /-- The open scopes, innermost first, and in each the symbols, newest first. -/
  scopes : List (List SymbolId)
  /-- Whether closing a scope shows the table. -/
  showOnPop : Bool

namespace SymbolTable

/-- The table without symbols and scopes. -/
def empty : SymbolTable := ⟨#[], [], false⟩

/-- Forgets all symbols and scopes. -/
def clear (t : SymbolTable) : SymbolTable := { t with entries := #[], scopes := [] }

/-- Turns showing the table at the end of scopes on or off. -/
def withShowing (t : SymbolTable) (shown : Bool) : SymbolTable := { t with showOnPop := shown }

/-- The level of the innermost open scope. -/
def level? (t : SymbolTable) : Option Nat :=
  match t.scopes with
  | [] => none
  | _ :: outer => some outer.length

/-- Opens a scope. -/
def pushScope (t : SymbolTable) : SymbolTable := { t with scopes := [] :: t.scopes }

/-- Closes the innermost scope. -/
def popScope (t : SymbolTable) : SymbolTable := { t with scopes := t.scopes.tail }

/-- The number that the next symbol gets. -/
def nextId (t : SymbolTable) : SymbolId := t.entries.size

/-- Inserts a symbol into the innermost scope. Without an open scope the symbol gets a number, but
is never found. -/
def insert (t : SymbolTable) (name : String) (kind : SymbolKind) (scalar : Option ScalarType)
    (typeText detail : String) (node : NodeId) : SymbolTable :=
  { t with
    entries := t.entries.push
      { level := t.level?.getD 0, name, kind, scalar, typeText, detail, node }
    scopes :=
      match t.scopes with
      | [] => []
      | scope :: outer => (t.nextId :: scope) :: outer }

/-- The symbol with a number. -/
def symbol? (t : SymbolTable) (id : SymbolId) : Option Symbol := t.entries[id]?

/-- The symbols of the open scopes, newest first. -/
def live (t : SymbolTable) : List SymbolId := t.scopes.flatten

/-- The number of symbols in open scopes. -/
def liveCount (t : SymbolTable) : Nat := t.live.length

/-- Whether a number belongs to a symbol of a name. -/
def hasName (t : SymbolTable) (name : String) (id : SymbolId) : Bool :=
  (t.symbol? id).any fun symbol => symbol.name == name

/-- The number of the symbol that a name stands for. -/
def lookupId (t : SymbolTable) (name : String) : Option SymbolId :=
  t.live.find? (t.hasName name)

/-- The symbol that a name stands for. -/
def lookup (t : SymbolTable) (name : String) : Option Symbol :=
  (t.lookupId name).bind t.symbol?

@[simp]
theorem popScope_pushScope (t : SymbolTable) : t.pushScope.popScope = t := rfl

@[simp]
theorem level?_pushScope (t : SymbolTable) : t.pushScope.level? = some t.scopes.length := rfl

@[simp]
theorem live_pushScope (t : SymbolTable) : t.pushScope.live = t.live := rfl

@[simp]
theorem lookup_pushScope (t : SymbolTable) (name : String) :
    t.pushScope.lookup name = t.lookup name := rfl

@[simp]
theorem symbol?_popScope (t : SymbolTable) (id : SymbolId) :
    t.popScope.symbol? id = t.symbol? id := rfl

theorem symbol?_eq_none {t : SymbolTable} {id : SymbolId} (h : t.nextId ≤ id) :
    t.symbol? id = none := by
  simpa [symbol?, nextId] using h

/-- Inserting keeps the symbols that are there. -/
theorem symbol?_insert_of_lt {t : SymbolTable} {id : SymbolId} (h : id < t.nextId)
    (name : String) (kind : SymbolKind) (scalar : Option ScalarType) (typeText detail : String)
    (node : NodeId) :
    (t.insert name kind scalar typeText detail node).symbol? id = t.symbol? id := by
  simp only [symbol?, insert, Array.getElem?_push]
  exact if_neg (Nat.ne_of_lt h)

end SymbolTable

end PLang
