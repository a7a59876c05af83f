import PLang.Diagnostics
import PLang.Symbol.Listing
import PLang.Tree.Store

/-!
# Checking actions

The state of a checker and the steps that all checks are made of. A check returns the number of
errors that it has reported. It fails only where the nesting limit is exceeded, and then keeps the
state that it has reached.
-/

namespace PLang

/-- The state of a checker. -/
structure Checker where
  store : Store
  symbols : SymbolTable
  diagnostics : Diagnostics
  /-- The symbol table listings shown so far. -/
  shown : String
  /-- The function whose body is checked. -/
  function : Option NodeId
  /-- The number of nodes around the current one, and the current one. -/
  depth : Nat
  /-- The greatest depth allowed. -/
  limit : Nat

/-- What is asked of a checker. -/
structure CheckOptions where
  showSymbols : Bool
  limit : Nat

/-- The nesting limit where none is given. -/
def defaultLimit : Nat := 512

namespace Checker

/-- A checker that has not started. -/
def start (store : Store) (symbols : SymbolTable) (diagnostics : Diagnostics)
    (options : CheckOptions) : Checker :=
  ⟨store, symbols.withShowing options.showSymbols, diagnostics, "", none, 0, options.limit⟩

/-- Opens a scope. -/
def pushScope (c : Checker) : Checker := { c with symbols := c.symbols.pushScope }

/-- Closes the innermost scope. -/
def popScope (c : Checker) : Checker :=
  { c with symbols := c.symbols.popScope, shown := c.shown ++ c.symbols.popText }

end Checker

/-- An action on a checker. -/
abbrev Check := EStateM Error Checker

namespace Check

/-- Reads something off the state. -/
def view {α : Type} (f : Checker → α) : Check α := fun c => .ok (f c) c

/-- Reads something off the program tree. -/
def inStore {α : Type} (f : Store → α) : Check α := view fun c => f c.store

/-- Changes the program tree. -/
def write (f : Store → Store) : Check Unit := fun c => .ok () { c with store := f c.store }

/-- The symbol that a name stands for. -/
def lookup (name : String) : Check (Option Symbol) := view fun c => c.symbols.lookup name

/-- Reports an error at a node, which counts as one. -/
def report (cause : Cause) (node : NodeId) : Check Nat := fun c =>
  .ok 1 { c with diagnostics := c.diagnostics.report ⟨cause, c.store.location node⟩ }

/-- Inserts a symbol. -/
def declare (name : String) (kind : SymbolKind) (scalar : Option ScalarType)
    (typeText detail : String) (node : NodeId) : Check Unit := fun c =>
  .ok () { c with symbols := c.symbols.insert name kind scalar typeText detail node }

/-- Checks inside a scope of its own, which is closed in any case. -/
def inScope (check : Check Nat) : Check Nat := fun c =>
  match check c.pushScope with
  | .ok n c => .ok n c.popScope
  | .error e c => .error e c.popScope

/-- Checks inside the body of a function. -/
def within (function : NodeId) (check : Check Nat) : Check Nat := fun c =>
  match check { c with function := some function } with
  | .ok n after => .ok n { after with function := c.function }
  | .error e after => .error e { after with function := c.function }

/-- Goes on with a second check only if the first one has found nothing. -/
def andThen (first second : Check Nat) : Check Nat := do
  let found ← first
  if found = 0 then second else pure found

end Check

/-- What happens after an element of a list in which errors were found. -/
inductive ListPolicy where
  /-- The elements after it are not checked. -/
  | stopAtFirst
  /-- All elements are checked. -/
  | reportAll
deriving DecidableEq

namespace Check

/-- Checks at most `n` elements of the list that starts at a node, in order. -/
def listUpTo (visit : NodeId → Check Nat) (policy : ListPolicy) : Nat → Option NodeId → Check Nat
  | 0, _ => pure 0
  | _ + 1, none => pure 0
  | n + 1, some id => do
    let found ← visit id
    if found > 0 ∧ policy = .stopAtFirst then
      pure found
    else
      let next ← inStore fun s => s.next? id
      let more ← listUpTo visit policy n next
      pure (found + more)

/-- There is nothing to check after the end of a list. -/
@[simp]
theorem listUpTo_none (visit : NodeId → Check Nat) (policy : ListPolicy) (n : Nat) :
    listUpTo visit policy n none = pure 0 := by
  cases n <;> rfl

/-- Checks the list that starts at a node. A list that leads back into itself is checked round after
round, until an element fails or stops the list. A round in which this does not happen repeats the
one before, unless a name has been declared or a sum has turned out to be a concatenation. Each node
does so once at most, and so does the empty name, so that two rounds more than there are nodes are
enough. -/
def list (visit : NodeId → Check Nat) (policy : ListPolicy) (head : Option NodeId) :
    Check Nat := do
  let size ← inStore Store.size
  listUpTo visit policy ((size + 2) * size) head

/-- Checks a node that may be missing. -/
def optional (visit : NodeId → Check Nat) : Option NodeId → Check Nat
  | some id => visit id
  | none => pure 0

end Check

end PLang
