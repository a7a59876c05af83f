import PLang.Checker.Visit

/-!
# Watched walks

A walk can be watched: an action is called whenever the check of a node begins and whenever the
symbol table has changed. `Check.Throughout P` says that `P` holds at all moments of a walk: if the
walk is made to fail as soon as `P` does not hold, with whatever error, it still does what it did
before.
-/

namespace PLang

/-- The moments at which a walk is watched. -/
inductive Moment where
  /-- The check of a node begins. -/
  | visit (id : NodeId)
  /-- A scope has been opened or closed, or a symbol inserted. -/
  | change

namespace Check.Watched

variable (watch : Moment → Check Unit) (visit : NodeId → Check Nat)

/-- Inserts a symbol. -/
def declare (name : String) (kind : SymbolKind) (scalar : Option ScalarType)
    (typeText detail : String)
    (node : NodeId) : Check Unit := do
  Check.declare name kind scalar typeText detail node
  watch .change

/-- Checks inside a scope of its own, which is closed in any case. -/
def inScope (check : Check Nat) : Check Nat := fun c =>
  match (do watch .change; check) c.pushScope with
  | .ok n c => (do watch .change; pure n) c.popScope
  | .error e c => (do watch .change; throw e) c.popScope

/-- Declares one name of a declaration. -/
def declareName (d : DeclarationNode) (type : TypeNode) (detail : String) (id : NodeId) :
    Check Nat := do
  let name ← inStore fun s => (s.name? id).getD ""
  if ← view fun c => clashes c name then
    report (.redeclared name) id
  else
    declare watch name d.kind (some type.scalar) type.text detail d.type
    pure 0

/-- Checks a declaration and declares its names. -/
def declaration (d : DeclarationNode) : Check Nat := do
  match ← inStore fun s => s.type? d.type with
  | none => pure 0
  | some type =>
    let detail ← inStore fun s => ((d.literal.bind s.literal?).map LiteralNode.text).getD ""
    let redeclared ← list (declareName watch d type detail) .reportAll (some d.names)
    let misshapen ← positive d
    pure (redeclared + misshapen)

/-- Checks a program. -/
def program (id : NodeId) (p : ProgramNode) : Check Nat :=
  inScope watch do
    declare watch p.name .program (some .void) "void" "" id
    let declarations ← list visit .reportAll p.declarations
    let functions ← list visit .reportAll p.functions
    let body ← visit p.body
    pure (declarations + functions + body)

/-- Checks a block. -/
def compound (b : CompoundNode) : Check Nat :=
  inScope watch do
    let declarations ← list visit .reportAll b.declarations
    let statements ← list visit .reportAll b.statements
    pure (declarations + statements)

/-- Checks a counting loop. -/
def forLoop (id : NodeId) (f : ForNode) : Check Nat :=
  inScope watch do
    let bounds ← if f.upper < f.lower then report .decreasingBounds id else pure 0
    let declaration ← visit f.declaration
    let body ← visit f.body
    pure (bounds + declaration + body)

/-- Declares a function, unless its name is declared in this scope. -/
def declareFunction (id : NodeId) (f : FunctionNode) : Check Nat := do
  let redeclared ← view fun c =>
    (c.symbols.lookup f.name).any fun symbol => some symbol.level == c.symbols.level?
  if redeclared then
    report (.redeclared f.name) id
  else
    declare watch f.name .function (some f.result) f.result.text f.parameterText id
    pure 0

/-- Checks a function and, if it has one, its body. -/
def function (id : NodeId) (f : FunctionNode) : Check Nat := do
  let header ← declareFunction watch id f
  match f.body with
  | none => pure header
  | some body =>
    let inside ← within id <| inScope watch do
      let parameters ← list visit .reportAll f.parameters
      let statements ← list visit .reportAll (some body)
      pure (parameters + statements)
    pure (header + inside)

/-- Checks what a node holds. Only the kinds of nodes that change the symbol table are watched. -/
def kind (id : NodeId) : NodeKind → Check Nat
  | .program p => program watch visit id p
  | .declaration d => declaration watch d
  | .compound b => compound watch visit b
  | .forLoop f => forLoop watch visit id f
  | .function f => function watch visit id f
  | k => Check.kind visit id k

/-- Checks a node, given how to check its parts. -/
def node (id : NodeId) : Check Nat := do
  match ← inStore fun s => s.kind? id with
  | some k => kind watch visit id k
  | none => pure 0

/-- Checks a node, when `n` more levels are allowed. -/
def visitUpTo : Nat → NodeId → Check Nat
  | 0, id => do
    watch (.visit id)
    overstep id
  | n + 1, id => do
    watch (.visit id)
    deeper (node watch (visitUpTo n) id)

end Check.Watched

namespace Check

open Classical in
/-- Fails with an error where a property does not hold. -/
noncomputable def assert (P : Moment → Checker → Prop) (e : Error) (moment : Moment) : Check Unit :=
  fun c => if P moment c then .ok () c else .error e c

/-- A property holds at all moments of a walk: a walk that asserts it does the same, whatever error
a failed assertion makes. -/
def Throughout (P : Moment → Checker → Prop) (root : NodeId) (c : Checker) : Prop :=
  ∀ e, Watched.visitUpTo (assert P e) (c.limit - c.depth) root c = visit root c

end Check

end PLang
