import PLang.Checker.Statement

/-!
# Checking programs

Ties the checks together. Every node counts as one level of nesting, so that the nesting limit
bounds the recursion.
-/

namespace PLang

namespace Check

/-- Checks what a node holds. -/
def kind (visit : NodeId → Check Nat) (id : NodeId) : NodeKind → Check Nat
  | .program p => program visit id p
  | .declaration d => declaration d
  | .expression e => expression visit id e
  | .compound b => compound visit b
  | .print value => print visit value
  | .reference r => reference visit id r
  | .assign target value => assign visit id target value
  | .read target => read visit target
  | .condition c => condition visit c
  | .whileLoop guardNode body => whileLoop visit guardNode body
  | .returnValue value => returnValue visit id value
  | .forLoop f => forLoop visit id f
  | .call c => call visit id c
  | .function f => function visit id f
  | .literal _ => pure 0
  | .type _ => pure 0
  | .name _ => pure 0
  | .number _ => pure 0
  | .epsilon _ _ => pure 0

/-- Checks a node, given how to check its parts. -/
def node (visit : NodeId → Check Nat) (id : NodeId) : Check Nat := do
  match ← inStore fun s => s.kind? id with
  | some k => kind visit id k
  | none => pure 0

/-- Goes one level down to a node that is nested too deeply. -/
def overstep (id : NodeId) : Check Nat := fun c =>
  .error ⟨.nestingTooDeep c.limit, c.store.location id⟩ { c with depth := c.depth + 1 }

/-- Checks one level further down and comes back, also after a failure. -/
def deeper (check : Check Nat) : Check Nat := fun c =>
  match check { c with depth := c.depth + 1 } with
  | .ok n c => .ok n { c with depth := c.depth - 1 }
  | .error e c => .error e { c with depth := c.depth - 1 }

/-- Checks a node, when `n` more levels are allowed. -/
def visitUpTo : Nat → NodeId → Check Nat
  | 0, id => overstep id
  | n + 1, id => deeper (node (visitUpTo n) id)

/-- Checks a node, as far as the nesting limit allows. -/
def visit (id : NodeId) : Check Nat := fun c => visitUpTo (c.limit - c.depth) id c

/-- Checks the list that starts at a node. -/
def visitList (head : Option NodeId) (policy : ListPolicy) : Check Nat := list visit policy head

end Check

end PLang
