import PLang.Tree.Store

/-!
# Lowering

No target is attached to the front end: a node lowers to nothing and raises no error.
-/

namespace PLang.Store

/-- The number of errors that lowering a node raises. -/
def lower (_ : Store) (_ : NodeId) : Nat := 0

/-- The number of errors that lowering a list of nodes raises. -/
def lowerList (s : Store) (head : Option NodeId) : Nat :=
  (s.siblings head).foldl (fun total id => total + s.lower id) 0

/-- The number of errors that lowering a whole program raises. -/
def compile (s : Store) (root : NodeId) : Nat := s.lowerList (some root)

end PLang.Store
