import PLang.Tree.Node

/-!
# The node store

A store holds the nodes of a program by number, in the order in which they were added. Its views are
`Store.node?`, what a number stands for, and `Store.siblings`, the list that a node starts.
-/

namespace PLang

/-- The nodes of a program. -/
structure Store where
  nodes : Array Node

namespace Store

/-- The store without nodes. -/
def empty : Store := ⟨#[]⟩

/-- The number of nodes. -/
def size (s : Store) : Nat := s.nodes.size

/-- Whether there are no nodes. -/
def isEmpty (s : Store) : Bool := s.nodes.isEmpty

/-- The node with a number. -/
def node? (s : Store) (id : NodeId) : Option Node := s.nodes[id]?

/-- What the node with a number holds. -/
def kind? (s : Store) (id : NodeId) : Option NodeKind := (s.node? id).map Node.kind

/-- Where the node with a number stands. -/
def location (s : Store) (id : NodeId) : Location :=
  ((s.node? id).map Node.location).getD .nowhere

/-- The node that follows in the list. -/
def next? (s : Store) (id : NodeId) : Option NodeId := (s.node? id).bind Node.next

/-- Changes the node with a number, if there is one. -/
def modify (s : Store) (id : NodeId) (f : Node → Node) : Store := ⟨s.nodes.modify id f⟩

/-- Changes what the node with a number holds. -/
def modifyKind (s : Store) (id : NodeId) (f : NodeKind → NodeKind) : Store :=
  s.modify id fun node => { node with kind := f node.kind }

/-! ### Lists of nodes -/

/-- At most `n` nodes of the list that starts at a node. -/
def chain (s : Store) : Nat → Option NodeId → List NodeId
  | 0, _ => []
  | _ + 1, none => []
  | n + 1, some id => id :: s.chain n (s.next? id)

/-- The list that starts at a node. A list without a repetition has at most as many members as there
are nodes. -/
def siblings (s : Store) (head : Option NodeId) : List NodeId := s.chain s.size head

/-- The number of nodes in a list. -/
def listLength (s : Store) (head : Option NodeId) : Nat := (s.siblings head).length

/-- Lets a node follow the last one of the list that starts at `head`. -/
def append (s : Store) (head node : NodeId) : Store :=
  s.modify ((s.siblings (some head)).getLastD head) fun last => { last with next := some node }

@[simp]
theorem size_modify (s : Store) (id : NodeId) (f : Node → Node) :
    (s.modify id f).size = s.size := by
  simp [modify, size]

/-- Changing a node changes that node only. -/
theorem node?_modify (s : Store) (id other : NodeId) (f : Node → Node) :
    (s.modify id f).node? other = if id = other then (s.node? other).map f else s.node? other := by
  simp only [node?, modify, Array.getElem?_modify]

theorem node?_eq_none_iff (s : Store) (id : NodeId) : s.node? id = none ↔ s.size ≤ id := by
  simp [node?, size]

/-- A node that holds something is there. -/
theorem lt_size_of_kind? {s : Store} {id : Nat} {k : NodeKind} (h : s.kind? id = some k) :
    id < s.size := by
  rcases Nat.lt_or_ge id s.size with hlt | hge
  · exact hlt
  · rw [kind?, (s.node?_eq_none_iff id).2 hge] at h
    cases h

@[simp]
theorem chain_none (s : Store) (n : Nat) : s.chain n none = [] := by
  cases n <;> rfl

@[simp]
theorem siblings_none (s : Store) : s.siblings none = [] := chain_none s s.size

section

variable {s s' : Store} {head : Option NodeId}

/-- Lists in which no node changes its link stay. -/
theorem chain_eq_of_next? {n : Nat} (h : ∀ id ∈ s.chain n head, s'.next? id = s.next? id) :
    s'.chain n head = s.chain n head := by
  induction n generalizing head with
  | zero => rfl
  | succ n ih =>
    cases head with
    | none => rfl
    | some id =>
      rw [chain] at h
      rw [chain, chain, h id List.mem_cons_self, ih fun other hother =>
        h other (.tail _ hother)]

theorem siblings_eq_of_next? (hsize : s'.size = s.size)
    (h : ∀ id ∈ s.siblings head, s'.next? id = s.next? id) :
    s'.siblings head = s.siblings head := by
  rw [siblings, hsize, chain_eq_of_next? h, siblings]

end

/-- Changing what a node holds leaves the links alone. -/
@[simp]
theorem next?_modifyKind (s : Store) (id other : NodeId) (f : NodeKind → NodeKind) :
    (s.modifyKind id f).next? other = s.next? other := by
  simp only [next?, modifyKind, node?_modify]
  split
  · cases s.node? other <;> rfl
  · rfl

@[simp]
theorem location_modifyKind (s : Store) (id other : NodeId) (f : NodeKind → NodeKind) :
    (s.modifyKind id f).location other = s.location other := by
  simp only [location, modifyKind, node?_modify]
  split
  · cases s.node? other <;> rfl
  · rfl

/-! ### Views of one kind of node -/

/-- The name that a node holds. -/
def name? (s : Store) (id : NodeId) : Option String :=
  match s.kind? id with
  | some (.name text) => some text
  | _ => none

/-- The whole number that a node holds. -/
def number? (s : Store) (id : NodeId) : Option Int :=
  match s.kind? id with
  | some (.number value) => some value
  | _ => none

/-- The type that a node holds. -/
def type? (s : Store) (id : NodeId) : Option TypeNode :=
  match s.kind? id with
  | some (.type node) => some node
  | _ => none

/-- The literal that a node holds. -/
def literal? (s : Store) (id : NodeId) : Option LiteralNode :=
  match s.kind? id with
  | some (.literal node) => some node
  | _ => none

/-- The expression that a node holds. -/
def expression? (s : Store) (id : NodeId) : Option ExpressionNode :=
  match s.kind? id with
  | some (.expression node) => some node
  | _ => none

/-- The variable reference that a node holds. -/
def reference? (s : Store) (id : NodeId) : Option ReferenceNode :=
  match s.kind? id with
  | some (.reference node) => some node
  | _ => none

/-- The call that a node holds. -/
def call? (s : Store) (id : NodeId) : Option CallNode :=
  match s.kind? id with
  | some (.call node) => some node
  | _ => none

/-- The function that a node holds. -/
def function? (s : Store) (id : NodeId) : Option FunctionNode :=
  match s.kind? id with
  | some (.function node) => some node
  | _ => none

/-- The declaration that a node holds. -/
def declaration? (s : Store) (id : NodeId) : Option DeclarationNode :=
  match s.kind? id with
  | some (.declaration node) => some node
  | _ => none

/-- The program that a node holds. -/
def program? (s : Store) (id : NodeId) : Option ProgramNode :=
  match s.kind? id with
  | some (.program node) => some node
  | _ => none

/-- The type that checking has found for an expression. -/
def resultType? (s : Store) (id : NodeId) : Option ScalarType :=
  (s.expression? id).bind ExpressionNode.result

/-- The whole numbers in a list. -/
def numbers (s : Store) (head : Option NodeId) : List Int :=
  (s.siblings head).filterMap s.number?

/-- The dimensions of a type, outermost first. A scalar type has none. -/
def dimensions (s : Store) (type : NodeId) : List Int :=
  s.numbers ((s.type? type).bind TypeNode.dimensions)

/-! ### What checking writes -/

/-- Writes the type of an expression. -/
def setResult (s : Store) (id : NodeId) (result : Option ScalarType) : Store :=
  s.modifyKind id fun
    | .expression node => .expression { node with result := result }
    | kind => kind

/-- Writes the operator of an expression. -/
def setOperator (s : Store) (id : NodeId) (operator : Operator) : Store :=
  s.modifyKind id fun
    | .expression node => .expression { node with operator := operator }
    | kind => kind

/-- Writes the type of a variable reference. -/
def setReferenceType (s : Store) (id : NodeId) (result : Option ScalarType) : Store :=
  s.modifyKind id fun
    | .reference node => .reference { node with result := result }
    | kind => kind

/-- Writes the type of a call. -/
def setCallType (s : Store) (id : NodeId) (result : Option ScalarType) : Store :=
  s.modifyKind id fun
    | .call node => .call { node with result := result }
    | kind => kind

/-! ### Nodes of one kind -/

variable {s : Store} {id : NodeId}

theorem type?_eq_some {node : TypeNode} :
    s.type? id = some node ↔ s.kind? id = some (.type node) := by
  rw [type?]
  split
  next h => simp [h]
  next h => exact ⟨nofun, fun hkind => absurd hkind (h node)⟩

theorem expression?_eq_some {node : ExpressionNode} :
    s.expression? id = some node ↔ s.kind? id = some (.expression node) := by
  rw [expression?]
  split
  next h => simp [h]
  next h => exact ⟨nofun, fun hkind => absurd hkind (h node)⟩

theorem reference?_eq_some {node : ReferenceNode} :
    s.reference? id = some node ↔ s.kind? id = some (.reference node) := by
  rw [reference?]
  split
  next h => simp [h]
  next h => exact ⟨nofun, fun hkind => absurd hkind (h node)⟩

theorem function?_eq_some {node : FunctionNode} :
    s.function? id = some node ↔ s.kind? id = some (.function node) := by
  rw [function?]
  split
  next h => simp [h]
  next h => exact ⟨nofun, fun hkind => absurd hkind (h node)⟩

theorem declaration?_eq_some {node : DeclarationNode} :
    s.declaration? id = some node ↔ s.kind? id = some (.declaration node) := by
  rw [declaration?]
  split
  next h => simp [h]
  next h => exact ⟨nofun, fun hkind => absurd hkind (h node)⟩

end Store

end PLang
