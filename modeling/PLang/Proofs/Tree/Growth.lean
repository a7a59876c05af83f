import PLang.Proofs.Checking.Annotation
import PLang.Proofs.Tree.Lists

/-!
# Stores that grow

While a program is read, nodes are added and linked, and what a node holds does not change. No node
gets anything that only checking writes, and constants get the type of their literal.
-/

namespace PLang

variable {α β : Type} {s s' s'' : Store} {id : NodeId} {k : NodeKind}

/-- The literal and the type of the constants that a node declares. -/
def NodeKind.constant? : NodeKind → Option (NodeId × NodeId)
  | .declaration d => d.literal.map (·, d.type)
  | _ => none

/-- What a node of a tree can hold before it is checked. -/
structure Store.Admits (s : Store) (k : NodeKind) : Prop where
  bare : k.bare = k
  constant : ∀ literal type, k.constant? = some (literal, type) →
    ∃ value, s.kind? literal = some (.literal ⟨value, value.text⟩) ∧
      s.kind? type = some (.type ⟨value.scalarType, none, value.scalarType.text⟩)

/-- A store in which nothing has been checked. -/
def Store.Unchecked (s : Store) : Prop := ∀ id k, s.kind? id = some k → s.Admits k

/-- A store after nodes have been added and linked. -/
structure Store.Grown (s s' : Store) : Prop where
  kept : ∀ id content, (s.node? id).map Node.content = some content →
    (s'.node? id).map Node.content = some content
  unchecked : s.Unchecked → s'.Unchecked

theorem Store.Admits.plain (hbare : k.bare = k) (hconstant : k.constant? = none) : s.Admits k :=
  ⟨hbare, fun _ _ h => by rw [hconstant] at h; cases h⟩

variable {location : Location}

theorem Store.kind?_of_content
    (h : (s.node? id).map Node.content = some (location, k)) : s.kind? id = some k := by
  obtain ⟨node, hnode, heq⟩ := Option.map_eq_some_iff.1 h
  rw [kind?, hnode]
  exact congrArg some (Prod.mk.inj heq).2

/-- What nodes hold is enough to know their kinds. -/
theorem Store.kind?_of_kept (h : ∀ id content, (s.node? id).map Node.content = some content →
    (s'.node? id).map Node.content = some content) (hk : s.kind? id = some k) :
    s'.kind? id = some k := by
  obtain ⟨node, hnode, rfl⟩ := Option.map_eq_some_iff.1 hk
  exact kind?_of_content (h id node.content (by rw [hnode]; rfl))

theorem Store.Admits.later (hk : s.Admits k)
    (h : ∀ id content, (s.node? id).map Node.content = some content →
      (s'.node? id).map Node.content = some content) : s'.Admits k := by
  refine ⟨hk.bare, fun literal type hconstant => ?_⟩
  obtain ⟨value, hvalue, htype⟩ := hk.constant literal type hconstant
  exact ⟨value, kind?_of_kept h hvalue, kind?_of_kept h htype⟩

namespace Store.Grown

theorem refl (s : Store) : s.Grown s := ⟨fun _ _ => id, id⟩

theorem trans (h : s.Grown s') (h' : s'.Grown s'') : s.Grown s'' :=
  ⟨fun id content hid => h'.kept id content (h.kept id content hid), fun hs =>
    h'.unchecked (h.unchecked hs)⟩

theorem kind? (h : s.Grown s') (hk : s.kind? id = some k) : s'.kind? id = some k :=
  kind?_of_kept h.kept hk

/-- A node is added. -/
theorem add (location : Location) (hk : s.Unchecked → s.Admits k) :
    s.Grown (Build.add location k s).2 := by
  have hkept : ∀ id content, (s.node? id).map Node.content = some content →
      ((Build.add location k s).2.node? id).map Node.content = some content := by
    intro id content h
    obtain ⟨node, hnode, -⟩ := Option.map_eq_some_iff.1 h
    rwa [Build.node?_add, if_neg (Nat.ne_of_lt (lt_size_of_node? hnode))]
  refine ⟨hkept, fun hs id k' hk' => ?_⟩
  rw [Store.kind?, Build.node?_add] at hk'
  split at hk'
  · cases hk'
    exact (hk hs).later hkept
  · exact (hs id k' hk').later hkept

/-- A node that is no constant is added, without anything that checking writes. -/
theorem plain (hbare : k.bare = k) (hconstant : k.constant? = none) :
    s.Grown (Build.add location k s).2 :=
  .add location fun _ => .plain hbare hconstant

/-- A node is linked to another one. -/
theorem append (s : Store) (head node : NodeId) : s.Grown (s.append head node) := by
  have hcontent : ∀ id, ((s.append head node).node? id).map Node.content =
      (s.node? id).map Node.content := by
    intro id
    rw [Store.append, node?_modify]
    split
    · rw [Option.map_map]
      rfl
    · rfl
  have hkept : ∀ id content, (s.node? id).map Node.content = some content →
      ((s.append head node).node? id).map Node.content = some content :=
    fun id _ h => (hcontent id).trans h
  refine ⟨hkept, fun hs id k hk => ?_⟩
  exact (hs id k (kind?_of_kept (fun id _ h => (hcontent id).symm.trans h) hk)).later hkept

theorem appendTo (s : Store) (list : Option NodeId) (node : NodeId) :
    s.Grown (Build.appendTo list node s).2 := by
  cases list with
  | none => exact refl s
  | some head => exact append s head node

end Store.Grown

variable {value : LiteralValue}

/-- Constants get the type of their literal. -/
theorem Build.constant_eq {literal : NodeId}
    (h : s.kind? literal = some (.literal ⟨value, value.text⟩)) (location : Location)
    (names : NodeId) :
    constant location names literal s =
      add location (.declaration ⟨.constant, names, s.size, some literal⟩)
        (scalarType location value.scalarType s).2 := by
  have hvalue : s.literal? literal = some ⟨value, value.text⟩ := by rw [Store.literal?, h]
  show add location (.declaration ⟨.constant, names, s.size, some literal⟩) (scalarType location
    (((s.literal? literal).map fun l => l.value.scalarType).getD .integer) s).2 = _
  rw [hvalue]
  rfl

theorem Store.Grown.constant {literal : NodeId}
    (h : s.kind? literal = some (.literal ⟨value, value.text⟩)) (location : Location)
    (names : NodeId) :
    s.Grown (Build.constant location names literal s).2 := by
  have htype : s.Grown (Build.scalarType location value.scalarType s).2 := .plain rfl rfl
  rw [Build.constant_eq h]
  refine htype.trans (.add location fun _ => ⟨rfl, ?_⟩)
  rintro _ _ ⟨⟩
  refine ⟨value, htype.kind? h, ?_⟩
  rw [Store.kind?, Build.scalarType, Build.node?_add, if_pos rfl]
  rfl

/-- An action that lets every store grow. -/
def Build.Grows (action : Build α) : Prop := ∀ s : Store, s.Grown (action s).2

namespace Build.Grows

theorem pure (a : α) : Grows (Pure.pure a) := .refl

theorem view (f : Store → α) : Grows (Build.view f) := .refl

theorem bind {action : Build α} {f : α → Build β} (h : Grows action) (hf : ∀ a, Grows (f a)) :
    Grows (action >>= f) :=
  fun s => (h s).trans (hf _ _)

theorem add (hbare : k.bare = k) (hconstant : k.constant? = none) :
    Grows (Build.add location k) :=
  fun _ => .plain hbare hconstant

theorem duplicate (id : NodeId) : Grows (Build.duplicate id) := by
  intro s
  rw [Build.duplicate]
  split
  · rename_i node hnode
    exact .add _ fun hs => hs id node.kind (by rw [Store.kind?, hnode]; rfl)
  · exact .refl s

theorem copies (type : NodeId) (n : Nat) (list : Option NodeId) :
    Grows (Build.copies type n list) := by
  induction n generalizing list with
  | zero => exact pure list
  | succ n ih =>
    exact .bind (duplicate type) fun _ => .bind (fun s => .appendTo s _ _) fun _ => ih _

theorem parameterTypes (ds : List DeclarationNode) (list : Option NodeId) :
    Grows (Build.parameterTypes ds list) := by
  induction ds generalizing list with
  | nil => exact pure list
  | cons d ds ih => exact .bind (view _) fun _ => .bind (copies _ _ _) fun _ => ih _

theorem function {name : String} {parameters type body : Option NodeId} :
    Grows (Build.function location name parameters type body) := by
  have hfunction : ∀ type, Grows (do
      let result ← Build.view fun s => ((s.type? type).map TypeNode.scalar).getD .void
      let declared ← Build.view fun s => (s.siblings parameters).filterMap s.declaration?
      let types ← Build.parameterTypes declared none
      let texts ← Build.view fun s => ((s.siblings types).filterMap s.type?).map TypeNode.text
      Build.add location (.function ⟨name, result, type, parameters, types,
        "(" ++ ", ".intercalate texts ++ ")", body⟩)) := fun type =>
    .bind (view _) fun _ => .bind (view _) fun _ => .bind (parameterTypes _ _) fun _ =>
      .bind (view _) fun _ => .add rfl rfl
  cases type with
  | some type => exact .bind (pure type) hfunction
  | none => exact .bind (.add rfl rfl) hfunction

theorem forLoop {name sign lower upper body : NodeId} :
    Grows (Build.forLoop location name sign lower upper body) :=
  .bind (view _) fun _ => .bind (view _) fun _ => .bind (view _) fun _ => .bind (view _) fun _ =>
    .bind (duplicate _) fun _ => .bind (.add rfl rfl) fun _ => .bind (.add rfl rfl) fun _ =>
      .add rfl rfl

end Build.Grows

end PLang
