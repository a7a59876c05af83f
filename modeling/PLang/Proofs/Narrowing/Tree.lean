import PLang.Proofs.InStep.Coupling
import PLang.Proofs.Tree.Under
import PLang.Proofs.Tree.WellFormed

/-!
# Integers for reals

A tree is narrowed by putting integer literals in the place of some of its real ones. Constants that
are declared with such a literal become integers. In a parsed tree, no other type is touched by
this: the types of variables, parameters and functions are nodes of their own.
-/

namespace PLang

variable {id : NodeId} {k : NodeKind}

/-! ### Narrowed trees -/

namespace Store

/-- The integer that takes the place of a real literal. -/
def chosen? (s : Store) (choice : NodeId → Option Int) (id : NodeId) : Option Int :=
  match s.literal? id with
  | some ⟨.real _, _⟩ => choice id
  | _ => none

/-- Whether a node is the type of constants whose literal is replaced. -/
def typesChosen (s : Store) (choice : NodeId → Option Int) (id : NodeId) : Bool :=
  (List.range s.size).any fun declaration => (s.declaration? declaration).any fun d =>
    d.type == id && (d.literal.bind (s.chosen? choice)).isSome

/-- What a node becomes. The type of constants is the one that their new literal gives them. -/
def narrowKind (s : Store) (choice : NodeId → Option Int) (id : NodeId) : NodeKind → NodeKind
  | .literal l =>
    match s.chosen? choice id with
    | some n => .literal ⟨.integer n, (LiteralValue.integer n).text⟩
    | none => .literal l
  | .type t =>
    if s.typesChosen choice id then .type ⟨.integer, none, ScalarType.integer.text⟩ else .type t
  | kind => kind

/-- A tree with integers in the place of some real literals. -/
def narrow (s : Store) (choice : NodeId → Option Int) : Store :=
  ⟨s.nodes.mapIdx fun id node => { node with kind := s.narrowKind choice id node.kind }⟩

end Store

/-! ### Narrower nodes and stores -/

/-- A type stays as it is, or it is real and becomes integer. -/
def Narrows (t t' : Option ScalarType) : Prop := t' = t ∨ t = some .real ∧ t' = some .integer

theorem Narrows.refl (t : Option ScalarType) : Narrows t t := .inl rfl

/-- An expression with a narrower type noted. -/
structure ExpressionNode.NarrowedAs (e e' : ExpressionNode) : Prop where
  operator : e'.operator = e.operator
  left : e'.left = e.left
  right : e'.right = e.right
  result : Narrows e.result e'.result

/-- A variable reference with a narrower type noted. -/
structure ReferenceNode.NarrowedAs (r r' : ReferenceNode) : Prop where
  name : r'.name = r.name
  indices : r'.indices = r.indices
  result : Narrows r.result r'.result

/-- The same node, or one with an integer in the place of a real. -/
inductive NodeKind.NarrowedAs : NodeKind → NodeKind → Prop
  | refl (k : NodeKind) : NarrowedAs k k
  | literal {value : Binary64} {n : Int} {text text' : String} :
    NarrowedAs (.literal ⟨.real value, text⟩) (.literal ⟨.integer n, text'⟩)
  | type {text text' : String} :
    NarrowedAs (.type ⟨.real, none, text⟩) (.type ⟨.integer, none, text'⟩)
  | expression {e e' : ExpressionNode} : e.NarrowedAs e' →
    NarrowedAs (.expression e) (.expression e')
  | reference {r r' : ReferenceNode} : r.NarrowedAs r' → NarrowedAs (.reference r) (.reference r')

/-- Stores with the same nodes, some of them narrower. -/
structure Store.Narrowed (t t' : Store) : Prop where
  size : t'.size = t.size
  next : ∀ id, t'.next? id = t.next? id
  kind : ∀ id, Option.Rel NodeKind.NarrowedAs (t.kind? id) (t'.kind? id)

namespace Store.Narrowed

variable {t t' : Store} {id : NodeId}

variable (h : t.Narrowed t')

include h

theorem siblings_eq (head : Option NodeId) : t'.siblings head = t.siblings head :=
  siblings_eq_of_next? h.size fun id _ => h.next id

theorem listLength_eq (head : Option NodeId) : t'.listLength head = t.listLength head := by
  rw [listLength, listLength, h.siblings_eq]

/-- What is the same in narrower nodes is the same in narrower stores. -/
theorem view {β : Type} {g : Store → NodeId → β} {f : Option NodeKind → β}
    (hg : ∀ t id o, t.kind? id = o → g t id = f o)
    (hf : ∀ k k', k.NarrowedAs k' → f (some k') = f (some k)) (id : NodeId) : g t' id = g t id := by
  have hkind := h.kind id
  rw [hg t' id _ rfl, hg t id _ rfl]
  generalize t.kind? id = o, t'.kind? id = o' at hkind
  cases hkind with
  | none => rfl
  | some hk => exact hf _ _ hk

theorem name?_eq (id : NodeId) : t'.name? id = t.name? id :=
  h.view (fun _ _ _ ho => by rw [name?, ho]) (fun _ _ hk => by cases hk <;> rfl) id

theorem number?_eq (id : NodeId) : t'.number? id = t.number? id :=
  h.view (fun _ _ _ ho => by rw [number?, ho]) (fun _ _ hk => by cases hk <;> rfl) id

theorem call?_eq (id : NodeId) : t'.call? id = t.call? id :=
  h.view (fun _ _ _ ho => by rw [call?, ho]) (fun _ _ hk => by cases hk <;> rfl) id

theorem function?_eq (id : NodeId) : t'.function? id = t.function? id :=
  h.view (fun _ _ _ ho => by rw [function?, ho]) (fun _ _ hk => by cases hk <;> rfl) id

/-- A narrower type has the same dimensions. -/
theorem dimensions_eq (id : NodeId) : t'.dimensions id = t.dimensions id := by
  have hdims : (t'.type? id).bind TypeNode.dimensions = (t.type? id).bind TypeNode.dimensions :=
    h.view (g := fun t id => (t.type? id).bind TypeNode.dimensions)
      (fun _ _ _ ho => by rw [type?, ho]) (fun _ _ hk => by cases hk <;> rfl) id
  rw [dimensions, dimensions, hdims, numbers, numbers, h.siblings_eq]
  exact congrArg (List.filterMap · _) (funext h.number?_eq)

/-- What is narrower in narrower nodes is narrower in narrower stores. -/
theorem rel {γ : Type} {R : γ → γ → Prop} {g : Store → NodeId → Option γ}
    {f : Option NodeKind → Option γ} (hg : ∀ t id o, t.kind? id = o → g t id = f o)
    (hnone : f none = none) (hf : ∀ k k', k.NarrowedAs k' → Option.Rel R (f (some k)) (f (some k')))
    (id : NodeId) : Option.Rel R (g t id) (g t' id) := by
  have hkind := h.kind id
  rw [hg t' id _ rfl, hg t id _ rfl]
  generalize t.kind? id = o, t'.kind? id = o' at hkind
  cases hkind with
  | none =>
    rw [hnone]
    exact .none
  | some hk => exact hf _ _ hk

theorem expression? (id : NodeId) :
    Option.Rel ExpressionNode.NarrowedAs (t.expression? id) (t'.expression? id) := by
  refine h.rel (fun _ _ _ ho => by rw [Store.expression?, ho]) rfl (fun k k' hk => ?_) id
  cases hk with
  | refl k =>
    cases k with
    | expression e => exact .some ⟨rfl, rfl, rfl, .refl _⟩
    | _ => exact .none
  | expression he => exact .some he
  | _ => exact .none

theorem reference? (id : NodeId) :
    Option.Rel ReferenceNode.NarrowedAs (t.reference? id) (t'.reference? id) := by
  refine h.rel (fun _ _ _ ho => by rw [Store.reference?, ho]) rfl (fun k k' hk => ?_) id
  cases hk with
  | refl k =>
    cases k with
    | reference r => exact .some ⟨rfl, rfl, .refl _⟩
    | _ => exact .none
  | reference hr => exact .some hr
  | _ => exact .none

theorem resultType? (id : NodeId) : Narrows (t.resultType? id) (t'.resultType? id) := by
  have hexpression := h.expression? id
  rw [Store.resultType?, Store.resultType?]
  generalize t.expression? id = o, t'.expression? id = o' at hexpression
  cases hexpression with
  | none => exact .refl none
  | some he => exact he.result

theorem modifyKind {f f' : NodeKind → NodeKind}
    (hf : ∀ k k', k.NarrowedAs k' → (f k).NarrowedAs (f' k')) :
    (t.modifyKind id f).Narrowed (t'.modifyKind id f') where
  size := (size_modify ..).trans (h.size.trans (size_modify ..).symm)
  next other := by rw [next?_modifyKind, next?_modifyKind, h.next]
  kind other := by
    rw [kind?_modifyKind, kind?_modifyKind]
    split
    · have hkind := h.kind other
      generalize t.kind? other = o, t'.kind? other = o' at hkind
      cases hkind with
      | none => exact .none
      | some hk => exact .some (hf _ _ hk)
    · exact h.kind other

variable {type type' : Option ScalarType}

theorem setResult (htype : Narrows type type') :
    (t.setResult id type).Narrowed (t'.setResult id type') := by
  refine h.modifyKind fun k k' hk => ?_
  cases hk with
  | refl k =>
    cases k with
    | expression e => exact .expression ⟨rfl, rfl, rfl, htype⟩
    | _ => exact .refl _
  | literal => exact .literal
  | type => exact .type
  | expression he => exact .expression ⟨he.operator, he.left, he.right, htype⟩
  | reference hr => exact .reference hr

theorem setReferenceType (htype : Narrows type type') :
    (t.setReferenceType id type).Narrowed (t'.setReferenceType id type') := by
  refine h.modifyKind fun k k' hk => ?_
  cases hk with
  | refl k =>
    cases k with
    | reference r => exact .reference ⟨rfl, rfl, htype⟩
    | _ => exact .refl _
  | literal => exact .literal
  | type => exact .type
  | expression he => exact .expression he
  | reference hr => exact .reference ⟨hr.name, hr.indices, htype⟩

theorem setCallType (type : Option ScalarType) :
    (t.setCallType id type).Narrowed (t'.setCallType id type) := by
  refine h.modifyKind fun k k' hk => ?_
  cases hk with
  | refl k => exact .refl _
  | literal => exact .literal
  | type => exact .type
  | expression he => exact .expression he
  | reference hr => exact .reference hr

theorem setOperator (operator : Operator) :
    (t.setOperator id operator).Narrowed (t'.setOperator id operator) := by
  refine h.modifyKind fun k k' hk => ?_
  cases hk with
  | refl k => exact .refl _
  | literal => exact .literal
  | type => exact .type
  | expression he => exact .expression ⟨rfl, he.left, he.right, he.result⟩
  | reference hr => exact .reference hr

end Store.Narrowed

/-! ### Parsed trees -/

/-- A tree in order and a narrower one, in which only constants have narrower types. -/
structure Narrowing (s s' : Store) : Prop extends s.Narrowed s' where
  ok : StoreOk s
  declared : ∀ id d, s.kind? id = some (.declaration d) → d.kind ≠ .constant →
    s'.kind? d.type = s.kind? d.type
  parameter : ∀ id f, s.kind? id = some (.function f) → ∀ type ∈ s.siblings f.parameterTypes,
    s'.kind? type = s.kind? type

namespace Store

variable {s : Store} {choice : NodeId → Option Int} {id : NodeId}

theorem node?_narrow (id : NodeId) : (s.narrow choice).node? id =
    (s.node? id).map fun node => { node with kind := s.narrowKind choice id node.kind } := by
  simp [node?, narrow]

theorem kind?_narrow (id : NodeId) :
    (s.narrow choice).kind? id = (s.kind? id).map (s.narrowKind choice id) := by
  rw [kind?, node?_narrow, kind?]
  cases s.node? id <;> rfl

theorem next?_narrow (id : NodeId) : (s.narrow choice).next? id = s.next? id := by
  rw [next?, node?_narrow, next?]
  cases s.node? id <;> rfl

/-- Only real literals are replaced. -/
theorem exists_real_of_chosen? {n : Int} (h : s.chosen? choice id = some n) :
    ∃ value text, s.kind? id = some (.literal ⟨.real value, text⟩) := by
  unfold chosen? literal? at h
  split at h
  next l heq =>
    split at heq
    next l' hkind =>
      cases heq
      exact ⟨_, _, hkind⟩
    next => cases heq
  next => cases h

/-- The constants whose type becomes integer. -/
theorem exists_declaration_of_typesChosen (h : s.typesChosen choice id = true) :
    ∃ declaration d literal n, s.kind? declaration = some (.declaration d) ∧ d.type = id ∧
      d.literal = some literal ∧ s.chosen? choice literal = some n := by
  obtain ⟨declaration, -, hany⟩ := List.any_eq_true.1 h
  obtain ⟨d, hd, hchosen⟩ := (Option.any_eq_true _ _).1 hany
  rw [Bool.and_eq_true, beq_iff_eq, Option.isSome_iff_exists] at hchosen
  obtain ⟨htype, n, hn⟩ := hchosen
  obtain ⟨literal, hliteral, hn⟩ := Option.bind_eq_some_iff.1 hn
  exact ⟨declaration, d, literal, n, declaration?_eq_some.1 hd, htype, hliteral, hn⟩

/-- Types that are not touched. -/
theorem kind?_narrow_type {type : TypeNode} (hk : s.kind? id = some (.type type))
    (h : s.typesChosen choice id = false) : (s.narrow choice).kind? id = s.kind? id := by
  rw [kind?_narrow, hk, Option.map_some, narrowKind, h]
  rfl

end Store

section

variable {ts : List Token} {limit : Nat} {s : Store} {root : NodeId} {choice : NodeId → Option Int}
  (h : parseTokens ts limit = .ok (s, root))

include h

/-- Nodes of a parsed tree become narrower. -/
theorem narrowedAs_of_parseTokens (hk : s.kind? id = some k) :
    k.NarrowedAs (s.narrowKind choice id k) := by
  cases k with
  | literal l =>
    rw [Store.narrowKind]
    split
    next n hn =>
      obtain ⟨value, text, hkind⟩ := Store.exists_real_of_chosen? hn
      cases hk.symm.trans hkind
      exact .literal
    next => exact .refl _
  | type t =>
    rw [Store.narrowKind]
    split
    next hchosen =>
      obtain ⟨declaration, d, literal, n, hd, rfl, hliteral, hn⟩ :=
        Store.exists_declaration_of_typesChosen hchosen
      obtain ⟨value, hvalue, htype⟩ := constant_of_parseTokens h hd hliteral
      obtain ⟨real, text, hreal⟩ := Store.exists_real_of_chosen? hn
      obtain ⟨rfl, -⟩ : value = .real real ∧ _ := by simpa using hvalue.symm.trans hreal
      cases hk.symm.trans htype
      exact .type
    next => exact .refl _
  | _ => exact .refl _

/-- A node whose type becomes integer declares constants. -/
theorem constant_of_typesChosen {part : Part} {n : Nat} (hk : s.kind? id = some k)
    (hpart : part ∈ k.parts) {type : NodeId} (htype : type ∈ s.chain n part.node)
    (hchosen : s.typesChosen choice type = true) :
    ∃ d, k = .declaration d ∧ d.kind = .constant := by
  have hwell := wellFormed_of_parseTokens h
  obtain ⟨declaration, d, literal, _, hd, rfl, hliteral, -⟩ :=
    Store.exists_declaration_of_typesChosen hchosen
  obtain ⟨value, -, hvalue⟩ := constant_of_parseTokens h hd hliteral
  have hself : d.type ∈ s.chain 1 (some d.type) := (.head _)
  have hnumber : ∀ n, s.kind? d.type ≠ some (.number n) := by
    intro n hn
    cases hn.symm.trans hvalue
  have htypePart : (⟨.type, some d.type, NodeKind.isType⟩ : Part) ∈
    (NodeKind.declaration d).parts :=
    .tail _ (.head _)
  obtain rfl := hwell.paths.parent_unique hwell.store hd htypePart hself hk hpart htype
    (Store.lt_size_of_kind? hvalue) hnumber
  cases hd.symm.trans hk
  have hcomplete := hwell.store.complete _ _ hd
  refine ⟨d, rfl, ?_⟩
  simpa [NodeKind.isComplete, hliteral] using hcomplete

/-- A type in a part of a node that declares no constants is not touched. -/
theorem kind?_narrow_of_part (hk : s.kind? id = some k) (part : Part) (hpart : part ∈ k.parts)
    (hfits : part.fits = NodeKind.isType) (hnot : ∀ d, k = .declaration d → d.kind ≠ .constant)
    {type : NodeId} (htype : type ∈ s.siblings part.node) :
    (s.narrow choice).kind? type = s.kind? type := by
  obtain ⟨k', hk', hfit⟩ := (wellFormed_of_parseTokens h).store.exists_kind hk part hpart htype
  rw [hfits] at hfit
  cases k' with
  | type node =>
    refine Store.kind?_narrow_type hk' (Bool.eq_false_iff.2 fun hchosen => ?_)
    obtain ⟨d, hd, hconstant⟩ := constant_of_typesChosen h hk hpart htype hchosen
    exact hnot d hd hconstant
  | _ => cases hfit

/-- Narrowing a parsed tree touches the types of constants only. -/
theorem narrowing_of_parseTokens : Narrowing s (s.narrow choice) where
  size := by simp [Store.size, Store.narrow]
  next := Store.next?_narrow
  kind id := by
    rw [Store.kind?_narrow]
    cases hk : s.kind? id with
    | none => exact .none
    | some k => exact .some (narrowedAs_of_parseTokens h hk)
  ok := (wellFormed_of_parseTokens h).store
  declared id d hd hkind := by
    refine kind?_narrow_of_part h hd ⟨.type, some d.type, NodeKind.isType⟩
      (by simp [NodeKind.parts]) rfl ?_ (StoreOk.mem_siblings_self ?_)
    · rintro _ ⟨⟩
      exact hkind
    · exact Nat.zero_lt_of_lt (Store.lt_size_of_kind? hd)
  parameter id f hf type htype := by
    refine kind?_narrow_of_part h hf ⟨.parameterTypes, f.parameterTypes, NodeKind.isType⟩
      (by simp [NodeKind.parts]) rfl ?_ htype
    rintro _ ⟨⟩

end

end PLang
