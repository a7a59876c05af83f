import PLang.Proofs.Logged.Once
import PLang.Proofs.Tree.Under

/-!
# What checking has to come to

The statements, functions and declarations of a tree (`Store.Covered`) are in parts that checking
comes to, whatever it finds on its way, apart from the formal parameters of functions without a
body. All other parts hold expressions and the like, in which there are none.
-/

namespace PLang

variable {s : Store} {lo hi lo' root id : Nat} {k : NodeKind} {part : Part}

/-! ### What has to be visited -/

namespace Store

/-- The part on the left of an expression: calls that are there stand for their values. -/
def Wrapped (s : Store) (id : NodeId) : Prop :=
  ∃ other e, s.kind? other = some (.expression e) ∧ e.left = some id

/-- The formal parameters of functions without a body. -/
def Announced (s : Store) (id : NodeId) : Prop :=
  ∃ other f, s.kind? other = some (.function f) ∧ f.body = none ∧ id ∈ s.siblings f.parameters

/-- The statements, functions and declarations of a program. A call in an expression is no
statement, and the formal parameters of a function without a body are left out. -/
inductive Covered (s : Store) (id : NodeId) : Prop
  | statement {k : NodeKind} : s.kind? id = some k → k.isStatement = true →
      (k.isCall = true → ¬s.Wrapped id) → Covered s id
  | function {f : FunctionNode} : s.kind? id = some (.function f) → Covered s id
  | declaration {d : DeclarationNode} : s.kind? id = some (.declaration d) → ¬s.Announced id →
      Covered s id

theorem Covered.of_not_isCall (hk : s.kind? id = some k) (hstatement : k.isStatement = true)
    (hcall : k.isCall = false) : s.Covered id :=
  .statement hk hstatement fun h => by cases hcall.symm.trans h

end Store

/-- Kinds of nodes without statements, functions and declarations in them, apart from calls in
expressions. -/
def NodeKind.isQuiet (k : NodeKind) : Bool :=
  k.isExpression || k.isReference || k.isType || k.isLiteral || k.isName || k.isNumber

theorem NodeKind.obliged_of_isQuiet (h : k.isQuiet = true) : s.obliged k = [] := by
  cases k with
  | expression | reference | type | literal | name | number => rfl
  | _ => cases h

theorem NodeKind.not_covered_of_isQuiet (h : k.isQuiet = true) (hk : s.kind? id = some k) :
    ¬s.Covered id := by
  intro hid
  cases hid with
  | statement hk' hstatement =>
    cases hk.symm.trans hk'
    cases k with
    | expression | reference | type | literal | name | number => cases hstatement
    | _ => cases h
  | function hk' | declaration hk' =>
    cases hk.symm.trans hk'
    cases h

theorem Operator.isQuiet_or_isCall_of_fitsLeft {o : Operator} (h : o.fitsLeft k = true) :
    k.isQuiet = true ∨ k.isCall = true := by
  cases o with
  | call => exact .inr h
  | _ => exact .inl (by simp_all [Operator.fitsLeft, NodeKind.isQuiet])

/-- A call in an expression is no statement. -/
theorem Store.Wrapped.not_covered (h : s.Wrapped id) {c : CallNode}
    (hk : s.kind? id = some (.call c)) : ¬s.Covered id := by
  intro hid
  cases hid with
  | statement hk' _ hcall =>
    cases hk.symm.trans hk'
    exact hcall rfl h
  | function hk' | declaration hk' => cases hk.symm.trans hk'

theorem Store.Announced.not_covered (h : s.Announced id) {d : DeclarationNode}
    (hk : s.kind? id = some (.declaration d)) : ¬s.Covered id := by
  intro hid
  cases hid with
  | statement hk' hstatement =>
    cases hk.symm.trans hk'
    cases hstatement
  | function hk' => cases hk.symm.trans hk'
  | declaration _ hnot => exact hnot h

/-! ### Parts -/

/-- What can stand in a part of a node. -/
inductive PartCase (s : Store) (k : NodeKind) (part : Part) : Prop
  /-- Nodes that checking comes to. -/
  | obliged (h : ∀ child ∈ s.row part.node, child ∈ s.obliged k)
  /-- One node that checking comes to. -/
  | obligedOne (h : part.slot.isList = false)
      (hchild : ∀ child, part.node = some child → child ∈ s.obliged k)
  | quiet (h : ∀ k' : NodeKind, part.fits k' = true → k'.isQuiet = true)
  /-- What an expression wraps. -/
  | wrapped {e : ExpressionNode} (hk : k = .expression e)
      (hpart : part = ⟨.left, e.left, e.operator.fitsLeft⟩)
  /-- The parameters of a function without a body. -/
  | announced {f : FunctionNode} (hk : k = .function f) (hbody : f.body = none)
      (hpart : part = ⟨.parameters, f.parameters, NodeKind.declares [.parameter]⟩)

theorem NodeKind.partCase (hpart : part ∈ k.parts) : PartCase s k part := by
  cases k with
  | program p =>
    simp [parts] at hpart
    rcases hpart with rfl | rfl | rfl
    · exact .obliged (by simp +contextual [Store.obliged])
    · exact .obliged (by simp +contextual [Store.obliged])
    · exact .obligedOne rfl (by simp [Store.obliged])
  | compound b =>
    simp [parts] at hpart
    rcases hpart with rfl | rfl
    · exact .obliged (by simp +contextual [Store.obliged])
    · exact .obliged (by simp +contextual [Store.obliged])
  | condition c =>
    simp [parts] at hpart
    rcases hpart with rfl | rfl | rfl
    · exact .quiet (by simp +contextual [isQuiet])
    · exact .obligedOne rfl (by simp [Store.obliged])
    · exact .obligedOne rfl (by simp +contextual [Store.obliged])
  | whileLoop guardNode body =>
    simp [parts] at hpart
    rcases hpart with rfl | rfl
    · exact .quiet (by simp +contextual [isQuiet])
    · exact .obligedOne rfl (by simp [Store.obliged])
  | forLoop f =>
    simp only [parts, ForNode.headerParts, List.cons_append, List.nil_append, List.mem_cons,
      List.not_mem_nil, or_false] at hpart
    rcases hpart with rfl | rfl | rfl | rfl | rfl | rfl
    iterate 4 exact .quiet (by simp +contextual [isQuiet])
    · exact .obligedOne rfl (by simp [Store.obliged])
    · exact .obligedOne rfl (by simp [Store.obliged])
  | function f =>
    simp [parts] at hpart
    rcases hpart with rfl | rfl | rfl | rfl
    · cases hbody : f.body with
      | none => exact .announced rfl hbody rfl
      | some body => exact .obliged (by simp +contextual [Store.obliged, hbody])
    · exact .quiet (by simp +contextual [isQuiet])
    · exact .quiet (by simp +contextual [isQuiet])
    · cases hbody : f.body with
      | none => exact .obligedOne rfl (by simp)
      | some body => exact .obliged (by simp +contextual [Store.obliged, hbody])
  | expression e =>
    simp [parts] at hpart
    rcases hpart with rfl | rfl
    · exact .wrapped rfl rfl
    · exact .quiet (by simp +contextual [isQuiet])
  | _ =>
    refine .quiet ?_
    revert part
    simp +contextual [parts, isQuiet]

theorem StandsIn.mem_row (h : StandsIn s lo hi part lo' id k) (hhi : hi ≤ s.size) :
    id ∈ s.row part.node := by
  have hle : s.size ≤ (s.size + 2) * s.size := Nat.le_mul_of_pos_left _ (Nat.succ_pos _)
  exact h.listed _ (by omega)

/-- A statement, function or declaration inside of a tree is in a part that checking comes to. -/
theorem Subtree.obliged_of_covered (h : Subtree s lo root k) (hlo : lo ≤ id) (hlt : id < root)
    (hid : s.Covered id) :
    ∃ child ∈ s.obliged k, ∃ lo' k', Subtree s lo' child k' ∧ child < root ∧ lo' ≤ id ∧
      id ≤ child := by
  induction root using Nat.strongRecOn generalizing lo k with
  | ind root ih =>
    obtain ⟨part, hpart, lo', child, k', hstands, hlo', hle⟩ := h.exists_standsIn hlo hlt
    have hsize := Store.lt_size_of_kind? h.kind?
    have hrow := hstands.mem_row (Nat.le_of_lt hsize)
    have hthere : lo' ≤ id ∧ id ≤ child := ⟨hlo', hle⟩
    -- below a node without such parts there is nothing, so it would be the node itself
    have hself : s.obliged k' = [] → s.Covered child := by
      intro hnone
      rcases Nat.lt_or_eq_of_le hle with hlt' | rfl
      · obtain ⟨other, hother, -⟩ := ih child hstands.lt hstands.tree hlo' hlt'
        rw [hnone] at hother
        cases hother
      · exact hid
    have hkind := hstands.tree.kind?
    have hquiet : k'.isQuiet = true → False := fun hquiet =>
      NodeKind.not_covered_of_isQuiet hquiet hkind (hself (NodeKind.obliged_of_isQuiet hquiet))
    cases NodeKind.partCase (s := s) hpart with
    | obliged h => exact ⟨child, h child hrow, lo', k', hstands.tree, hstands.lt, hthere⟩
    | obligedOne hlist h =>
      exact ⟨child, h child (hstands.alone hlist), lo', k', hstands.tree, hstands.lt, hthere⟩
    | quiet h => exact (hquiet (h k' hstands.fits)).elim
    | @wrapped e hk hpart' =>
      subst hk hpart'
      have hwrapped : s.Wrapped child := ⟨root, e, h.kind?, hstands.alone rfl⟩
      rcases Operator.isQuiet_or_isCall_of_fitsLeft hstands.fits with hleft | hcall
      · exact (hquiet hleft).elim
      · cases k' with
        | call c => exact absurd (hself rfl) (hwrapped.not_covered hkind)
        | _ => cases hcall
    | @announced f hk hbody hpart' =>
      subst hk hpart'
      have hannounced : s.Announced child :=
        ⟨root, f, h.kind?, hbody, hstands.listed s.size (by omega)⟩
      have hfits : k'.declares [.parameter] = true := hstands.fits
      cases k' with
      | declaration d => exact absurd (hself rfl) (hannounced.not_covered hkind)
      | _ => cases hfits

/-- Checking comes to all statements, functions and declarations of a tree. -/
theorem Subtree.inside_of_covered (h : Subtree s lo root k) (hlo : lo ≤ id) (hle : id ≤ root)
    (hid : s.Covered id) (f : Option NodeId) : ∃ g, s.Inside (root, f) (id, g) := by
  induction root using Nat.strongRecOn generalizing lo k f with
  | ind root ih =>
    rcases Nat.lt_or_eq_of_le hle with hlt | rfl
    · obtain ⟨child, hchild, lo', k', htree, hlt', hlo', hle'⟩ := h.obliged_of_covered hlo hlt hid
      obtain ⟨g, hg⟩ := ih child hlt' htree hlo' hle' (k.around root f)
      exact ⟨g, .part h.kind? hchild hg⟩
    · exact ⟨f, .self _⟩

end PLang
