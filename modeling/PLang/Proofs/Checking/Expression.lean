import PLang.Proofs.Checking.Frames
import PLang.Proofs.Checking.Operators
import PLang.Proofs.TypeText

/-!
# Checking expressions is right

Checking an expression finds no error exactly if the expression has a type, and then the scalar type
stands in its node. The checks of the parts are assumed to be right.
-/

namespace PLang

open Syntax Typing Check DataType Option Store

variable {e : Expr} {es : List Expr} {head left right : Option NodeId} {hi : Nat} {o : Operator}
  {part : NodeId} {ps : List DataType} {t : DataType} {x : String}

/-- What a node of an expression holds agrees with the type of the expression. -/
def Typed (Γ : Env) (e : Expr) (k : Option NodeKind) : Prop :=
  ∀ t, HasType Γ e t → ∃ node, k = some (.expression node) ∧ node.result = t.scalar?

/-- A way of checking nodes is right on the expressions of a tree. -/
structure ExprVisits (s : Store) (visit : NodeId → Check Nat) : Prop where
  literal : ∀ {c : Checker} {id : Nat} {node : LiteralNode},
    c.store.kind? id = some (.literal node) → Checks c (visit id) True (Restores id id c)
  expression : ∀ {Γ : Env} {ρ : Option ScalarType} {lo root : Nat} {e : Expr} {c : Checker},
    ExprAt s lo root e → Sees s Γ ρ lo (root + 1) c →
    Checks c (visit root) (∃ t, HasType Γ e t) fun c' =>
      Restores lo (root + 1) c c' ∧ Typed Γ e (c'.store.kind? root)
  reference : ∀ {Γ : Env} {ρ : Option ScalarType} {lo root : Nat} {x : String} {es : List Expr}
    {c : Checker}, ReferenceAt s lo root (x, es) → Sees s Γ ρ lo (root + 1) c →
    Checks c (visit root) (∃ t, HasType Γ (.reference x es) t) fun c' =>
      Restores lo (root + 1) c c' ∧ ∀ t, HasType Γ (.reference x es) t →
        ∃ head, c'.store.kind? root = some (.reference ⟨x, head, t.scalar?⟩)
  call : ∀ {Γ : Env} {ρ : Option ScalarType} {lo root : Nat} {f : String} {es : List Expr}
    {c : Checker}, CallAt s lo root (f, es) → Sees s Γ ρ lo (root + 1) c →
    Checks c (visit root) (∃ t, HasType Γ (.call f es) t) fun c' =>
      Restores lo (root + 1) c c' ∧ ∀ t, HasType Γ (.call f es) t →
        ∃ head, c'.store.kind? root = some (.call ⟨f, head, t.scalar?⟩)

theorem Typed.resultType? {Γ : Env} {s : Store} {id : NodeId} (h : Typed Γ e (s.kind? id))
    (ht : HasType Γ e t) : s.resultType? id = t.scalar? := by
  obtain ⟨node, hk, hresult⟩ := h t ht
  rw [Store.resultType?, Store.expression?, hk]
  exact hresult

namespace Check

variable {s : Store} {visit : NodeId → Check Nat} {Γ : Env} {ρ : Option ScalarType} {c : Checker}
  {lo root : Nat} {G : Prop} {P : Checker → Prop}

/-! ### Operators and wrappers -/

theorem operands_left (h : Checks c (visit part) G P) :
    Checks c (operands visit ⟨o, some part, none, none⟩) G P :=
  (Checks.add h fun _ _ hP => .pass trivial hP).mono (and_iff_left trivial) fun _ hP => hP

theorem operands_right (h : Checks c (visit part) G P) :
    Checks c (operands visit ⟨o, none, some part, none⟩) G P := by
  have hleft : Checks c (pure 0) True (· = c) := .pass trivial rfl
  refine (hleft.add fun c1 _ hc1 => ?_).mono (and_iff_right trivial) fun _ hP => hP
  rw [hc1]
  exact h

/-- The type of what is wrapped becomes the type of the wrapper. -/
theorem resolved_wrapper (ho : o.isTerminal = true)
    (hk : c.store.kind? root = some (.expression ⟨o, some part, none, none⟩))
    (htype : ∀ t, HasType Γ e t → wrappedType o (some part) c.store = t.scalar?) :
    Checks c (resolved root ⟨o, some part, none, none⟩) True fun c' =>
      Restores root (root + 1) c c' ∧ Typed Γ e (c'.store.kind? root) := by
  unfold resolved
  rw [if_pos ho]
  refine .look (a := wrappedType o (some part) c.store) rfl (.write (.pass trivial ⟨?_, ?_⟩))
  · exact .write (setResult_alike _)
  · exact fun t ht => ⟨_, kind?_modifyKind_self hk, htype t ht⟩

/-- Writes the type that an operator gives, or complains. -/
def settle (root : NodeId) (meant : Operator) (left right : Option NodeId)
    (result : Option ScalarType) : Check Nat :=
  match result with
  | some type => do
    write fun s => s.setResult root (some type)
    pure 0
  | none => do
    let cause ← view fun c => c.operandCause meant left right
    report cause root

theorem settle_checks {c1 : Checker} {node : ExpressionNode} {meant : Operator}
    {result : Option ScalarType} (hc1 : Restores root (root + 1) c c1)
    (hk : c1.store.kind? root = some (.expression node))
    (htype : ∀ t, HasType Γ e t ↔ ∃ a, t = .ofScalar a ∧ result = some a) :
    Checks c1 (settle root meant left right result) (∃ t, HasType Γ e t) fun c' =>
      Restores root (root + 1) c c' ∧ Typed Γ e (c'.store.kind? root) := by
  cases result with
  | none =>
    refine .look (a := c1.operandCause meant left right) rfl (.reject ?_)
    rintro ⟨t, ht⟩
    obtain ⟨a, -, ha⟩ := (htype t).1 ht
    cases ha
  | some a =>
    refine .write (.pass ⟨.ofScalar a, (htype _).2 ⟨a, rfl, rfl⟩⟩ ⟨?_, fun t ht => ?_⟩)
    · exact hc1.trans (.write (setResult_alike _))
    · obtain ⟨b, rfl, hb⟩ := (htype t).1 ht
      exact ⟨_, kind?_modifyKind_self hk, hb⟩

/-- An operator gets the type that it gives for the types of its operands. -/
theorem operator_checks (hk : c.store.kind? root = some (.expression ⟨o, left, right, none⟩))
    (htype : ∀ t, HasType Γ e t ↔ ∃ a, t = .ofScalar a ∧
      (o.resolve (left.bind c.store.resultType?) (right.bind c.store.resultType?)).result?
        (left.bind c.store.resultType?) (right.bind c.store.resultType?) = some a) :
    Checks c (operator root ⟨o, left, right, none⟩) (∃ t, HasType Γ e t) fun c' =>
      Restores root (root + 1) c c' ∧ Typed Γ e (c'.store.kind? root) := by
  unfold operator
  refine .look (a := left.bind c.store.resultType?) rfl
    (.look (a := right.bind c.store.resultType?) rfl ?_)
  generalize left.bind c.store.resultType? = l, right.bind c.store.resultType? = r at htype ⊢
  show Checks c (if o.resolve l r ≠ o then
      write (fun s => s.setOperator root (o.resolve l r)) >>= fun _ =>
        settle root (o.resolve l r) left right ((o.resolve l r).result? l r)
    else settle root (o.resolve l r) left right ((o.resolve l r).result? l r)) _ _
  rcases o.resolve_cases l r with hmeant | ⟨rfl, hmeant⟩
  · rw [if_neg (not_not.2 hmeant)]
    exact settle_checks (.refl ..) hk htype
  · simp only [hmeant] at htype
    rw [hmeant, if_pos (by decide)]
    refine .write (settle_checks ?_ (kind?_modifyKind_self hk) htype)
    exact .write (setOperator_alike hk rfl)

variable {r : Option ScalarType}

theorem hasType_unary {o : UnaryOperator} (he : ∃ t, HasType Γ e t)
    (hr : ∀ t, HasType Γ e t → r = t.scalar?) (t : DataType) :
    HasType Γ (.unary o e) t ↔
      ∃ a, t = .ofScalar a ∧ (o.operator.resolve none r).result? none r = some a := by
  simp only [Operator.result?_unary]
  constructor
  · intro h
    cases h with
    | unary he ho => exact ⟨_, rfl, _, hr _ he, ho⟩
  · rintro ⟨a, rfl, t1, rfl, ho⟩
    obtain ⟨t, ht⟩ := he
    obtain rfl := scalar?_eq_some.1 (hr t ht).symm
    exact .unary ht ho

theorem hasType_binary {o : BinaryOperator} {e1 e2 : Expr} {l : Option ScalarType}
    (he1 : ∃ t, HasType Γ e1 t) (hl : ∀ t, HasType Γ e1 t → l = t.scalar?)
    (he2 : ∃ t, HasType Γ e2 t) (hr : ∀ t, HasType Γ e2 t → r = t.scalar?) (t : DataType) :
    HasType Γ (.binary o e1 e2) t ↔
      ∃ a, t = .ofScalar a ∧ (o.operator.resolve l r).result? l r = some a := by
  simp only [Operator.result?_binary]
  constructor
  · intro h
    cases h with
    | binary h1 h2 ho => exact ⟨_, rfl, _, _, hl _ h1, hr _ h2, ho⟩
  · rintro ⟨a, rfl, t1, t2, rfl, rfl, ho⟩
    obtain ⟨t, ht⟩ := he1
    obtain ⟨t', ht'⟩ := he2
    obtain rfl := scalar?_eq_some.1 (hl t ht).symm
    obtain rfl := scalar?_eq_some.1 (hr t' ht').symm
    exact .binary ht ht' ho

theorem UnaryOperator.isTerminal (o : UnaryOperator) : o.operator.isTerminal = false := by
  cases o <;> rfl

theorem BinaryOperator.isTerminal (o : BinaryOperator) : o.operator.isTerminal = false := by
  cases o <;> rfl

theorem resolved_operator {id : NodeId} {node : ExpressionNode}
    (ho : node.operator.isTerminal = false) :
    resolved id node = operator id node := by
  unfold resolved
  rw [if_neg (by rw [ho]; decide)]

/-- A wrapper is right if what it wraps is. -/
theorem wrapper_checks {part : Nat} (ho : o.isTerminal = true)
    (hk : s.kind? (part + 1) = some (.expression ⟨o, some part, none, none⟩))
    (hc : Sees s Γ ρ lo (part + 2) c) (hlo : lo ≤ part + 1)
    (hpart : Checks c (visit part) G fun c' => Restores lo (part + 1) c c' ∧
      ∀ t, HasType Γ e t → wrappedType o (some part) c'.store = t.scalar?)
    (hG : G ↔ ∃ t, HasType Γ e t) :
    Checks c (expression visit (part + 1) ⟨o, some part, none, none⟩) (∃ t, HasType Γ e t)
      fun c' => Restores lo (part + 2) c c' ∧ Typed Γ e (c'.store.kind? (part + 1)) := by
  refine ((operands_left hpart).andThen fun c1 _ h1 => ?_).mono
    ((and_iff_left trivial).trans hG) fun _ h => h
  obtain ⟨hr1, htype⟩ := h1
  have hc1 := hc.restores hr1 hlo .refl (.inl .refl)
  refine (resolved_wrapper ho (hc1.kind hk .refl (Nat.lt_succ_self _)) htype).mono
    Iff.rfl fun c2 h2 => ⟨?_, h2.2⟩
  exact hr1.append h2.1 hlo (Nat.le_succ _)

/-- An operator is right if its operands are. -/
theorem operation_checks (ho : o.isTerminal = false)
    (hk : s.kind? root = some (.expression ⟨o, left, right, none⟩))
    (hc : Sees s Γ ρ lo (root + 1) c) (hlo : lo ≤ root)
    (hoperands : Checks c (operands visit ⟨o, left, right, none⟩) G fun c' =>
      Restores lo root c c' ∧
      ∀ t, HasType Γ e t ↔ ∃ a, t = .ofScalar a ∧
        (o.resolve (left.bind c'.store.resultType?) (right.bind c'.store.resultType?)).result?
          (left.bind c'.store.resultType?) (right.bind c'.store.resultType?) = some a)
    (hG : (∃ t, HasType Γ e t) → G) :
    Checks c (expression visit root ⟨o, left, right, none⟩) (∃ t, HasType Γ e t) fun c' =>
      Restores lo (root + 1) c c' ∧ Typed Γ e (c'.store.kind? root) := by
  refine (hoperands.andThen fun c1 _ h1 => ?_).mono (and_iff_right_of_imp hG) fun _ h => h
  obtain ⟨hr1, htype⟩ := h1
  have hc1 := hc.restores hr1 hlo .refl (.inl .refl)
  rw [resolved_operator ho]
  refine (operator_checks (hc1.kind hk .refl (Nat.lt_succ_self _)) htype).mono Iff.rfl
    fun c2 h2 => ⟨?_, h2.2⟩
  exact hr1.append h2.1 hlo (Nat.le_succ _)

/-- Expressions, if their parts are right. -/
theorem expression_checks (hV : ExprVisits s visit) (h : ExprAt s lo root e)
    (hc : Sees s Γ ρ lo (root + 1) c) :
    Checks c (node visit root) (∃ t, HasType Γ e t) fun c' =>
      Restores lo (root + 1) c c' ∧ Typed Γ e (c'.store.kind? root) := by
  have hlo : lo ≤ root := exprAt_local.le h
  cases h with
  | @literal _ v hlit hnext hk =>
    have hlit' := hc.kind hlit .refl (by omega)
    refine node_checks (hc.kind hk hlo (Nat.lt_succ_self _))
      (wrapper_checks rfl hk hc hlo ((hV.literal hlit').mono Iff.rfl fun c1 h1 => ⟨?_, ?_⟩) ?_)
    · exact h1.mono .refl (Nat.le_succ _)
    · intro t ht
      cases ht with
      | literal =>
        rw [wrappedType, bind_some, h1.touches.alike.literal?_eq, literal?, hlit']
        rfl
    · exact iff_of_true trivial ⟨_, .literal⟩
  | @reference _ part head x es hes href hnext hk =>
    refine node_checks (hc.kind hk hlo (Nat.lt_succ_self _)) (wrapper_checks rfl hk hc hlo
      ((hV.reference ⟨head, hes, href⟩ (hc.narrow .refl (Nat.le_succ _))).mono Iff.rfl
        fun c1 h1 => ⟨h1.1, fun t ht => ?_⟩) Iff.rfl)
    obtain ⟨head', hk'⟩ := h1.2 t ht
    rw [wrappedType, bind_some, reference?, hk']
    rfl
  | @call _ part head f es hes hcall hnext hk =>
    refine node_checks (hc.kind hk hlo (Nat.lt_succ_self _)) (wrapper_checks rfl hk hc hlo
      ((hV.call ⟨head, hes, hcall⟩ (hc.narrow .refl (Nat.le_succ _))).mono Iff.rfl
        fun c1 h1 => ⟨h1.1, fun t ht => ?_⟩) Iff.rfl)
    obtain ⟨head', hk'⟩ := h1.2 t ht
    rw [wrappedType, bind_some, call?, hk']
    rfl
  | @unary _ part o e he hnext hk =>
    have hoperand := hV.expression he (hc.narrow .refl (Nat.le_succ _))
    refine node_checks (hc.kind hk hlo (Nat.lt_succ_self _))
      (operation_checks (UnaryOperator.isTerminal o) hk hc hlo (operands_right
        (hoperand.good.mono Iff.rfl fun c1 h1 => ⟨h1.2.1, fun t => ?_⟩)) ?_)
    · exact hasType_unary h1.1 (fun _ ht => h1.2.2.resultType? ht) t
    · rintro ⟨t, ht⟩
      cases ht with
      | unary he _ => exact ⟨_, he⟩
  | @binary _ left right o e1 e2 h1 hn1 h2 hn2 hk =>
    have hle1 : lo ≤ left := exprAt_local.le h1
    have hle2 : left + 1 ≤ right := exprAt_local.le h2
    have hleft := hV.expression h1 (hc.narrow .refl (by omega : left + 1 ≤ right + 2))
    refine node_checks (hc.kind hk hlo (Nat.lt_succ_self _))
      (operation_checks (BinaryOperator.isTerminal o) hk hc hlo
        (hleft.good.add fun c1 _ hc1 => (hV.expression h2 (hc.restores hc1.2.1 (by omega)
          (by omega) (.inl .refl))).good.mono Iff.rfl fun c2 hc2 => ⟨?_, fun t => ?_⟩) ?_)
    · exact hc1.2.1.append hc2.2.1 (by omega) (by omega)
    · have hkeep : Typed Γ e1 (c2.store.kind? left) := by
        rw [hc2.2.1.touches.kind left (.inl (Nat.lt_succ_self _))]
        exact hc1.2.2
      exact hasType_binary hc1.1 (fun _ ht => hkeep.resultType? ht) hc2.1
        (fun _ ht => hc2.2.2.resultType? ht) t
    · rintro ⟨t, ht⟩
      cases ht with
      | binary h1 h2 _ => exact ⟨⟨_, h1⟩, ⟨_, h2⟩⟩

/-- An expression that must have a certain scalar type. -/
theorem demand_checks (hV : ExprVisits s visit) (h : ExprAt s lo root e)
    (hc : Sees s Γ ρ lo (root + 1) c) (expected : ScalarType) (cause : Cause) :
    Checks c (andThen (visit root) do
        if (← inStore fun s => s.resultType? root) = some expected then pure 0 else
          report cause root)
      (HasType Γ e (.ofScalar expected)) (Restores lo (root + 1) c) := by
  refine ((hV.expression h hc).andThen fun c1 hG h1 => ?_).mono
    (and_iff_right_of_imp fun ht => ⟨_, ht⟩) fun _ h => h
  obtain ⟨hr1, htyped⟩ := h1
  obtain ⟨t, ht⟩ := hG
  refine .look (a := c1.store.resultType? root) rfl ?_
  by_cases hresult : c1.store.resultType? root = some expected
  · rw [if_pos hresult]
    rw [htyped.resultType? ht, scalar?_eq_some] at hresult
    exact .pass (hresult ▸ ht) hr1
  · rw [if_neg hresult]
    exact .reject fun ht' => hresult (htyped.resultType? ht')

/-! ### Variables -/

theorem indices_checks (hV : ExprVisits s visit) (h : ListAt s (ExprAt s) lo hi head es)
    (hhi : hi ≤ s.size) (hc : Sees s Γ ρ lo hi c) :
    Checks c (list (index visit) .reportAll head) (∀ e ∈ es, HasType Γ e (.ofScalar .integer))
      (Restores lo hi c) := by
  refine .list (k := hi - lo) (by rw [hc.alike.size]; omega) fun n hn => ?_
  exact (h.checksEach exprAt_local.le_of_mem (F := fun _ _ => True)
    (fun _ _ _ _ _ hAt hSees => (demand_checks hV hAt hSees .integer .nonIntegerIndex).mono Iff.rfl
      fun _ h => ⟨h, trivial⟩) hc .refl hn).mono Iff.rfl fun _ h => h.1

/-- A list of expressions has as many nodes as members. -/
theorem listLength_eq (h : ListAt s (ExprAt s) lo hi head es) (hhi : hi ≤ s.size) :
    s.listLength head = es.length :=
  (h.siblings_forall₂ exprAt_local.le_of_mem hhi).length_eq

/-- A variable with as many subscripts as dimensions is a scalar. -/
theorem scalar?_drop (t : DataType) {n : Nat} (h : n ≤ t.dimensions.length) :
    scalar? ⟨t.scalar, t.dimensions.drop n⟩ =
      if n = t.dimensions.length then some t.scalar else none := by
  have hdrop : t.dimensions.drop n = [] ↔ n = t.dimensions.length := by
    rw [List.drop_eq_nil_iff]
    omega
  simp only [scalar?, hdrop]

theorem subscripted_checks {symbol : Symbol} {role : Role} (hx : Γ.lookup x = some (.object role t))
    (hsymbol : Denotes s symbol (.object role t)) (halike : Alike s c.store)
    (hes : s.listLength head = es.length)
    (hk : c.store.kind? root = some (.reference ⟨x, head, none⟩)) :
    Checks c (subscripted root ⟨x, head, none⟩ symbol) (es.length ≤ t.dimensions.length) fun c' =>
      Restores root (root + 1) c c' ∧ ∀ t, HasType Γ (.reference x es) t →
        ∃ head, c'.store.kind? root = some (.reference ⟨x, head, t.scalar?⟩) := by
  obtain ⟨-, hscalar, hdims⟩ := hsymbol
  have hdeclared : (c.store.dimensions symbol.node).length = t.dimensions.length := by
    rw [halike.dimensions_eq, hdims]
  have hused : c.store.listLength head = es.length := (halike.listLength_eq head).trans hes
  refine .look (a := t.dimensions.length) (by rw [inStore, view, hdeclared])
    (.look (a := es.length) (by rw [inStore, view, hused]) ?_)
  by_cases hlt : t.dimensions.length < es.length
  · rw [if_pos hlt]
    exact .reject (Nat.not_le_of_lt hlt)
  · rw [if_neg hlt]
    refine .write (.pass (Nat.le_of_not_lt hlt) ⟨.write (setReferenceType_alike _), ?_⟩)
    intro t' ht'
    cases ht' with
    | reference hx' _ _ =>
      cases hx.symm.trans hx'
      rw [scalar?_drop t (Nat.le_of_not_lt hlt), ← hscalar]
      exact ⟨head, kind?_modifyKind_self hk⟩

theorem hasType_reference {role : Role} (hx : Γ.lookup x = some (.object role t)) :
    (∀ e ∈ es, HasType Γ e (.ofScalar .integer)) ∧ es.length ≤ t.dimensions.length ↔
      ∃ t, HasType Γ (.reference x es) t := by
  constructor
  · rintro ⟨hindices, hle⟩
    exact ⟨_, .reference hx hindices hle⟩
  · rintro ⟨t', ht'⟩
    cases ht' with
    | reference hx' hindices hle =>
      cases hx.symm.trans hx'
      exact ⟨hindices, hle⟩

/-- Variables, if their subscripts are right. -/
theorem reference_checks (hV : ExprVisits s visit) (h : ReferenceAt s lo root (x, es))
    (hc : Sees s Γ ρ lo (root + 1) c) :
    Checks c (node visit root) (∃ t, HasType Γ (.reference x es) t) fun c' =>
      Restores lo (root + 1) c c' ∧ ∀ t, HasType Γ (.reference x es) t →
        ∃ head, c'.store.kind? root = some (.reference ⟨x, head, t.scalar?⟩) := by
  have hlo : lo ≤ root := referenceAt_local.le h
  obtain ⟨head, hes, hk⟩ := h
  have hsize : root < s.size := lt_size_of_kind? hk
  refine node_checks (hc.kind hk hlo (Nat.lt_succ_self _)) ?_
  refine .look (a := c.symbols.lookup x) rfl ?_
  cases hx : Γ.lookup x with
  | none =>
    rw [hc.scopes.lookup_none hx]
    refine .reject ?_
    rintro ⟨t, ht⟩
    cases ht with
    | reference hx' _ _ => cases hx.symm.trans hx'
  | some m =>
    obtain ⟨symbol, hlookup, hdenotes, -⟩ := hc.scopes.lookup_some hx
    rw [hlookup]
    dsimp only
    by_cases hkind : symbol.kind.isVariable = true
    · obtain ⟨role, t, rfl⟩ := hdenotes.isVariable_iff.1 hkind
      rw [if_pos hkind]
      have hindices := indices_checks hV hes (Nat.le_of_lt hsize)
        (hc.narrow .refl (Nat.le_succ _))
      refine (hindices.andThen fun c1 _ hr1 => ?_).mono (hasType_reference hx) fun _ h => h
      have hc1 := hc.restores hr1 hlo .refl (.inl .refl)
      refine (subscripted_checks hx hdenotes hc1.alike (listLength_eq hes (Nat.le_of_lt hsize))
        (hc1.kind hk .refl (Nat.lt_succ_self _))).mono Iff.rfl fun c2 h2 => ⟨?_, h2.2⟩
      exact hr1.append h2.1 hlo (Nat.le_succ _)
    · rw [if_neg hkind]
      refine .reject ?_
      rintro ⟨t, ht⟩
      cases ht with
      | reference hx' _ _ =>
        cases hx.symm.trans hx'
        exact hkind (hdenotes.isVariable_iff.2 ⟨_, _, rfl⟩)

/-! ### Calls -/

/-- An expression that is a variable wraps the reference to it. -/
theorem wrappedReference?_eq (h : ExprAt s lo root (.reference x es)) (halike : Alike s c.store)
    (hsize : root ≤ s.size) :
    ∃ head result, c.wrappedReference? root = some ⟨x, head, result⟩ ∧
      s.listLength head = es.length := by
  cases h with
  | @reference _ part head _ _ hes href hnext hk =>
    obtain ⟨o, result, hk', ho⟩ := halike.kind?_expression hk (by decide)
    obtain ⟨result', href'⟩ := halike.kind?_reference href
    obtain rfl : o = .reference := ho.resolve_right fun h => nomatch h.1
    refine ⟨head, result', ?_, listLength_eq hes (by omega)⟩
    rw [Checker.wrappedReference?, expression?, hk']
    show c.store.reference? part = _
    rw [reference?, href']

/-- The text of the array that an argument is. -/
theorem arrayText?_eq (h : ExprAt s lo root e) (ht : HasType Γ e t) (harray : t.dimensions ≠ [])
    (halike : Alike s c.store) (hscopes : ScopesMatch c.symbols s c.symbols.scopes Γ)
    (hsize : root ≤ s.size) : c.arrayText? root = some t.text := by
  obtain ⟨x, es, rfl⟩ := ht.reference_of_array harray
  obtain ⟨head, result, hwrapped, hlength⟩ := wrappedReference?_eq h halike hsize
  cases ht with
  | @reference _ _ role t hx _ _ =>
    obtain ⟨symbol, hlookup, ⟨-, hscalar, hdims⟩, -⟩ := hscopes.lookup_some hx
    have hleft : (c.store.dimensions symbol.node).drop (c.store.listLength head) =
        t.dimensions.drop es.length := by
      rw [halike.dimensions_eq, hdims, halike.listLength_eq, hlength]
    have hne : (t.dimensions.drop es.length).isEmpty = false := by
      simpa using harray
    simp only [Checker.arrayText?, hwrapped, hlookup, hscalar, hleft, hne, bind_eq_bind,
      bind_some, Bool.false_eq_true, if_false, text]

theorem exists_forall₂ {α β : Type} {R : α → β → Prop} {as : List α} (h : ∀ a ∈ as, ∃ b, R a b) :
    ∃ bs, List.Forall₂ R as bs := by
  induction as with
  | nil => exact ⟨[], .nil⟩
  | cons a as ih =>
    obtain ⟨b, hb⟩ := h a (.head _)
    obtain ⟨bs, hbs⟩ := ih fun a ha => h a (.tail _ ha)
    exact ⟨b :: bs, .cons hb hbs⟩

/-- How an argument of a type shows in the tree. -/
def Shows (c : Checker) (argument : NodeId) (t : DataType) : Prop :=
  c.store.resultType? argument = t.scalar? ∧
    (t.dimensions ≠ [] → c.arrayText? argument = some t.text)

theorem passes_iff {argument : NodeId} {p : DataType} {node : TypeNode} (h : Shows c argument t)
    (hscalar : node.scalar = p.scalar) (htext : node.text = p.text)
    (hdims : node.dimensions = none ↔ p.dimensions = []) :
    c.passes argument node = true ↔ Passes t p := by
  obtain ⟨hresult, harray⟩ := h
  cases hnode : node.dimensions with
  | none =>
    obtain rfl : p = .ofScalar node.scalar := DataType.ext hscalar.symm (hdims.1 hnode)
    simp only [Checker.passes, hnode, hresult, any_eq_true, scalar?_eq_some,
      coercesTo_iff]
    constructor
    · rintro ⟨a, rfl, hcoerces⟩
      exact .scalar hcoerces
    · intro hpass
      generalize hp : ofScalar node.scalar = p at hpass
      cases hpass with
      | scalar hcoerces =>
        cases hp
        exact ⟨_, rfl, hcoerces⟩
      | array hne => exact absurd (hp ▸ rfl) hne
  | some head =>
    have hp : p.dimensions ≠ [] := fun h => by
      rw [hdims.2 h] at hnode
      cases hnode
    simp only [Checker.passes, hnode, hresult, Bool.and_eq_true, isNone_iff_eq_none, beq_iff_eq]
    constructor
    · rintro ⟨hnone, htext'⟩
      have ht : t.dimensions ≠ [] := fun h => by
        rw [scalar?, if_pos h] at hnone
        cases hnone
      rw [harray ht, htext] at htext'
      rw [eq_of_text_eq (some.inj htext')]
      exact .array hp
    · intro hpass
      cases hpass with
      | scalar => exact absurd rfl hp
      | array => exact ⟨if_neg hp, (harray hp).trans (congrArg some htext.symm)⟩

variable {arguments : List NodeId}

/-- Arguments are compared with the parameters one by one. -/
theorem passed_checks {parameters : List NodeId} {ts : List DataType}
    (hts : List.Forall₂ (Shows c) arguments ts)
    (hps : List.Forall₂ (TypeNodeOf c.store) parameters ps)
    (hlength : arguments.length = parameters.length) :
    Checks c (passed (arguments.zip parameters)) (List.Forall₂ Passes ts ps) (· = c) := by
  induction hts generalizing parameters ps with
  | nil =>
    cases hps with
    | nil => exact .pass .nil rfl
    | cons => cases hlength
  | @cons argument t arguments ts hshows _ ih =>
    cases hps with
    | nil => cases hlength
    | @cons parameter p parameters ps hp hps =>
      obtain ⟨node, hnode, hscalar, htext, hdims⟩ := hp
      have hpasses := passes_iff hshows hscalar htext hdims
      rw [List.forall₂_cons]
      refine .look (a := some node) (by rw [inStore, view, hnode]) ?_
      refine .look (a := c.passes argument node) rfl ?_
      by_cases hpass : Passes t p
      · rw [if_pos (hpasses.2 hpass)]
        exact (ih hps (Nat.succ.inj hlength)).mono (and_iff_right hpass).symm fun _ h => h
      · rw [if_neg fun h => hpass (hpasses.1 h)]
        exact .look (a := c.argumentName argument) rfl (.reject fun h => hpass h.1)

theorem shows_arguments {ts : List DataType}
    (hids : List.Forall₂ (fun id e => (∃ lo, ExprAt s lo id e) ∧ id ≤ s.size ∧
      Typed Γ e (c.store.kind? id)) arguments es) (hts : List.Forall₂ (HasType Γ) es ts)
    (halike : Alike s c.store) (hscopes : ScopesMatch c.symbols s c.symbols.scopes Γ) :
    List.Forall₂ (Shows c) arguments ts := by
  induction hids generalizing ts with
  | nil =>
    cases hts
    exact .nil
  | cons hid _ ih =>
    obtain ⟨⟨lo, hAt⟩, hsize, htyped⟩ := hid
    cases hts with
    | cons ht hts =>
      refine .cons ⟨htyped.resultType? ht, fun harray => ?_⟩ (ih hts)
      exact arrayText?_eq hAt ht harray halike hscopes hsize

theorem hasType_rightUnique : Relator.RightUnique (HasType Γ) := fun _ _ _ h h' => h.unique h'

variable {result : ScalarType}

theorem passing_checks {symbol : Symbol} {call : CallNode}
    (hcall : call.arguments = head) (hsymbol : Denotes s symbol (.function ps result))
    (halike : Alike s c.store) (hscopes : ScopesMatch c.symbols s c.symbols.scopes Γ)
    (htyped : ∀ e ∈ es, ∃ t, HasType Γ e t)
    (hids : List.Forall₂ (fun id e => (∃ lo, ExprAt s lo id e) ∧ id ≤ s.size ∧
      Typed Γ e (c.store.kind? id)) (s.siblings head) es) :
    Checks c (passing root call symbol)
      (∃ ts, List.Forall₂ (HasType Γ) es ts ∧ List.Forall₂ Passes ts ps) (· = c) := by
  obtain ⟨-, -, node, hnode, hparameters⟩ := hsymbol
  have hps : List.Forall₂ (TypeNodeOf c.store) (s.siblings node.parameterTypes) ps := by
    refine hparameters.imp fun id p hp => ?_
    rw [TypeNodeOf, halike.type?_eq]
    exact hp
  refine .look (a := s.siblings head) (by rw [inStore, view, hcall, halike.siblings_eq])
    (.look (a := s.siblings node.parameterTypes) ?_ ?_)
  · rw [inStore, view, halike.function?_eq, hnode, bind_some, halike.siblings_eq]
  by_cases hlength : (s.siblings head).length = (s.siblings node.parameterTypes).length
  · rw [if_pos hlength]
    obtain ⟨ts, hts⟩ := exists_forall₂ htyped
    refine (passed_checks (shows_arguments hids hts halike hscopes) hps hlength).mono ?_
      fun _ h => h
    constructor
    · exact fun hpasses => ⟨ts, hts, hpasses⟩
    · rintro ⟨ts', hts', hpasses⟩
      rw [hasType_rightUnique.forall₂ hts hts']
      exact hpasses
  · rw [if_neg hlength]
    refine .reject ?_
    rintro ⟨ts, hts, hpasses⟩
    refine hlength ?_
    rw [hids.length_eq, hts.length_eq, hpasses.length_eq, hparameters.length_eq]

theorem arguments_checks (hV : ExprVisits s visit) (h : ListAt s (ExprAt s) lo hi head es)
    (hhi : hi ≤ s.size) (hc : Sees s Γ ρ lo hi c) :
    Checks c (list visit .stopAtFirst head) (∀ e ∈ es, ∃ t, HasType Γ e t) fun c' =>
      Restores lo hi c c' ∧ List.Forall₂ (fun id e => (∃ lo, ExprAt s lo id e) ∧ id ≤ s.size ∧
        Typed Γ e (c'.store.kind? id)) (s.siblings head) es := by
  refine .list (k := hi - lo) (by rw [hc.alike.size]; omega) fun n hn => ?_
  refine (h.checksEach exprAt_local.le_of_mem (F := fun k e => Typed Γ e k)
    (fun _ _ _ _ _ hAt hSees => hV.expression hAt hSees) hc (m := s.size) (by omega) hn).mono
    Iff.rfl fun c1 h1 => ⟨h1.1, ?_⟩
  have hroots := h.siblings_forall₂ exprAt_local.le_of_mem hhi
  refine hroots.mp (fun id e hAt htyped => ?_) h1.2
  obtain ⟨lo', -, hlt, hAt⟩ := hAt
  exact ⟨⟨lo', hAt⟩, Nat.le_trans (Nat.le_of_lt hlt) hhi, htyped⟩

theorem hasType_call {f : String}
    (hf : Γ.lookup f = some (.function ps result)) :
    (∀ e ∈ es, ∃ t, HasType Γ e t) ∧
        (∃ ts, List.Forall₂ (HasType Γ) es ts ∧ List.Forall₂ Passes ts ps) ↔
      ∃ t, HasType Γ (.call f es) t := by
  constructor
  · rintro ⟨-, ts, hts, hpasses⟩
    exact ⟨_, .call hf hts hpasses⟩
  · rintro ⟨t, ht⟩
    cases ht with
    | call hf' hts hpasses =>
      cases hf.symm.trans hf'
      refine ⟨fun e he => ?_, _, hts, hpasses⟩
      obtain ⟨i, hi, rfl⟩ := List.mem_iff_getElem.1 he
      exact ⟨_, hts.get hi (hts.length_eq ▸ hi)⟩

/-- Calls, if their arguments are right. -/
theorem call_checks (hV : ExprVisits s visit) {f : String} (h : CallAt s lo root (f, es))
    (hc : Sees s Γ ρ lo (root + 1) c) :
    Checks c (node visit root) (∃ t, HasType Γ (.call f es) t) fun c' =>
      Restores lo (root + 1) c c' ∧ ∀ t, HasType Γ (.call f es) t →
        ∃ head, c'.store.kind? root = some (.call ⟨f, head, t.scalar?⟩) := by
  have hlo : lo ≤ root := callAt_local.le h
  obtain ⟨head, hes, hk⟩ := h
  have hsize : root < s.size := lt_size_of_kind? hk
  have hk' := hc.kind hk hlo (Nat.lt_succ_self _)
  refine node_checks hk' ?_
  refine .look (a := c.symbols.lookup f) rfl ?_
  cases hf : Γ.lookup f with
  | none =>
    rw [hc.scopes.lookup_none hf]
    refine .reject ?_
    rintro ⟨t, ht⟩
    cases ht with
    | call hf' _ _ => cases hf.symm.trans hf'
  | some m =>
    obtain ⟨symbol, hlookup, hdenotes, -⟩ := hc.scopes.lookup_some hf
    rw [hlookup]
    dsimp only
    by_cases hkind : symbol.kind = .function
    · obtain ⟨ps, result, rfl⟩ := hdenotes.isFunction_iff.1 hkind
      rw [if_pos hkind]
      refine .write ?_
      -- the type is written first, and no argument is at the root
      have hr1 : Restores root (root + 1) c
          { c with store := c.store.setCallType root symbol.scalar } :=
        .write (setCallType_alike _)
      have hk1 : (c.store.setCallType root symbol.scalar).kind? root =
          some (.call ⟨f, head, symbol.scalar⟩) := kind?_modifyKind_self hk'
      have hc1 := hc.restores hr1 .refl (Nat.le_succ _) (.inr (Nat.le_refl root))
      refine ((arguments_checks hV hes (Nat.le_of_lt hsize) hc1).andThen fun c2 hG h2 => ?_).mono
        (hasType_call hf) fun _ h => h
      obtain ⟨hr2, hids⟩ := h2
      have hr : Restores lo (root + 1) c c2 :=
        (hr1.mono hlo .refl).trans (hr2.mono .refl (Nat.le_succ _))
      refine (passing_checks rfl hdenotes (hc.alike.trans hr.touches.alike) (hc.scopes_restores hr)
        hG hids).mono Iff.rfl ?_
      rintro _ rfl
      refine ⟨hr, fun t ht => ?_⟩
      cases ht with
      | call hf' _ _ =>
        cases hf.symm.trans hf'
        rw [hr2.touches.kind root (.inr (Nat.le_refl _)), hk1, hdenotes.2.1]
        exact ⟨head, rfl⟩
    · rw [if_neg hkind]
      refine .reject ?_
      rintro ⟨t, ht⟩
      cases ht with
      | call hf' _ _ =>
        cases hf.symm.trans hf'
        exact hkind (hdenotes.isFunction_iff.2 ⟨_, _, rfl⟩)

end Check

/-- One level of nesting more is right, if the levels below are. -/
theorem ExprVisits.deeper {s : Store} {visit : NodeId → Check Nat} (hV : ExprVisits s visit) :
    ExprVisits s fun id => deeper (node visit id) where
  literal hk := .deeper (node_checks hk (.pass trivial (Restores.refl ..))) fun _ h => h.depth
  expression h hc := .deeper (expression_checks hV h hc.depth) fun _ h => ⟨h.1.depth, h.2⟩
  reference h hc := .deeper (reference_checks hV h hc.depth) fun _ h => ⟨h.1.depth, h.2⟩
  call h hc := .deeper (call_checks hV h hc.depth) fun _ h => ⟨h.1.depth, h.2⟩

end PLang
