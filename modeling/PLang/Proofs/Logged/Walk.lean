import PLang.Proofs.Logged.Schedule
import PLang.Proofs.Scoping.Steps

/-!
# Checks follow their schedules

One lemma for every check, and from them `obeys_visitUpTo`: the check of a node does what its
schedule allows, in that order, and, unless the nesting limit stops it, comes to all statements and
declarations in the node.
-/

namespace PLang.Logged

open Store

variable {s : Store} {f : Option NodeId} {n : Nat} {id : NodeId} {visit : NodeId → Logged Nat}

variable {e : ExpressionNode} {k : NodeKind}

/-! ### Expressions -/

theorem isStatic_operandCause (c : Checker) (operator : Operator) (left right : Option NodeId) :
    (c.operandCause operator left right).isStatic = false := by
  unfold Checker.operandCause
  split <;> rfl

theorem obeys_operatorResult (e : ExpressionNode) (meant : Operator) (type : Option ScalarType) :
    Obeys s f [.note (.result, id)] [] (fun _ => False) (operatorResult id e meant type) := by
  cases type with
  | some type => exact (Obeys.note (n := .result id (some type)) fun _ => trivial).plus
  | none =>
    exact .lookThat (fun c _ _ => isStatic_operandCause c meant e.left e.right) fun cause hcause =>
      .report hcause id

section

variable (hk : s.kind? id = some k) (hann : k.NotedAs (.expression e))

include hk hann

/-- An operator is rewritten only if it adds strings. -/
theorem concatenates_of_resolve_ne {t : Store}
    (hne : e.operator.resolve (e.left.bind t.resultType?)
      (e.right.bind t.resultType?) ≠ e.operator) :
    Concatenates s t id
      (e.operator.resolve (e.left.bind t.resultType?) (e.right.bind t.resultType?)) := by
  obtain ⟨hadd, hconcat⟩ := Operator.resolve_ne hne
  have hstrings : e.left.bind t.resultType? = some .string ∧
      e.right.bind t.resultType? = some .string := by
    unfold Operator.resolve at hne
    split at hne
    next h => exact h.2
    next => exact absurd rfl hne
  obtain ⟨left, hleft, hleftType⟩ := Option.bind_eq_some_iff.1 hstrings.1
  obtain ⟨right, hright, hrightType⟩ := Option.bind_eq_some_iff.1 hstrings.2
  refine ⟨hconcat, ?_⟩
  cases hann with
  | refl => exact ⟨e, left, right, hk, hadd, hleft, hright, hleftType, hrightType⟩
  | @expression o o' l r type type' ho =>
    have ho' : o = .add := by
      rcases ho with rfl | ⟨rfl, -⟩
      · exact hadd
      · rfl
    exact ⟨_, left, right, hk, ho', hleft, hright, hleftType, hrightType⟩

theorem obeys_operator :
    Obeys s f [.note (.operator, id), .note (.result, id)] [] (fun _ => False) (operator id e) := by
  intro c hs hf
  refine ObeysAt.look (ObeysAt.look ?_)
  dsimp only
  split
  next hne =>
    have hnote := ObeysAt.note (n := .operator id _) (concatenates_of_resolve_ne hk hann hne)
    exact ObeysAt.mono (hnote.bind hs (fun _ c1 hs1 hf1 =>
      obeys_operatorResult e _ _ c1 hs1 (hf1.trans hf)) (.inr rfl))
        (List.Sublist.refl _) fun _ => .inl
  next =>
    exact (obeys_operatorResult e _ _ c hs hf).mono (List.sublist_append_right [_] _) fun _ h => h

theorem obeys_resolved :
    Obeys s f [.note (.operator, id), .note (.result, id)] [] (fun _ => False) (resolved id e) := by
  refine .ite (fun _ => .look fun type => ?_) fun _ => obeys_operator hk hann
  have hnote := Obeys.note (s := s) (f := f) (n := .result id type) fun _ => trivial
  exact hnote.plus.mono (List.sublist_append_right [_] _) fun _ h => h

end

/-- The check of a node follows its schedule and comes to all statements and declarations in it. -/
def Scheduled (s : Store) (n : Nat) (visit : NodeId → Logged Nat) : Prop :=
  ∀ id f, Obeys s f (s.schedule n f id) [] (s.Inside (id, f)) (visit id)

section

variable (hvisit : Scheduled s n visit)

include hvisit

/-- A node that is not a statement. -/
theorem Scheduled.value (id : NodeId) :
    Obeys s f (s.schedule n f id) [] (fun _ => False) (visit id) :=
  (hvisit id f).mono (List.Sublist.refl _) fun _ h => h.elim

theorem Scheduled.rows (head : Option NodeId) : Obeys s f ((s.row head).flatMap (s.schedule n f)) []
    (fun site => ∃ id ∈ s.row head, s.Inside (id, f) site) (list visit .reportAll head) :=
  .list (fun id => hvisit id f) head

theorem obeys_operands (e : ExpressionNode) :
    Obeys s f ((e.left.toList ++ e.right.toList).flatMap (s.schedule n f)) [] (fun _ => False)
      (operands visit e) := by
  rw [List.flatMap_append]
  have hbind := (Obeys.optional (fun id => hvisit.value (f := f) id) e.left).bind fun left =>
    (Obeys.optional (fun id => hvisit.value (f := f) id) e.right).plus
      (h := fun right => left + right)
  exact hbind.mono (List.Sublist.refl _) fun _ h => h.elim

theorem obeys_expression (hk : s.kind? id = some k) (hann : k.NotedAs (.expression e)) :
    Obeys s f ((s.inside (.expression e)).flatMap (s.schedule n f) ++
      (NodeKind.expression e).closing id) [] (fun _ => False) (expression visit id e) :=
  (obeys_operands hvisit e).andThen (obeys_resolved hk hann)

theorem obeys_index (id : NodeId) :
    Obeys s f (s.schedule n f id) [] (fun _ => False) (index visit id) :=
  (hvisit.value id).andCompare (.look fun _ => .ite (fun _ => .pure 0) fun _ => .report rfl id)

theorem obeys_reference (r : ReferenceNode) :
    Obeys s f ((s.row r.indices).flatMap (s.schedule n f) ++ [.note (.reference, id)]) []
      (fun _ => False) (reference visit id r) := by
  have hsubscripted : ∀ symbol, Obeys s f [.note (.reference, id)] [] (fun _ => False)
      (subscripted id r symbol) := fun symbol =>
    .look fun declared => .look fun used => .ite (fun _ => .report rfl id) fun _ =>
      (Obeys.note (n := .reference id _) fun _ => trivial).plus
  refine .look fun symbol => ?_
  cases symbol with
  | none => exact .report rfl id
  | some symbol =>
    refine .ite (fun _ => ?_) fun _ => .report rfl id
    have hindices := Obeys.list (f := f) (obeys_index hvisit) r.indices
    exact (hindices.andThen (hsubscripted symbol)).mono (List.Sublist.refl _) fun _ h => h.elim

omit hvisit in
theorem obeys_passed (pairs : List (NodeId × NodeId)) :
    Obeys s f [] [] (fun _ => False) (passed pairs) := by
  induction pairs with
  | nil => exact .pure 0
  | cons pair pairs ih =>
    refine .look fun type => ?_
    cases type with
    | none => exact ih
    | some type =>
      exact .look fun passes => .ite (fun _ => ih) fun _ => .look fun name => .report rfl pair.1

theorem obeys_call (node : CallNode) :
    Obeys s f ([.note (.call, id)] ++ (s.row node.arguments).flatMap (s.schedule n f)) []
      (fun _ => False) (call visit id node) := by
  refine .look fun symbol => ?_
  cases symbol with
  | none => exact .report rfl id
  | some symbol =>
    refine .ite (fun _ => ?_) fun _ => .report rfl id
    have hnote := Obeys.note (s := s) (f := f) (n := .call id symbol.scalar) fun _ => trivial
    have hpassing : Obeys s f [] [] (fun _ => False) (passing id node symbol) :=
      .look fun arguments => .look fun parameters =>
        .ite (fun _ => obeys_passed _) fun _ => .report rfl id
    have harguments :=
      (Obeys.listToFirst (f := f) (fun id => hvisit id f) node.arguments).andCompare hpassing
    exact (hnote.bind fun _ => harguments).mono (List.Sublist.refl _) fun _ h => h.elim

/-! ### Declarations and statements -/

omit hvisit in
theorem obeys_declareName (d : DeclarationNode) (type : TypeNode) (detail : String)
    (id : NodeId) : Obeys s f [] [] (fun _ => False) (declareName d type detail id) :=
  .look fun _ => .look fun _ => .ite (fun _ => .report rfl id) fun _ => Obeys.silent.plus

omit hvisit in
theorem obeys_positive (d : DeclarationNode) :
    Obeys s f [] (s.faultOf? id f (.declaration d)).toList (fun _ => False) (positive d) := by
  refine .lookIn (fun t ht => by rw [ht.alike.dimensions_eq]) (.ite (fun h => ?_) fun h => ?_)
  · refine .lookIn (fun t ht => by rw [ht.alike.name?_eq]) ?_
    rw [faultOf?, if_pos h]
    exact .reportStatic rfl d.names
  · rw [faultOf?, if_neg h]
    exact .pure 0

omit hvisit in
theorem obeys_declaration (d : DeclarationNode) :
    Obeys s f [] (s.faultOf? id f (.declaration d)).toList (fun _ => False) (declaration d) := by
  refine .lookIn (fun t ht => ht.alike.type?_eq d.type) ?_
  cases htype : s.type? d.type with
  | none =>
    have hnone : s.faultOf? id f (.declaration d) = none := by
      simp [Store.faultOf?, Store.dimensions, htype, Store.numbers]
    rw [hnone]
    exact .pure 0
  | some type =>
    refine .look fun detail => ?_
    have hnames := Obeys.list (s := s) (f := f) (obeys_declareName d type detail) (some d.names)
    have hkeys : (s.row (some d.names)).flatMap (fun _ => ([] : List Key)) = [] := by simp
    rw [hkeys] at hnames
    exact .afterSilence hnames fun _ => (obeys_positive d).plus

/-- Three lists of parts, one after another. -/
theorem obeys_program (p : ProgramNode) :
    Obeys s f ((s.inside (.program p)).flatMap (s.schedule n f)) []
      (fun site => ∃ child ∈ s.obliged (.program p), s.Inside (child, f) site)
      (program visit id p) := by
  refine .inScope (.afterSilence .silent fun _ => ?_)
  have hbind := (hvisit.rows p.declarations).bind fun declarations =>
    (hvisit.rows p.functions).bind fun functions =>
      (hvisit p.body f).plus (h := fun body => declarations + functions + body)
  refine hbind.mono ?_ fun site hsite => ?_
  · simp [inside]
  · simpa [obliged, or_and_right, exists_or] using hsite

theorem obeys_compound (b : CompoundNode) :
    Obeys s f ((s.inside (.compound b)).flatMap (s.schedule n f)) []
      (fun site => ∃ child ∈ s.obliged (.compound b), s.Inside (child, f) site)
      (compound visit b) := by
  have hbind := (hvisit.rows (f := f) b.declarations).bind fun declarations =>
    (hvisit.rows b.statements).plus (h := fun statements => declarations + statements)
  refine .inScope (hbind.mono ?_ fun site hsite => ?_)
  · simp [inside]
  · simpa [obliged, or_and_right, exists_or] using hsite

theorem obeys_print (value : NodeId) :
    Obeys s f ((s.inside (.print value)).flatMap (s.schedule n f)) [] (fun _ => False)
      (print visit value) := by
  rw [inside, List.flatMap_singleton]
  refine (hvisit.value value).andCompare (.look fun type => ?_)
  cases type with
  | none => exact .report rfl value
  | some type =>
    cases type with
    | void => exact .report rfl value
    | _ => exact .pure 0

omit hvisit in
theorem isStatic_of_protection? {name : String} {kind : SymbolKind} {cause : Cause}
    (h : Check.protection? name kind = some cause) : cause.isStatic = false := by
  cases kind with
  | constant | loopVar =>
    cases h
    rfl
  | _ => cases h

omit hvisit in
theorem obeys_assignable (value : NodeId) (target : ScalarType) :
    Obeys s f [] [] (fun _ => False) (assignable id value target) := by
  refine .look fun type => ?_
  cases type with
  | none => exact .report rfl value
  | some type => exact .ite (fun _ => .pure 0) fun _ => .report rfl id

theorem obeys_assigned (target value : NodeId) :
    Obeys s f (s.schedule n f value) [] (fun _ => False) (assigned visit id target value) := by
  refine .look fun reference => ?_
  cases reference with
  | none => exact .pure 0
  | some reference =>
    obtain ⟨name, indices, type⟩ := reference
    cases type with
    | none => exact .report rfl target
    | some type =>
      refine .look fun symbol => ?_
      dsimp only
      cases hcause : symbol.bind fun symbol => Check.protection? name symbol.kind with
      | some cause =>
        obtain ⟨_, -, hprotected⟩ := Option.bind_eq_some_iff.1 hcause
        exact .report (isStatic_of_protection? hprotected) target
      | none => exact (hvisit.value value).andCompare (obeys_assignable value type)

theorem obeys_assign (target value : NodeId) :
    Obeys s f ((s.inside (.assign target value)).flatMap (s.schedule n f)) [] (fun _ => False)
      (assign visit id target value) := by
  refine ((hvisit.value target).andThen (obeys_assigned hvisit target value)).mono ?_ fun _ h => h
  simp [inside]

theorem obeys_read (target : NodeId) :
    Obeys s f ((s.inside (.read target)).flatMap (s.schedule n f)) [] (fun _ => False)
      (read visit target) := by
  rw [inside, List.flatMap_singleton]
  refine (hvisit.value target).andCompare (.look fun reference => ?_)
  cases reference with
  | none => exact .pure 0
  | some reference =>
    refine .ite (fun _ => .report rfl target) fun _ => .look fun symbol => ?_
    exact .ite (fun _ => .report rfl target) fun _ => .pure 0

theorem obeys_guard (id : NodeId) :
    Obeys s f (s.schedule n f id) [] (fun _ => False) (guard visit id) :=
  (hvisit.value id).andCompare (.look fun _ => .ite (fun _ => .pure 0) fun _ => .report rfl id)

theorem obeys_condition (node : ConditionNode) :
    Obeys s f ((s.inside (.condition node)).flatMap (s.schedule n f)) []
      (fun site => ∃ child ∈ s.obliged (.condition node), s.Inside (child, f) site)
      (condition visit node) := by
  have hbind := (obeys_guard hvisit (f := f) node.guard).bind fun inGuard =>
    (hvisit node.thenBody f).bind fun inThen =>
      (Obeys.optional (fun id => hvisit id f) node.elseBody).plus
        (h := fun inElse => inGuard + inThen + inElse)
  refine hbind.mono ?_ fun site hsite => ?_
  · simp [Store.inside]
  · simpa [Store.obliged] using hsite

theorem obeys_whileLoop (guardNode body : NodeId) :
    Obeys s f ((s.inside (.whileLoop guardNode body)).flatMap (s.schedule n f)) []
      (fun site => ∃ child ∈ s.obliged (.whileLoop guardNode body), s.Inside (child, f) site)
      (whileLoop visit guardNode body) := by
  have hbind := (obeys_guard hvisit (f := f) guardNode).bind fun inGuard =>
    (hvisit body f).plus (h := fun inBody => inGuard + inBody)
  refine hbind.mono ?_ fun site hsite => ?_
  · simp [inside]
  · simpa [obliged] using hsite

theorem obeys_forLoop (loop : ForNode) :
    Obeys s f ((s.inside (.forLoop loop)).flatMap (s.schedule n f))
      (s.faultOf? id f (.forLoop loop)).toList
      (fun site => ∃ child ∈ s.obliged (.forLoop loop), s.Inside (child, f) site)
      (forLoop visit id loop) := by
  have hrest : ∀ bounds : Nat, Obeys s f ((s.inside (.forLoop loop)).flatMap (s.schedule n f)) []
      (fun site => ∃ child ∈ s.obliged (.forLoop loop), s.Inside (child, f) site) (do
        let declaration ← visit loop.declaration
        let body ← visit loop.body
        pure (bounds + declaration + body)) := by
    intro bounds
    have hbind := (hvisit loop.declaration f).bind fun declaration =>
      (hvisit loop.body f).plus (h := fun body => bounds + declaration + body)
    refine hbind.mono ?_ fun site hsite => ?_
    · simp [inside]
    · simpa [obliged] using hsite
  refine .inScope (.ite (fun h => ?_) fun h => ?_)
  · rw [faultOf?, if_pos h]
    exact ((Obeys.reportStatic rfl id).bind hrest).mono (List.Sublist.refl _) fun _ => .inr
  · rw [faultOf?, if_neg h]
    exact .afterSilence (.pure 0) hrest

theorem obeys_returnValue (value : Option NodeId) :
    Obeys s f (value.toList.flatMap (s.schedule n f)) (s.faultOf? id f (.returnValue value)).toList
      (fun _ => False) (returnValue visit id value) := by
  refine .lookThat (P := fun function => function = f.bind s.function?) ?_
    fun function hfunction => ?_
  · intro c hs hf
    rw [hf]
    exact congrArg f.bind (funext hs.alike.function?_eq)
  · have hfault : ∀ cause, cause.isStatic = true → Obeys s f (value.toList.flatMap (s.schedule n f))
        [(cause, id)] (fun _ => False) (report cause id) := fun cause hcause =>
      (Obeys.reportStatic hcause id).mono (List.nil_sublist _) fun _ h => h
    rw [faultOf?, ← hfunction]
    cases function with
    | none => exact hfault _ rfl
    | some function =>
      have hreturnable : ∀ value expected, Obeys s f [] [] (fun _ => False)
          (returnable value expected) := fun value expected =>
        .look fun _ => .ite (fun _ => .pure 0) fun _ => .look fun _ => .report rfl value
      dsimp only [FunctionNode.returnFault?]
      cases value with
      | none =>
        cases function.result with
        | void => exact .pure 0
        | _ => exact hfault _ rfl
      | some value =>
        rw [Option.toList_some, List.flatMap_singleton] at hfault ⊢
        cases function.result with
        | void => exact hfault _ rfl
        | _ => exact (hvisit.value value).andCompare (hreturnable value _)

theorem obeys_function (node : FunctionNode) :
    Obeys s f ((s.inside (.function node)).flatMap (s.schedule n (some id))) []
      (fun site => ∃ child ∈ s.obliged (.function node), s.Inside (child, some id) site)
      (function visit id node) := by
  have hheader : Obeys s f [] [] (fun _ => False) (declareFunction id node) :=
    .look fun _ => .ite (fun _ => .report rfl id) fun _ => Obeys.silent.plus
  refine .afterSilence hheader fun header => ?_
  cases hbody : node.body with
  | none => exact (Obeys.pure header).mono (List.Sublist.refl _) (by simp [Store.obliged, hbody])
  | some body =>
    have hbind := (hvisit.rows (f := some id) node.parameters).bind fun parameters =>
      (hvisit.rows (some body)).plus (h := fun statements => parameters + statements)
    refine (Obeys.within (.inScope hbind)).plus.mono ?_ fun site hsite => ?_
    · simp [Store.inside, hbody]
    · simpa [Store.obliged, hbody, or_and_right, exists_or] using hsite

/-! ### Nodes -/

theorem obeys_kind {k' : NodeKind} (hk : s.kind? id = some k) (hann : k.NotedAs k') :
    Obeys s f (k.opening id ++ (s.inside k).flatMap (s.schedule n (k.around id f)) ++ k.closing id)
      (s.faultOf? id f k).toList
      (fun site => ∃ child ∈ s.obliged k, s.Inside (child, k.around id f) site)
      (kind visit id k') := by
  have hvalue : ∀ {x : Logged Nat} {keys own}, s.obliged k = [] →
      Obeys s f keys own (fun _ => False) x → Obeys s f keys own
        (fun site => ∃ child ∈ s.obliged k, s.Inside (child, k.around id f) site) x :=
    fun hnone hx => hx.mono (List.Sublist.refl _) (by simp [hnone])
  have hopen : ∀ {x : Logged Nat} {keys own sites}, k.closing id = [] → Obeys s f keys own sites x →
      Obeys s f (keys ++ k.closing id) own sites x :=
    fun hnone hx => hx.mono (by simp [hnone]) fun _ h => h
  cases k with
  | expression e =>
    cases hann with
    | refl => exact hvalue rfl (obeys_expression hvisit hk (.refl _))
    | expression ho => exact hvalue rfl (obeys_expression hvisit hk (.expression ho))
  | reference r =>
    cases hann with
    | refl | reference => exact hvalue rfl (obeys_reference hvisit _)
  | call node =>
    cases hann with
    | refl | call => exact hvalue rfl (hopen rfl (obeys_call hvisit _))
  | program p =>
    cases hann
    exact hopen rfl (obeys_program hvisit p)
  | declaration d =>
    cases hann
    exact hvalue rfl (obeys_declaration d)
  | compound b =>
    cases hann
    exact hopen rfl (obeys_compound hvisit b)
  | print value =>
    cases hann
    exact hvalue rfl (hopen rfl (obeys_print hvisit value))
  | assign target value =>
    cases hann
    exact hvalue rfl (hopen rfl (obeys_assign hvisit target value))
  | read target =>
    cases hann
    exact hvalue rfl (hopen rfl (obeys_read hvisit target))
  | condition node =>
    cases hann
    exact hopen rfl (obeys_condition hvisit node)
  | whileLoop guardNode body =>
    cases hann
    exact hopen rfl (obeys_whileLoop hvisit guardNode body)
  | returnValue value =>
    cases hann
    exact hvalue rfl (hopen rfl (obeys_returnValue hvisit value))
  | forLoop loop =>
    cases hann
    exact hopen rfl (obeys_forLoop hvisit loop)
  | function node =>
    cases hann
    exact hopen rfl (obeys_function hvisit node)
  | literal | type | name | number | epsilon =>
    cases hann
    exact hvalue rfl (.pure 0)

theorem obeys_node (id : NodeId) :
    Obeys s f (((s.kind? id).map fun k =>
        k.opening id ++ (s.inside k).flatMap (s.schedule n (k.around id f)) ++
          k.closing id).getD [])
      (s.fault? (id, f)).toList
      (fun site => ∃ k, s.kind? id = some k ∧ ∃ child ∈ s.obliged k,
        s.Inside (child, k.around id f) site) (node visit id) := by
  intro c hs hf
  refine ObeysAt.look ?_
  dsimp only
  rw [fault?]
  cases hk : s.kind? id with
  | none =>
    rw [hs.kind?_none hk]
    exact (Obeys.pure 0 c hs hf).mono (List.Sublist.refl _) (by simp)
  | some k =>
    obtain ⟨k', hk', hann⟩ := hs.kind id k hk
    rw [hk']
    exact (obeys_kind hvisit hk hann c hs hf).mono (List.Sublist.refl _) (by simp)

end

/-- The check of a node follows its schedule. -/
theorem obeys_visitUpTo (s : Store) (n : Nat) : Scheduled s n (visitUpTo n) := by
  induction n with
  | zero =>
    intro id f c hs hf
    refine ⟨trivial, List.nil_sublist _, fun m c' hok => ?_⟩
    have hrun : Check.overstep id c = .ok m c' := hok
    cases hrun
  | succ n ih =>
    intro id f
    refine ((obeys_node ih id).deeper.enter).mono (List.Sublist.refl _) fun site hsite => ?_
    cases hsite with
    | self => exact .inl rfl
    | part hk hchild hinside => exact .inr ⟨_, hk, _, hchild, hinside⟩

end PLang.Logged
