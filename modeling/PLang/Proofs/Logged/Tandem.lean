import PLang.Proofs.Logged.Basic
import PLang.Proofs.Renaming.Names

/-!
# Two checks in tandem

Two checks can go the same way in trees that differ: in names, in links, or in the levels of nesting
that are allowed. A tandem says which states are related and in which relation two actions stand.
The relation goes through the steps that checks are made of; it then goes through the check of every
kind of node (`Tandem.kind`), and what remains for each tandem is the recursion.
-/

namespace PLang

open List Option

/-- What the checks of expressions report does not end them. -/
theorem Checker.isFatal_operandCause (c : Checker) (operator : Operator)
    (left right : Option NodeId) :
    (c.operandCause operator left right).isFatal = false := by
  unfold operandCause
  split <;> rfl

theorem NodeKind.rename_self (k : NodeKind) : (k.rename fun name => name) = k := by
  cases k <;> rfl

theorem Cause.rename_self (cause : Cause) : (cause.rename fun name => name) = cause := by
  cases cause <;> rfl

/-! ### What is read -/

/-- The same is read off two states, but for names: the types of some nodes, and the links of some
lists. -/
structure Views (ρ : String → String) (Known : NodeId → Prop) (Linked : Option NodeId → Prop)
    (c c' : Checker) : Prop where
  lookup : ∀ name, c'.symbols.lookup (ρ name) = (c.symbols.lookup name).map (Symbol.rename ρ)
  level? : c'.symbols.level? = c.symbols.level?
  inside : c'.function = c.function
  function? : ∀ id, c'.store.function? id = (c.store.function? id).map (FunctionNode.rename ρ)
  type? : c'.store.type? = c.store.type?
  literal? : c'.store.literal? = c.store.literal?
  dimensions : c'.store.dimensions = c.store.dimensions
  resultType? : ∀ id, Known id → c'.store.resultType? id = c.store.resultType? id
  reference? : ∀ id, Known id →
    c'.store.reference? id = (c.store.reference? id).map (ReferenceNode.rename ρ)
  call? : ∀ id, Known id → c'.store.call? id = (c.store.call? id).map (CallNode.rename ρ)
  wrapped : ∀ id, Known id →
    c'.wrappedReference? id = (c.wrappedReference? id).map (ReferenceNode.rename ρ)
  siblings : ∀ head, Linked head → c'.store.siblings head = c.store.siblings head
  indices : ∀ id r, Known id → c.wrappedReference? id = some r → Linked r.indices
  parameterTypes : ∀ id f, c.store.function? id = some f → Linked f.parameterTypes

namespace Views

variable {ρ : String → String} {Known : NodeId → Prop} {Linked : Option NodeId → Prop}
  {c c' : Checker} {id : NodeId} {operand left right : Option NodeId}

/-- Everything is read alike off one state. -/
theorem refl (c : Checker) : Views (fun name => name) (fun _ => True) (fun _ => True) c c where
  lookup _ := map_id_apply.symm
  level? := rfl
  inside := rfl
  function? _ := map_id_apply.symm
  type? := rfl
  literal? := rfl
  dimensions := rfl
  resultType? _ _ := rfl
  reference? _ _ := map_id_apply.symm
  call? _ _ := map_id_apply.symm
  wrapped _ _ := map_id_apply.symm
  siblings _ _ := rfl
  indices _ _ _ _ := trivial
  parameterTypes _ _ _ := trivial

variable (h : Views ρ Known Linked c c')

include h

theorem operandType (ho : ∀ id, operand = some id → Known id) :
    operand.bind c'.store.resultType? = operand.bind c.store.resultType? := by
  cases operand with
  | none => rfl
  | some id => exact h.resultType? id (ho id rfl)

theorem wrappedType (operator : Operator) (ho : ∀ id, operand = some id → Known id) :
    Check.wrappedType operator operand c'.store = Check.wrappedType operator operand c.store := by
  cases operand with
  | none => rfl
  | some id =>
    have hid := ho id rfl
    unfold Check.wrappedType
    simp only [bind_some, h.literal?, h.reference? id hid, h.call? id hid]
    split
    · rfl
    · cases c.store.reference? id <;> rfl
    · cases c.store.call? id <;> rfl
    · rfl

theorem typeName (hid : Known id) : c'.typeName id = c.typeName id := by
  rw [Checker.typeName, Checker.typeName, h.resultType? id hid, h.wrapped id hid]
  cases c.store.resultType? id with
  | some type => rfl
  | none =>
    cases c.wrappedReference? id with
    | none => rfl
    | some r =>
      have hlookup : c'.symbols.lookup (r.rename ρ).name = _ := h.lookup r.name
      dsimp only
      rw [Option.map_some, Option.bind_some, Option.bind_some, hlookup]
      cases c.symbols.lookup r.name <;> rfl

theorem typeName? (ho : ∀ id, operand = some id → Known id) :
    c'.typeName? operand = c.typeName? operand := by
  cases operand with
  | none => rfl
  | some id => exact h.typeName (ho id rfl)

theorem operandCause (operator : Operator) (hl : ∀ id, left = some id → Known id)
    (hr : ∀ id, right = some id → Known id) :
    c'.operandCause operator left right = (c.operandCause operator left right).rename ρ := by
  unfold Checker.operandCause
  rw [h.typeName? hl, h.typeName? hr]
  split <;> rfl

theorem arrayText? (hid : Known id) : c'.arrayText? id = c.arrayText? id := by
  unfold Checker.arrayText?
  rw [h.wrapped id hid]
  cases hr : c.wrappedReference? id with
  | none => rfl
  | some r =>
    have hlookup : c'.symbols.lookup (r.rename ρ).name = _ := h.lookup r.name
    have hlength : c'.store.listLength r.indices = c.store.listLength r.indices :=
      congrArg length (h.siblings _ (h.indices id r hid hr))
    rw [map_some, bind_eq_bind, bind_eq_bind, bind_some,
      bind_some, hlookup]
    cases c.symbols.lookup r.name with
    | none => rfl
    | some symbol =>
      show (symbol.scalar.bind fun scalar =>
        let left := (c'.store.dimensions symbol.node).drop (c'.store.listLength r.indices)
        if left.isEmpty then none else some (arrayTypeText scalar left)) = _
      rw [h.dimensions, hlength]
      rfl

theorem passes (hid : Known id) (parameter : TypeNode) :
    c'.passes id parameter = c.passes id parameter := by
  unfold Checker.passes
  rw [h.arrayText? hid, h.resultType? id hid]

theorem argumentName (hid : Known id) : c'.argumentName id = c.argumentName id := by
  unfold Checker.argumentName
  rw [h.arrayText? hid, h.typeName hid, h.resultType? id hid]

theorem clashes (name : String) : Check.clashes c' (ρ name) = Check.clashes c name := by
  rw [Check.clashes, Check.clashes, h.lookup, h.level?]
  cases c.symbols.lookup name <;> rfl

/-- The function around. -/
theorem around : c'.function.bind c'.store.function? =
    (c.function.bind c.store.function?).map (FunctionNode.rename ρ) := by
  rw [h.inside]
  cases c.function with
  | none => rfl
  | some id => exact h.function? id

theorem parameters (node : NodeId) :
    c'.store.siblings ((c'.store.function? node).bind FunctionNode.parameterTypes) =
      c.store.siblings ((c.store.function? node).bind FunctionNode.parameterTypes) := by
  rw [h.function?]
  cases hf : c.store.function? node with
  | none => rw [map_none, bind_none, Store.siblings_none, Store.siblings_none]
  | some f => exact h.siblings _ (h.parameterTypes node f hf)

end Views

/-! ### Tandems -/

/-- The notes that the check of a node can make. -/
def Note.Suits (id : NodeId) (k : NodeKind) : Note → Prop
  | result place _ | reference place _ | call place _ => place = id
  | operator place meant =>
    place = id ∧ meant = .concat ∧ ∃ e, k = .expression e ∧ e.operator = .add

/-- A relation between actions that goes through all steps of checks. -/
structure Tandem where
  /-- The second check finds the names of the first one renamed. -/
  rename : String → String
  /-- The two checks have come equally far. -/
  Abreast : Checker → Checker → Prop
  /-- The nodes whose types both checks know. -/
  Known : NodeId → Prop
  /-- The lists that are linked alike. -/
  Linked : Option NodeId → Prop
  /-- The nodes that both checks find in a list. -/
  Member : Option NodeId → NodeId → Prop
  /-- The nodes that can be checked, with what they hold. -/
  Site : NodeId → NodeKind → Prop
  /-- Two actions go in tandem, and may declare names for the construct around them. -/
  Rel : Bool → Logged Nat → Logged Nat → Prop
  views : ∀ {c c'}, Abreast c c' → Views rename Known Linked c c'
  size : ∀ {c c'}, Abreast c c' → c'.store.size = c.store.size
  next : ∀ {c c' head id}, Abreast c c' → Linked head → Member head id →
    c'.store.next? id = c.store.next? id ∧ ∀ other, c.store.next? id = some other →
      Member head other
  self : ∀ {id}, Linked (some id) → Member (some id) id
  name : ∀ {c c' id d child}, Abreast c c' → Site id (.declaration d) →
    Member (some d.names) child →
    (c'.store.name? child).getD "" = rename ((c.store.name? child).getD "")
  zero : ∀ {b}, Rel b (pure 0) (pure 0)
  report : ∀ {b cause} id, cause.isFatal = false →
    Rel b (Logged.report cause id) (Logged.report (cause.rename rename) id)
  look : ∀ {b} {α : Type} {g g' : Checker → α} {f f' : α → Logged Nat},
    (∀ c c', Abreast c c' → Rel b (f (g c)) (f' (g' c'))) →
    Rel b (Logged.view g >>= f) (Logged.view g' >>= f')
  note : ∀ {b id k n x x'}, Site id k → n.Suits id k → Rel b x x' →
    Rel b (Logged.note n >>= fun _ => x) (Logged.note n >>= fun _ => x')
  declare : ∀ {x x'} name kind scalar typeText detail node, Rel true x x' →
    Rel true (Logged.declare name kind scalar typeText detail node >>= fun _ => x)
      (Logged.declare (rename name) kind scalar typeText detail node >>= fun _ => x')
  /-- The second one of two checks may hang on what the first one has found. -/
  add : ∀ {b x x'} {y y' : Nat → Logged Nat}, Rel b x x' → (∀ m, Rel b (y m) (y' m)) →
    Rel b (do let m ← x; let n ← y m; pure (m + n)) (do let m ← x'; let n ← y' m; pure (m + n))
  inScope : ∀ {b x x'}, Rel true x x' → Rel b (Logged.inScope x) (Logged.inScope x')
  within : ∀ {b x x'} id, Rel b x x' → Rel b (Logged.within id x) (Logged.within id x')

namespace Tandem

open Logged

variable (T : Tandem) {α : Type} {b : Bool} {id : NodeId} {visit visit' : NodeId → Logged Nat}
  {c c' : Checker} {head first : Option NodeId} {policy : ListPolicy} {x x' y y' z z' : Logged Nat}

variable {f f' : α → Logged Nat} {g' : Checker → α}

/-- The second check reads what the first one reads, renamed. -/
theorem renamed {g : Checker → α} {φ : α → α}
    (hg : ∀ c c', T.Abreast c c' → g' c' = φ (g c)) (hf : ∀ a, T.Rel b (f a) (f' (φ a))) :
    T.Rel b (view g >>= f) (view g' >>= f') := by
  refine T.look fun c c' hc => ?_
  rw [hg c c' hc]
  exact hf _

/-- Both checks read the same. -/
theorem same {g : Checker → α}
    (hg : ∀ c c', T.Abreast c c' → g' c' = g c) (hf : ∀ a, T.Rel b (f a) (f' a)) :
    T.Rel b (view g >>= f) (view g' >>= f') :=
  T.renamed (φ := fun a => a) hg hf

theorem lookup {name : String} {f f' : Option Symbol → Logged Nat}
    (hnone : T.Rel b (f none) (f' none))
    (hsome : ∀ symbol, T.Rel b (f (some symbol)) (f' (some (symbol.rename T.rename)))) :
    T.Rel b (lookup name >>= f) (Logged.lookup (T.rename name) >>= f') := by
  refine T.renamed (fun _ _ hc => (T.views hc).lookup name) fun symbol => ?_
  cases symbol with
  | none => exact hnone
  | some symbol => exact hsome symbol

/-- What both checks read of a known node. -/
theorem resultType {f f' : Option ScalarType → Logged Nat} (hid : T.Known id)
    (hf : ∀ type, T.Rel b (f type) (f' type)) :
    T.Rel b (inStore (fun s => s.resultType? id) >>= f)
      (inStore (fun s => s.resultType? id) >>= f') :=
  T.same (fun _ _ hc => (T.views hc).resultType? id hid) hf

theorem ite {p : Prop} [Decidable p] (hx : T.Rel b x x') (hy : T.Rel b y y') :
    T.Rel b (if p then x else y) (if p then x' else y') := by
  split
  · exact hx
  · exact hy

theorem andThen (hx : T.Rel b x x') (hy : T.Rel b y y') :
    T.Rel b (andThen x y) (Logged.andThen x' y') := by
  rw [Logged.andThen, Logged.andThen, Check.andThen_eq_add, Check.andThen_eq_add]
  exact T.add hx fun m => T.ite hy T.zero

theorem add₃ (hx : T.Rel b x x') (hy : T.Rel b y y') (hz : T.Rel b z z') :
    T.Rel b (do let k ← x; let m ← y; let n ← z; pure (k + m + n))
      (do let k ← x'; let m ← y'; let n ← z'; pure (k + m + n)) := by
  rw [Check.add₃_eq, Check.add₃_eq]
  exact T.add (T.add hx fun _ => hy) fun _ => hz

/-! ### Lists -/

theorem member (hc : T.Abreast c c') (h : T.Linked head)
    (hfirst : ∀ id, first = some id → T.Member head id) {n : Nat}
    (hid : id ∈ c.store.chain n first) :
    T.Member head id := by
  induction n generalizing first with
  | zero => cases hid
  | succ n ih =>
    cases first with
    | none => cases hid
    | some other =>
      rw [Store.chain] at hid
      rcases List.mem_cons.1 hid with rfl | hid
      · exact hfirst id rfl
      · exact ih (T.next hc h (hfirst other rfl)).2 hid

theorem listUpTo (h : T.Linked head) (hfirst : ∀ id, first = some id → T.Member head id)
    (hV : ∀ child, T.Member head child → T.Rel b (visit child) (visit' child)) (n : Nat) :
    T.Rel b (listUpTo visit policy n first) (Logged.listUpTo visit' policy n first) := by
  induction n generalizing first with
  | zero => exact T.zero
  | succ n ih =>
    cases first with
    | none => exact T.zero
    | some id =>
      rw [Logged.listUpTo_succ, Logged.listUpTo_succ]
      refine T.add (hV id (hfirst id rfl)) fun m => T.ite T.zero (T.look fun c c' hc => ?_)
      obtain ⟨hnext, hmember⟩ := T.next hc h (hfirst id rfl)
      dsimp only
      rw [hnext]
      exact ih hmember

theorem selfMember (h : T.Linked head) : ∀ id, head = some id → T.Member head id := by
  rintro id rfl
  exact T.self h

theorem list (policy : ListPolicy) (h : T.Linked head)
    (hV : ∀ child, T.Member head child → T.Rel b (visit child) (visit' child)) :
    T.Rel b (list visit policy head) (Logged.list visit' policy head) := by
  refine T.look fun c c' hc => ?_
  rw [T.size hc]
  exact T.listUpTo h (T.selfMember h) hV _

/-- Both checks read the nodes of a list. -/
theorem members {f f' : List NodeId → Logged Nat} (h : T.Linked head)
    (hf : ∀ ids, (∀ id ∈ ids, T.Member head id) → T.Rel b (f ids) (f' ids)) :
    T.Rel b (inStore (fun s => s.siblings head) >>= f)
      (inStore (fun s => s.siblings head) >>= f') := by
  refine T.look fun c c' hc => ?_
  dsimp only
  rw [(T.views hc).siblings head h]
  exact hf _ fun id => T.member hc h (T.selfMember h)

/-- Both checks know the nodes of a list and check them in tandem. -/
def Covers (b : Bool) (visit visit' : NodeId → Logged Nat) (head : Option NodeId) : Prop :=
  T.Linked head ∧ ∀ child, T.Member head child → T.Known child ∧
    T.Rel b (visit child) (visit' child)

namespace Covers

variable {T}

theorem known (h : T.Covers b visit visit' (some id)) : T.Known id := (h.2 id (T.self h.1)).1

theorem one (h : T.Covers b visit visit' (some id)) : T.Rel b (visit id) (visit' id) :=
  (h.2 id (T.self h.1)).2

theorem each (h : T.Covers b visit visit' head) : ∀ id, head = some id → T.Known id := by
  rintro id rfl
  exact h.known

theorem optional (h : T.Covers b visit visit' head) :
    T.Rel b (optional visit head) (Logged.optional visit' head) := by
  cases head with
  | none => exact T.zero
  | some id => exact h.one

theorem list (h : T.Covers b visit visit' head) (policy : ListPolicy) :
    T.Rel b (Logged.list visit policy head) (Logged.list visit' policy head) :=
  T.list policy h.1 fun child hchild => (h.2 child hchild).2

end Covers

/-! ### Expressions -/

section

variable {e : ExpressionNode}

section

variable (hsite : T.Site id (.expression e)) (hl : ∀ id, e.left = some id → T.Known id)
  (hr : ∀ id, e.right = some id → T.Known id)

include hsite hl hr

theorem operatorResult (meant : Operator) (type : Option ScalarType) :
    T.Rel b (operatorResult id e meant type) (operatorResult id e meant type) := by
  cases type with
  | some type => exact T.note hsite rfl T.zero
  | none =>
    refine T.look fun c c' hc => ?_
    rw [(T.views hc).operandCause meant hl hr]
    exact T.report id (c.isFatal_operandCause ..)

theorem operator : T.Rel b (operator id e) (operator id e) := by
  refine T.same (fun _ _ hc => (T.views hc).operandType hl) fun left => ?_
  refine T.same (fun _ _ hc => (T.views hc).operandType hr) fun right => ?_
  have hresult := T.operatorResult (b := b) hsite hl hr (e.operator.resolve left right)
    ((e.operator.resolve left right).result? left right)
  dsimp only
  by_cases hmeant : e.operator.resolve left right ≠ e.operator
  · rw [if_pos hmeant]
    obtain ⟨hadd, hconcat⟩ := Operator.resolve_ne hmeant
    exact T.note hsite ⟨rfl, hconcat, e, rfl, hadd⟩ hresult
  · rw [if_neg hmeant]
    exact hresult

end

theorem expression (hsite : T.Site id (.expression e)) (hl : T.Covers b visit visit' e.left)
    (hr : T.Covers b visit visit' e.right) :
    T.Rel b (expression visit id e) (expression visit' id e) := by
  refine T.andThen (T.add hl.optional fun _ => hr.optional)
    (T.ite ?_ (T.operator hsite hl.each hr.each))
  exact T.same (fun _ _ hc => (T.views hc).wrappedType e.operator hl.each) fun type =>
    T.note hsite rfl T.zero

end

theorem reference {r : ReferenceNode} (hsite : T.Site id (.reference r))
    (h : T.Covers b visit visit' r.indices) :
    T.Rel b (reference visit id r) (reference visit' id (r.rename T.rename)) := by
  refine T.lookup (T.report id rfl) fun symbol => T.ite (T.andThen ?_ ?_) (T.report id rfl)
  · refine T.list _ h.1 fun child hchild => T.andThen (h.2 child hchild).2 ?_
    exact T.resultType (h.2 child hchild).1 fun type => T.ite T.zero (T.report child rfl)
  · refine T.same (fun _ _ hc => congrArg (fun d => (d symbol.node).length) (T.views hc).dimensions)
      fun declared => ?_
    refine T.same (fun _ _ hc => congrArg length ((T.views hc).siblings _ h.1)) fun used => ?_
    exact T.ite (T.report id rfl) (T.note hsite rfl T.zero)

theorem passed {pairs : List (NodeId × NodeId)} (h : ∀ pair ∈ pairs, T.Known pair.1) :
    T.Rel b (passed pairs) (passed pairs) := by
  induction pairs with
  | nil => exact T.zero
  | cons pair pairs ih =>
    obtain ⟨hpair, hpairs⟩ := forall_mem_cons.1 h
    refine T.same (fun _ _ hc => congrFun (T.views hc).type? pair.2) fun type => ?_
    cases type with
    | none => exact ih hpairs
    | some type =>
      refine T.same (fun _ _ hc => (T.views hc).passes hpair type) fun passes =>
        T.ite (ih hpairs) ?_
      exact T.same (fun _ _ hc => (T.views hc).argumentName hpair) fun name => T.report pair.1 rfl

theorem passing {node : CallNode} (h : T.Covers b visit visit' node.arguments) (symbol : Symbol) :
    T.Rel b (passing id node symbol)
      (passing id (node.rename T.rename) (symbol.rename T.rename)) := by
  refine T.members h.1 fun arguments harguments => ?_
  refine T.same (fun _ _ hc => (T.views hc).parameters symbol.node) fun parameters =>
    T.ite (T.passed fun pair hpair => ?_) (T.report id rfl)
  exact (h.2 pair.1 (harguments pair.1 (of_mem_zip hpair).1)).1

theorem call {node : CallNode} (hsite : T.Site id (.call node))
    (h : T.Covers b visit visit' node.arguments) :
    T.Rel b (call visit id node) (call visit' id (node.rename T.rename)) :=
  T.lookup (T.report id rfl) fun symbol => T.ite
    (T.note hsite rfl (T.andThen (h.list .stopAtFirst) (T.passing h symbol))) (T.report id rfl)

/-! ### Declarations -/

theorem declaration {d : DeclarationNode} (hsite : T.Site id (.declaration d))
    (h : T.Linked (some d.names)) : T.Rel true (declaration d) (declaration d) := by
  refine T.same (fun _ _ hc => congrFun (T.views hc).type? d.type) fun type => ?_
  cases type with
  | none => exact T.zero
  | some type =>
    refine T.same
      (fun _ _ hc => congrArg (fun l => ((d.literal.bind l).map LiteralNode.text).getD "")
      (T.views hc).literal?) fun detail => T.add (T.list _ h fun child hchild => ?_) fun _ => ?_
    · refine T.renamed (fun _ _ hc => T.name hc hsite hchild) fun name => ?_
      exact T.same (fun _ _ hc => (T.views hc).clashes _) fun clashes =>
        T.ite (T.report child rfl) (T.declare _ _ _ _ _ _ T.zero)
    · refine T.same (fun _ _ hc => congrArg (fun f => (f d.type).any (· ≤ 0))
        (T.views hc).dimensions)
        fun empty => T.ite ?_ T.zero
      exact T.renamed (fun _ _ hc => T.name hc hsite (T.self h)) fun name => T.report d.names rfl

theorem declareFunction (id : NodeId) (f : FunctionNode) :
    T.Rel true (declareFunction id f) (declareFunction id (f.rename T.rename)) := by
  refine T.same (fun c c' hc => ?_) fun redeclared =>
    T.ite (T.report id rfl) (T.declare _ _ _ _ _ _ T.zero)
  have hlookup : c'.symbols.lookup (f.rename T.rename).name = _ := (T.views hc).lookup f.name
  rw [hlookup, (T.views hc).level?]
  cases c.symbols.lookup f.name <;> rfl

theorem function {f : FunctionNode} (hparameters : T.Covers true visit visit' f.parameters)
    (hbody : T.Covers true visit visit' f.body) :
    T.Rel true (function visit id f) (function visit' id (f.rename T.rename)) := by
  have hheader := T.declareFunction id f
  unfold Logged.function
  cases hf : f.body with
  | none =>
    have hf' : (f.rename T.rename).body = none := hf
    simp only [hf', bind_pure_eq]
    exact hheader
  | some body =>
    have hf' : (f.rename T.rename).body = some body := hf
    rw [hf] at hbody
    simp only [hf']
    exact T.add hheader fun _ => T.within id
      (T.inScope (T.add (hparameters.list .reportAll) fun _ => hbody.list .reportAll))

theorem program {p : ProgramNode} (hdeclarations : T.Covers true visit visit' p.declarations)
    (hfunctions : T.Covers true visit visit' p.functions)
    (hbody : T.Covers true visit visit' (some p.body)) :
    T.Rel b (program visit id p) (program visit' id { p with name := T.rename p.name }) :=
  T.inScope (T.declare _ _ _ _ _ _
    (T.add₃ (hdeclarations.list .reportAll) (hfunctions.list .reportAll) hbody.one))

/-! ### Statements -/

theorem print {value : NodeId} (h : T.Covers b visit visit' (some value)) :
    T.Rel b (print visit value) (print visit' value) := by
  refine T.andThen h.one (T.resultType h.known fun type => ?_)
  cases type with
  | none => exact T.report value rfl
  | some type =>
    cases type with
    | void => exact T.report value rfl
    | _ => exact T.zero

theorem assign {target value : NodeId} (htarget : T.Covers b visit visit' (some target))
    (hvalue : T.Covers b visit visit' (some value)) :
    T.Rel b (assign visit id target value) (assign visit' id target value) := by
  refine T.andThen htarget.one
    (T.renamed (fun _ _ hc => (T.views hc).reference? target htarget.known) fun r => ?_)
  cases r with
  | none => exact T.zero
  | some r =>
    obtain ⟨name, indices, type⟩ := r
    cases type with
    | none => exact T.report target rfl
    | some type =>
      have hassign : T.Rel b ((visit value).andThen (assignable id value type))
          ((visit' value).andThen (assignable id value type)) := by
        refine T.andThen hvalue.one (T.resultType hvalue.known fun type => ?_)
        cases type with
        | none => exact T.report value rfl
        | some type => exact T.ite T.zero (T.report id rfl)
      refine T.lookup hassign fun symbol => ?_
      obtain ⟨level, symbolName, kind, scalar, typeText, detail, node⟩ := symbol
      cases kind with
      | constant | loopVar => exact T.report target rfl
      | program | function | parameter | var => exact hassign

theorem read {target : NodeId} (h : T.Covers b visit visit' (some target)) :
    T.Rel b (read visit target) (read visit' target) := by
  refine T.andThen h.one
    (T.renamed (fun _ _ hc => (T.views hc).reference? target h.known) fun r => ?_)
  cases r with
  | none => exact T.zero
  | some r =>
    refine T.ite (T.report target rfl) (T.lookup T.zero fun symbol => ?_)
    exact T.ite (T.report target rfl) T.zero

theorem guard (h : T.Covers b visit visit' (some id)) :
    T.Rel b (guard visit id) (guard visit' id) :=
  T.andThen h.one (T.resultType h.known fun _ => T.ite T.zero (T.report id rfl))

theorem forLoop {f : ForNode} (x : String)
    (hdeclaration : T.Covers true visit visit' (some f.declaration))
    (hbody : T.Covers true visit visit' (some f.body)) :
    T.Rel b (forLoop visit id f) (forLoop visit' id { f with loopVariable := x }) := by
  refine T.inScope ?_
  dsimp only
  refine T.ite ?_ ?_
  · exact T.add₃ (T.report id rfl) hdeclaration.one hbody.one
  · exact T.add₃ T.zero hdeclaration.one hbody.one

theorem returnValue {value : Option NodeId} (h : T.Covers b visit visit' value) :
    T.Rel b (returnValue visit id value) (returnValue visit' id value) := by
  refine T.renamed (fun _ _ hc => (T.views hc).around) fun function => ?_
  cases function with
  | none => exact T.report id rfl
  | some f =>
    obtain ⟨name, result, resultType, parameters, types, text, body⟩ := f
    cases value with
    | none =>
      cases result with
      | void => exact T.zero
      | _ => exact T.report id rfl
    | some value =>
      have hreturn : ∀ expected, T.Rel b ((visit value).andThen (returnable value expected))
          ((visit' value).andThen (returnable value expected)) := fun expected =>
        T.andThen h.one (T.resultType h.known fun type => T.ite T.zero
          (T.same (fun _ _ hc => (T.views hc).typeName h.known) fun name => T.report value rfl))
      cases result with
      | void => exact T.report id rfl
      | _ => exact hreturn _

/-! ### Nodes -/

/-- One case for every kind of node. -/
theorem kind {k : NodeKind} (hsite : T.Site id k) (hparts : k.isType = false → ∀ part ∈ k.parts,
      T.Covers (k.isDeclaring || k.hasOwnScope) visit visit' part.node) :
    T.Rel k.isDeclaring (kind visit id k) (kind visit' id (k.rename T.rename)) := by
  cases k <;> simp only [NodeKind.parts, ForNode.headerParts, cons_append, nil_append,
    forall_mem_cons] at hparts
  case program p => exact T.program (hparts rfl).1 (hparts rfl).2.1 (hparts rfl).2.2.1
  case declaration d => exact T.declaration hsite (hparts rfl).1.1
  case expression e => exact T.expression hsite (hparts rfl).1 (hparts rfl).2.1
  case compound =>
    exact T.inScope (T.add ((hparts rfl).1.list .reportAll) fun _ =>
      (hparts rfl).2.1.list .reportAll)
  case print => exact T.print (hparts rfl).1
  case reference => exact T.reference hsite (hparts rfl).1
  case assign => exact T.assign (hparts rfl).1 (hparts rfl).2.1
  case read => exact T.read (hparts rfl).1
  case condition =>
    exact T.add₃ (T.guard (hparts rfl).1) (hparts rfl).2.1.one (hparts rfl).2.2.1.optional
  case whileLoop => exact T.add (T.guard (hparts rfl).1) fun _ => (hparts rfl).2.1.one
  case returnValue => exact T.returnValue (hparts rfl).1
  case forLoop => exact T.forLoop _ (hparts rfl).2.2.2.2.1 (hparts rfl).2.2.2.2.2.1
  case call => exact T.call hsite (hparts rfl).1
  case function => exact T.function (hparts rfl).1 (hparts rfl).2.2.2.1
  all_goals exact T.zero

end Tandem

end PLang
