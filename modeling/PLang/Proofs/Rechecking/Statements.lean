import PLang.Proofs.Checking.ScopeBalance
import PLang.Proofs.Checking.Statement
import PLang.Proofs.Rechecking.Expressions

/-!
# Checking the statements of a variant

Statements, declarations, functions and whole programs get no notes themselves. They are checked the
same way in a tree and in a variant, because they read types only off expressions that have just
been checked. With this, checking a tree goes the same way as checking any of its variants, and is
never nested more deeply than there are nodes before its root.
-/

namespace PLang

open Check NodeKind

variable {link : Location → Location → Prop} {s : Store} {m m1 : Stage s} {A B : Set NodeId}
  {V : Variant s link} {c' : Checker} {may : Prop} {visit : NodeId → Check Nat} {lo hi root : Nat}

open Stage

variable {c : Checker} {id : NodeId} {k : NodeKind} {kinds : List SymbolKind}

theorem PartIn.kind? {fits : NodeKind → Bool} (h : PartIn s lo hi fits (some id) A) :
    ∃ k, s.kind? id = some k ∧ fits k = true := by
  obtain ⟨lo', hi', slot, -, -, -, hrow⟩ := h
  cases hrow with
  | cons htree hk => exact ⟨_, htree.kind?, hk⟩

namespace NodeKind

variable {k : NodeKind}

theorem isChecked_of_isReference (h : k.isReference = true) : k.isChecked = true := by
  cases k <;> first | rfl | cases h

theorem isChecked_of_isCompound (h : k.isCompound = true) : k.isChecked = true := by
  cases k <;> first | rfl | cases h

theorem isChecked_of_isStatement (h : k.isStatement = true) : k.isChecked = true := by
  cases k <;> first | rfl | cases h

theorem isChecked_of_isFunction (h : k.isFunction = true) : k.isChecked = true := by
  cases k <;> first | rfl | cases h

theorem isChecked_of_declares (h : declares kinds k = true) : k.isChecked = true := by
  cases k <;> first | rfl | cases h

end NodeKind

theorem Store.Known.of_plain {W : Set NodeId} (hk : s.kind? id = some k)
    (hplain : k.isPlain = true) :
    s.Known W id := by
  intro k' hk' hnot
  rw [hk, Option.some.injEq] at hk'
  rw [← hk', hplain] at hnot
  cases hnot

/-- A complaint about a node that is checked. -/
theorem Echo.reject {cause : Cause} (hk : s.kind? id = some k) (hchecked : k.isChecked = true) :
    Echoed link m A (Check.report cause id) may
      fun _ _ => True :=
  .report hk (isType_of_isChecked hchecked) trivial

/-! ### Declarations -/

variable {value : NodeId} {d : DeclarationNode}

namespace Check

theorem clashes_eq (hm : m.Matches V c') (name : String) :
    clashes c' name = clashes m.state name := by
  simp only [clashes, hm.lookup, hm.level?]

/-- Names are declared in both symbol tables or in none. -/
theorem declareName_echo (d : DeclarationNode) (type : TypeNode) (detail : String) :
    EchoesIn s link (declareName d type detail) isName lo hi may := by
  intro lo' root k htree _ _ hk m hfresh
  have hplain : ∀ W, s.Known W root := fun W =>
    .of_plain htree.kind? (by cases k <;> first | rfl | cases hk)
  have hchecked : k.isType = false := by
    cases k <;> first | rfl | cases hk
  refine .lookIn (fun t ht => by rw [ht.name?_eq]) ?_
  refine .look (fun V c' hm => clashes_eq hm _) ?_
  split
  · exact .report htree.kind? hchecked fun _ => hplain _
  · exact Echo.declare.bindQuiet fun _ m1 _ _ => .pure fun _ => hplain _

/-- Dimensions are counted the same way. -/
theorem positive_echo (hk : s.kind? d.names = some k)
    (hname : k.isName = true) :
    Echoed link m A (positive d) may fun _ _ => True := by
  have hchecked : k.isChecked = true := by
    cases k <;> first | rfl | cases hname
  refine .lookIn (fun t ht => by rw [ht.dimensions_eq]) ?_
  split
  · refine .lookIn (fun t ht => by rw [ht.name?_eq]) ?_
    exact .reject hk hchecked
  · exact .pure trivial

/-- Functions are declared in both symbol tables or in none. -/
theorem declareFunction_echo {f : FunctionNode} (hk : s.kind? root = some (.function f)) :
    Echoed link m ∅ (declareFunction root f) may
      fun _ _ => True := by
  refine .look (fun V c' hm => by simp only [hm.lookup, hm.level?]) ?_
  split
  · exact .reject hk rfl
  · exact Echo.declare.bindQuiet fun _ m1 _ _ => .pure trivial

/-! ### Values -/

theorem assignable_echo {k' : NodeKind} {target : ScalarType}
    (hid : s.kind? id = some k) (hchecked : k.isChecked = true) (hvalue : s.kind? value = some k')
    (hchecked' : k'.isChecked = true) (hknown : s.Known m.written value) :
    Echoed link m A (assignable id value target) may
      fun _ _ => True := by
  refine .look (fun V c' hm => hm.resultType?_eq hknown) ?_
  dsimp only
  split
  next => exact .reject hvalue hchecked'
  next type _ =>
    split
    · exact .pure trivial
    · exact .reject hid hchecked

theorem returnable_echo {expected : ScalarType} (hvalue : s.kind? value = some k)
    (hchecked : k.isChecked = true) (hknown : s.Known m.written value) :
    Echoed link m A (returnable value expected) may
      fun _ _ => True := by
  refine .look (fun V c' hm => hm.resultType?_eq hknown) ?_
  dsimp only
  split
  · exact .pure trivial
  · exact .look (fun V c' hm => hm.typeName_eq hknown) (.reject hvalue hchecked)

end Check

namespace EchoesIn

open Check

variable (hvisit : EchoesIn s link visit isChecked lo root may)

theorem declaration (hsize : root ≤ s.size)
    (h : Subtree s lo root (.declaration d)) (hfresh : m.Fresh (Set.Icc lo root)) :
    Echoed link m (Set.Icc lo root) (Check.declaration d) may fun _ _ => True := by
  obtain ⟨A, hA⟩ := h.partIn rfl rfl
  obtain ⟨k, hk, hname⟩ := hA.kind?
  refine .lookIn (fun t ht => ht.type?_eq d.type) ?_
  split
  next => exact .pure trivial
  next type _ =>
    refine .lookIn (fun t ht => by
      have hliteral : t.literal? = s.literal? := funext ht.literal?_eq
      rw [hliteral]) ?_
    have hnames : ∀ detail, Echoed link m A
        (Check.list (declareName d type detail) .reportAll (some d.names)) may
        fun _ _ => True := fun detail =>
      ((declareName_echo d type detail).list hsize hA (hfresh.mono hA.inside)).forget
    exact (hnames _).add (Set.disjoint_empty A) hA.inside (Set.empty_subset _) fun m1 _ =>
      positive_echo hk hname

include hvisit

/-! ### Statements -/

theorem references : EchoesIn s link visit isReference lo root may :=
  hvisit.narrow isChecked_of_isReference

theorem compounds : EchoesIn s link visit isCompound lo root may :=
  hvisit.narrow isChecked_of_isCompound

theorem declarations : EchoesIn s link visit (declares kinds) lo root may :=
  hvisit.narrow isChecked_of_declares

/-- The type of a guard is read after it has been checked. -/
theorem guard (hA : PartIn s lo root isExpression (some id) A) (hfresh : m.Fresh A) :
    Echoed link m A (guard visit id) may
      fun _ _ => True := by
  obtain ⟨k, hk, hexpression⟩ := hA.kind?
  refine (hvisit.expressions.one hA hfresh).andThenQuiet subset_rfl (fun m1 hm hknown => ?_)
    fun _ _ _ => trivial
  refine .look (fun V c' hm => hm.resultType?_eq (hknown rfl)) ?_
  dsimp only
  split
  · exact .pure trivial
  · exact .reject hk (NodeKind.isChecked_of_isExpression hexpression)

variable (hfresh : m.Fresh (Set.Icc lo root))

include hfresh

theorem print (h : Subtree s lo root (.print value)) :
    Echoed link m (Set.Icc lo root) (Check.print visit value) may fun _ _ => True := by
  obtain ⟨A, hA⟩ := h.partIn rfl rfl
  obtain ⟨k, hk, hexpression⟩ := hA.kind?
  have hchecked := NodeKind.isChecked_of_isExpression hexpression
  refine (hvisit.expressions.one hA (hfresh.mono hA.inside)).andThenQuiet hA.inside
    (fun m1 hm hknown => ?_) fun _ _ _ => trivial
  refine .look (fun V c' hm => hm.resultType?_eq (hknown rfl)) ?_
  dsimp only
  split
  · exact .reject hk hchecked
  · exact .reject hk hchecked
  · exact .pure trivial

theorem assign {target : NodeId} (h : Subtree s lo root (.assign target value)) :
    Echoed link m (Set.Icc lo root) (Check.assign visit root target value) may fun _ _ => True := by
  obtain ⟨A, B, hA, hB, hAB⟩ := h.partPair rfl rfl
  obtain ⟨k, hk, hreference⟩ := hA.kind?
  obtain ⟨k', hk', hexpression⟩ := hB.kind?
  have hchecked := NodeKind.isChecked_of_isReference hreference
  have hchecked' := NodeKind.isChecked_of_isExpression hexpression
  refine (hvisit.references.one hA (hfresh.mono hA.inside)).andThen hAB hA.inside hB.inside
    (fun m1 hm hknown => ?_) fun _ _ _ => trivial
  refine .look (fun V c' hc' => by
    simp only [Store.reference?, hc'.kind?_eq (hknown rfl)]) ?_
  dsimp only
  split
  next => exact .pure trivial
  next reference _ =>
    split
    next => exact .reject hk hchecked
    next type _ =>
      refine .lookup ?_
      split
      next => exact .reject hk hchecked
      next =>
        have hvalue := hvisit.expressions.one hB ((hfresh.mono hB.inside).reaches hm hAB)
        refine hvalue.andThenQuiet subset_rfl (fun m2 _ hknown => ?_) fun _ _ _ => trivial
        exact assignable_echo h.kind? rfl hk' hchecked' (hknown rfl)

theorem read {target : NodeId} (h : Subtree s lo root (.read target)) :
    Echoed link m (Set.Icc lo root) (Check.read visit target) may fun _ _ => True := by
  obtain ⟨A, hA⟩ := h.partIn rfl rfl
  obtain ⟨k, hk, hreference⟩ := hA.kind?
  have hchecked := NodeKind.isChecked_of_isReference hreference
  refine (hvisit.references.one hA (hfresh.mono hA.inside)).andThenQuiet hA.inside
    (fun m1 hm hknown => ?_) fun _ _ _ => trivial
  refine .look (fun V c' hc' => by
    simp only [Store.reference?, hc'.kind?_eq (hknown rfl)]) ?_
  dsimp only
  split
  next => exact .pure trivial
  next reference _ =>
    split
    · exact .reject hk hchecked
    · refine .lookup ?_
      split
      · exact .reject hk hchecked
      · exact .pure trivial

theorem condition {node : ConditionNode} (h : Subtree s lo root (.condition node)) :
    Echoed link m (Set.Icc lo root) (condition visit node) may fun _ _ => True := by
  obtain ⟨A, B, C, hA, hB, hC, ⟨hAB, hAC⟩, hBC⟩ := h.partTriple rfl rfl
  refine (hvisit.guard hA (hfresh.mono hA.inside)).add₃ hA.inside hB.inside hC.inside hAB hAC hBC
    (fun m1 hm => ?_) fun m1 m2 hm hm2 => ?_
  · exact (hvisit.compounds.one hB ((hfresh.mono hB.inside).reaches hm hAB)).forget
  · have hstart := ((hfresh.mono hC.inside).reaches hm hAC).reaches hm2 hBC
    exact (hvisit.compounds.optional hC hstart).forget

theorem whileLoop {guardNode body : NodeId} (h : Subtree s lo root (.whileLoop guardNode body)) :
    Echoed link m (Set.Icc lo root) (whileLoop visit guardNode body) may fun _ _ => True := by
  obtain ⟨A, B, hA, hB, hAB⟩ := h.partPair rfl rfl
  refine (hvisit.guard hA (hfresh.mono hA.inside)).add hAB hA.inside hB.inside fun m1 hm => ?_
  exact (hvisit.compounds.one hB ((hfresh.mono hB.inside).reaches hm hAB)).forget

/-- The function around a return statement does not hang on the notes. -/
theorem returnValue {value : Option NodeId} (h : Subtree s lo root (.returnValue value)) :
    Echoed link m (Set.Icc lo root) (Check.returnValue visit root value) may fun _ _ => True := by
  obtain ⟨A, hA⟩ := h.partIn rfl rfl
  refine .look (fun V c' hm => by
    have hfunction : c'.store.function? = m.state.store.function? := funext hm.same.function?_eq
    simp only [hm.function, hfunction]) ?_
  split
  next => exact .reject h.kind? rfl
  next function _ =>
    split
    next => exact .pure trivial
    next => exact .reject h.kind? rfl
    next => exact .reject h.kind? rfl
    next value _ =>
      obtain ⟨k, hk, hexpression⟩ := hA.kind?
      refine (hvisit.expressions.one hA (hfresh.mono hA.inside)).andThenQuiet hA.inside
        (fun m1 hm hknown => ?_) fun _ _ _ => trivial
      exact returnable_echo hk (NodeKind.isChecked_of_isExpression hexpression) (hknown rfl)

theorem forLoop {node : ForNode} (h : Subtree s lo root (.forLoop node)) :
    Echoed link m (Set.Icc lo root) (Check.forLoop visit root node) may fun _ _ => True := by
  obtain ⟨As, hparts, hapart⟩ := h.partsIn rfl
  simp only [NodeKind.parts, ForNode.headerParts, List.cons_append, List.nil_append,
    List.forall₂_cons_left_iff, List.forall₂_nil_left_iff] at hparts
  obtain ⟨_, -, -, ⟨_, -, -, ⟨_, -, -, ⟨_, -, -, ⟨A, -, hA, ⟨B, -, hB, rfl, rfl⟩, rfl⟩, rfl⟩, rfl⟩,
    rfl⟩, rfl⟩ := hparts
  have hAB : Disjoint A B := by
    simp only [List.pairwise_cons] at hapart
    exact hapart.2.2.2.2.1 B (by simp)
  simp only [forLoop_eq]
  refine .inScope fun m0 hm0 => ?_
  have hstart := hfresh.of_written hm0
  have hbounds : Echoed link m0 ∅
      (if node.upper < node.lower then report .decreasingBounds root else pure 0) may
      fun _ _ => True := by
    split
    · exact .reject h.kind? rfl
    · exact .pure trivial
  refine hbounds.add₃ (Set.empty_subset _) hA.inside hB.inside (Set.empty_disjoint A)
    (Set.empty_disjoint B) hAB (fun m1 hm => ?_) fun m1 m2 hm hm2 => ?_
  · have hstart' := (hstart.mono hA.inside).reaches hm (Set.empty_disjoint A)
    exact (hvisit.declarations.one hA hstart').forget
  · have hstart' := ((hstart.mono hB.inside).reaches hm (Set.empty_disjoint B)).reaches hm2 hAB
    exact (hvisit.compounds.one hB hstart').forget

/-! ### Blocks, functions and programs -/

theorem compound (hsize : root ≤ s.size) {node : CompoundNode}
    (h : Subtree s lo root (.compound node)) :
    Echoed link m (Set.Icc lo root) (compound visit node) may fun _ _ => True := by
  obtain ⟨A, B, hA, hB, hAB⟩ := h.partPair rfl rfl
  refine .inScope fun m0 hm0 => ?_
  have hstart := hfresh.of_written hm0
  refine (hvisit.declarations.list hsize hA (hstart.mono hA.inside)).forget.add hAB hA.inside
    hB.inside fun m1 hm => ?_
  exact ((hvisit.narrow isChecked_of_isStatement).list hsize hB
    ((hstart.mono hB.inside).reaches hm hAB)).forget

/-- The parameters and the body of a function, inside of it. -/
theorem functionBody (hsize : root ≤ s.size) {body : NodeId} {parameters : Option NodeId}
    (hA : PartIn s lo root (NodeKind.declares kinds) parameters A)
    (hB : PartIn s lo root NodeKind.isCompound (some body) B) (hAB : Disjoint A B) :
    Echoed link m (Set.Icc lo root)
      (Check.within id <| Check.inScope do
        let parameters ← Check.list visit .reportAll parameters
        let statements ← Check.list visit .reportAll (some body)
        pure (parameters + statements))
      may fun _ _ => True := by
  refine .within fun m0 hm0 => .inScope fun m1 hm1 => ?_
  have hstart := hfresh.of_written (hm1.trans hm0)
  refine (hvisit.declarations.list hsize hA (hstart.mono hA.inside)).forget.add hAB hA.inside
    hB.inside fun m2 hm2 => ?_
  exact (hvisit.compounds.list hsize hB ((hstart.mono hB.inside).reaches hm2 hAB)).forget

theorem function (hsize : root ≤ s.size) {f : FunctionNode} (h : Subtree s lo root (.function f)) :
    Echoed link m (Set.Icc lo root) (Check.function visit root f) may fun _ _ => True := by
  obtain ⟨As, hparts, hapart⟩ := h.partsIn rfl
  simp only [NodeKind.parts, List.forall₂_cons_left_iff, List.forall₂_nil_left_iff] at hparts
  obtain ⟨A, -, hA, ⟨_, -, -, ⟨_, -, -, ⟨B, -, hB, rfl, rfl⟩, rfl⟩, rfl⟩, rfl⟩ := hparts
  have hAB : Disjoint A B := by
    simp only [List.pairwise_cons] at hapart
    exact hapart.1 B (by simp)
  refine (declareFunction_echo h.kind?).bind (Set.empty_disjoint _) (Set.empty_subset _) subset_rfl
    fun header m1 hm _ => ?_
  cases hbody : f.body with
  | none => exact .pure trivial
  | some body =>
    rw [hbody] at hB
    dsimp only
    have hstart := hfresh.reaches hm (Set.empty_disjoint _)
    exact (hvisit.functionBody hstart hsize hA hB hAB).bindQuiet fun _ _ _ _ => .pure trivial

theorem program (hsize : root ≤ s.size) {p : ProgramNode} (h : Subtree s lo root (.program p)) :
    Echoed link m (Set.Icc lo root) (program visit root p) may fun _ _ => True := by
  obtain ⟨A, B, C, hA, hB, hC, ⟨hAB, hAC⟩, hBC⟩ := h.partTriple rfl rfl
  refine .inScope fun m0 hm0 => ?_
  refine Echo.declare.bind (Set.empty_disjoint _) (Set.empty_subset _) subset_rfl
    fun _ m' hm' _ => ?_
  have hstart := (hfresh.of_written hm0).reaches hm' (Set.empty_disjoint _)
  refine (hvisit.declarations.list hsize hA (hstart.mono hA.inside)).forget.add₃ hA.inside
    hB.inside hC.inside hAB hAC hBC (fun m1 hm => ?_) fun m1 m2 hm hm2 => ?_
  · exact ((hvisit.narrow isChecked_of_isFunction).list hsize hB
      ((hstart.mono hB.inside).reaches hm hAB)).forget
  · have hstart' := ((hstart.mono hC.inside).reaches hm hAC).reaches hm2 hBC
    exact (hvisit.compounds.one hC hstart').forget

/-! ### Nodes -/

/-- Checking what a node holds, and what the same node holds in a variant. -/
theorem kind (hsize : root ≤ s.size) (h : Subtree s lo root k) (hchecked : k.isChecked = true) :
    Echo m (Set.Icc lo root) (kind visit root k)
      (fun V : Variant s link => kind visit root ((V.store.kind? root).getD k)) may
      fun n W => n = 0 → s.Known W root := by
  by_cases hplain : k.isPlain = true
  · have hsame : ∀ V : Variant s link, (V.store.kind? root).getD k = k := by
      intro V
      rw [V.alike.kind?_plain h.kind? hplain, Option.getD_some]
    simp only [hsame]
    have hplainEcho : Echoed link m (Set.Icc lo root) (Check.kind visit root k) may
        fun _ _ => True := by
      cases k with
      | expression | reference | call => cases hplain
      | type => cases hchecked
      | program => exact hvisit.program hfresh hsize h
      | declaration => exact declaration hsize h hfresh
      | compound => exact hvisit.compound hfresh hsize h
      | print => exact hvisit.print hfresh h
      | assign => exact hvisit.assign hfresh h
      | read => exact hvisit.read hfresh h
      | condition => exact hvisit.condition hfresh h
      | whileLoop => exact hvisit.whileLoop hfresh h
      | returnValue => exact hvisit.returnValue hfresh h
      | forLoop => exact hvisit.forLoop hfresh h
      | function => exact hvisit.function hfresh hsize h
      | literal | name | number | epsilon => exact .pure trivial
    exact hplainEcho.mono subset_rfl id fun n W _ _ => .of_plain h.kind? hplain
  · cases k with
    | expression e =>
      have hsame : ∀ V : Variant s link, (V.store.kind? root).getD (.expression e) =
          .expression (V.expression root e) := by
        intro V
        obtain ⟨o, result, hk', -⟩ := V.kind?_expression h.kind?
        simp [Variant.expression, Store.expression?, hk']
      simp only [hsame]
      exact hvisit.expression h hfresh
    | reference r =>
      refine (hvisit.reference hsize h hfresh).of_runs rfl fun V c' _ => ?_
      obtain ⟨result, hk'⟩ := V.alike.kind?_reference h.kind?
      rw [hk', Option.getD_some]
      rfl
    | call c =>
      refine (hvisit.call hsize h hfresh).of_runs rfl fun V c' _ => ?_
      obtain ⟨result, hk'⟩ := V.alike.kind?_call h.kind?
      rw [hk', Option.getD_some]
      rfl
    | _ => exact absurd rfl hplain

theorem node (hsize : root ≤ s.size) (h : Subtree s lo root k) (hchecked : k.isChecked = true) :
    Echoed link m (Set.Icc lo root) (node visit root) may
      fun n W => n = 0 → s.Known W root := by
  have hroot : root ∉ m.written := hfresh.notMem ⟨h.le, Nat.le_refl root⟩
  refine (hvisit.kind hfresh hsize h hchecked).of_runs (node_eq_kind ?_) fun V c' hm =>
    node_eq_kind ?_
  · exact (m.unwritten root hroot).trans h.kind?
  · obtain ⟨k', hk', -⟩ := V.alike.kind?_cases h.kind?
    rw [hm.unwritten root hroot, hk', Option.getD_some]

end EchoesIn

/-! ### The walk over a tree -/

namespace Check

variable {k : NodeKind}

/-- Going down one level too many fails for a tree and for its variants. -/
theorem overstep_echo (hk : s.kind? root = some k) (hchecked : k.isChecked = true) :
    Echoed link m A (overstep root) (0 ≤ root - lo)
      fun n W => n = 0 → s.Known W root := by
  refine .error _ (m.moved { m.state with depth := m.state.depth + 1 } rfl) (Nat.zero_le _) rfl
    (reaches_moved _) fun V c' hm _ => ⟨_, _, rfl, ⟨?_, ?_⟩, ?_⟩
  · show Cause.nestingTooDeep c'.limit = .nestingTooDeep m.state.limit
    rw [hm.limit]
  · show link (m.state.store.location root) (c'.store.location root)
    rw [m.located, hm.located]
    exact V.place root k hk (isType_of_isChecked hchecked)
  · exact { hm with depth := congrArg (· + 1) hm.depth }

/-- Checking a tree goes the same way as checking a variant. If more levels are allowed than there
are nodes before the root, then it does not fail. -/
theorem visitUpTo_echo (n : Nat) {lo root : Nat} {m : Stage s} (h : Subtree s lo root k)
    (hchecked : k.isChecked = true) (hfresh : m.Fresh (Set.Icc lo root)) :
    Echoed link m (Set.Icc lo root) (visitUpTo n root)
      (n ≤ root - lo) fun n W => n = 0 → s.Known W root := by
  induction n generalizing lo root k m with
  | zero => exact overstep_echo h.kind? hchecked
  | succ n ih =>
    have hvisit : EchoesIn s link (visitUpTo n) isChecked lo root (n + 1 ≤ root - lo) := by
      intro lo' root' k' h' hlo hroot hchecked' m' hfresh'
      have hle := h'.le
      exact (ih h' hchecked' hfresh').mono subset_rfl (by omega) fun _ _ h => h
    have hsize : root ≤ s.size := Nat.le_of_lt (Store.lt_size_of_kind? h.kind?)
    exact .deeper fun m1 hm1 => hvisit.node (hfresh.of_written hm1) hsize h hchecked

theorem visit_echo (link : Location → Location → Prop) {n : Nat} (h : Subtree s lo root k)
    (hchecked : k.isChecked = true) (hfresh : m.Fresh (Set.Icc lo root))
    (hlimit : m.state.limit - m.state.depth = n) :
    Echoed link m (Set.Icc lo root) (Check.visit root)
      (n ≤ root - lo) fun n W => n = 0 → s.Known W root := by
  refine (visitUpTo_echo n h hchecked hfresh).of_runs ?_ fun V c' hm => ?_
  · show visitUpTo (m.state.limit - m.state.depth) root m.state = _
    rw [hlimit]
  · show visitUpTo (c'.limit - c'.depth) root c' = _
    rw [hm.limit, hm.depth, hlimit]

/-- Checks that end the same way: with the same number of errors, or with the same failure at places
that go together. -/
inductive EndsLike (link : Location → Location → Prop) :
    EStateM.Result Error Checker Nat → EStateM.Result Error Checker Nat → Prop
  | ok {n : Nat} {c c' : Checker} : EndsLike link (.ok n c) (.ok n c')
  | error {e e' : Error} {c c' : Checker} :
    e.Like link e' → EndsLike link (.error e c) (.error e' c')

/-- Checking a tree and checking its variants ends the same way and in states that match. -/
theorem visit_variants (link : Location → Location → Prop) (h : Subtree s lo root k)
    (hchecked : k.isChecked = true) (hfresh : m.Fresh (Set.Icc lo root)) :
    ∃ m1 : Stage s, (Check.visit root).after m.state = m1.state ∧
      ∀ (V : Variant s link) c', m.Matches V c' → V.Settled (Set.Icc lo root) m1 →
        EndsLike link (Check.visit root m.state) (Check.visit root c') ∧
          m1.Matches V ((Check.visit root).after c') := by
  cases visit_echo link h hchecked hfresh rfl with
  | ok n m1 run _ _ echo =>
    refine ⟨m1, after_of_ok run, fun V c' hm hV => ?_⟩
    obtain ⟨c1', run', hm1⟩ := echo V c' hm hV
    rw [run, run', after_of_ok run']
    exact ⟨.ok, hm1⟩
  | error e m1 _ run _ echo =>
    refine ⟨m1, after_of_error run, fun V c' hm hV => ?_⟩
    obtain ⟨e', c1', run', he, hm1⟩ := echo V c' hm hV
    rw [run, run', after_of_error run']
    exact ⟨.error he, hm1⟩

/-- With more levels than there are nodes before the root, checking comes to an end. -/
theorem visit_ok_of_lt (h : Subtree c.store lo root k) (hchecked : k.isChecked = true)
    (hlimit : root - lo < c.limit - c.depth) : ∃ n c1, Check.visit root c = .ok n c1 := by
  let m : Stage c.store := ⟨c, ∅, .refl _, fun _ => .inl rfl, fun _ => rfl, fun _ _ => rfl⟩
  cases visit_echo (m := m) Eq h hchecked (Set.empty_disjoint _) rfl with
  | ok n m1 run => exact ⟨n, m1.state, run⟩
  | error e m1 allowed => exact absurd hlimit (Nat.not_lt.2 allowed)

end Check

/-! ### The start -/

/-- A check that has not started yet. -/
def Stage.start (s : Store) (symbols : SymbolTable) (diagnostics : Diagnostics)
    (options : CheckOptions) : Stage s where
  state := .start s symbols diagnostics options
  written := ∅
  alike := .refl s
  operator _ := .inl rfl
  located _ := rfl
  unwritten _ _ := rfl

/-- Checks start the same way if no scope is open and the nesting limit is the same. -/
theorem Stage.start_matches {symbols symbols' : SymbolTable}
    {diagnostics diagnostics' : Diagnostics} {options options' : CheckOptions}
    (hsymbols : symbols.scopes = []) (hsymbols' : symbols'.scopes = []) (hlimit : options'.limit =
      options.limit) (hbefore : V.before = diagnostics.errors)
    (hbefore' : V.before' = diagnostics'.errors) :
    (Stage.start s symbols diagnostics options).Matches V
      (.start V.store symbols' diagnostics' options') := by
  refine ⟨V.alike, fun _ => rfl, nofun, fun _ _ => rfl,
    ⟨[], SymbolTable.holds_nil hsymbols, SymbolTable.holds_nil hsymbols'⟩, rfl, rfl, hlimit,
    [], [], ?_, ?_, .nil⟩
  · rw [hbefore, List.append_nil]
    rfl
  · rw [hbefore', List.append_nil]
    rfl

end PLang
