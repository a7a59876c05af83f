import PLang.Proofs.Narrowing.Steps
import PLang.Proofs.Rechecking.Idempotence
import PLang.Proofs.Scoping.Sites

/-!
# Coercion is monotone

Integers may stand wherever reals may. So a program that is accepted is also accepted with integers
in the place of some of its real literals. The types of expressions stay as they are, or they turn
from real into integer. Targets of assignments keep their types, because constants are never
targets.
-/

namespace PLang

open Option Store
open NodeKind (bare isExpression)

variable {s s' : Store} {c c' : Checker} {id : NodeId} {visit : NodeId → Check Nat}
  {σ : SymbolTable}

variable {c1 c1' : Checker} {d : DeclarationNode} {e e' : ExpressionNode} {k : NodeKind}
  {r : ReferenceNode} {symbol : Symbol}

/-! ### Terms -/

/-- A node of an expression. -/
def Store.Term (s : Store) (id : NodeId) : Prop := ∃ k, s.kind? id = some k ∧ k.isValue = true

/-- The parts of terms are lists of terms. -/
theorem StoreOk.term_of_part (hs : StoreOk s) (hk : s.kind? id = some k) (hterm : k.isValue = true)
    (part : Part) (hpart : part ∈ k.parts) {member : NodeId}
    (hmember : member ∈ s.siblings part.node) : s.Term member := by
  obtain ⟨k', hk', hfits⟩ := hs.exists_kind hk part hpart hmember
  exact ⟨k', hk', NodeKind.isValue_of_fits hterm hpart hfits⟩

/-! ### Visits -/

/-- States of two checks that have declared nothing since the symbol table was as given. -/
structure NarrowerIn (s s' : Store) (σ : SymbolTable) (c c' : Checker) : Prop
    extends Narrower s s' c c' where
  unchanged : c.symbols = σ

/-- A variable reference has the same type in both trees, unless it stands for a constant. -/
def Firm (c c' : Checker) (id : NodeId) : Prop :=
  c'.store.reference? id = c.store.reference? id ∨ ∃ r symbol, c.store.reference? id = some r ∧
    c.symbols.lookup r.name = some symbol ∧ symbol.kind = .constant

/-- The states after a visit of a node. -/
structure Visited (s s' : Store) (id : NodeId) (c c1 c1' : Checker) : Prop
    extends Narrower s s' c1 c1' where
  quiet : s.Term id → c1.symbols = c.symbols
  firm : ∀ r, s.kind? id = some (.reference r) → Firm c1 c1' id

theorem Visited.higher (h : Visited s s' id { c with depth := c.depth + 1 } c1 c1') :
    Visited s s' id c { c1 with depth := c1.depth - 1 } { c1' with depth := c1'.depth - 1 } :=
  { h with toNarrower := h.toNarrower.higher }

/-- A way of checking nodes accepts narrower ones. -/
def VisitsNarrower (s s' : Store) (visit : NodeId → Check Nat) : Prop :=
  ∀ id c c', Narrower s s' c c' → AcceptsSame (Visited s s' id c) c c' (visit id)

namespace VisitsNarrower

variable (hV : VisitsNarrower s s' visit)

include hV

theorem any (h : Narrower s s' c c') : AcceptsSame (Narrower s s') c c' (visit id) :=
  (hV id c c' h).mono fun _ _ h1 => h1.toNarrower

theorem term (hterm : s.Term id) (h : NarrowerIn s s' σ c c') :
    AcceptsSame (NarrowerIn s s' σ) c c' (visit id) :=
  (hV id c c' h.toNarrower).mono fun _ _ h1 =>
    ⟨h1.toNarrower, (h1.quiet hterm).trans h.unchanged⟩

theorem list (h : Narrower s s' c c') (policy : ListPolicy) (head : Option NodeId) :
    AcceptsSame (Narrower s s') c c' (Check.list visit policy head) :=
  Accepts.list (M := fun _ => True) (fun _ _ h => h.store.size) (fun _ _ h => h.store.next)
    (fun _ _ _ _ _ _ _ => trivial) (fun _ _ _ _ h => hV.any h) policy head (fun _ _ => trivial) h

end VisitsNarrower

/-- A list of terms. -/
theorem Accepts.termList (hs : StoreOk s) (hk : s.kind? id = some k) (hterm : k.isValue = true)
    (part : Part) (hpart : part ∈ k.parts) (hvisit : ∀ id c c', s.Term id → NarrowerIn s s' σ c c' →
      AcceptsSame (NarrowerIn s s' σ) c c' (visit id)) (policy : ListPolicy)
    (h : NarrowerIn s s' σ c c') :
    AcceptsSame (NarrowerIn s s' σ) c c' (Check.list visit policy part.node) := by
  refine Accepts.list (M := fun id => id ∈ s.siblings part.node) (fun _ _ h => h.store.size)
    (fun _ _ h => h.store.next) (fun c c' h id other hid hnext => ?_)
    (fun id c c' hid h => hvisit id c c' (hs.term_of_part hk hterm part hpart hid) h) policy _ ?_ h
  · rw [h.alike.next] at hnext
    exact hs.mem_siblings_next hid hnext
  · rintro id hid
    rw [hid]
    exact StoreOk.mem_siblings_self (Nat.zero_lt_of_lt (lt_size_of_kind? hk))

/-! ### Expressions -/

namespace Check

/-- The end of the check of an operator: its type is written, or it does not take its operands. -/
def concludes (id : NodeId) (left right : Option NodeId) (meant : Operator) :
    Option ScalarType → Check Nat
  | some type => do
    write fun s => s.setResult id (some type)
    pure 0
  | none => do
    let cause ← view fun c => c.operandCause meant left right
    report cause id

theorem concludes_accepts (h : NarrowerIn s s' σ c c') {l r l' r' : Option ScalarType}
    (hl : Narrows l l') (hr : Narrows r r') (left right : Option NodeId) (meant : Operator) :
    Accepts (NarrowerIn s s' σ) c c' (concludes id left right meant (meant.result? l r))
      (concludes id left right meant (meant.result? l' r')) := by
  cases hresult : meant.result? l r with
  | none => exact .complain
  | some type =>
    obtain ⟨type', htype', hnarrows⟩ := hl.result? hr hresult
    rw [htype']
    exact .write (.done ⟨h.setResult hnarrows, h.unchanged⟩)

/-- An operator whose operands are checked. -/
theorem operator_accepts (h : NarrowerIn s s' σ c c') (he : e.NarrowedAs e')
    (hk : (s.kind? id).map bare = some (NodeKind.expression e).bare)
    (hk' : (s'.kind? id).map bare = some (NodeKind.expression e').bare) :
    Accepts (NarrowerIn s s' σ) c c' (operator id e) (operator id e') := by
  have htype : ∀ operand : Option NodeId,
      Narrows (operand.bind c.store.resultType?) (operand.bind c'.store.resultType?) := by
    intro operand
    cases operand with
    | none => exact .refl none
    | some id => exact h.store.resultType? id
  have hmeant := (htype e.left).resolve_eq (htype e.right) e.operator
  refine .look (.look ?_)
  dsimp only
  rw [he.operator, he.left, he.right, hmeant]
  rcases e.operator.resolve_cases (e.left.bind c.store.resultType?)
    (e.right.bind c.store.resultType?) with hsame | ⟨hadd, hconcat⟩
  · rw [hsame, if_neg (not_not.2 rfl), if_neg (not_not.2 rfl)]
    exact concludes_accepts h (htype e.left) (htype e.right) e.left e.right e.operator
  · rw [hconcat, hadd, if_pos (by decide), if_pos (by decide)]
    have hwritten : NarrowerIn s s' σ { c with store := c.store.setOperator id .concat }
        { c' with store := c'.store.setOperator id .concat } :=
      { h with
        alike := h.alike.setConcat hk hadd
        alike' := h.alike'.setConcat hk' (he.operator.trans hadd)
        store := h.store.setOperator .concat }
    exact .write (concludes_accepts hwritten (htype e.left) (htype e.right) e.left e.right .concat)

/-- What a wrapper wraps is narrower in a narrower tree. -/
theorem wrappedType_narrows {t t' : Store} (h : t.Narrowed t') (operator : Operator)
    (part : Option NodeId) :
    Narrows (wrappedType operator part t) (wrappedType operator part t') := by
  cases part with
  | none => cases operator <;> exact .refl none
  | some id =>
    cases operator with
    | constant =>
      have hliteral : Option.Rel (fun l l' : LiteralNode =>
          Narrows (some l.value.scalarType) (some l'.value.scalarType))
          (t.literal? id) (t'.literal? id) := by
        refine h.rel (fun _ _ _ ho => by rw [literal?, ho]) rfl (fun k k' hk => ?_) id
        cases hk with
        | refl k =>
          cases k with
          | literal l => exact .some (.refl _)
          | _ => exact .none
        | literal => exact .some (.inr ⟨rfl, rfl⟩)
        | _ => exact .none
      show Narrows ((t.literal? id).map _) ((t'.literal? id).map _)
      generalize t.literal? id = o, t'.literal? id = o' at hliteral
      cases hliteral with
      | none => exact .refl none
      | some hl => exact hl
    | reference =>
      have hreference := h.reference? id
      show Narrows ((t.reference? id).bind _) ((t'.reference? id).bind _)
      generalize t.reference? id = o, t'.reference? id = o' at hreference
      cases hreference with
      | none => exact .refl none
      | some hr => exact hr.result
    | call =>
      show Narrows ((t.call? id).bind _) ((t'.call? id).bind _)
      rw [h.call?_eq]
      exact .refl _
    | _ => exact .refl none

theorem resolved_accepts (h : NarrowerIn s s' σ c c') (he : e.NarrowedAs e')
    (hk : (s.kind? id).map bare = some (NodeKind.expression e).bare)
    (hk' : (s'.kind? id).map bare = some (NodeKind.expression e').bare) :
    Accepts (NarrowerIn s s' σ) c c' (resolved id e) (resolved id e') := by
  unfold resolved
  rw [he.operator, he.left]
  split
  · refine .look (.write (.done ⟨h.setResult ?_, h.unchanged⟩))
    exact wrappedType_narrows h.store e.operator e.left
  · exact operator_accepts h he hk hk'

theorem index_accepts (hV : VisitsNarrower s s' visit) (hterm : s.Term id)
    (h : NarrowerIn s s' σ c c') : AcceptsSame (NarrowerIn s s' σ) c c' (index visit id) := by
  refine (hV.term hterm h).andThen fun c1 c1' h1 => .look ?_
  by_cases hinteger : c1.store.resultType? id = some .integer
  · have hinteger' := (h1.store.resultType? id).eq_some (by decide) hinteger
    rw [if_pos hinteger, if_pos hinteger']
    exact .done h1
  · rw [if_neg hinteger]
    exact .report

/-! ### Terms with parts -/

section Terms

variable (hs : StoreOk s) (hV : VisitsNarrower s s' visit)

include hs hV

theorem expression_accepts (h : NarrowerIn s s' σ c c') (he : e.NarrowedAs e')
    (hk : (s.kind? id).map bare = some (NodeKind.expression e).bare)
    (hk' : (s'.kind? id).map bare = some (NodeKind.expression e').bare) :
    Accepts (NarrowerIn s s' σ) c c' (expression visit id e) (expression visit id e') := by
  obtain ⟨k, hkind, hbare⟩ := map_eq_some_iff.1 hk
  obtain ⟨e0, rfl, hleft, hright⟩ := NodeKind.exists_expression_of_bare hbare
  have hsize := Nat.zero_lt_of_lt (lt_size_of_kind? hkind)
  have hterm : ∀ child, e.left = some child ∨ e.right = some child → s.Term child := by
    rintro child (hchild | hchild)
    · refine hs.term_of_part hkind rfl ⟨.left, e0.left, e0.operator.fitsLeft⟩
        (.head _) ?_
      rw [hleft, hchild]
      exact StoreOk.mem_siblings_self hsize
    · refine hs.term_of_part hkind rfl ⟨.right, e0.right, isExpression⟩
        (.tail _ (.head _)) ?_
      rw [hright, hchild]
      exact StoreOk.mem_siblings_self hsize
  have hoperands : Accepts (NarrowerIn s s' σ) c c' (operands visit e) (operands visit e') := by
    unfold operands
    rw [he.left, he.right]
    refine Accepts.add (R := NarrowerIn s s' σ) ?_ fun c1 c1' h1 => ?_
    · exact .optional h fun child hchild => hV.term (hterm child (.inl hchild)) h
    · exact .optional h1 fun child hchild => hV.term (hterm child (.inr hchild)) h1
  exact hoperands.andThen fun c1 c1' h1 => resolved_accepts h1 he hk hk'

omit hs hV in
theorem reference?_setReferenceType (t : Store) (type : Option ScalarType) :
    (t.setReferenceType id type).reference? id =
      (t.reference? id).map fun r => { r with result := type } := by
  rw [reference?, setReferenceType, kind?_modifyKind, if_pos rfl,
    reference?]
  cases t.kind? id with
  | none => rfl
  | some k => cases k <;> rfl

omit hs hV in
/-- Writing the same type makes a variable reference the same in both trees. -/
theorem firm_of_eq (h : Narrower s s' c c') (type : Option ScalarType) :
    Firm { c with store := c.store.setReferenceType id type }
      { c' with store := c'.store.setReferenceType id type } id := by
  have hreference := h.store.reference? id
  refine .inl ?_
  dsimp only
  rw [reference?_setReferenceType, reference?_setReferenceType]
  generalize c.store.reference? id = o, c'.store.reference? id = o' at hreference
  cases hreference with
  | none => rfl
  | some hr => rw [map_some, map_some, hr.name, hr.indices]

omit hs hV in
/-- A constant may have a narrower type. -/
theorem firm_of_constant (h : NarrowerIn s s' σ c c')
    (hk : (s.kind? id).map bare = some (NodeKind.reference r).bare)
    (hlookup : σ.lookup r.name = some symbol) (hconstant : symbol.kind = .constant) :
    Firm c c' id := by
  obtain ⟨k, hkind, hbare⟩ := map_eq_some_iff.1 ((h.alike.kind id).trans hk)
  obtain ⟨r1, rfl, hname, -⟩ := NodeKind.exists_reference_of_bare hbare
  refine .inr ⟨r1, symbol, ?_, ?_, hconstant⟩
  · rw [reference?, hkind]
  · rw [hname, h.unchanged, hlookup]

omit hs hV in
/-- The type that is written into a variable reference is firm, unless it is that of a constant. -/
theorem subscripted_accepts (h : NarrowerIn s s' σ c c') {r' : ReferenceNode} (hr : r.NarrowedAs r')
    (hk : (s.kind? id).map bare = some (NodeKind.reference r).bare) {symbol' : Symbol}
    (hsymbol : symbol.NarrowedAs s symbol') (hlookup : σ.lookup r.name = some symbol) :
    Accepts (fun c1 c1' => NarrowerIn s s' σ c1 c1' ∧ Firm c1 c1' id) c c'
      (subscripted id r symbol) (subscripted id r' symbol') := by
  refine .look (.look ?_)
  simp only [hsymbol.node, hr.indices, h.store.dimensions_eq, h.store.listLength_eq]
  by_cases hover : (c.store.dimensions symbol.node).length < c.store.listLength r.indices
  · rw [if_pos hover]
    exact .report
  · rw [if_neg hover, if_neg hover]
    have hnarrows : Narrows
        (if c.store.listLength r.indices = (c.store.dimensions symbol.node).length
          then symbol.scalar
          else none)
        (if c.store.listLength r.indices = (c.store.dimensions symbol.node).length then
          symbol'.scalar
          else none) := by
      split
      · exact hsymbol.scalar
      · exact .refl none
    have hwritten := h.setReferenceType id hnarrows
    refine .write (.done ⟨⟨hwritten, h.unchanged⟩, ?_⟩)
    rcases hsymbol.constant with hscalar | ⟨hconstant, -⟩
    · rw [hscalar]
      exact firm_of_eq h.toNarrower _
    · exact firm_of_constant ⟨hwritten, h.unchanged⟩ hk hlookup hconstant

theorem reference_accepts (h : Narrower s s' c c') {r' : ReferenceNode} (hr : r.NarrowedAs r')
    (hk : (s.kind? id).map bare = some (NodeKind.reference r).bare) :
    Accepts (fun c1 c1' => NarrowerIn s s' c.symbols c1 c1' ∧ Firm c1 c1' id) c c'
      (reference visit id r) (reference visit id r') := by
  have hsymbol := h.symbols.lookup r.name
  refine .look ?_
  rw [hr.name]
  cases hlookup : c.symbols.lookup r.name with
  | none => exact .report
  | some symbol =>
    rw [hlookup] at hsymbol
    generalize c'.symbols.lookup r.name = o' at hsymbol
    cases hsymbol with
    | @some _ symbol' hs' =>
      obtain ⟨k, hkind, hbare⟩ := map_eq_some_iff.1 hk
      obtain ⟨r0, rfl, -, hindices⟩ := NodeKind.exists_reference_of_bare hbare
      dsimp only
      rw [hs'.kind, hr.indices]
      split
      · refine Accepts.andThen (R := NarrowerIn s s' c.symbols) ?_ fun c1 c1' h1 =>
          subscripted_accepts h1 hr hk hs' hlookup
        rw [← hindices]
        exact Accepts.termList hs hkind rfl ⟨.indices, r0.indices, isExpression⟩
          (.head _) (fun id c c' hterm h => index_accepts hV hterm h) .reportAll ⟨h, rfl⟩
      · exact .report

end Terms

/-- Arguments that pass may be narrower. -/
theorem passed_accepts (h : NarrowerIn s s' σ c c') (pairs : List (NodeId × NodeId))
    (hpairs : ∀ pair ∈ pairs, c'.store.type? pair.2 = c.store.type? pair.2) :
    AcceptsSame (NarrowerIn s s' σ) c c' (passed pairs) := by
  induction pairs with
  | nil => exact .done h
  | cons pair pairs ih =>
    have hmore := ih fun other hother => hpairs other (.tail _ hother)
    refine .look ?_
    dsimp only
    rw [hpairs pair List.mem_cons_self]
    split
    · exact hmore
    · refine .look ?_
      split
      next hpasses =>
        rw [if_pos (h.passes hpasses)]
        exact hmore
      next => exact .complain

theorem passing_accepts (N : Narrowing s s') (h : NarrowerIn s s' σ c c') (node : CallNode)
    {symbol' : Symbol} (hsymbol : symbol.NarrowedAs s symbol') :
    Accepts (NarrowerIn s s' σ) c c' (passing id node symbol) (passing id node symbol') := by
  have hfunction := h.alike.function?_eq symbol.node
  refine .look (.look ?_)
  simp only [hsymbol.node, h.store.siblings_eq, h.store.function?_eq]
  split
  next hlength =>
    refine passed_accepts h _ fun pair hpair => ?_
    have hparameter := (List.of_mem_zip hpair).2
    rw [hfunction, h.alike.siblings_eq] at hparameter
    cases hf : s.function? symbol.node with
    | none =>
      rw [hf, bind_none, siblings_none] at hparameter
      cases hparameter
    | some f =>
      rw [hf] at hparameter
      have hkind : s.kind? symbol.node = some (.function f) := by
        rw [function?] at hf
        split at hf
        next hkind => rw [hkind, some.inj hf]
        next => cases hf
      have hsame := N.parameter _ f hkind pair.2 hparameter
      rw [h.alike'.type?_eq, h.alike.type?_eq, type?, type?, hsame]
  next => exact .report

theorem call_accepts (N : Narrowing s s') (hV : VisitsNarrower s s' visit)
    (h : NarrowerIn s s' σ c c') {node : CallNode}
    (hk : (s.kind? id).map bare = some (NodeKind.call node).bare) :
    AcceptsSame (NarrowerIn s s' σ) c c' (call visit id node) := by
  have hsymbol := h.symbols.lookup node.name
  refine .look ?_
  generalize c.symbols.lookup node.name = o, c'.symbols.lookup node.name = o' at hsymbol
  cases hsymbol with
  | none => exact .report
  | @some symbol symbol' hs =>
    obtain ⟨k, hkind, hbare⟩ := map_eq_some_iff.1 hk
    obtain ⟨c0, rfl, -, harguments⟩ := NodeKind.exists_call_of_bare hbare
    dsimp only
    rw [hs.kind]
    split
    next hfunction =>
      have hscalar : symbol'.scalar = symbol.scalar := by
        refine hs.constant.resolve_right fun hconstant => ?_
        cases hfunction.symm.trans hconstant.1
      rw [hscalar]
      refine .write (Accepts.andThen (R := NarrowerIn s s' σ) ?_ fun c1 c1' h1 =>
        passing_accepts N h1 node hs)
      rw [← harguments]
      exact Accepts.termList N.ok hkind rfl ⟨.arguments, c0.arguments, isExpression⟩
        (.head _) (fun id c c' hterm h => hV.term hterm h) .stopAtFirst
        ⟨h.setCallType symbol.scalar, h.unchanged⟩
    next => exact .report

/-! ### Declarations -/

/-- The names of a declaration get the same types, or narrower ones if they are constants. -/
def DeclaredNarrower (s : Store) (d : DeclarationNode) (type type' : TypeNode) : Prop :=
  Narrows (some type.scalar) (some type'.scalar) ∧
    (type'.scalar = type.scalar ∨ d.kind = .constant ∧ s.dimensions d.type = [])

theorem declareName_accepts (h : Narrower s s' c c') {type type' : TypeNode}
    (htype : DeclaredNarrower s d type type') (detail detail' : String) :
    Accepts (Narrower s s') c c' (declareName d type detail id)
      (declareName d type' detail' id) := by
  refine .look (.look ?_)
  dsimp only
  rw [h.store.name?_eq, h.clashes_eq]
  split
  · exact .report
  · refine .declare (.done { h with symbols := h.symbols.insert htype.1 ?_ })
    exact htype.2.imp_left (congrArg some)

theorem positive_accepts (h : Narrower s s' c c') (d : DeclarationNode) :
    AcceptsSame (Narrower s s') c c' (positive d) := by
  refine .look ?_
  dsimp only
  rw [h.store.dimensions_eq]
  split
  · exact .report
  · exact .done h

theorem declared_narrower (N : Narrowing s s') (h : Narrower s s' c c')
    (hk : s.kind? id = some (.declaration d)) :
    Option.Rel (DeclaredNarrower s d) (c.store.type? d.type) (c'.store.type? d.type) := by
  rw [h.alike.type?_eq, h.alike'.type?_eq]
  have hsame : ∀ type, DeclaredNarrower s d type type := fun type => ⟨.refl _, .inl rfl⟩
  by_cases hconstant : d.kind = .constant
  · have hkind := N.kind d.type
    have hdimensions : ∀ text, s.kind? d.type = some (.type ⟨.real, none, text⟩) →
        s.dimensions d.type = [] := by
      intro text htype
      simp [dimensions, type?, htype, numbers]
    rw [type?, type?]
    generalize s.kind? d.type = o at hkind hdimensions
    generalize s'.kind? d.type = o' at hkind
    cases hkind with
    | none => exact .none
    | some hnarrowed =>
      cases hnarrowed with
      | refl =>
        split
        · exact .some (hsame _)
        · exact .none
      | type => exact .some ⟨.inr ⟨rfl, rfl⟩, .inr ⟨hconstant, hdimensions _ rfl⟩⟩
      | _ => exact .none
  · rw [type?, type?, N.declared _ d hk hconstant]
    split
    · exact .some (hsame _)
    · exact .none

theorem declaration_accepts (N : Narrowing s s') (h : Narrower s s' c c')
    (hk : s.kind? id = some (.declaration d)) :
    AcceptsSame (Narrower s s') c c' (declaration d) := by
  have htypes := declared_narrower N h hk
  refine .look ?_
  dsimp only
  generalize c.store.type? d.type = o, c'.store.type? d.type = o' at htypes
  cases htypes with
  | none => exact .done h
  | some htype =>
    refine .look (Accepts.add (R := Narrower s s') ?_ fun c1 c1' h1 => positive_accepts h1 d)
    exact Accepts.list (M := fun _ => True) (fun _ _ h => h.store.size) (fun _ _ h => h.store.next)
      (fun _ _ _ _ _ _ _ => trivial) (fun _ _ _ _ h => declareName_accepts h htype _ _) .reportAll
      _ (fun _ _ => trivial) h

theorem declareFunction_accepts (h : Narrower s s' c c') (id : NodeId) (f : FunctionNode) :
    AcceptsSame (Narrower s s') c c' (declareFunction id f) := by
  have hsymbol := h.symbols.lookup f.name
  refine .look ?_
  rw [h.symbols.level?]
  have hlevel : ((c'.symbols.lookup f.name).any fun symbol => some symbol.level ==
    c.symbols.level?) =
      (c.symbols.lookup f.name).any fun symbol => some symbol.level == c.symbols.level? := by
    generalize c.symbols.lookup f.name = o, c'.symbols.lookup f.name = o' at hsymbol
    cases hsymbol with
    | none => rfl
    | some hs => rw [any_some, any_some, hs.level]
  rw [hlevel]
  split
  · exact .report
  · exact .declare (.done { h with symbols := h.symbols.insert (.refl _) (.inl rfl) })

/-! ### Statements -/

section Statements

variable (hV : VisitsNarrower s s' visit) (h : Narrower s s' c c')

include hV h

theorem print_accepts (value : NodeId) : AcceptsSame (Narrower s s') c c' (print visit value) := by
  refine (hV.any h).andThen fun c1 c1' h1 => .look ?_
  dsimp only
  rcases h1.store.resultType? value with hsame | ⟨hreal, hinteger⟩
  · rw [hsame]
    split
    · exact .report
    · exact .report
    · exact .done h1
  · rw [hreal, hinteger]
    exact .done h1

omit hV in
theorem assignable_accepts (value : NodeId) (target : ScalarType) :
    AcceptsSame (Narrower s s') c c' (assignable id value target) := by
  have htype := h.store.resultType? value
  refine .look ?_
  dsimp only
  generalize c.store.resultType? value = o at htype
  cases o with
  | none => exact .report
  | some type =>
    dsimp only
    split
    next hcoerces =>
      have hcoerces' := htype.coercesTo target hcoerces
      obtain ⟨type', htype', hpasses⟩ := (any_eq_true _ _).1 hcoerces'
      rw [htype']
      dsimp only
      rw [if_pos hpasses]
      exact .done h
    next => exact .report

/-- A target keeps its type: it would not be accepted if it were a constant. -/
theorem assigned_accepts {target : NodeId} (hfirm : Firm c c' target) (value : NodeId) :
    AcceptsSame (Narrower s s') c c' (assigned visit id target value) := by
  refine .look ?_
  dsimp only
  rcases hfirm with hsame | ⟨r, symbol, hr, hsymbol, hconstant⟩
  · rw [hsame]
    cases c.store.reference? target with
    | none => exact .done h
    | some r =>
      dsimp only
      cases r.result with
      | none => exact .report
      | some type =>
        have hkind := h.symbols.lookup r.name
        refine .look ?_
        generalize c.symbols.lookup r.name = o, c'.symbols.lookup r.name = o' at hkind
        have hassigned : AcceptsSame (Narrower s s') c c'
            (andThen (visit value) (assignable id value type)) :=
          (hV.any h).andThen fun c1 c1' h1 => assignable_accepts h1 value type
        cases hkind with
        | none => exact hassigned
        | some hs =>
          rw [bind_some, bind_some, hs.kind]
          split
          · exact .report
          · exact hassigned
  · rw [hr]
    dsimp only
    cases r.result with
    | none => exact .report
    | some type =>
      refine .lookFirst ?_
      rw [hsymbol, bind_some, hconstant]
      exact .report

theorem assign_accepts (hs : StoreOk s) {target value : NodeId}
    (hk : s.kind? id = some (.assign target value)) :
    AcceptsSame (Narrower s s') c c' (assign visit id target value) := by
  refine (hV target c c' h).andThen fun c1 c1' h1 => ?_
  have hself : target ∈ s.siblings (some target) :=
    StoreOk.mem_siblings_self (Nat.zero_lt_of_lt (lt_size_of_kind? hk))
  obtain ⟨k, hkind, hfits⟩ := hs.exists_kind hk
    ⟨.target, some target, NodeKind.isReference⟩ (.head _) hself
  cases k with
  | reference r => exact assigned_accepts hV h1.toNarrower (h1.firm r hkind) value
  | _ => cases hfits

theorem read_accepts (target : NodeId) : AcceptsSame (Narrower s s') c c' (read visit target) := by
  refine (hV.any h).andThen fun c1 c1' h1 => .look ?_
  have hreference := h1.store.reference? target
  dsimp only
  generalize c1.store.reference? target = o, c1'.store.reference? target = o' at hreference
  cases hreference with
  | none => exact .done h1
  | @some r r' hr =>
    dsimp only
    rw [hr.result.isNone_eq, hr.name]
    split
    · exact .report
    · have hkind := h1.symbols.lookup r.name
      refine .look ?_
      generalize c1.symbols.lookup r.name = o, c1'.symbols.lookup r.name = o' at hkind
      cases hkind with
      | none => exact .done h1
      | some hs =>
        rw [any_some, any_some, hs.kind]
        split
        · exact .report
        · exact .done h1

theorem guard_accepts : AcceptsSame (Narrower s s') c c' (guard visit id) := by
  refine (hV.any h).andThen fun c1 c1' h1 => .look ?_
  by_cases hboolean : c1.store.resultType? id = some .boolean
  · have hboolean' := (h1.store.resultType? id).eq_some (by decide) hboolean
    rw [if_pos hboolean, if_pos hboolean']
    exact .done h1
  · rw [if_neg hboolean]
    exact .report

omit hV in
theorem returnable_accepts (value : NodeId) (expected : ScalarType) :
    AcceptsSame (Narrower s s') c c' (returnable value expected) := by
  refine .look ?_
  dsimp only
  split
  next hcoerces =>
    rw [if_pos ((h.store.resultType? value).coercesTo expected hcoerces)]
    exact .done h
  next => exact .complain

theorem returnValue_accepts (value : Option NodeId) :
    AcceptsSame (Narrower s s') c c' (returnValue visit id value) := by
  have hfunction : c'.function.bind c'.store.function? = c.function.bind c.store.function? := by
    rw [h.function, funext h.store.function?_eq]
  refine .look ?_
  rw [hfunction]
  cases c.function.bind c.store.function? with
  | none => exact .report
  | some f =>
    dsimp only
    split
    · exact .done h
    · exact .report
    · exact .report
    · exact (hV.any h).andThen fun c1 c1' h1 => returnable_accepts h1 _ _

theorem condition_accepts (node : ConditionNode) :
    AcceptsSame (Narrower s s') c c' (condition visit node) :=
  (guard_accepts hV h).addThree (fun _ _ h1 => hV.any h1) fun _ _ h2 =>
    .optional h2 fun _ _ => hV.any h2

theorem whileLoop_accepts (guardNode body : NodeId) :
    AcceptsSame (Narrower s s') c c' (whileLoop visit guardNode body) :=
  (guard_accepts hV h).add fun _ _ h1 => hV.any h1

theorem forLoop_accepts (f : ForNode) : AcceptsSame (Narrower s s') c c' (forLoop visit id f) := by
  refine .inScope (R := Narrower s s') ?_ fun _ _ h1 => h1.popScope
  have hrest : ∀ {x}, Accepts (Narrower s s') c.pushScope c'.pushScope x x →
      AcceptsSame (Narrower s s') c.pushScope c'.pushScope
        (do let l ← x; let m ← visit f.declaration; let n ← visit f.body; pure (l + m + n)) :=
    fun hbounds => hbounds.addThree (fun _ _ h1 => hV.any h1) fun _ _ h1 => hV.any h1
  dsimp only
  split
  · exact hrest .report
  · exact hrest (.done h.pushScope)

theorem compound_accepts (b : CompoundNode) : AcceptsSame (Narrower s s') c c' (compound visit b) :=
  .inScope ((hV.list h.pushScope .reportAll b.declarations).add fun _ _ h1 =>
    hV.list h1 .reportAll b.statements) fun _ _ h1 => h1.popScope

theorem program_accepts (p : ProgramNode) :
    AcceptsSame (Narrower s s') c c' (program visit id p) := by
  refine .inScope (R := Narrower s s') (.declare ?_) fun _ _ h1 => h1.popScope
  refine Accepts.addThree (hV.list ?_ .reportAll p.declarations)
    (fun _ _ h1 => hV.list h1 .reportAll p.functions) fun _ _ h1 => hV.any h1
  exact { h.pushScope with symbols := h.pushScope.symbols.insert (.refl _) (.inl rfl) }

theorem function_accepts (f : FunctionNode) :
    AcceptsSame (Narrower s s') c c' (function visit id f) := by
  have hheader := declareFunction_accepts h id f
  unfold function
  cases f.body with
  | none => exact hheader.bind (fun _ _ h1 => .done h1) fun _ _ _ => Accepts.eq_zero_of_pure
  | some body =>
    refine hheader.add fun c1 c1' h1 => ?_
    refine .within (R := Narrower s s') id ?_ fun _ _ h2 => h2.within h1.function
    refine .inScope (R := Narrower s s') ?_ fun _ _ h2 => h2.popScope
    exact (hV.list (h1.within rfl).pushScope .reportAll f.parameters).add fun _ _ h2 =>
      hV.list h2 .reportAll (some body)

end Statements

/-! ### Nodes and programs -/

/-- Statements and declarations are no terms. -/
theorem visited_of_other (hk : s.kind? id = some k) (hterm : k.isValue = false)
    (h : Narrower s s' c1 c1') : Visited s s' id c c1 c1' where
  toNarrower := h
  quiet := by
    rintro ⟨k', hk', hterm'⟩
    cases hk.symm.trans hk'
    cases hterm.symm.trans hterm'
  firm := by
    intro r hr
    cases hk.symm.trans hr
    cases hterm

/-- Terms other than variable references. -/
theorem visited_of_term (hk : (s.kind? id).map bare = some k)
    (hterm : k.isReference = false) (h : NarrowerIn s s' c.symbols c1 c1') :
    Visited s s' id c c1 c1' where
  toNarrower := h.toNarrower
  quiet := fun _ => h.unchanged
  firm := by
    intro r hr
    rw [hr] at hk
    cases hk
    cases hterm

theorem kind_accepts (N : Narrowing s s') (hV : VisitsNarrower s s' visit) (h : Narrower s s' c c')
    {k' : NodeKind} (hnarrowed : k.NarrowedAs k') (hk : c.store.kind? id = some k)
    (hk' : c'.store.kind? id = some k') :
    Accepts (Visited s s' id c) c c' (kind visit id k) (kind visit id k') := by
  have hbare : (s.kind? id).map bare = some k.bare := by
    rw [← h.alike.kind, hk, map_some]
  have hbare' : (s'.kind? id).map bare = some k'.bare := by
    rw [← h.alike'.kind, hk', map_some]
  have hquiet : NarrowerIn s s' c.symbols c c' := ⟨h, rfl⟩
  have hother : ∀ {x x'}, k.isPlain = true → k.isValue = false →
      Accepts (Narrower s s') c c' x x' → Accepts (Visited s s' id c) c c' x x' :=
    fun hplain hterm hx =>
      hx.mono fun _ _ h1 => visited_of_other (h.alike.symm.kind?_plain hk hplain) hterm h1
  cases hnarrowed with
  | literal => exact .done (visited_of_term hbare rfl hquiet)
  | type => exact hother rfl rfl (.done h)
  | expression he =>
    exact (expression_accepts N.ok hV hquiet he hbare hbare').mono fun _ _ h1 =>
      visited_of_term hbare rfl h1
  | reference hr =>
    exact (reference_accepts N.ok hV h hr hbare).mono fun _ _ h1 =>
      ⟨h1.1.toNarrower, fun _ => h1.1.unchanged, fun _ _ => h1.2⟩
  | refl =>
    cases k with
    | program p => exact hother rfl rfl (program_accepts hV h p)
    | declaration d =>
      exact hother rfl rfl (declaration_accepts N h (h.alike.symm.kind?_plain hk rfl))
    | expression e =>
      exact (expression_accepts N.ok hV hquiet ⟨rfl, rfl, rfl, .refl _⟩ hbare hbare').mono
        fun _ _ h1 => visited_of_term hbare rfl h1
    | compound b => exact hother rfl rfl (compound_accepts hV h b)
    | print value => exact hother rfl rfl (print_accepts hV h value)
    | reference r =>
      exact (reference_accepts N.ok hV h ⟨rfl, rfl, .refl _⟩ hbare).mono fun _ _ h1 =>
        ⟨h1.1.toNarrower, fun _ => h1.1.unchanged, fun _ _ => h1.2⟩
    | assign target value =>
      exact hother rfl rfl (assign_accepts hV h N.ok (h.alike.symm.kind?_plain hk rfl))
    | read target => exact hother rfl rfl (read_accepts hV h target)
    | condition node => exact hother rfl rfl (condition_accepts hV h node)
    | whileLoop guardNode body => exact hother rfl rfl (whileLoop_accepts hV h guardNode body)
    | returnValue value => exact hother rfl rfl (returnValue_accepts hV h value)
    | forLoop f => exact hother rfl rfl (forLoop_accepts hV h f)
    | call node =>
      exact (call_accepts N hV hquiet hbare).mono fun _ _ h1 => visited_of_term hbare rfl h1
    | function f => exact hother rfl rfl (function_accepts hV h f)
    | literal l => exact .done (visited_of_term hbare rfl hquiet)
    | type _ => exact hother rfl rfl (.done h)
    | name _ => exact hother rfl rfl (.done h)
    | number _ => exact hother rfl rfl (.done h)
    | epsilon _ _ => exact hother rfl rfl (.done h)

theorem node_accepts (N : Narrowing s s') (hV : VisitsNarrower s s' visit)
    (h : Narrower s s' c c') :
    AcceptsSame (Visited s s' id c) c c' (node visit id) := by
  have hkind := h.store.kind id
  refine .look ?_
  dsimp only
  cases hk : c.store.kind? id with
  | none =>
    rw [hk] at hkind
    generalize c'.store.kind? id = o' at hkind
    cases hkind
    have hnone : (s.kind? id).map bare = none := by
      rw [← h.alike.kind, hk, map_none]
    rw [map_eq_none_iff] at hnone
    refine .done ⟨h, fun _ => rfl, fun r hr => ?_⟩
    cases hnone.symm.trans hr
  | some k =>
    rw [hk] at hkind
    cases hk' : c'.store.kind? id with
    | none =>
      rw [hk'] at hkind
      cases hkind
    | some k' =>
      rw [hk'] at hkind
      cases hkind with
      | some hnarrowed => exact kind_accepts N hV h hnarrowed hk hk'

theorem visitUpTo_accepts (N : Narrowing s s') (n : Nat) : VisitsNarrower s s' (visitUpTo n) := by
  induction n with
  | zero =>
    intro id c c' _ c1 hrun
    cases hrun
  | succ n ih =>
    intro id c c' h
    exact .deeper (node_accepts N ih h.deeper) fun _ _ h1 => h1.higher

theorem visit_accepts (N : Narrowing s s') : VisitsNarrower s s' Check.visit := by
  intro id c c' h c1 hrun
  obtain ⟨c1', hrun', h1⟩ := visitUpTo_accepts N (c.limit - c.depth) id c c' h c1 hrun
  refine ⟨c1', ?_, h1⟩
  rwa [Check.visit, h.limit, h.depth]

end Check

/-- Checkers that start with a tree and with a narrower one. -/
theorem Narrowing.start (N : Narrowing s s') (diagnostics diagnostics' : Diagnostics)
    (options : CheckOptions) :
    Narrower s s' (.start s .empty diagnostics options)
      (.start s' .empty diagnostics' options) where
  alike := .refl s
  alike' := .refl s'
  store := N.toNarrowed
  symbols := ⟨rfl, rfl, fun _ => .none⟩
  function := rfl
  depth := rfl
  limit := rfl

/-! ### Types that are noted -/

/-- The type that checking notes in a node. -/
def NodeKind.noted? : NodeKind → Option ScalarType
  | .expression e => e.result
  | .reference r => r.result
  | .call c => c.result
  | _ => none

/-- The type that is noted in the node with a number. -/
def Store.noted? (s : Store) (id : NodeId) : Option ScalarType := (s.kind? id).bind NodeKind.noted?

/-- Narrower stores have the same operators, and the same types noted or narrower ones. -/
theorem Store.Narrowed.annotations {t t' : Store} (h : t.Narrowed t') (id : NodeId) :
    t'.operator? id = t.operator? id ∧ Narrows (t.noted? id) (t'.noted? id) := by
  have hkind := h.kind id
  rw [operator?, operator?, noted?, noted?]
  generalize t.kind? id = o, t'.kind? id = o' at hkind
  cases hkind with
  | none => exact ⟨rfl, .refl none⟩
  | some hnarrowed =>
    cases hnarrowed with
    | refl => exact ⟨rfl, .refl _⟩
    | literal => exact ⟨rfl, .refl none⟩
    | type => exact ⟨rfl, .refl none⟩
    | expression he => exact ⟨congrArg some he.operator, he.result⟩
    | reference hr => exact ⟨rfl, hr.result⟩

/-- A parsed program that is accepted is accepted with integers in the place of any of its real
literals, and with the same operators. The types that are noted in its nodes are the same too, but
some of them are integer where they were real. -/
theorem Check.visit_narrow {ts : List Token} {limit : Nat} {s : Store} {root : NodeId}
    (h : parseTokens ts limit = .ok (s, root)) {diagnostics : Diagnostics} {options : CheckOptions}
    {c : Checker} (hrun : Check.visit root (.start s .empty diagnostics options) = .ok 0 c)
    (choice : NodeId → Option Int) (diagnostics' : Diagnostics) :
    ∃ c', Check.visit root (.start (s.narrow choice) .empty diagnostics' options) = .ok 0 c' ∧
      ∀ id, c'.store.operator? id = c.store.operator? id ∧
        (c'.store.noted? id = c.store.noted? id ∨
          c.store.noted? id = some .real ∧ c'.store.noted? id = some .integer) := by
  have N : Narrowing s (s.narrow choice) := narrowing_of_parseTokens h
  obtain ⟨c', hrun', hnarrower⟩ :=
    (Check.visit_accepts N).any (N.start diagnostics diagnostics' options) c hrun
  exact ⟨c', hrun', hnarrower.store.annotations⟩

/-- A variable that is assigned the sum of a constant and a literal, both real. -/
def realSumTokens : List Token :=
  tokensOf "p; var k: 0.0; var x: real; begin x := k + 1.0; end end"

theorem Check.visit_narrow_realSumTokens : ∃ (s : Store) (root : NodeId) (c c' : Checker),
    parseTokens realSumTokens 9 = .ok (s, root) ∧
      Check.visit root (.start s .empty .silent ⟨false, 9⟩) = .ok 0 c ∧
      Check.visit root (.start (s.narrow fun _ => some 3) .empty .silent ⟨false, 9⟩) = .ok 0 c' ∧
      c.store.noted? 7 = some .real ∧ c'.store.noted? 7 = some .real ∧
      c.store.noted? 12 = some .real ∧ c'.store.noted? 12 = some .integer := by
  have hrun : ((parseTokens realSumTokens 9).toOption.map fun tree =>
      let c := Checker.start tree.1 .empty .silent ⟨false, 9⟩
      let c' := Checker.start (tree.1.narrow fun _ => some 3) .empty .silent ⟨false, 9⟩
      ((Check.ending (Check.visit tree.2 c)).toOption,
        [7, 12].map ((Check.visit tree.2).after c).store.noted?,
        [7, 12].map ((Check.visit tree.2).after c').store.noted?)) =
      some (some 0, [some .real, some .real], [some .real, some .integer]) := by
    rw [realSumTokens, tokensOf_ofList]
    decide +kernel
  obtain ⟨s, root, h, hrun⟩ := exists_parse_of_map hrun
  simp only [Prod.mk.injEq, List.map_cons, List.map_nil, List.cons.injEq, and_true] at hrun
  obtain ⟨hcount, ⟨htarget, hsum⟩, htarget', hsum'⟩ := hrun
  obtain ⟨c, hok⟩ := Check.exists_ok_of_ending hcount
  obtain ⟨c', hok', -⟩ := Check.visit_narrow h hok (fun _ => some 3) .silent
  rw [Check.after_of_ok hok] at htarget hsum
  rw [Check.after_of_ok hok'] at htarget' hsum'
  exact ⟨s, root, c, c', h, hok, hok', htarget, htarget', hsum, hsum'⟩

end PLang
