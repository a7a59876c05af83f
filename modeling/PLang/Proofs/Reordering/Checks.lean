import PLang.Proofs.Checking.ScopeBalance
import PLang.Proofs.Reordering.Pace
import PLang.Proofs.Scoping.Steps

/-!
# Every check keeps pace

Side by side in two trees that are paired, every check does the same. This goes for all nodes that
are visited in both trees but the blocks that start with other statements. A node that declares
nothing for the construct around it leaves the open scopes as they were.
-/

namespace PLang

open NodeKind Store

variable {s : Store} {P : Pairing s} {d : Nat} {free : Prop} {scopes : List (List Symbol)}
  {c c' : Checker} {id child : NodeId} {k : NodeKind} {part : Part}
    {visit visit' : NodeId → Logged Nat}

variable {k' : NodeKind}

/-- Declarations and functions stand in constructs with a scope. -/
theorem NodeKind.isDeclaring_of_fits (hk : k.isDeclaring = false) (hscope : k.hasOwnScope = false)
    (hpart : part ∈ k.parts) (hfits : part.fits k' = true) : k'.isDeclaring = false := by
  have hvalue : k.isValue = true → k'.isDeclaring = false := fun hvalue =>
    isDeclaring_of_isValue (isValue_of_fits hvalue hpart hfits)
  cases k with
  | expression | reference | call | literal => exact hvalue rfl
  | program | compound | forLoop => cases hscope
  | declaration | function => cases hk
  | _ =>
    revert hfits
    revert part
    cases k' <;> simp [parts, isExpression, isReference, isCompound, isNumber, isDeclaring]

/-- Checking writes into no slot of a node. -/
theorem NodeKind.exists_part_of_bare (hbare : k'.bare = k.bare) (hpart : part ∈ k'.parts) :
    ∃ part0 ∈ k.parts, part0.node = part.node := by
  have hnodes : ∀ k : NodeKind, k.bare.parts.map Part.node = k.parts.map Part.node := by
    intro k
    cases k <;> rfl
  have hmem := List.mem_map_of_mem (f := Part.node) hpart
  rw [← hnodes, hbare, hnodes] at hmem
  exact List.mem_map.1 hmem

namespace Pairing

/-! ### Nodes that are visited -/

/-- A node that is visited in both trees. -/
structure Stop (P : Pairing s) (id : NodeId) (k : NodeKind) : Prop where
  visited : id ∈ P.visited
  outside : id ∉ P.blocks
  holds : s.kind? id = some k

/-- A list that is linked alike in both trees. -/
structure Unmoved (P : Pairing s) (head : Option NodeId) : Prop where
  size : 0 < s.size
  notMem : ∀ child ∈ s.siblings head, child ∉ P.moved

/-- The lists of a node other than the blocks are linked alike. -/
theorem unmoved (hid : id ∉ P.blocks) (hk : s.kind? id = some k) (hpart : part ∈ k.parts) :
    P.Unmoved part.node :=
  ⟨Nat.zero_lt_of_lt (lt_size_of_kind? hk), P.apart id hid k hk part hpart⟩

namespace Stop

theorem unmoved (h : P.Stop id k) (hpart : part ∈ k.parts) : P.Unmoved part.node :=
  Pairing.unmoved h.outside h.holds hpart

theorem mem_visited (h : P.Stop id k) (htype : k.isType = false) (hpart : part ∈ k.parts)
    (hchild : child ∈ s.siblings part.node) : child ∈ P.visited :=
  P.parts id h.visited h.outside k h.holds htype part hpart child hchild

/-- The check of a visited node makes the same note in both trees. -/
theorem note {n : Note} (h : P.Stop id k) (hbare : k'.bare = k.bare) (hn : n.Suits id k') :
    P.Paces d free (Logged.note n) (Logged.note n) := by
  cases n with
  | result place type =>
    obtain rfl := hn
    exact .note h.visited (fun _ ht => ht.trans (setResult_alike type)) fun _ ht =>
      ht.trans (setResult_alike type)
  | reference place type =>
    obtain rfl := hn
    exact .note h.visited (fun _ ht => ht.trans (setReferenceType_alike type)) fun _ ht =>
      ht.trans (setReferenceType_alike type)
  | call place type =>
    obtain rfl := hn
    exact .note h.visited (fun _ ht => ht.trans (setCallType_alike type)) fun _ ht =>
      ht.trans (setCallType_alike type)
  | operator place meant =>
    obtain ⟨rfl, rfl, e, rfl, hadd⟩ := hn
    refine .note h.visited (fun _ ht => ht.setConcat ?_ hadd) fun _ ht => ht.setConcat ?_ hadd
    · rw [h.holds, hbare]
      rfl
    · rw [P.kind place h.outside, h.holds, hbare]
      rfl

end Stop

/-- Two ways of checking nodes, of which the second one keeps pace. -/
def PacesAll (P : Pairing s) (d : Nat) (visit visit' : NodeId → Logged Nat) : Prop :=
  ∀ id ∈ P.visited, ∀ k, s.kind? id = some k →
    P.Paces d (k.isDeclaring = true) (visit id) (visit' id)

/-! ### What checks of expressions read -/

namespace Abreast

variable (h : P.Abreast d scopes c c')

include h

theorem exists_expression (hid : id ∈ P.visited) {e : ExpressionNode}
    (he : c.store.expression? id = some e) :
    ∃ e0, P.Stop id (.expression e0) ∧ e.left = e0.left ∧ e.right = e0.right := by
  have hk := expression?_eq_some.1 he
  obtain ⟨k, hk0, hbare⟩ := h.linked.alike.symm.kind?_cases hk
  obtain ⟨e0, rfl, hleft, hright⟩ := exists_expression_of_bare hbare
  exact ⟨e0, ⟨hid, P.notMem_blocks hk0 rfl, hk0⟩, hleft.symm, hright.symm⟩

theorem exists_reference (hid : id ∈ P.visited) {r : ReferenceNode}
    (hr : c.store.reference? id = some r) :
    ∃ r0, P.Stop id (.reference r0) ∧ r.indices = r0.indices := by
  have hk := reference?_eq_some.1 hr
  obtain ⟨k, hk0, hbare⟩ := h.linked.alike.symm.kind?_cases hk
  obtain ⟨r0, rfl, -, hindices⟩ := exists_reference_of_bare hbare
  exact ⟨r0, ⟨hid, P.notMem_blocks hk0 rfl, hk0⟩, hindices.symm⟩

/-- What an expression wraps stands in both trees, and so do its subscripts. -/
theorem wrappedReference?_eq (hid : id ∈ P.visited) :
    c'.wrappedReference? id = c.wrappedReference? id ∧
      ∀ r, c.wrappedReference? id = some r → P.Unmoved r.indices := by
  unfold Checker.wrappedReference?
  rw [h.linked.expression?_eq (P.subset hid)]
  cases he : c.store.expression? id with
  | none => exact ⟨rfl, nofun⟩
  | some e =>
    obtain ⟨e0, hstop, hleft, -⟩ := h.exists_expression hid he
    cases hchild : e.left with
    | none =>
      by_cases ho : e.operator = .reference <;> simp [Option.filter, ho, hchild]
    | some left =>
      rw [hleft] at hchild
      have hpart : ⟨.left, e0.left, e0.operator.fitsLeft⟩ ∈ (expression e0).parts :=
        (.head _)
      have hunmoved : P.Unmoved e0.left := hstop.unmoved hpart
      rw [hchild] at hunmoved
      have hmem : left ∈ s.siblings e0.left := by
        rw [hchild]
        exact StoreOk.mem_siblings_self hunmoved.size
      have hvisited := hstop.mem_visited rfl hpart hmem
      have hsame := h.linked.reference?_eq (P.subset hvisited)
      by_cases ho : e.operator = .reference
      · simp only [Option.filter, ho, decide_true, if_pos, Option.bind_some, hleft, hchild, hsame,
          true_and]
        intro r hr
        obtain ⟨r0, hstop', hindices⟩ := h.exists_reference hvisited hr
        rw [hindices]
        have hpart' : ⟨.indices, r0.indices, isExpression⟩ ∈ (reference r0).parts :=
          (.head _)
        exact hstop'.unmoved hpart'
      · simp [Option.filter, ho]

theorem views : Views (fun name => name) (· ∈ P.visited) P.Unmoved c c' where
  lookup name := (h.lookup name).trans ((Views.refl c).lookup name)
  level? := h.level?
  inside := h.function
  function? id := (h.linked.function?_eq id).trans ((Views.refl c).function? id)
  type? := funext h.linked.type?_eq
  literal? := funext h.linked.literal?_eq
  dimensions := funext h.linked.dimensions_eq
  resultType? id hid := h.linked.resultType?_eq (P.subset hid)
  reference? id hid :=
    (h.linked.reference?_eq (P.subset hid)).trans ((Views.refl c).reference? id trivial)
  call? id hid := (h.linked.call?_eq (P.subset hid)).trans ((Views.refl c).call? id trivial)
  wrapped id hid := (h.wrappedReference?_eq hid).1.trans ((Views.refl c).wrapped id trivial)
  siblings head hhead := h.linked.siblings_eq hhead.notMem
  indices id r hid hr := (h.wrappedReference?_eq hid).2 r hr
  parameterTypes id f hf := by
    rw [h.linked.alike.function?_eq] at hf
    have hk := Store.function?_eq_some.1 hf
    have hpart : ⟨.parameterTypes, f.parameterTypes, NodeKind.isType⟩ ∈
      (NodeKind.function f).parts := by
      simp [NodeKind.parts]
    exact unmoved (P.notMem_blocks hk rfl) hk hpart

end Abreast

/-- Both checks keep pace at a level of nesting, as a tandem. -/
def tandem (P : Pairing s) (d : Nat) : Tandem where
  rename name := name
  Abreast c c' := ∃ scopes, P.Abreast d scopes c c'
  Known id := id ∈ P.visited
  Linked := P.Unmoved
  Member head id := id ∈ s.siblings head
  Site id k := ∃ k0, P.Stop id k0 ∧ k.bare = k0.bare
  Rel b x x' := P.Paces d (b = true) x x'
  views h := h.choose_spec.views
  size h := h.choose_spec.linked.size_eq
  next h hhead hid := by
    obtain ⟨scopes, hc⟩ := h
    rw [hc.linked.next?_eq (hhead.notMem _ hid), hc.linked.alike.next]
    exact ⟨rfl, fun other => P.store.mem_siblings_next hid⟩
  self h := StoreOk.mem_siblings_self h.size
  name h _ _ := by
    obtain ⟨scopes, hc⟩ := h
    rw [hc.linked.name?_eq]
  zero := .pure 0
  report {_ cause} id _ := by
    rw [Cause.rename_self]
    exact .report cause id
  look h := .look fun scopes c c' hc => h c c' ⟨scopes, hc⟩
  note hsite hn h := by
    obtain ⟨k0, hstop, hbare⟩ := hsite
    exact .bind (hstop.note hbare hn) fun _ => h
  declare _ _ _ _ _ _ h := .bind ((Paces.declare _ _ _ _ _ _).mono fun _ => rfl) fun _ => h
  add hx hy := hx.bind fun m => (hy m).bind fun n => .pure (m + n)
  inScope h := .inScope (h.mono fun _ => trivial)
  within id h := .within id h

/-! ### Nodes -/

namespace PacesAll

variable (V : P.PacesAll d visit visit')

include V

/-- A node, into which something may have been written. -/
theorem kind (h : P.Stop id k) (hbare : k'.bare = k.bare) :
    P.Paces d (k.isDeclaring = true) (Logged.kind visit id k') (Logged.kind visit' id k') := by
  have hsame : ∀ k : NodeKind, (k.bare.isDeclaring, k.bare.hasOwnScope, k.bare.isType) =
      (k.isDeclaring, k.hasOwnScope, k.isType) := by
    intro k
    cases k <;> rfl
  obtain ⟨hdeclaring, hscope, htype⟩ : k'.isDeclaring = k.isDeclaring ∧
      k'.hasOwnScope = k.hasOwnScope ∧ k'.isType = k.isType := by
    have heq := hsame k'
    rw [hbare, hsame k] at heq
    simpa [eq_comm] using heq
  have hkind : P.Paces d (k'.isDeclaring = true) (Logged.kind visit id k')
      (Logged.kind visit' id (k'.rename fun name => name)) := by
    refine (P.tandem d).kind ⟨k, h, hbare⟩ fun hk' part' hpart' => ?_
    obtain ⟨part, hpart, hnode⟩ := exists_part_of_bare hbare hpart'
    rw [← hnode]
    refine ⟨h.unmoved hpart, fun child hchild => ?_⟩
    have hvisited := h.mem_visited (htype ▸ hk') hpart hchild
    obtain ⟨k1, hk1, hfits⟩ := P.store.exists_kind h.holds part hpart hchild
    refine ⟨hvisited, (V child hvisited k1 hk1).mono fun hdeclares => ?_⟩
    -- what stands in a node without a scope of its own declares nothing if the node does not
    rw [hdeclaring, hscope]
    by_contra hquiet
    rw [Bool.not_eq_true, Bool.or_eq_false_iff] at hquiet
    rw [isDeclaring_of_fits hquiet.1 hquiet.2 hpart hfits] at hdeclares
    cases hdeclares
  rwa [k'.rename_self, hdeclaring] at hkind

theorem node (h : P.Stop id k) :
    P.Paces d (k.isDeclaring = true) (Logged.node visit id) (Logged.node visit' id) := by
  refine .look fun _ c c' hc => ?_
  obtain ⟨k', hk', hbare⟩ := hc.linked.alike.kind?_cases h.holds
  dsimp only
  rw [hc.linked.kind id (P.subset h.visited) h.outside, hk']
  exact V.kind h hbare

end PacesAll

end Pairing

end PLang
