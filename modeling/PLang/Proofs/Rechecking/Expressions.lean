import Mathlib.Data.List.Perm.Basic
import Mathlib.Order.Interval.Set.Disjoint
import PLang.Proofs.Checking.Expression
import PLang.Proofs.Rechecking.Runs
import PLang.Proofs.Tree.Shape

/-!
# Checking the expressions of a variant

The parts of a node take stretches of nodes that do not meet, so that what is written while one part
is checked does not touch the others. An expression gets its notes after its operands, without
errors in them, have got theirs. The only check that differs between a tree and a variant is that of
an addition of strings, which the variant may already hold as a concatenation.
-/

namespace PLang

open Check Checker NodeKind Option Set Store

variable {link : Location → Location → Prop} {s : Store} {m m1 : Stage s} {A B : Set NodeId}
  {V : Variant s link} {c' : Checker} {may : Prop} {visit : NodeId → Check Nat} {lo hi root : Nat}

open Stage

variable {fits : NodeKind → Bool} {head : Option NodeId} {id : NodeId} {k : NodeKind}
  {l r : Option ScalarType} {o : Operator}

/-! ### Parts -/

/-- The nodes in `A` are the trees of the list that starts at a node, inside of a stretch. -/
def PartIn (s : Store) (lo hi : Nat) (fits : NodeKind → Bool) (head : Option NodeId)
    (A : Set NodeId) : Prop :=
  ∃ (lo' hi' : Nat) (slot : Slot), A = Set.Ico lo' hi' ∧ lo ≤ lo' ∧ hi' ≤ hi ∧
    Row s lo' hi' slot fits head

theorem PartIn.subset (h : PartIn s lo hi fits head A) : A ⊆ Set.Ico lo hi := by
  obtain ⟨lo', hi', slot, rfl, hlo, hhi, -⟩ := h
  exact Set.Ico_subset_Ico hlo hhi

theorem PartIn.inside (h : PartIn s lo hi fits head A) : A ⊆ Set.Icc lo hi :=
  h.subset.trans Set.Ico_subset_Icc_self

theorem PartIn.members (h : PartIn s lo hi fits head A) (hid : id ∈ s.siblings head) :
    ∃ k, s.kind? id = some k ∧ fits k = true := by
  obtain ⟨lo', hi', slot, -, -, -, hrow⟩ := h
  exact hrow.members s.size id hid

/-- The trees in some slots take stretches that do not meet. -/
theorem Tiling.partsIn {parts : List Part} (h : Tiling s lo hi parts) :
    ∃ As, List.Forall₂ (fun part => PartIn s lo hi part.fits part.node) parts As ∧
      As.Pairwise Disjoint ∧ ∀ A ∈ As, A ⊆ Set.Ico lo hi := by
  induction parts generalizing lo with
  | nil => exact ⟨[], .nil, .nil, by simp⟩
  | cons part parts ih =>
    cases h with
    | @cons _ mid _ _ _ hrow htiling =>
      obtain ⟨As, hAs, hapart, hinside⟩ := ih htiling
      have hfirst : PartIn s lo hi part.fits part.node (Set.Ico lo mid) :=
        ⟨lo, mid, part.slot, rfl, Nat.le_refl lo, htiling.le, hrow⟩
      refine ⟨Set.Ico lo mid :: As, .cons hfirst (hAs.imp ?_), .cons ?_ hapart, ?_⟩
      · intro part A hA
        obtain ⟨lo', hi', slot, hA, hlo, hhi, hrow'⟩ := hA
        exact ⟨lo', hi', slot, hA, Nat.le_trans hrow.le hlo, hhi, hrow'⟩
      · intro A hA
        exact Set.disjoint_left.2 fun id hid hid' => Nat.not_lt.2 (hinside A hA hid').1 hid.2
      · intro A hA
        by_cases hfirst : A = Set.Ico lo mid
        · rw [hfirst]
          exact Set.Ico_subset_Ico_right htiling.le
        · have hmem : A ∈ As := (List.mem_cons.1 hA).resolve_left hfirst
          exact (hinside A hmem).trans (Set.Ico_subset_Ico_left hrow.le)

section

variable (h : Subtree s lo root k) (ht : k.isType = false)

include h ht

/-- The parts of a node take stretches that do not meet. -/
theorem Subtree.partsIn :
    ∃ As, List.Forall₂ (fun part => PartIn s lo root part.fits part.node) k.parts As ∧
      As.Pairwise Disjoint := by
  cases h with
  | copy => cases ht
  | node _ _ hperm htiling =>
    obtain ⟨As, hAs, hapart, -⟩ := htiling.partsIn
    obtain ⟨As', hAs', hperm'⟩ := List.perm_comp_forall₂ hperm.symm hAs
    exact ⟨As', hAs', (hperm'.pairwise_iff fun h => Disjoint.symm h).2 hapart⟩

theorem Subtree.partIn {part : Part} {parts : List Part} (hk : k.parts = part :: parts) :
    ∃ A, PartIn s lo root part.fits part.node A := by
  obtain ⟨As, hparts, -⟩ := h.partsIn ht
  rw [hk] at hparts
  cases hparts with
  | cons hA => exact ⟨_, hA⟩

theorem Subtree.partPair {first second : Part} (hk : k.parts = [first, second]) :
    ∃ A B, PartIn s lo root first.fits first.node A ∧ PartIn s lo root second.fits second.node B ∧
      Disjoint A B := by
  obtain ⟨As, hparts, hapart⟩ := h.partsIn ht
  simp only [hk, List.forall₂_cons_left_iff, List.forall₂_nil_left_iff] at hparts
  obtain ⟨A, -, hA, ⟨B, -, hB, rfl, rfl⟩, rfl⟩ := hparts
  exact ⟨A, B, hA, hB, by simpa using hapart⟩

theorem Subtree.partTriple {first second third : Part} (hk : k.parts = [first, second, third]) :
    ∃ A B C, PartIn s lo root first.fits first.node A ∧ PartIn s lo root second.fits second.node B ∧
      PartIn s lo root third.fits third.node C ∧ (Disjoint A B ∧ Disjoint A C) ∧ Disjoint B C := by
  obtain ⟨As, hparts, hapart⟩ := h.partsIn ht
  simp only [hk, List.forall₂_cons_left_iff, List.forall₂_nil_left_iff] at hparts
  obtain ⟨A, -, hA, ⟨B, -, hB, ⟨C, -, hC, rfl, rfl⟩, rfl⟩, rfl⟩ := hparts
  exact ⟨A, B, C, hA, hB, hC, by simpa using hapart⟩

end

/-- The nodes that checking comes to: all but types. -/
def NodeKind.isChecked (k : NodeKind) : Bool := !k.isType

/-- Checking trees of some kinds inside of a stretch goes the same way, and what is found without an
error is noted. -/
def EchoesIn (s : Store) (link : Location → Location → Prop) (visit : NodeId → Check Nat)
    (fits : NodeKind → Bool) (lo hi : Nat) (may : Prop) : Prop :=
  ∀ (lo' root : Nat) (k : NodeKind), Subtree s lo' root k → lo ≤ lo' → root < hi → fits k = true →
    ∀ m : Stage s, m.Fresh (Set.Icc lo' root) →
      Echoed link m (Set.Icc lo' root) (visit root) may
        fun n W => n = 0 → s.Known W root

namespace EchoesIn

variable {fits fits' : NodeKind → Bool} {head : Option NodeId}

theorem narrow (hvisit : EchoesIn s link visit fits' lo hi may)
    (hfits : ∀ {k}, fits k = true → fits' k = true) : EchoesIn s link visit fits lo hi may :=
  fun lo' root k htree hlo hhi hk => hvisit lo' root k htree hlo hhi (hfits hk)

section

variable (hvisit : EchoesIn s link visit fits lo hi may)

include hvisit

variable {policy : ListPolicy}

/-- Lists are checked element by element. -/
theorem listUpTo {n lo' hi' : Nat} {slot : Slot}
    (hrow : Row s lo' hi' slot fits head) (hlo : lo ≤ lo') (hhi : hi' ≤ hi) (hn : hi' ≤ n + lo')
    (hfresh : m.Fresh (Set.Ico lo' hi')) :
    Echoed link m (Set.Ico lo' hi') (listUpTo visit policy n head) may
      fun found W => found = 0 → ∀ i, ∀ id ∈ s.chain i head, s.Known W id := by
  induction n generalizing lo' head m with
  | zero =>
    cases hrow with
    | nil => exact .pure (by simp)
    | cons htree _ _ _ hrow =>
      have hle := htree.le
      have hle' := hrow.le
      omega
  | succ n ih =>
    cases hrow with
    | nil => exact .pure (by simp)
    | @cons _ _ root _ _ _ k htree hk hnext _ hrow =>
      have hle := htree.le
      have hle' := hrow.le
      have hsplit : Set.Ico lo' hi' = Set.Icc lo' root ∪ Set.Ico (root + 1) hi' := by
        ext id
        simp only [mem_Ico, mem_union, mem_Icc]
        omega
      have hapart : Disjoint (Set.Icc lo' root) (Set.Ico (root + 1) hi') :=
        disjoint_left.2 fun id hid hid' => Nat.not_lt.2 hid'.1 (Nat.lt_succ_of_le hid.2)
      rw [hsplit] at hfresh ⊢
      have hfirst := hvisit lo' root k htree hlo (by omega) hk m
        (hfresh.mono subset_union_left)
      refine hfirst.bind hapart subset_union_left subset_union_right
        fun found m1 hm hfound => ?_
      by_cases hstop : found > 0 ∧ policy = .stopAtFirst
      · simp only [if_pos hstop]
        exact .pure fun h => absurd h (Nat.ne_of_gt hstop.1)
      · simp only [if_neg hstop]
        refine .lookIn (fun t ht => ht.next root) ?_
        rw [hnext]
        have hrest := ih hrow (by omega) (by omega)
          ((hfresh.mono subset_union_right).reaches hm hapart)
        refine hrest.bindQuiet fun more m2 hm2 hmore => .pure fun hsum => ?_
        obtain ⟨rfl, rfl⟩ := Nat.add_eq_zero_iff.1 hsum
        intro i id hid
        cases i with
        | zero => cases hid
        | succ i =>
          rw [chain, hnext] at hid
          by_cases hroot : id = root
          · subst hroot
            exact (hfound rfl).mono hm2.grows
          · exact hmore rfl i id ((List.mem_cons.1 hid).resolve_left hroot)

theorem list (hsize : hi ≤ s.size) (hpart : PartIn s lo hi fits head A)
    (hfresh : m.Fresh A) :
    Echoed link m A (list visit policy head) may
      fun found W => found = 0 → ∀ id ∈ s.siblings head, s.Known W id := by
  obtain ⟨lo', hi', slot, rfl, hlo, hhi, hrow⟩ := hpart
  refine .lookIn (fun t ht => ht.size) ?_
  have henough : hi' ≤ (s.size + 2) * s.size + lo' := by
    have : s.size ≤ (s.size + 2) * s.size := Nat.le_mul_of_pos_left _ (by omega)
    omega
  exact (hvisit.listUpTo hrow hlo hhi henough hfresh).mono subset_rfl id
    fun found W h hfound id hid => h hfound s.size id hid

/-- One tree alone. -/
theorem one {root : NodeId} (hpart : PartIn s lo hi fits (some root) A) (hfresh : m.Fresh A) :
    Echoed link m A (visit root) may
      fun found W => found = 0 → s.Known W root := by
  obtain ⟨lo', hi', slot, rfl, hlo, hhi, hrow⟩ := hpart
  cases hrow with
  | @cons _ _ _ _ _ _ k htree hk _ _ hrow =>
    have hle := hrow.le
    have hsub : Set.Icc lo' root ⊆ Set.Ico lo' hi' := fun id hid => ⟨hid.1, by
      have := hid.2
      show (id : Nat) < hi'
      omega⟩
    exact (hvisit lo' root k htree hlo (by omega) hk m (hfresh.mono hsub)).mono hsub id
      fun _ _ h => h

theorem optional (hpart : PartIn s lo hi fits head A) (hfresh : m.Fresh A) :
    Echoed link m A (optional visit head) may
      fun found W => found = 0 → ∀ id ∈ head, s.Known W id := by
  cases head with
  | none => exact .pure (by simp)
  | some root =>
    exact (hvisit.one hpart hfresh).mono subset_rfl id fun found W h hfound id hid => by
      obtain rfl := mem_some.1 hid
      exact h hfound


end
end EchoesIn

/-! ### Names of types -/

/-- What a variable reference refers to, apart from its type. -/
def ReferenceNode.target (r : ReferenceNode) : String × Option NodeId := (r.name, r.indices)

/-- The variable that an expression wraps does not hang on the notes. -/
theorem Alike.wrappedReference?_map {c c' : Checker} (h : Alike c.store c'.store)
    (operand : NodeId) :
    (c'.wrappedReference? operand).map ReferenceNode.target =
      (c.wrappedReference? operand).map ReferenceNode.target := by
  have hpart : ((c'.store.expression? operand).filter (·.operator = .reference)).bind
      ExpressionNode.left = ((c.store.expression? operand).filter (·.operator = .reference)).bind
      ExpressionNode.left := by
    refine h.view (g := fun t id => ((t.expression? id).filter (·.operator = .reference)).bind
      ExpressionNode.left) (fun _ _ _ ho => by rw [expression?, ho]) (fun k => ?_) operand
    cases k with
    | expression e =>
      obtain ⟨o, left, right, result⟩ := e
      cases o <;> rfl
    | _ => rfl
  have htarget : ∀ id, (c'.store.reference? id).map ReferenceNode.target =
      (c.store.reference? id).map ReferenceNode.target :=
    h.view (g := fun t id => (t.reference? id).map ReferenceNode.target)
      (fun _ _ _ ho => by rw [reference?, ho]) fun k => by cases k <;> rfl
  have hsplit : ∀ c : Checker, (c.wrappedReference? operand).map ReferenceNode.target =
      (((c.store.expression? operand).filter (·.operator = .reference)).bind
        ExpressionNode.left).bind fun id => (c.store.reference? id).map ReferenceNode.target := by
    intro c
    rw [wrappedReference?, map_bind, bind_assoc]
    congr 1
    funext e
    rw [Function.comp_apply, map_bind]
    rfl
  rw [hsplit, hsplit, hpart]
  congr 1
  funext id
  exact htarget id

namespace Stage.Matches

variable (h : m.Matches V c') {operand : NodeId}

include h

theorem wrapped_bind {β : Type} (g : String × Option NodeId → Option β) :
    ((c'.wrappedReference? operand).bind fun r => g r.target) =
      (m.state.wrappedReference? operand).bind fun r => g r.target := by
  rw [← Function.comp_def g, ← bind_map, ← bind_map, h.same.wrappedReference?_map]

theorem arrayText?_eq (operand : NodeId) :
    c'.arrayText? operand = m.state.arrayText? operand := by
  unfold arrayText?
  simp only [h.lookup, h.same.dimensions_eq, h.same.listLength_eq]
  exact h.wrapped_bind fun target => do
    let symbol ← m.state.symbols.lookup target.1
    let scalar ← symbol.scalar
    let left := (m.state.store.dimensions symbol.node).drop (m.state.store.listLength target.2)
    if left.isEmpty then none else some (arrayTypeText scalar left)

theorem typeName_eq (hoperand : s.Known m.written operand) :
    c'.typeName operand = m.state.typeName operand := by
  have hwrapped : ((c'.wrappedReference? operand).bind fun r => m.state.symbols.lookup r.name) =
      (m.state.wrappedReference? operand).bind fun r => m.state.symbols.lookup r.name :=
    h.wrapped_bind fun target => m.state.symbols.lookup target.1
  unfold typeName
  simp only [h.resultType?_eq hoperand, h.lookup, hwrapped]

theorem typeName?_eq {operand : Option NodeId} (hoperand : ∀ id ∈ operand, s.Known m.written id) :
    c'.typeName? operand = m.state.typeName? operand := by
  cases operand with
  | none => rfl
  | some id => exact h.typeName_eq (hoperand id rfl)

theorem operandCause_eq {left right : Option NodeId} (hleft : ∀ id ∈ left, s.Known m.written id)
    (hright : ∀ id ∈ right, s.Known m.written id) :
    c'.operandCause o left right = m.state.operandCause o left right := by
  simp only [operandCause, h.typeName?_eq hleft, h.typeName?_eq hright]

theorem passes_eq (hoperand : s.Known m.written operand) (parameter : TypeNode) :
    c'.passes operand parameter = m.state.passes operand parameter := by
  simp only [passes, h.resultType?_eq hoperand, h.arrayText?_eq]

theorem argumentName_eq (hoperand : s.Known m.written operand) :
    c'.argumentName operand = m.state.argumentName operand := by
  simp only [argumentName, h.resultType?_eq hoperand, h.arrayText?_eq,
    h.typeName_eq hoperand]

theorem bind_resultType?_eq {operand : Option NodeId}
    (hoperand : ∀ id ∈ operand, s.Known m.written id) :
    operand.bind c'.store.resultType? = operand.bind m.state.store.resultType? := by
  cases operand with
  | none => rfl
  | some id => exact h.resultType?_eq (hoperand id rfl)

theorem wrappedType_eq {part : Option NodeId} (hpart : ∀ id ∈ part, s.Known m.written id) :
    wrappedType o part c'.store = wrappedType o part m.state.store := by
  cases part with
  | none => cases o <;> rfl
  | some id =>
    have hkind := h.kind?_eq (hpart id rfl)
    cases o <;> simp [wrappedType, literal?, reference?, call?, hkind]

end Stage.Matches

/-! ### Operators and wrappers -/

/-- What an expression is in a variant. -/
theorem Variant.kind?_expression {e : ExpressionNode} (V : Variant s link)
    (hk : s.kind? id = some (.expression e)) :
    ∃ o result, V.store.kind? id = some (.expression ⟨o, e.left, e.right, result⟩) ∧
      (o = e.operator ∨ e.operator = .add ∧ o = .concat) := by
  obtain ⟨k', hk', hbare⟩ := V.alike.kind?_cases hk
  have hoperator := V.operator id
  rw [Rewrites, Store.operator?, Store.operator?, hk, hk'] at hoperator
  obtain ⟨e', rfl, hleft, hright⟩ := NodeKind.exists_expression_of_bare hbare
  refine ⟨e'.operator, e'.result, by rw [hk', ← hleft, ← hright], ?_⟩
  simpa [NodeKind.operator?] using hoperator

/-- The expression with a number in a variant. -/
def Variant.expression (V : Variant s link) (id : NodeId) (e : ExpressionNode) : ExpressionNode :=
  (V.store.expression? id).getD e

namespace Check

variable {e : ExpressionNode} {c : Checker} {id : NodeId}

theorem operator_run (hl : e.left.bind c.store.resultType? = l)
    (hr : e.right.bind c.store.resultType? = r) :
    operator id e c = (if e.operator.resolve l r ≠ e.operator then
        write (fun s => s.setOperator id (e.operator.resolve l r)) >>= fun _ =>
          settle id (e.operator.resolve l r) e.left e.right ((e.operator.resolve l r).result? l r)
      else settle id (e.operator.resolve l r) e.left e.right
        ((e.operator.resolve l r).result? l r)) c := by
  subst hl hr
  rfl

/-- The operator of an expression is settled and its type is noted. -/
theorem operator_of_some {type : ScalarType} (hk : c.store.kind? id = some (.expression e))
    (hl : e.left.bind c.store.resultType? = l) (hr : e.right.bind c.store.resultType? = r)
    (htype : (e.operator.resolve l r).result? l r = some type) :
    ∃ s1, operator id e c = .ok 0 { c with store := s1 } ∧
      c.store.Puts id (.expression ⟨e.operator.resolve l r, e.left, e.right, some type⟩) s1 := by
  rw [operator_run hl hr, htype]
  rcases e.operator.resolve_cases l r with hmeant | ⟨hadd, hmeant⟩
  · rw [if_neg (not_not.2 hmeant), hmeant]
    exact ⟨_, rfl, modifyKind_puts hk rfl rfl (.inl rfl)⟩
  · rw [if_pos (by rw [hmeant, hadd]; decide), hmeant]
    have hconcat : c.store.Puts id (.expression { e with operator := .concat })
        (c.store.setOperator id .concat) :=
      modifyKind_puts hk rfl (by simp [bare, hadd]) (.inr ⟨congrArg some hadd, rfl⟩)
    exact ⟨_, rfl, hconcat.trans (modifyKind_puts hconcat.self rfl rfl (.inl rfl))⟩

/-- An operator that does not take its operands is not changed. -/
theorem operator_of_none (hl : e.left.bind c.store.resultType? = l)
    (hr : e.right.bind c.store.resultType? = r)
    (htype : (e.operator.resolve l r).result? l r = none) :
    operator id e c =
      (view (fun c => c.operandCause e.operator e.left e.right) >>= (report · id)) c := by
  have hmeant : e.operator.resolve l r = e.operator := by
    by_cases hstrings : e.operator = .add ∧ l = some .string ∧ r = some .string
    · have hconcat : e.operator.resolve l r = .concat := if_pos hstrings
      rw [hconcat, hstrings.2.1, hstrings.2.2] at htype
      cases htype
    · rw [Operator.resolve, if_neg hstrings]
  rw [operator_run hl hr, htype, hmeant, if_neg (not_not.2 rfl)]
  rfl

section

variable (hk : s.kind? root = some (.expression e)) (hfresh : m.Fresh {root})
  (hleft : ∀ id ∈ e.left, s.Known m.written id) (hright : ∀ id ∈ e.right, s.Known m.written id)

include hk hfresh hleft hright

/-- Expressions whose operands are known get the same notes. -/
theorem operator_echo :
    Echo m {root} (operator root e)
      (fun V : Variant s link => operator root (V.expression root e)) may
      fun n W => n = 0 → s.Known W root := by
  have hnotMem : root ∉ m.written := hfresh.notMem rfl
  have hroot : m.state.store.kind? root = some (.expression e) :=
    (m.unwritten root hnotMem).trans hk
  -- what the expression is in a variant, and in the state of a check of it
  have hvariant : ∀ (V : Variant s link) c', m.Matches V c' →
      ∃ o result, V.expression root e = ⟨o, e.left, e.right, result⟩ ∧
        V.store.operator? root = some o ∧
        c'.store.kind? root = some (.expression ⟨o, e.left, e.right, result⟩) ∧
        (o = e.operator ∨ e.operator = .add ∧ o = .concat) := by
    intro V c' hm
    obtain ⟨o, result, hk', ho⟩ := V.kind?_expression hk
    refine ⟨o, result, ?_, ?_, (hm.unwritten root hnotMem).trans hk', ho⟩
    · simp [Variant.expression, Store.expression?, hk']
    · simp [Store.operator?, NodeKind.operator?, hk']
  obtain ⟨l, hl⟩ : ∃ l, e.left.bind m.state.store.resultType? = l := ⟨_, rfl⟩
  obtain ⟨r, hr⟩ : ∃ r, e.right.bind m.state.store.resultType? = r := ⟨_, rfl⟩
  cases htype : (e.operator.resolve l r).result? l r with
  | some type =>
    obtain ⟨s1, run, hputs⟩ := operator_of_some hroot hl hr htype
    refine .note hputs run (fun V c' hm hconcat => ?_) fun _ _ _ _ => Set.mem_insert ..
    obtain ⟨o, result, he, hoperator, hk', ho⟩ := hvariant V c' hm
    have hmeant : o.resolve l r = e.operator.resolve l r := by
      by_cases hsame : o = e.operator
      · rw [hsame]
      · obtain rfl : o = .concat := (ho.resolve_left hsame).2
        exact (Option.some.inj (hconcat hoperator)).symm
    have hl' := (hm.bind_resultType?_eq hleft).trans hl
    have hr' := (hm.bind_resultType?_eq hright).trans hr
    rw [he]
    obtain ⟨s1', run', hputs'⟩ := operator_of_some (e := ⟨o, e.left, e.right, result⟩) hk' hl' hr'
      ((congrArg (Operator.result? · l r) hmeant).trans htype)
    refine ⟨s1', run', ?_⟩
    rw [← hmeant]
    exact hputs'
  | none =>
    have hfails : Echoed link m ∅
        (view (fun c => c.operandCause e.operator e.left e.right) >>= (report · root)) may
        fun n W => n = 0 → s.Known W root :=
      .look (fun V c' hm => hm.operandCause_eq hleft hright) (.report hk rfl (by simp))
    refine hfails.of_settled_runs (operator_of_none hl hr htype) fun V c' hm hV => ?_
    obtain ⟨o, result, he, hoperator, -, ho⟩ := hvariant V c' hm
    have hsame : o = e.operator := by
      by_contra hne
      obtain ⟨hadd, rfl⟩ := ho.resolve_left hne
      have hconcat := hV root rfl hoperator
      simp [Store.operator?, hroot, NodeKind.operator?, hadd] at hconcat
    subst hsame
    rw [he]
    exact operator_of_none (e := ⟨e.operator, e.left, e.right, result⟩)
      ((hm.bind_resultType?_eq hleft).trans hl) ((hm.bind_resultType?_eq hright).trans hr) htype

theorem resolved_echo :
    Echo m {root} (resolved root e)
      (fun V : Variant s link => resolved root (V.expression root e)) may
      fun n W => n = 0 → s.Known W root := by
  by_cases hterminal : e.operator.isTerminal = true
  · have hnotMem : root ∉ m.written := hfresh.notMem rfl
    have hvariant : ∀ V : Variant s link, ∃ result, V.expression root e = { e with result } ∧
        V.store.kind? root = some (.expression { e with result }) := by
      intro V
      obtain ⟨o, result, hk', ho⟩ := V.kind?_expression hk
      obtain rfl : o = e.operator := by
        by_contra hne
        rw [(ho.resolve_left hne).1] at hterminal
        cases hterminal
      exact ⟨result, by simp [Variant.expression, expression?, hk'], hk'⟩
    have hsame : ∀ V : Variant s link, resolved root (V.expression root e) = resolved root e := by
      intro V
      obtain ⟨result, he, -⟩ := hvariant V
      rw [he]
      simp only [resolved, if_pos hterminal]
    have hresolved : resolved root e = (do
        let type ← inStore (wrappedType e.operator e.left)
        write fun s => s.setResult root type
        pure 0) := if_pos hterminal
    simp only [hsame, hresolved]
    refine .look (fun V c' hm => hm.wrappedType_eq hleft) ?_
    refine (Echo.modifyKind hnotMem hk rfl rfl (.inl rfl) fun V => ?_).bindQuiet
      fun _ m1 _ hmem => .pure fun _ _ _ _ => hmem
    obtain ⟨result, -, hk'⟩ := hvariant V
    exact ⟨_, hk', rfl, rfl, .inl rfl⟩
  · have hoperator : ∀ V : Variant s link,
        resolved root (V.expression root e) = operator root (V.expression root e) := by
      intro V
      obtain ⟨o, result, hk', ho⟩ := V.kind?_expression hk
      have hnot : ¬o.isTerminal = true := by
        by_cases hsame : o = e.operator
        · rwa [hsame]
        · rw [(ho.resolve_left hsame).2]
          decide
      simp [resolved, Variant.expression, expression?, hk', hnot]
    simp only [hoperator]
    have hresolved : resolved root e = operator root e := if_neg hterminal
    rw [hresolved]
    exact operator_echo hk hfresh hleft hright


end
end Check

/-! ### Kinds of parts -/

theorem NodeKind.isChecked_of_isExpression (h : k.isExpression = true) : k.isChecked = true := by
  cases k <;> first | rfl | cases h

theorem Operator.isChecked_of_fitsLeft (h : o.fitsLeft k = true) : k.isChecked = true := by
  cases k with
  | type => cases o <;> cases h
  | _ => rfl

theorem NodeKind.isType_of_isChecked (h : k.isChecked = true) : k.isType = false := by
  simpa [isChecked] using h

theorem singleton_subset_Icc_root {lo root : Nat} (h : lo ≤ root) :
    ({root} : Set NodeId) ⊆ Set.Icc lo root := by
  simpa using h

namespace EchoesIn

open Check

theorem expressions (hvisit : EchoesIn s link visit isChecked lo hi may) :
    EchoesIn s link visit isExpression lo hi may :=
  hvisit.narrow isChecked_of_isExpression

/-- Both operands come before the expression itself. -/
theorem expression (hvisit : EchoesIn s link visit NodeKind.isChecked lo root may)
    {e : ExpressionNode} (h : Subtree s lo root (.expression e))
    (hfresh : m.Fresh (Set.Icc lo root)) :
    Echo m (Set.Icc lo root) (Check.expression visit root e)
      (fun V : Variant s link => Check.expression visit root (V.expression root e)) may
      fun n W => n = 0 → s.Known W root := by
  have hk := h.kind?
  have hsame : ∀ V : Variant s link, Check.expression visit root (V.expression root e) =
      Check.andThen (operands visit e) (resolved root (V.expression root e)) := by
    intro V
    obtain ⟨o, result, hk', -⟩ := V.kind?_expression hk
    simp [Check.expression, operands, Variant.expression, Store.expression?, hk']
  simp only [hsame]
  obtain ⟨A, B, hA, hB, hAB⟩ := h.partPair rfl rfl
  have hinside : A ∪ B ⊆ Set.Ico lo root := Set.union_subset hA.subset hB.subset
  have hoperands : Echoed link m (A ∪ B) (operands visit e) may
      fun n W => n = 0 → (∀ id ∈ e.left, s.Known W id) ∧ ∀ id ∈ e.right, s.Known W id := by
    have hleft := (hvisit.narrow Operator.isChecked_of_fitsLeft).optional hA (hfresh.mono hA.inside)
    refine hleft.bind hAB Set.subset_union_left Set.subset_union_right fun i m1 hm hi => ?_
    have hright := hvisit.expressions.optional hB ((hfresh.mono hB.inside).reaches hm hAB)
    refine hright.bindQuiet fun j m2 hm2 hj => .pure fun hsum => ?_
    obtain ⟨rfl, rfl⟩ := Nat.add_eq_zero_iff.1 hsum
    exact ⟨fun id hid => (hi rfl id hid).mono hm2.grows, hj rfl⟩
  have hroot : Disjoint (A ∪ B) {root} :=
    Set.disjoint_singleton_right.2 fun hmem => Nat.lt_irrefl root (hinside hmem).2
  have hself := singleton_subset_Icc_root h.le
  refine hoperands.andThen hroot (hinside.trans Set.Ico_subset_Icc_self) hself
    (fun m1 hm hknown => ?_) fun n W hn h => absurd h hn
  exact resolved_echo hk ((hfresh.mono hself).reaches hm hroot) (hknown rfl).1 (hknown rfl).2

/-- Every subscript is checked before its type is read. -/
theorem index (hvisit : EchoesIn s link visit isChecked lo hi may) :
    EchoesIn s link (index visit) isChecked lo hi may := by
  intro lo' root k htree hlo hhi hk m hfresh
  refine (hvisit lo' root k htree hlo hhi hk m hfresh).andThenQuiet subset_rfl
    (fun m1 hm hknown => ?_) fun n W hn h => absurd h hn
  refine .look (fun V c' hc' => hc'.resultType?_eq (hknown rfl)) ?_
  dsimp only
  split
  · exact .pure fun _ => hknown rfl
  · exact .report htree.kind? (isType_of_isChecked hk) (by simp)

/-- The type of a variable is noted after its subscripts have been checked. -/
theorem reference (hvisit : EchoesIn s link visit isChecked lo root may)
    (hsize : root ≤ s.size) {r : ReferenceNode} (h : Subtree s lo root (.reference r))
    (hfresh : m.Fresh (Set.Icc lo root)) :
    Echoed link m (Set.Icc lo root) (reference visit root r) may
      fun n W => n = 0 → s.Known W root := by
  have hk := h.kind?
  obtain ⟨A, hA⟩ := h.partIn rfl rfl
  have hroot : Disjoint A {root} :=
    disjoint_singleton_right.2 fun hmem => Nat.lt_irrefl root (hA.subset hmem).2
  have hself := singleton_subset_Icc_root h.le
  refine .lookup ?_
  split
  next => exact .report hk rfl (by simp)
  next symbol _ =>
    by_cases hvariable : symbol.kind.isVariable = true
    · simp only [if_pos hvariable]
      refine (hvisit.index.expressions.list hsize hA (hfresh.mono hA.inside)).andThen hroot
        hA.inside hself (fun m1 hm _ => ?_) fun n W hn h => absurd h hn
      have hnotMem : root ∉ m1.written := ((hfresh.mono hself).reaches hm hroot).notMem rfl
      refine .lookIn (fun t ht => congrArg List.length (ht.dimensions_eq symbol.node)) ?_
      refine .lookIn (fun t ht => ht.listLength_eq r.indices) ?_
      split
      · exact .report hk rfl (by simp)
      · refine (Echo.modifyKind hnotMem hk rfl rfl (.inl rfl) fun V => ?_).bindQuiet
          fun _ m2 _ hmem => .pure fun _ _ _ _ => hmem
        obtain ⟨result, hk'⟩ := V.alike.kind?_reference hk
        exact ⟨_, hk', rfl, rfl, .inl rfl⟩
    · simp only [if_neg hvariable]
      exact .report hk rfl (by simp)

end EchoesIn

/-! ### Calls -/

namespace Check

/-- Arguments that are known are compared with the parameters. -/
theorem passed_echo (pairs : List (NodeId × NodeId))
    (hknown : ∀ pair ∈ pairs, s.Known m.written pair.1)
    (hchecked : ∀ pair ∈ pairs, ∃ k, s.kind? pair.1 = some k ∧ k.isChecked = true)
    {Q : Nat → Set NodeId → Prop} (hQ : ∀ n, Q n m.written) :
    Echoed link m A (passed pairs) may Q := by
  induction pairs with
  | nil => exact .pure (hQ 0)
  | cons pair pairs ih =>
    have hpair := hknown pair (.head _)
    obtain ⟨k, hk, ht⟩ := hchecked pair (.head _)
    have hrest := ih (fun p hp => hknown p (.tail _ hp))
      fun p hp => hchecked p (.tail _ hp)
    refine .lookIn (fun t ht => ht.type?_eq pair.2) ?_
    split
    next => exact hrest
    next type _ =>
      refine .look (fun V c' hm => hm.passes_eq hpair type) ?_
      by_cases hpasses : m.state.passes pair.1 type = true
      · simp only [if_pos hpasses]
        exact hrest
      · simp only [if_neg hpasses]
        exact .look (fun V c' hm => hm.argumentName_eq hpair)
          (.report hk (isType_of_isChecked ht) (hQ 1))

end Check

/-- A call is noted before its arguments are checked. -/
theorem EchoesIn.call (hvisit : EchoesIn s link visit isChecked lo root may)
    (hsize : root ≤ s.size) {node : CallNode} (h : Subtree s lo root (.call node))
    (hfresh : m.Fresh (Set.Icc lo root)) :
    Echoed link m (Set.Icc lo root) (call visit root node) may
      fun n W => n = 0 → s.Known W root := by
  have hk := h.kind?
  obtain ⟨A, hA⟩ := h.partIn rfl rfl
  have hroot : Disjoint {root} A :=
    disjoint_singleton_left.2 fun hmem => Nat.lt_irrefl root (hA.subset hmem).2
  have hself := singleton_subset_Icc_root h.le
  have hnotMem : root ∉ m.written := (hfresh.mono hself).notMem rfl
  refine .lookup ?_
  split
  next => exact .report hk rfl (by simp)
  next symbol _ =>
    by_cases hfunction : symbol.kind = .function
    · simp only [if_pos hfunction]
      have hwrite : Echoed link m {root} (write fun s => s.setCallType root symbol.scalar) may
          fun _ W => root ∈ W := by
        refine Echo.modifyKind hnotMem hk rfl rfl (.inl rfl) fun V => ?_
        obtain ⟨result, hk'⟩ := V.alike.kind?_call hk
        exact ⟨_, hk', rfl, rfl, .inl rfl⟩
      refine hwrite.bind hroot hself hA.inside fun _ m1 hm hmem => ?_
      have hstart := (hfresh.mono hA.inside).reaches hm hroot
      refine (hvisit.expressions.list hsize hA hstart).andThenQuiet subset_rfl
        (fun m2 hm2 hknown => ?_) fun n W hn h => absurd h hn
      have hmem2 := hm2.grows hmem
      refine .lookIn (fun t ht => ht.siblings_eq node.arguments) ?_
      refine .lookIn (fun t ht => by rw [ht.function?_eq, ht.siblings_eq]) ?_
      split
      · refine passed_echo _ (fun pair hpair => hknown rfl _ (List.of_mem_zip hpair).1)
          (fun pair hpair => ?_) fun n _ _ _ _ => hmem2
        obtain ⟨k, hmember, hexpression⟩ := hA.members (List.of_mem_zip hpair).1
        exact ⟨k, hmember, isChecked_of_isExpression hexpression⟩
      · exact .report hk rfl (by simp)
    · simp only [if_neg hfunction]
      exact .report hk rfl (by simp)

end PLang
