import PLang.Proofs.Logged.Tandem

/-!
# Checking renamed trees

A check of a renamed tree goes through the same steps as a check of the tree: it finds the symbols
of the renamed names, writes the same types and reports the same errors, renamed. Names are compared
by the symbol table only, so it is enough that the renaming keeps names apart.
-/

namespace PLang

open Store

variable {α β : Type}

/-- A renaming with the nodes that it keeps and those that hold declared names, and the errors that
both checks start with. -/
structure Renaming where
  rename : String → String
  injective : Function.Injective rename
  kept : NodeId → Bool
  declared : NodeId → Prop
  before : List Error
  before' : List Error

/-- A change of what a node holds that touches neither names nor plain nodes. -/
structure NodeKind.Annotates (ρ : String → String) (f : NodeKind → NodeKind) : Prop where
  plain : ∀ k, k.isPlain = true → f k = k
  other : ∀ k, k.isPlain = false → (f k).isPlain = false
  rename : ∀ k, f (k.rename ρ) = (f k).rename ρ

theorem Note.annotates (n : Note) (ρ : String → String) :
    ∃ id f, (∀ s, n.apply s = s.modifyKind id f) ∧ NodeKind.Annotates ρ f := by
  cases n <;> refine ⟨_, _, fun s => by
    first
    | rw [apply, setResult]
    | rw [apply, setOperator]
    | rw [apply, setReferenceType]
    | rw [apply, setCallType], fun k hk => ?_, fun k hk => ?_, fun k => ?_⟩ <;> cases k <;>
    first | rfl | cases hk

namespace Renaming

variable {R : Renaming}

/-- Stores that a renaming suits: it keeps the signs of counting loops, which hold names, and
renames all names that declarations list. -/
structure Fits (R : Renaming) (s : Store) : Prop where
  sign : s.isSign = R.kept
  kept : ∀ id k, R.kept id = true → s.kind? id = some k → ∃ x, k = .name x
  head : ∀ id d, s.kind? id = some (.declaration d) → R.declared d.names
  next : ∀ id other, R.declared id → s.next? id = some other → R.declared other
  name : ∀ id, R.declared id → R.kept id = false ∧ ∃ x, s.kind? id = some (.name x)

namespace Fits

variable {s : Store} {id : NodeId} {f : NodeKind → NodeKind}

/-- A view that sees nothing in names is renamed where a node is, and nothing where it is kept. -/
theorem view {γ : Type} (h : R.Fits s) {g : Store → NodeId → Option γ}
    {v : Option NodeKind → Option γ} {φ : γ → γ} (hg : ∀ t id o, t.kind? id = o → g t id = v o)
    (hnone : v none = none) (hname : ∀ x, v (some (.name x)) = none)
    (hrename : ∀ k, v (some (k.rename R.rename)) = (v (some k)).map φ) (id : NodeId) :
    g (s.renameBut R.rename R.kept) id = (g s id).map φ := by
  refine view_renameBut hg (by rw [hnone]; rfl) hrename fun hid => ?_
  have hg : g s id = none := by
    rw [hg s id _ rfl]
    cases hkind : s.kind? id with
    | none => exact hnone
    | some k =>
      obtain ⟨x, rfl⟩ := h.kept id k hid hkind
      exact hname x
  rw [hg]
  rfl

theorem reference? (h : R.Fits s) (id : NodeId) :
    (s.renameBut R.rename R.kept).reference? id =
      (s.reference? id).map (ReferenceNode.rename R.rename) :=
  h.view (fun _ _ _ ho => by rw [Store.reference?, ho]) rfl (fun _ => rfl)
    (fun k => by cases k <;> rfl) id

theorem call? (h : R.Fits s) (id : NodeId) :
    (s.renameBut R.rename R.kept).call? id = (s.call? id).map (CallNode.rename R.rename) :=
  h.view (fun _ _ _ ho => by rw [Store.call?, ho]) rfl (fun _ => rfl)
    (fun k => by cases k <;> rfl) id

theorem function? (h : R.Fits s) (id : NodeId) :
    (s.renameBut R.rename R.kept).function? id =
      (s.function? id).map (FunctionNode.rename R.rename) :=
  h.view (fun _ _ _ ho => by rw [Store.function?, ho]) rfl (fun _ => rfl)
    (fun k => by cases k <;> rfl) id

/-- A node is renamed, or it is the sign of a loop. -/
theorem kind?_cases (h : R.Fits s) (id : NodeId) :
    (s.renameBut R.rename R.kept).kind? id = (s.kind? id).map (NodeKind.rename R.rename) ∨
      ∃ x, s.kind? id = some (.name x) ∧
        (s.renameBut R.rename R.kept).kind? id = some (.name x) := by
  have hkind : (s.renameBut R.rename R.kept).kind? id = _ := kind?_renameBut id
  cases hid : R.kept id with
  | false =>
    rw [hid] at hkind
    exact .inl hkind
  | true =>
    rw [hid] at hkind
    cases hs : s.kind? id with
    | none =>
      rw [hs] at hkind
      exact .inl hkind
    | some k =>
      obtain ⟨x, rfl⟩ := h.kept id k hid hs
      rw [hs] at hkind
      exact .inr ⟨x, rfl, hkind⟩

/-- A declared name is renamed. -/
theorem name?_declared (h : R.Fits s) (hid : R.declared id) :
    ((s.renameBut R.rename R.kept).name? id).getD "" = R.rename ((s.name? id).getD "") := by
  obtain ⟨hkept, x, hkind⟩ := h.name id hid
  have hkind' : (s.renameBut R.rename R.kept).kind? id = some (.name (R.rename x)) := by
    rw [kind?_renameBut, hkind, hkept]
    rfl
  rw [name?, name?, hkind, hkind']
  rfl

/-- Plain nodes stay where notes are made. -/
theorem kind?_modifyKind_iff (hf : NodeKind.Annotates R.rename f) {other : NodeId} {k : NodeKind}
    (hk : k.isPlain = true) :
    (s.modifyKind id f).kind? other = some k ↔ s.kind? other = some k := by
  rw [kind?_modifyKind]
  split
  · cases s.kind? other with
    | none => rfl
    | some k' =>
      cases hk' : k'.isPlain with
      | true => rw [Option.map_some, hf.plain k' hk']
      | false =>
        have hne : f k' ≠ k := by
          rintro rfl
          rw [hf.other k' hk'] at hk
          cases hk
        have hne' : k' ≠ k := by
          rintro rfl
          rw [hk'] at hk
          cases hk
        simp [hne, hne']
  · rfl

theorem modifyKind (h : R.Fits s) (hf : NodeKind.Annotates R.rename f) :
    R.Fits (s.modifyKind id f) where
  sign := by
    rw [← h.sign]
    funext other
    rw [Bool.eq_iff_iff, isSign_iff, isSign_iff]
    simp only [kind?_modifyKind_iff hf (k := .forLoop _) rfl]
  kept other k hother hk := by
    rw [kind?_modifyKind] at hk
    split at hk
    · obtain ⟨k', hk', rfl⟩ := Option.map_eq_some_iff.1 hk
      obtain ⟨x, rfl⟩ := h.kept other k' hother hk'
      exact ⟨x, hf.plain _ rfl⟩
    · exact h.kept other k hother hk
  head other d hd := h.head other d ((kind?_modifyKind_iff hf rfl).1 hd)
  next other next hother hnext := by
    rw [next?_modifyKind] at hnext
    exact h.next other next hother hnext
  name other hother := by
    obtain ⟨hkept, x, hx⟩ := h.name other hother
    exact ⟨hkept, x, (kind?_modifyKind_iff hf rfl).2 hx⟩

end Fits

/-! ### Checkers -/

/-- Checkers that have come equally far in a tree and in the renamed tree. -/
structure Relates (R : Renaming) (c c' : Checker) : Prop where
  fits : R.Fits c.store
  store : c'.store = c.store.renameBut R.rename R.kept
  symbols : c'.symbols = c.symbols.rename R.rename
  errors : ∃ es, c.diagnostics.errors = R.before ++ es ∧
    c'.diagnostics.errors = R.before' ++ es.map (Error.rename R.rename)
  function : c'.function = c.function
  depth : c'.depth = c.depth
  limit : c'.limit = c.limit

namespace Relates

variable {c c' : Checker}

theorem lookup (h : R.Relates c c') (name : String) :
    c'.symbols.lookup (R.rename name) = (c.symbols.lookup name).map (Symbol.rename R.rename) := by
  rw [h.symbols, SymbolTable.lookup_rename _ R.injective]

theorem level? (h : R.Relates c c') : c'.symbols.level? = c.symbols.level? := by
  rw [h.symbols]
  rfl

theorem pushScope (h : R.Relates c c') : R.Relates c.pushScope c'.pushScope where
  fits := h.fits
  store := h.store
  symbols := congrArg SymbolTable.pushScope h.symbols
  errors := h.errors
  function := h.function
  depth := h.depth
  limit := h.limit

theorem popScope (h : R.Relates c c') : R.Relates c.popScope c'.popScope where
  fits := h.fits
  store := h.store
  symbols := congrArg SymbolTable.popScope h.symbols
  errors := h.errors
  function := h.function
  depth := h.depth
  limit := h.limit

theorem wrappedReference? (h : R.Relates c c') (operand : NodeId) :
    c'.wrappedReference? operand =
      (c.wrappedReference? operand).map (ReferenceNode.rename R.rename) := by
  rw [Checker.wrappedReference?, Checker.wrappedReference?, h.store, expression?_renameBut]
  cases (c.store.expression? operand).filter (·.operator = .reference) with
  | none => rfl
  | some e =>
    rw [Option.bind_some, Option.bind_some]
    cases e.left with
    | none => rfl
    | some id => exact h.fits.reference? id

theorem views (h : R.Relates c c') : Views R.rename (fun _ => True) (fun _ => True) c c' where
  lookup := h.lookup
  level? := h.level?
  inside := h.function
  function? id := by rw [h.store, h.fits.function?]
  type? := by rw [h.store, type?_renameBut]
  literal? := by rw [h.store, literal?_renameBut]
  dimensions := by rw [h.store, dimensions_renameBut]
  resultType? id _ := by rw [h.store, resultType?_renameBut]
  reference? id _ := by rw [h.store, h.fits.reference?]
  call? id _ := by rw [h.store, h.fits.call?]
  wrapped id _ := h.wrappedReference? id
  siblings head _ := by rw [h.store, siblings_renameBut]
  indices _ _ _ _ := trivial
  parameterTypes _ _ _ := trivial

end Relates

/-! ### Steps and sequences -/

/-- How a check of a tree and a check of the renamed tree end: with results in the relation `Q`, or
with the same failure, renamed. -/
inductive Ends (R : Renaming) (Q : α → α → Prop) :
    EStateM.Result Error Checker α → EStateM.Result Error Checker α → Prop
  | ok {a a' : α} {c c' : Checker} (hQ : Q a a') (hc : R.Relates c c') :
    Ends R Q (.ok a c) (.ok a' c')
  | error {e : Error} {c c' : Checker} (hc : R.Relates c c') :
    Ends R Q (.error e c) (.error (e.rename R.rename) c')

/-- Checks that go the same way, one in a tree and one in the renamed tree. -/
def Matches (R : Renaming) (Q : α → α → Prop) (x x' : Check α) : Prop :=
  ∀ c c', R.Relates c c' → R.Ends Q (x c) (x' c')

namespace Matches

variable {Q : α → α → Prop} {S : β → β → Prop}

theorem pure {a a' : α} (h : Q a a') : R.Matches Q (pure a) (pure a') :=
  fun _ _ hc => .ok h hc

theorem bind {x x' : Check α} {f f' : α → Check β} (hx : R.Matches Q x x')
    (hf : ∀ a a', Q a a' → R.Matches S (f a) (f' a')) : R.Matches S (x >>= f) (x' >>= f') := by
  intro c c' hc
  have hrun := hx c c' hc
  generalize hr : x c = r, hr' : x' c' = r' at hrun
  cases hrun with
  | ok hQ hc1 =>
    rw [Check.bind_of_ok hr, Check.bind_of_ok hr']
    exact hf _ _ hQ _ _ hc1
  | error hc1 =>
    rw [Check.bind_of_error hr, Check.bind_of_error hr']
    exact .error hc1

/-- What both checks read off their states may differ. -/
theorem look {g g' : Checker → α} {f f' : α → Check β}
    (h : ∀ c c', R.Relates c c' → R.Matches S (f (g c)) (f' (g' c'))) :
    R.Matches S (Check.view g >>= f) (Check.view g' >>= f') :=
  fun c c' hc => h c c' hc c c' hc

theorem note (n : Note) : R.Matches Eq (Check.write n.apply) (Check.write n.apply) := by
  obtain ⟨id, f, hn, hf⟩ := n.annotates R.rename
  intro c c' hc
  refine .ok rfl ⟨?_, ?_, hc.symbols, hc.errors, hc.function, hc.depth, hc.limit⟩
  · dsimp only
    rw [hn]
    exact hc.fits.modifyKind hf
  have hcommutes : ∀ n : Node, { n.rename R.rename with kind := f (n.rename R.rename).kind } =
      { n with kind := f n.kind }.rename R.rename := by
    intro n
    exact congrArg (fun k => Node.mk n.location k n.next) (hf.rename n.kind)
  dsimp only
  rw [hn, hn, hc.store]
  exact Store.modify_renameBut hcommutes

theorem report (cause : Cause) (id : NodeId) :
    R.Matches Eq (Check.report cause id) (Check.report (cause.rename R.rename) id) := by
  intro c c' hc
  refine .ok rfl ⟨hc.fits, hc.store, hc.symbols, ?_, hc.function, hc.depth, hc.limit⟩
  obtain ⟨es, hes, hes'⟩ := hc.errors
  refine ⟨es ++ [⟨cause, c.store.location id⟩], ?_, ?_⟩
  · rw [← List.append_assoc, ← hes]
    rfl
  · rw [List.map_append, ← List.append_assoc, ← hes', hc.store, location_renameBut]
    rfl

theorem declare (name : String) (kind : SymbolKind) (scalar : Option ScalarType)
    (typeText detail : String) (node : NodeId) :
    R.Matches Eq (Check.declare name kind scalar typeText detail node)
      (Check.declare (R.rename name) kind scalar typeText detail node) := by
  intro c c' hc
  refine .ok rfl ⟨hc.fits, hc.store, ?_, hc.errors, hc.function, hc.depth, hc.limit⟩
  show c'.symbols.insert _ kind scalar typeText detail node = _
  rw [hc.symbols, SymbolTable.insert_rename]

variable {x x' : Check Nat}

/-- A check between two changes of the state. -/
theorem between {before : Checker → Checker} {behind : Checker → Checker → Checker}
    (hbefore : ∀ c c', R.Relates c c' → R.Relates (before c) (before c'))
    (hbehind : ∀ c c' c1 c1', R.Relates c c' → R.Relates c1 c1' →
      R.Relates (behind c c1) (behind c' c1'))
    (hx : R.Matches Eq x x') :
    R.Matches Eq (fun c => Check.endIn (behind c) (x (before c)))
      (fun c => Check.endIn (behind c) (x' (before c))) := by
  intro c c' hc
  have hrun := hx _ _ (hbefore c c' hc)
  show R.Ends Eq (Check.endIn (behind c) (x (before c))) (Check.endIn (behind c') (x' (before c')))
  generalize x (before c) = r, x' (before c') = r' at hrun
  cases hrun with
  | ok hn hc1 => exact .ok hn (hbehind c c' _ _ hc hc1)
  | error hc1 => exact .error (hbehind c c' _ _ hc hc1)

theorem inScope (hx : R.Matches Eq x x') : R.Matches Eq (Check.inScope x) (Check.inScope x') := by
  rw [Check.inScope_eq, Check.inScope_eq]
  exact between (fun _ _ hc => hc.pushScope) (fun _ _ _ _ _ hc => hc.popScope) hx

theorem within (f : NodeId) (hx : R.Matches Eq x x') :
    R.Matches Eq (Check.within f x) (Check.within f x') := by
  rw [Check.within_eq, Check.within_eq]
  refine between (fun c c' hc => ?_) (fun c c' c1 c1' hc hc1 => ?_) hx
  · exact ⟨hc.fits, hc.store, hc.symbols, hc.errors, rfl, hc.depth, hc.limit⟩
  · exact ⟨hc1.fits, hc1.store, hc1.symbols, hc1.errors, hc.function, hc1.depth, hc1.limit⟩

theorem deeper (hx : R.Matches Eq x x') : R.Matches Eq (Check.deeper x) (Check.deeper x') := by
  rw [Check.deeper_eq, Check.deeper_eq]
  refine between (fun c c' hc => ?_) (fun c c' c1 c1' hc hc1 => ?_) hx
  · exact ⟨hc.fits, hc.store, hc.symbols, hc.errors, hc.function, congrArg (· + 1) hc.depth,
      hc.limit⟩
  · exact ⟨hc1.fits, hc1.store, hc1.symbols, hc1.errors, hc1.function,
      congrArg (· - 1) hc1.depth, hc1.limit⟩

end Matches

/-! ### Walks -/

open Check

/-- Checks in a tree and in the renamed tree, as a tandem. -/
def tandem (R : Renaming) : Tandem where
  rename := R.rename
  Abreast := R.Relates
  Known _ := True
  Linked _ := True
  Member head id := (∀ first, head = some first → R.declared first) → R.declared id
  Site _ k := ∀ d, k = .declaration d → R.declared d.names
  Rel _ x x' := R.Matches Eq x.run x'.run
  views h := h.views
  size h := by rw [h.store, Store.size_renameBut]
  next h _ hid := by
    rw [h.store, Store.next?_renameBut]
    exact ⟨rfl, fun other hnext hhead => h.fits.next _ other (hid hhead) hnext⟩
  self _ h := h _ rfl
  name hc hsite hchild := by
    rw [hc.store]
    exact hc.fits.name?_declared (hchild fun _ h => Option.some.inj h ▸ hsite _ rfl)
  zero := .pure rfl
  report id _ := .report _ id
  look h := .look h
  note _ _ h := (Matches.note _).bind fun _ _ _ => h
  declare _ _ _ _ _ _ h := (Matches.declare _ _ _ _ _ _).bind fun _ _ _ => h
  add hx hy := hx.bind fun m _ hm => hm ▸ (hy m).bind fun n _ hn => hn ▸ .pure rfl
  inScope h := h.inScope
  within id h := h.within id

theorem node_matches {n : Nat} (b : Bool) (id : NodeId)
    (hV : ∀ b id, R.tandem.Rel b (Logged.visitUpTo n id) (Logged.visitUpTo n id)) :
    R.tandem.Rel b (Logged.node (Logged.visitUpTo n) id) (Logged.node (Logged.visitUpTo n) id) := by
  refine R.tandem.look fun c c' hc => ?_
  dsimp only
  rw [hc.store]
  rcases hc.fits.kind?_cases id with hk | ⟨x, hk, hk'⟩
  · rw [hk]
    cases hk' : c.store.kind? id with
    | none => exact R.tandem.zero
    | some k =>
      have hkind : R.tandem.Rel k.isDeclaring (Logged.kind (Logged.visitUpTo n) id k) _ :=
        R.tandem.kind (fun d hd => hc.fits.head id d (hd ▸ hk')) fun _ _ _ =>
          ⟨trivial, fun child _ => ⟨trivial, hV _ child⟩⟩
      exact hkind
  · rw [hk, hk']
    exact R.tandem.zero

theorem rel_visitUpTo (n : Nat) (b : Bool) (id : NodeId) :
    R.tandem.Rel b (Logged.visitUpTo n id) (Logged.visitUpTo n id) := by
  induction n generalizing b id with
  | zero =>
    intro c c' hc
    have herror : (⟨.nestingTooDeep c'.limit, c'.store.location id⟩ : Error) =
        Error.rename R.rename ⟨.nestingTooDeep c.limit, c.store.location id⟩ := by
      rw [hc.limit, hc.store, Store.location_renameBut]
      rfl
    show R.Ends Eq _ (.error ⟨.nestingTooDeep c'.limit, c'.store.location id⟩ _)
    rw [herror]
    exact .error ⟨hc.fits, hc.store, hc.symbols, hc.errors, hc.function,
      congrArg (· + 1) hc.depth, hc.limit⟩
  | succ n ih => exact Matches.deeper (node_matches b id ih)

theorem visit_matches (id : NodeId) : R.Matches Eq (visit id) (visit id) := by
  intro c c' hc
  unfold visit
  rw [hc.limit, hc.depth, ← Logged.run_visitUpTo]
  exact rel_visitUpTo _ false id c c' hc

end Renaming

end PLang
