import Mathlib.Data.Set.Lattice
import Mathlib.Order.CompletePartialOrder
import PLang.Proofs.InStep.Parsing
import PLang.Proofs.NestingLimit.Checking
import PLang.Proofs.Scoping.Table

/-!
# Checking a tree and a variant of it

A variant of a tree has the same nodes, but for the notes that checking makes, and its nodes may
stand elsewhere. `Echo` compares a check of a tree with a check of any of its variants: they return
the same, complain about the same nodes and make the same notes. For this no check may read a note
that was there before. So the comparison keeps track of the nodes that have been written, and a
check takes a note only from a node that is known, which means that it has been written or never is.
-/

namespace PLang

open Check List Set Store

variable {α β : Type} {link : Location → Location → Prop}

variable {k k1 : NodeKind} {s s1 : Store}

/-! ### Symbol tables with the same open scopes -/

namespace SymbolTable

variable {t : SymbolTable} {scopes : List (List Symbol)}

/-- The open scopes hold the given symbols. The numbers of the symbols hang on what was in the table
before, but checks do not see them. -/
def Holds (t : SymbolTable) (scopes : List (List Symbol)) : Prop :=
  t.scopes.map (·.map t.symbol?) = scopes.map (·.map some)

theorem holds_nil (h : t.scopes = []) : t.Holds [] := by
  simp [Holds, h]

theorem Holds.lookup (h : t.Holds scopes) (name : String) :
    t.lookup name = firstNamed scopes.flatten name := by
  have hlive : t.live.map t.symbol? = scopes.flatten.map some := by
    rw [live, map_flatten, map_flatten]
    exact congrArg flatten h
  exact find?_ids hlive

theorem Holds.level? (h : t.Holds scopes) : t.level? = Context.level? scopes := by
  rw [SymbolTable.level?]
  unfold Holds at h
  cases scopes with
  | nil => rw [map_eq_nil_iff.1 h]; rfl
  | cons scope outer =>
    obtain ⟨ids, rest, ht, -, houter⟩ := map_eq_cons_iff.1 h
    rw [ht]
    have hlength := congrArg length houter
    rw [length_map, length_map] at hlength
    exact congrArg some hlength

theorem Holds.pushScope (h : t.Holds scopes) : t.pushScope.Holds ([] :: scopes) :=
  congrArg (cons []) h

theorem Holds.popScope (h : t.Holds scopes) : t.popScope.Holds scopes.tail := by
  show t.scopes.tail.map _ = scopes.tail.map _
  rw [map_tail, map_tail]
  exact congrArg tail h

/-- Both tables get the same symbol. -/
theorem Holds.insert (h : t.Holds scopes) (name : String) (kind : SymbolKind)
    (scalar : Option ScalarType) (typeText detail : String) (node : NodeId) :
    (t.insert name kind scalar typeText detail node).Holds
      (scopes.modifyHead
        (⟨(Context.level? scopes).getD 0, name, kind, scalar, typeText, detail, node⟩ :: ·)) := by
  -- the symbols that are there stay
  have hkeep : ∀ (ids : List SymbolId) (shown : List Symbol), ids.map t.symbol? = shown.map some →
      ids.map (t.insert name kind scalar typeText detail node).symbol? = shown.map some := by
    intro ids shown hids
    rw [← hids]
    refine map_congr_left fun id hid => ?_
    obtain ⟨symbol, -, hsymbol⟩ := exists_symbol_of_mem_scope hids hid
    rw [hsymbol, symbol?_insert_of_some hsymbol]
  have hlevel := h.level?
  unfold Holds at h ⊢
  cases ht : t.scopes with
  | nil =>
    rw [ht] at h
    obtain rfl := map_eq_nil_iff.1 h.symm
    simp [SymbolTable.insert, ht]
  | cons ids rest =>
    rw [ht] at h
    obtain ⟨scope, outer, rfl, hscope, houter⟩ := map_eq_cons_iff.1 h.symm
    rw [scopes_insert ht, map_cons, map_cons, symbol?_insert_self, hlevel,
      modifyHead_cons, map_cons, map_cons, hkeep ids scope hscope.symm]
    congr 1
    have hrest : ∀ (rest : List (List SymbolId)) (outer : List (List Symbol)),
        rest.map (·.map t.symbol?) = outer.map (·.map some) →
        rest.map (·.map (t.insert name kind scalar typeText detail node).symbol?) =
          outer.map (·.map some) := by
      intro rest
      induction rest with
      | nil => exact fun outer h => h
      | cons ids rest ih =>
        intro outer h
        obtain ⟨scope, outer, rfl, hscope, houter⟩ := map_eq_cons_iff.1 h.symm
        rw [map_cons, map_cons, ih outer houter.symm, hkeep ids scope hscope.symm]
    exact hrest rest outer houter.symm

end SymbolTable

/-! ### Variants -/

/-- The operator of an expression. -/
def NodeKind.operator? : NodeKind → Option Operator
  | .expression e => some e.operator
  | _ => none

/-- The operator of the expression that a number stands for. -/
def Store.operator? (s : Store) (id : NodeId) : Option Operator :=
  (s.kind? id).bind NodeKind.operator?

/-- What checking may make of an operator: additions may become concatenations. -/
def Rewrites (o o' : Option Operator) : Prop := o' = o ∨ o = some .add ∧ o' = some .concat

theorem Rewrites.trans {o0 o1 o2 : Option Operator} (h1 : Rewrites o0 o1) (h2 : Rewrites o1 o2) :
    Rewrites o0 o2 := by
  rcases h1 with rfl | ⟨rfl, rfl⟩
  · exact h2
  · rcases h2 with rfl | ⟨h, -⟩
    · exact .inr ⟨rfl, rfl⟩
    · cases h

/-- A tree with the same nodes as another one. The notes of checking may differ, additions may
already be concatenations, and the nodes stand at places that go together. With it come the errors
that were reported before the two trees are checked. -/
structure Variant (s : Store) (link : Location → Location → Prop) where
  store : Store
  before : List Error
  before' : List Error
  alike : Alike s store
  operator : ∀ id, Rewrites (s.operator? id) (store.operator? id)
  place : ∀ id k, s.kind? id = some k → k.isType = false → link (s.location id) (store.location id)

/-- How far the check of a tree has come, and which nodes it has written. -/
structure Stage (s : Store) where
  state : Checker
  written : Set NodeId
  alike : Alike s state.store
  operator : ∀ id, Rewrites (s.operator? id) (state.store.operator? id)
  located : ∀ id, state.store.location id = s.location id
  unwritten : ∀ id ∉ written, state.store.kind? id = s.kind? id

variable {s : Store} {m m1 m2 : Stage s} {A B C W W1 : Set NodeId} {V : Variant s link}
  {c' : Checker} {id : NodeId} {may may' : Prop}

/-- The notes in a node, if it can have any, are among those that have been written. -/
def Store.Known (s : Store) (W : Set NodeId) (id : NodeId) : Prop :=
  ∀ k, s.kind? id = some k → k.isPlain = false → id ∈ W

theorem Store.Known.mono (h : s.Known W id) (hW : W ⊆ W1) : s.Known W1 id :=
  fun k hk hplain => hW (h k hk hplain)

/-- The additions of a variant that are already concatenations are found to be such. -/
def Variant.Settled (V : Variant s link) (A : Set NodeId) (m : Stage s) : Prop :=
  ∀ id ∈ A, V.store.operator? id = some .concat → m.state.store.operator? id = some .concat

theorem Variant.Settled.mono (h : V.Settled B m) (hA : A ⊆ B) : V.Settled A m :=
  fun id hid => h id (hA hid)

theorem Alike.symm {s' : Store} (h : Alike s s') : Alike s' s :=
  ⟨h.size.symm, fun id => (h.next id).symm, fun id => (h.kind id).symm⟩

namespace Stage

/-- The check of a variant has come as far: it has made the same notes and the same complaints. -/
structure Matches (m : Stage s) (V : Variant s link) (c' : Checker) : Prop where
  alike : Alike s c'.store
  located : ∀ id, c'.store.location id = V.store.location id
  written : ∀ id ∈ m.written, c'.store.kind? id = m.state.store.kind? id
  unwritten : ∀ id ∉ m.written, c'.store.kind? id = V.store.kind? id
  symbols : ∃ scopes, m.state.symbols.Holds scopes ∧ c'.symbols.Holds scopes
  function : c'.function = m.state.function
  depth : c'.depth = m.state.depth
  limit : c'.limit = m.state.limit
  errors : ∃ es es', m.state.diagnostics.errors = V.before ++ es ∧
    c'.diagnostics.errors = V.before' ++ es' ∧ List.Forall₂ (Error.Like link) es es'

/-- Nothing has been written to the nodes. -/
def Fresh (m : Stage s) (A : Set NodeId) : Prop := Disjoint m.written A

/-- A check has gone on and has written only to some nodes. -/
structure Reaches (A : Set NodeId) (m m1 : Stage s) : Prop where
  grows : m.written ⊆ m1.written
  inside : m1.written ⊆ m.written ∪ A
  outside : ∀ id ∉ A, m1.state.store.kind? id = m.state.store.kind? id

theorem Reaches.refl (m : Stage s) : Reaches A m m :=
  ⟨subset_rfl, subset_union_left, fun _ _ => rfl⟩

theorem Reaches.mono (h : Reaches A m m1) (hA : A ⊆ B) : Reaches B m m1 :=
  ⟨h.grows, h.inside.trans (union_subset_union_right _ hA),
    fun id hid => h.outside id fun hA' => hid (hA hA')⟩

theorem Reaches.trans (h1 : Reaches A m m1) (h2 : Reaches A m1 m2) : Reaches A m m2 :=
  ⟨h1.grows.trans h2.grows,
    h2.inside.trans (union_subset h1.inside subset_union_right),
    fun id hid => (h2.outside id hid).trans (h1.outside id hid)⟩

/-- What is written later does not settle less. -/
theorem Reaches.settled (h : Reaches B m1 m2) (hAB : Disjoint A B) (hV : V.Settled A m2) :
    V.Settled A m1 := by
  intro id hid hconcat
  have hkind := h.outside id (disjoint_left.1 hAB hid)
  have hlater := hV id hid hconcat
  rwa [operator?, hkind] at hlater

theorem Fresh.mono (h : m.Fresh A) (hB : B ⊆ A) : m.Fresh B := Disjoint.mono_right hB h

/-- Nodes stay fresh as long as other nodes are written. -/
theorem Fresh.reaches (h : m.Fresh B) (hm : Reaches A m m1) (hAB : Disjoint A B) : m1.Fresh B :=
  Disjoint.mono_left hm.inside (disjoint_union_left.2 ⟨h, hAB⟩)

theorem Fresh.of_written (h : m.Fresh A) (hm : m1.written = m.written) : m1.Fresh A := by
  rw [Fresh, hm]
  exact h

theorem Fresh.notMem (h : m.Fresh A) (hid : id ∈ A) : id ∉ m.written :=
  fun hwritten => disjoint_left.1 h hwritten hid

/-- A stage with another state, but the same tree. -/
def moved (m : Stage s) (c : Checker) (h : c.store = m.state.store) : Stage s where
  state := c
  written := m.written
  alike := h ▸ m.alike
  operator := h ▸ m.operator
  located := h ▸ m.located
  unwritten := h ▸ m.unwritten

theorem reaches_moved {c : Checker} (h : c.store = m.state.store) : Reaches A m (m.moved c h) :=
  ⟨subset_rfl, subset_union_left, fun id _ => congrArg (kind? · id) h⟩

/-! ### What checks read -/

namespace Matches

variable (h : m.Matches V c')

include h

theorem same : Alike m.state.store c'.store := m.alike.symm.trans h.alike

theorem kind?_eq (hid : s.Known m.written id) : c'.store.kind? id = m.state.store.kind? id := by
  by_cases hwritten : id ∈ m.written
  · exact h.written id hwritten
  · cases hk : s.kind? id with
    | none =>
      have hleft := m.alike.kind id
      have hright := h.alike.kind id
      simp only [hk, Option.map_none, Option.map_eq_none_iff] at hleft hright
      rw [hleft, hright]
    | some k =>
      have hplain : k.isPlain = true := by
        by_contra hplain
        exact hwritten (hid k hk (by simpa using hplain))
      rw [h.alike.kind?_plain hk hplain, m.alike.kind?_plain hk hplain]

theorem lookup (name : String) : c'.symbols.lookup name = m.state.symbols.lookup name := by
  obtain ⟨scopes, hleft, hright⟩ := h.symbols
  rw [hleft.lookup, hright.lookup]

theorem level? : c'.symbols.level? = m.state.symbols.level? := by
  obtain ⟨scopes, hleft, hright⟩ := h.symbols
  rw [hleft.level?, hright.level?]

theorem resultType?_eq (hid : s.Known m.written id) :
    c'.store.resultType? id = m.state.store.resultType? id := by
  rw [resultType?, resultType?, expression?, expression?, h.kind?_eq hid]

end Matches

end Stage

/-! ### Checks that go the same way -/

open Stage

/-- A check of a tree and the corresponding checks of its variants go the same way. The first one
writes only to the nodes in `A`, and comes to an end with a result and written nodes as in `Q`, or
fails, which it does only if it may. Every variant whose concatenations are found to be such then
gives the same result or fails with the same complaint. -/
inductive Echo (m : Stage s) (A : Set NodeId) (x : Check α) (x' : Variant s link → Check α)
    (may : Prop) (Q : α → Set NodeId → Prop) : Prop
  | ok (a : α) (m1 : Stage s) (run : x m.state = .ok a m1.state) (reaches : Reaches A m m1)
    (post : Q a m1.written)
    (echo : ∀ V c', m.Matches V c' → V.Settled A m1 →
      ∃ c1', x' V c' = .ok a c1' ∧ m1.Matches V c1')
  | error (e : Error) (m1 : Stage s) (allowed : may) (run : x m.state = .error e m1.state)
    (reaches : Reaches A m m1)
    (echo : ∀ V c', m.Matches V c' → V.Settled A m1 →
      ∃ e' c1', x' V c' = .error e' c1' ∧ e.Like link e' ∧ m1.Matches V c1')

/-- The same check in a tree and in its variants. -/
abbrev Echoed (link : Location → Location → Prop) (m : Stage s) (A : Set NodeId) (x : Check α)
    (may : Prop) (Q : α → Set NodeId → Prop) : Prop :=
  Echo m A x (fun _ : Variant s link => x) may Q

namespace Echo

variable {x : Check α} {x' : Variant s link → Check α} {f : α → Check β}
  {f' : Variant s link → α → Check β} {Q Q' : α → Set NodeId → Prop} {R : β → Set NodeId → Prop}

theorem mono (h : Echo m A x x' may Q) (hA : A ⊆ B) (hmay : may → may')
    (hQ : ∀ a W, Q a W → Q' a W) : Echo m B x x' may' Q' := by
  cases h with
  | ok a m1 run reaches post echo =>
    exact .ok a m1 run (reaches.mono hA) (hQ a _ post) fun V c' hm hV => echo V c' hm (hV.mono hA)
  | error e m1 allowed run reaches echo =>
    exact .error e m1 (hmay allowed) run (reaches.mono hA) fun V c' hm hV =>
      echo V c' hm (hV.mono hA)

theorem forget (h : Echo m A x x' may Q) : Echo m A x x' may fun _ _ => True :=
  h.mono subset_rfl id fun _ _ _ => trivial

theorem pure {a : α} (hQ : Q a m.written) :
    Echo m A (pure a) (fun _ : Variant s link => Pure.pure a) may Q :=
  .ok a m rfl (.refl m) hQ fun _ c' hm _ => ⟨c', rfl, hm⟩

/-- Checks one after another write to different nodes. -/
theorem bind (hx : Echo m A x x' may Q) (hAB : Disjoint A B) (hA : A ⊆ C) (hB : B ⊆ C)
    (hf : ∀ a m1, Reaches A m m1 → Q a m1.written →
      Echo m1 B (f a) (fun V => f' V a) may R) :
    Echo m C (x >>= f) (fun V => x' V >>= f' V) may R := by
  cases hx with
  | error e m1 allowed run reaches echo =>
    refine .error e m1 allowed (bind_of_error run) (reaches.mono hA) fun V c' hm hV => ?_
    obtain ⟨e', c1', run', he, hm1⟩ := echo V c' hm (hV.mono hA)
    exact ⟨e', c1', bind_of_error run', he, hm1⟩
  | ok a m1 run reaches post echo =>
    have hreaches : ∀ m2, Reaches B m1 m2 → Reaches C m m2 := fun m2 h =>
      (reaches.mono hA).trans (h.mono hB)
    cases hf a m1 reaches post with
    | ok b m2 run2 reaches2 post2 echo2 =>
      refine .ok b m2 ((bind_of_ok run).trans run2) (hreaches m2 reaches2) post2
        fun V c' hm hV => ?_
      obtain ⟨c1', run', hm1⟩ := echo V c' hm (reaches2.settled hAB (hV.mono hA))
      obtain ⟨c2', run2', hm2⟩ := echo2 V c1' hm1 (hV.mono hB)
      exact ⟨c2', (bind_of_ok run').trans run2', hm2⟩
    | error e m2 allowed run2 reaches2 echo2 =>
      refine .error e m2 allowed ((bind_of_ok run).trans run2) (hreaches m2 reaches2)
        fun V c' hm hV => ?_
      obtain ⟨c1', run', hm1⟩ := echo V c' hm (reaches2.settled hAB (hV.mono hA))
      obtain ⟨e', c2', run2', he, hm2⟩ := echo2 V c1' hm1 (hV.mono hB)
      exact ⟨e', c2', (bind_of_ok run').trans run2', he, hm2⟩

/-- The second check writes nothing. -/
theorem bindQuiet (hx : Echo m A x x' may Q)
    (hf : ∀ a m1, Reaches A m m1 → Q a m1.written →
      Echo m1 ∅ (f a) (fun V => f' V a) may R) :
    Echo m A (x >>= f) (fun V => x' V >>= f' V) may R :=
  hx.bind (disjoint_empty A) subset_rfl (empty_subset A) hf

variable {x1' : Variant s link → Check α}

/-- Only what checks do in the states at hand counts. -/
theorem of_runs {x1 : Check α} (h : Echo m A x1 x1' may Q)
    (hx : x m.state = x1 m.state) (hx' : ∀ V c', m.Matches V c' → x' V c' = x1' V c') :
    Echo m A x x' may Q := by
  cases h with
  | ok a m1 run reaches post echo =>
    refine .ok a m1 (hx.trans run) reaches post fun V c' hm hV => ?_
    rw [hx' V c' hm]
    exact echo V c' hm hV
  | error e m1 allowed run reaches echo =>
    refine .error e m1 allowed (hx.trans run) reaches fun V c' hm hV => ?_
    rw [hx' V c' hm]
    exact echo V c' hm hV

/-- A check that writes nothing, against checks of those variants that are settled at the start. -/
theorem of_settled_runs {x1 : Check α} (h : Echo m ∅ x1 x1' may Q)
    (hx : x m.state = x1 m.state)
    (hx' : ∀ V c', m.Matches V c' → V.Settled A m → x' V c' = x1' V c') : Echo m A x x' may Q := by
  have hempty : ∀ (V : Variant s link) (m1 : Stage s), V.Settled ∅ m1 := fun V m1 id hid => hid.elim
  cases h with
  | ok a m1 run reaches post echo =>
    refine .ok a m1 (hx.trans run) (reaches.mono (empty_subset A)) post fun V c' hm hV => ?_
    rw [hx' V c' hm (reaches.settled (disjoint_empty A) hV)]
    exact echo V c' hm (hempty V m1)
  | error e m1 allowed run reaches echo =>
    refine .error e m1 allowed (hx.trans run) (reaches.mono (empty_subset A))
      fun V c' hm hV => ?_
    rw [hx' V c' hm (reaches.settled (disjoint_empty A) hV)]
    exact echo V c' hm (hempty V m1)

/-- Both checks read the same off their states. -/
theorem look {g : Checker → α} (hg : ∀ (V : Variant s link) c', m.Matches V c' → g c' = g m.state)
    (h : Echo m A (f (g m.state)) (fun V => f' V (g m.state)) may R) :
    Echo m A (view g >>= f) (fun V => view g >>= f' V) may R := by
  refine h.of_runs rfl fun V c' hm => ?_
  rw [← hg V c' hm]
  rfl

/-- Both checks read something off their trees that does not hang on the notes. -/
theorem lookIn {g : Store → α} (hg : ∀ t, Alike s t → g t = g s)
    (h : Echo m A (f (g s)) (fun V => f' V (g s)) may R) :
    Echo m A (inStore g >>= f) (fun V => inStore g >>= f' V) may R := by
  refine .look (fun V c' hm => (hg _ hm.alike).trans (hg _ m.alike).symm) ?_
  rw [hg _ m.alike]
  exact h

/-- Both checks find the same symbol for a name. -/
theorem lookup {name : String} {f : Option Symbol → Check β}
    {f' : Variant s link → Option Symbol → Check β}
    (h : Echo m A (f (m.state.symbols.lookup name))
      (fun V => f' V (m.state.symbols.lookup name)) may R) :
    Echo m A (lookup name >>= f) (fun V => lookup name >>= f' V) may R :=
  .look (fun _ _ hm => hm.lookup name) h

/-- Both checks complain about the same node. -/
theorem report {cause : Cause} {Q : Nat → Set NodeId → Prop} (hk : s.kind? id = some k)
    (ht : k.isType = false) (hQ : Q 1 m.written) :
    Echoed link m A (report cause id) may Q := by
  refine .ok 1 (m.moved { m.state with
    diagnostics := m.state.diagnostics.report ⟨cause, m.state.store.location id⟩ } rfl) rfl
    (reaches_moved _) hQ fun V c' hm _ => ⟨_, rfl, ?_⟩
  obtain ⟨es, es', hes, hes', hlike⟩ := hm.errors
  refine { hm with errors := ⟨es ++ [⟨cause, m.state.store.location id⟩],
    es' ++ [⟨cause, c'.store.location id⟩], ?_, ?_, ?_⟩ }
  · simp [moved, Diagnostics.report, hes]
  · simp [Diagnostics.report, hes']
  · refine rel_append hlike (.cons ⟨rfl, ?_⟩ .nil)
    show link (m.state.store.location id) (c'.store.location id)
    rw [m.located, hm.located]
    exact V.place id k hk ht

/-- Both symbol tables get the same symbol. -/
theorem declare {name : String} {kind : SymbolKind} {scalar : Option ScalarType}
    {typeText detail : String} {node : NodeId} :
    Echoed link m A (declare name kind scalar typeText detail node) may
      fun _ W => W = m.written := by
  refine .ok () (m.moved { m.state with
    symbols := m.state.symbols.insert name kind scalar typeText detail node } rfl) rfl
    (reaches_moved _) rfl fun V c' hm _ => ⟨_, rfl, ?_⟩
  obtain ⟨scopes, hleft, hright⟩ := hm.symbols
  exact { hm with symbols := ⟨_, hleft.insert .., hright.insert ..⟩ }

end Echo

/-! ### Writing -/

/-- A store in which one node holds something else. -/
structure Store.Puts (s : Store) (id : NodeId) (k : NodeKind) (s1 : Store) : Prop where
  alike : Alike s s1
  located : ∀ other, s1.location other = s.location other
  self : s1.kind? id = some k
  others : ∀ other ≠ id, s1.kind? other = s.kind? other
  operator : Rewrites (s.operator? id) k.operator?

theorem Store.Puts.operator? (h : s.Puts id k s1) (other : NodeId) :
    Rewrites (s.operator? other) (s1.operator? other) := by
  by_cases hother : other = id
  · subst hother
    have hoperator := h.operator
    rwa [← Option.bind_some k NodeKind.operator?, ← h.self] at hoperator
  · left
    rw [Store.operator?, Store.operator?, h.others other hother]

theorem Store.Puts.trans {s2 : Store} {k2 : NodeKind} (h1 : s.Puts id k1 s1)
    (h2 : s1.Puts id k2 s2) :
    s.Puts id k2 s2 :=
  ⟨h1.alike.trans h2.alike, fun other => (h2.located other).trans (h1.located other), h2.self,
    fun other hne => (h2.others other hne).trans (h1.others other hne),
    (h1.operator? id).trans h2.operator⟩

theorem Store.modifyKind_puts {f : NodeKind → NodeKind} (hk : s.kind? id = some k) (hf : f k = k1)
    (hbare : k1.bare = k.bare) (hoperator : Rewrites k.operator? k1.operator?) :
    s.Puts id k1 (s.modifyKind id f) := by
  refine ⟨modifyKind_alike fun k' hk' => ?_, fun other => location_modifyKind .., ?_,
    fun other hne => kind?_modifyKind_of_ne hne, by rwa [operator?, hk]⟩
  · cases hk.symm.trans hk'
    rw [hf, hbare]
  · rw [kind?_modifyKind_self hk, hf]

/-- The stage after one node has been written. -/
def Stage.noted (m : Stage s) (id : NodeId) (k : NodeKind) (s1 : Store)
    (h : m.state.store.Puts id k s1) : Stage s where
  state := { m.state with store := s1 }
  written := insert id m.written
  alike := m.alike.trans h.alike
  operator other := (m.operator other).trans (h.operator? other)
  located other := (h.located other).trans (m.located other)
  unwritten other hother := by
    rw [mem_insert_iff, not_or] at hother
    exact (h.others other hother.1).trans (m.unwritten other hother.2)

theorem Stage.Matches.noted {s1' : Store} (hm : m.Matches V c') (h : m.state.store.Puts id k s1)
    (h' : c'.store.Puts id k s1') : (m.noted id k s1 h).Matches V { c' with store := s1' } := by
  refine ⟨hm.alike.trans h'.alike, fun other => (h'.located other).trans (hm.located other),
    fun other hother => ?_, fun other hother => ?_, hm.symbols, hm.function, hm.depth, hm.limit,
    hm.errors⟩
  · by_cases hid : other = id
    · subst hid
      exact h'.self.trans h.self.symm
    · have hwritten : other ∈ m.written := hother.resolve_left hid
      exact (h'.others other hid).trans
        ((hm.written other hwritten).trans (h.others other hid).symm)
  · have hother : other ≠ id ∧ other ∉ m.written := by
      simpa [Stage.noted, mem_insert_iff, not_or] using hother
    exact (h'.others other hother.1).trans (hm.unwritten other hother.2)

namespace Echo

variable {x y : Check Nat} {x' y' : Variant s link → Check Nat} {Q R : Nat → Set NodeId → Prop}

/-- Both checks write the same to one node. -/
theorem note {x : Check α} {x' : Variant s link → Check α} {Q : α → Set NodeId → Prop} {a : α}
    (h : m.state.store.Puts id k s1) (run : x m.state = .ok a { m.state with store := s1 })
    (run' : ∀ V c', m.Matches V c' →
      (V.store.operator? id = some .concat → k.operator? = some .concat) →
      ∃ s1', x' V c' = .ok a { c' with store := s1' } ∧ c'.store.Puts id k s1')
    (hQ : Q a (insert id m.written)) : Echo m {id} x x' may Q := by
  refine .ok a (m.noted id k s1 h) run ⟨subset_insert .., ?_, ?_⟩ hQ fun V c' hm hV => ?_
  · intro other hother
    exact hother.symm
  · exact fun other hother => h.others other hother
  · have hself : (m.noted id k s1 h).state.store.operator? id = k.operator? :=
      congrArg (Option.bind · NodeKind.operator?) h.self
    have hconcat := hV id rfl
    rw [hself] at hconcat
    obtain ⟨s1', hrun', h'⟩ := run' V c' hm hconcat
    exact ⟨_, hrun', hm.noted h h'⟩

/-- Both checks change one node, which has not been written before, into the same. -/
theorem modifyKind {f : NodeKind → NodeKind} (hid : id ∉ m.written) (hk : s.kind? id = some k)
    (hf : f k = k1) (hbare : k1.bare = k.bare) (hoperator : Rewrites k.operator? k1.operator?)
    (hV : ∀ V : Variant s link, ∃ k', V.store.kind? id = some k' ∧ f k' = k1 ∧ k1.bare = k'.bare ∧
      Rewrites k'.operator? k1.operator?) :
    Echoed link m {id} (write fun s => s.modifyKind id f) may fun _ W => id ∈ W := by
  have hself := (m.unwritten id hid).trans hk
  refine .note (modifyKind_puts hself hf hbare hoperator) rfl (fun V c' hm _ => ?_)
    (mem_insert ..)
  obtain ⟨k', hk', hf', hbare', hoperator'⟩ := hV V
  have hself' := (hm.unwritten id hid).trans hk'
  exact ⟨_, rfl, modifyKind_puts hself' hf' hbare' hoperator'⟩

/-! ### Scopes, functions and levels -/

/-- A check between two steps that leave the tree alone, the second of which is made in any case. -/
theorem between (enter : Checker → Checker) (leave : Checker → Checker → Checker)
    (henter : ∀ c, (enter c).store = c.store) (hleave : ∀ c c1, (leave c c1).store = c1.store)
    (hin : ∀ (V : Variant s link) c', m.Matches V c' →
      (m.moved (enter m.state) (henter _)).Matches V (enter c'))
    (hout : ∀ (m1 : Stage s) (V : Variant s link) c' c1', m.Matches V c' → m1.Matches V c1' →
      (m1.moved (leave m.state m1.state) (hleave ..)).Matches V (leave c' c1'))
    (h : Echo (m.moved (enter m.state) (henter _)) A x x' may Q) :
    Echo m A (fun c => endIn (leave c) (x (enter c)))
      (fun V c => endIn (leave c) (x' V (enter c))) may Q := by
  have hreaches : ∀ m1, Reaches A (m.moved (enter m.state) (henter _)) m1 →
      Reaches A m (m1.moved (leave m.state m1.state) (hleave ..)) := fun m1 h =>
    ((reaches_moved _).trans h).trans (reaches_moved _)
  have hsettled : ∀ (m1 : Stage s) (V : Variant s link),
      V.Settled A (m1.moved (leave m.state m1.state) (hleave ..)) → V.Settled A m1 := by
    intro m1 V hV id hid hconcat
    rw [← hleave m.state m1.state]
    exact hV id hid hconcat
  cases h with
  | ok n m1 run reaches post echo =>
    refine .ok n (m1.moved (leave m.state m1.state) (hleave ..)) ?_ (hreaches m1 reaches) post
      fun V c' hm hV => ?_
    · show endIn _ (x (m.moved (enter m.state) (henter _)).state) = _
      rw [run]
      rfl
    · obtain ⟨c1', run', hm1⟩ := echo V (enter c') (hin V c' hm) (hsettled m1 V hV)
      exact ⟨leave c' c1', by rw [run', endIn], hout m1 V c' c1' hm hm1⟩
  | error e m1 allowed run reaches echo =>
    refine .error e (m1.moved (leave m.state m1.state) (hleave ..)) allowed ?_ (hreaches m1 reaches)
      fun V c' hm hV => ?_
    · show endIn _ (x (m.moved (enter m.state) (henter _)).state) = _
      rw [run]
      rfl
    · obtain ⟨e', c1', run', he, hm1⟩ := echo V (enter c') (hin V c' hm) (hsettled m1 V hV)
      exact ⟨e', leave c' c1', by rw [run', endIn], he, hout m1 V c' c1' hm hm1⟩

section

variable (h : ∀ m1 : Stage s, m1.written = m.written → Echo m1 A x x' may Q)

include h

theorem inScope : Echo m A (inScope x) (fun V => inScope (x' V)) may Q := by
  simp only [inScope_eq]
  refine between Checker.pushScope (fun _ c1 => c1.popScope) (fun _ => rfl)
    (fun _ _ => rfl) (fun V c' hm => ?_) (fun m1 V c' c1' hm hm1 => ?_) (h _ rfl)
  · obtain ⟨scopes, hleft, hright⟩ := hm.symbols
    exact { hm with symbols := ⟨_, hleft.pushScope, hright.pushScope⟩ }
  · obtain ⟨scopes, hleft, hright⟩ := hm1.symbols
    exact { hm1 with symbols := ⟨_, hleft.popScope, hright.popScope⟩ }

theorem within {function : NodeId} :
    Echo m A (within function x) (fun V => within function (x' V)) may Q := by
  simp only [within_eq]
  exact between (fun c => { c with function := some function })
    (fun c c1 => { c1 with function := c.function }) (fun _ => rfl) (fun _ _ => rfl)
    (fun V c' hm => { hm with function := rfl })
    (fun m1 V c' c1' hm hm1 => { hm1 with function := hm.function }) (h _ rfl)

theorem deeper : Echo m A (deeper x) (fun V => deeper (x' V)) may Q := by
  simp only [deeper_eq]
  exact between (fun c => { c with depth := c.depth + 1 })
    (fun _ c1 => { c1 with depth := c1.depth - 1 }) (fun _ => rfl) (fun _ _ => rfl)
    (fun V c' hm => { hm with depth := congrArg (· + 1) hm.depth })
    (fun m1 V c' c1' hm hm1 => { hm1 with depth := congrArg (· - 1) hm1.depth }) (h _ rfl)

end

/-! ### Sequences -/

/-- The second check, if it takes place, knows what the first one has found. -/
theorem andThen (hx : Echo m A x x' may Q) (hAB : Disjoint A B) (hA : A ⊆ C) (hB : B ⊆ C)
    (hy : ∀ m1, Reaches A m m1 → Q 0 m1.written → Echo m1 B y y' may R)
    (hR : ∀ n W, n ≠ 0 → R n W) :
    Echo m C (andThen x y) (fun V => andThen (x' V) (y' V)) may R := by
  refine hx.bind hAB hA hB fun n m1 hm hQ => ?_
  by_cases hn : n = 0
  · subst hn
    exact hy m1 hm hQ
  · simp only [if_neg hn]
    exact .pure (hR n _ hn)

/-- The second check writes nothing. -/
theorem andThenQuiet (hx : Echo m A x x' may Q) (hA : A ⊆ C)
    (hy : ∀ m1, Reaches A m m1 → Q 0 m1.written → Echo m1 ∅ y y' may R)
    (hR : ∀ n W, n ≠ 0 → R n W) :
    Echo m C (Check.andThen x y) (fun V => Check.andThen (x' V) (y' V)) may R :=
  hx.andThen (Set.disjoint_empty A) hA (Set.empty_subset C) hy hR

/-- Two checks one after another, whose errors are added up. -/
theorem add (hx : Echo m A x x' may fun _ _ => True) (hAB : Disjoint A B) (hA : A ⊆ C) (hB : B ⊆ C)
    (hy : ∀ m1, Reaches A m m1 → Echo m1 B y y' may fun _ _ => True) :
    Echo m C (do let i ← x; let j ← y; Pure.pure (i + j))
      (fun V => do let i ← x' V; let j ← y' V; Pure.pure (i + j)) may fun _ _ => True :=
  hx.bind hAB hA hB fun _ m1 hm _ => (hy m1 hm).bindQuiet fun _ _ _ _ => .pure trivial

/-- Three checks one after another. -/
theorem add₃ {z : Check Nat} {z' : Variant s link → Check Nat} {D : Set NodeId}
    (hx : Echo m A x x' may fun _ _ => True) (hA : A ⊆ D) (hB : B ⊆ D) (hC : C ⊆ D)
    (hAB : Disjoint A B) (hAC : Disjoint A C) (hBC : Disjoint B C)
    (hy : ∀ m1, Reaches A m m1 → Echo m1 B y y' may fun _ _ => True)
    (hz : ∀ m1 m2, Reaches A m m1 → Reaches B m1 m2 → Echo m2 C z z' may fun _ _ => True) :
    Echo m D (do let i ← x; let j ← y; let k ← z; Pure.pure (i + j + k))
      (fun V => do let i ← x' V; let j ← y' V; let k ← z' V; Pure.pure (i + j + k)) may
      fun _ _ => True := by
  refine hx.bind (disjoint_union_right.2 ⟨hAB, hAC⟩) hA (union_subset hB hC)
    fun i m1 hm _ => ?_
  refine (hy m1 hm).bind hBC subset_union_left subset_union_right fun j m2 hm2 _ => ?_
  exact (hz m1 m2 hm hm2).bindQuiet fun _ _ _ _ => .pure trivial

end Echo

end PLang
