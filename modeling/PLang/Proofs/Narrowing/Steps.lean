import PLang.Proofs.Checking.Operators
import PLang.Proofs.Narrowing.Tree
import PLang.Proofs.NestingLimit.Checking

/-!
# What is accepted stays accepted

Two checks go side by side, one of a tree and one of a narrower tree, as long as the first one finds
no error. `Narrower` relates their states: notes and symbols of the second one may have an integer
where those of the first one have a real, but among the symbols only constants do. `Accepts` says of
two steps that the second one finds no error if the first one finds none.
-/

namespace PLang

open Check Option Store

variable {s s' : Store} {c c' : Checker} {id : NodeId}

variable {node : NodeId} {type : ScalarType}

/-! ### Types -/

namespace Narrows

variable {t t' u u' : Option ScalarType}

section

variable (h : Narrows t t')

include h

theorem eq_of_ne (ht : t ≠ some .real) : t' = t :=
  h.resolve_right fun hreal => ht hreal.1

theorem eq_some (hreal : type ≠ .real) (ht : t = some type) : t' = some type := by
  subst ht
  exact h.eq_of_ne fun heq => hreal (some.inj heq)

theorem isNone_eq : t'.isNone = t.isNone := by
  rcases h with rfl | ⟨rfl, rfl⟩ <;> rfl

theorem isNumeric?_eq : isNumeric? t' = isNumeric? t := by
  rcases h with rfl | ⟨rfl, rfl⟩ <;> rfl

/-- An integer may stand wherever a real may. -/
theorem coercesTo (target : ScalarType) (ht : t.any (·.coercesTo target) = true) :
    t'.any (·.coercesTo target) = true := by
  rcases h with rfl | ⟨rfl, rfl⟩
  · exact ht
  · cases target <;> first | rfl | cases ht

/-- Strings stay strings, so operators mean the same. -/
theorem resolve_eq (hu : Narrows u u') (o : Operator) : o.resolve t' u' = o.resolve t u := by
  rcases h with rfl | ⟨rfl, rfl⟩ <;> rcases hu with rfl | ⟨rfl, rfl⟩ <;> simp [Operator.resolve]

/-- Arithmetic on narrower operands is narrower. -/
theorem arithmetic? (hu : Narrows u u') (ho : Operator.arithmetic? t u = some type) :
    ∃ type', Operator.arithmetic? t' u' = some type' ∧ Narrows (some type) (some type') := by
  obtain ⟨hnumeric, ho⟩ := ite_none_right_eq_some.1 ho
  have hnumeric' : isNumeric? t' ∧ isNumeric? u' := by
    rwa [h.isNumeric?_eq, hu.isNumeric?_eq]
  rw [Operator.arithmetic?, if_pos hnumeric']
  by_cases hreal : t = some .real ∨ u = some .real
  · rw [if_pos hreal] at ho
    cases ho
    split
    · exact ⟨_, rfl, .refl _⟩
    · exact ⟨_, rfl, .inr ⟨rfl, rfl⟩⟩
  · rw [h.eq_of_ne fun ht => hreal (.inl ht), hu.eq_of_ne fun hu => hreal (.inr hu)]
    exact ⟨type, ho, .refl _⟩

/-- Operators take integers wherever they take reals. -/
theorem result? (hu : Narrows u u') {o : Operator} (ho : o.result? t u = some type) :
    ∃ type', o.result? t' u' = some type' ∧ Narrows (some type) (some type') := by
  cases o with
  | negate =>
    obtain ⟨hnumeric, rfl⟩ := Option.ite_none_right_eq_some.1 ho
    rw [← hu.isNumeric?_eq] at hnumeric
    rcases hu with rfl | ⟨hreal, rfl⟩
    · exact ⟨type, if_pos hnumeric, .refl _⟩
    · exact ⟨.integer, rfl, .inr ⟨hreal, rfl⟩⟩
  | not =>
    obtain ⟨hright, hboolean⟩ := Option.ite_none_right_eq_some.1 ho
    rw [hu.eq_some (by decide) hright]
    exact ⟨_, rfl, .inl (hright.symm.trans hboolean)⟩
  | modulo =>
    obtain ⟨⟨hleft, hright⟩, htype⟩ := Option.ite_none_right_eq_some.1 ho
    rw [h.eq_some (by decide) hleft, hu.eq_some (by decide) hright]
    exact ⟨_, rfl, .inl htype⟩
  | concat =>
    obtain ⟨⟨hleft, hright⟩, htype⟩ := Option.ite_none_right_eq_some.1 ho
    rw [h.eq_some (by decide) hleft, hu.eq_some (by decide) hright]
    exact ⟨_, rfl, .inl htype⟩
  | add | subtract | multiply | divide =>
    have harithmetic : Operator.arithmetic? t u = some type := by
      simpa [Operator.result?, Operator.isArithmetic, Operator.isRelational, Operator.isLogical,
        Operator.arithmetic?] using ho
    obtain ⟨type', htype', hnarrows⟩ := h.arithmetic? hu harithmetic
    refine ⟨type', ?_, hnarrows⟩
    simpa [Operator.result?, Operator.isArithmetic, Operator.isRelational, Operator.isLogical,
      Operator.arithmetic?] using htype'
  | less | lessEqual | equal | greaterEqual | greater | notEqual =>
    have hcompared : (isNumeric? t ∧ isNumeric? u) ∧ ScalarType.boolean = type := by
      simpa [Operator.result?, Operator.isArithmetic, Operator.isRelational, Operator.isLogical]
        using ho
    obtain ⟨hnumeric, rfl⟩ := hcompared
    refine ⟨.boolean, ?_, .refl _⟩
    rw [← h.isNumeric?_eq, ← hu.isNumeric?_eq] at hnumeric
    simp [Operator.result?, Operator.isArithmetic, Operator.isRelational, hnumeric]
  | and | or =>
    have hlogical : (t = some .boolean ∧ u = some .boolean) ∧ ScalarType.boolean = type := by
      simpa [Operator.result?, Operator.isArithmetic, Operator.isRelational, Operator.isLogical]
        using ho
    obtain ⟨⟨hleft, hright⟩, rfl⟩ := hlogical
    rw [h.eq_some (by decide) hleft, hu.eq_some (by decide) hright]
    exact ⟨.boolean, rfl, .refl _⟩
  | constant | reference | call => cases ho

end
end Narrows

/-! ### Symbols -/

/-- The same symbol, or a constant with an integer in the place of a real. -/
structure Symbol.NarrowedAs (s : Store) (symbol symbol' : Symbol) : Prop where
  level : symbol'.level = symbol.level
  name : symbol'.name = symbol.name
  kind : symbol'.kind = symbol.kind
  node : symbol'.node = symbol.node
  scalar : Narrows symbol.scalar symbol'.scalar
  constant : symbol'.scalar = symbol.scalar ∨
    symbol.kind = .constant ∧ s.dimensions symbol.node = []

/-- Symbol tables with the same open scopes, some of whose constants are narrower. -/
structure SymbolTable.Narrowed (s : Store) (t t' : SymbolTable) : Prop where
  scopes : t'.scopes = t.scopes
  size : t'.entries.size = t.entries.size
  symbol : ∀ id, Option.Rel (Symbol.NarrowedAs s) (t.symbol? id) (t'.symbol? id)

variable {scalar scalar' : Option ScalarType}

namespace SymbolTable.Narrowed

variable {t t' : SymbolTable}

variable (h : t.Narrowed s t')

include h

theorem level? : t'.level? = t.level? := by
  rw [SymbolTable.level?, SymbolTable.level?, h.scopes]

theorem hasName (name : String) : t'.hasName name = t.hasName name := by
  funext id
  have hsymbol := h.symbol id
  rw [SymbolTable.hasName, SymbolTable.hasName]
  generalize t.symbol? id = o, t'.symbol? id = o' at hsymbol
  cases hsymbol with
  | none => rfl
  | some hs => rw [any_some, any_some, hs.name]

theorem lookup (name : String) :
    Option.Rel (Symbol.NarrowedAs s) (t.lookup name) (t'.lookup name) := by
  have hid : t'.lookupId name = t.lookupId name := by
    rw [lookupId, lookupId, live, live, h.scopes, h.hasName]
  rw [SymbolTable.lookup, SymbolTable.lookup, hid]
  cases t.lookupId name with
  | none => exact .none
  | some id => exact h.symbol id

theorem pushScope : t.pushScope.Narrowed s t'.pushScope :=
  ⟨congrArg (List.cons []) h.scopes, h.size, h.symbol⟩

theorem popScope : t.popScope.Narrowed s t'.popScope :=
  ⟨congrArg List.tail h.scopes, h.size, h.symbol⟩

/-- Both tables get a symbol, the second one perhaps a narrower constant. -/
theorem insert {name typeText typeText' detail detail' : String} {kind : SymbolKind}
    (hscalar : Narrows scalar scalar')
    (hconstant : scalar' = scalar ∨ kind = .constant ∧ s.dimensions node = []) :
    (t.insert name kind scalar typeText detail node).Narrowed s
      (t'.insert name kind scalar' typeText' detail' node) where
  scopes := by
    simp only [SymbolTable.insert, nextId, h.scopes, h.size]
  size := by
    simp only [SymbolTable.insert, Array.size_push, h.size]
  symbol id := by
    simp only [symbol?, SymbolTable.insert, Array.getElem?_push, h.size, h.level?]
    split
    · exact .some ⟨rfl, rfl, rfl, rfl, hscalar, hconstant⟩
    · exact h.symbol id

end SymbolTable.Narrowed

/-! ### States -/

/-- States of two checks that have come equally far, one in a tree and one in a narrower tree. -/
structure Narrower (s s' : Store) (c c' : Checker) : Prop where
  alike : Alike s c.store
  alike' : Alike s' c'.store
  store : c.store.Narrowed c'.store
  symbols : c.symbols.Narrowed s c'.symbols
  function : c'.function = c.function
  depth : c'.depth = c.depth
  limit : c'.limit = c.limit

namespace Narrower

variable (h : Narrower s s' c c')

include h

theorem wrappedReference? (operand : NodeId) :
    Option.Rel ReferenceNode.NarrowedAs (c.wrappedReference? operand)
      (c'.wrappedReference? operand) := by
  have hexpression := h.store.expression? operand
  rw [Checker.wrappedReference?, Checker.wrappedReference?]
  generalize c.store.expression? operand = o, c'.store.expression? operand = o' at hexpression
  cases hexpression with
  | none => exact .none
  | @some e e' he =>
    rw [filter_some, filter_some, he.operator]
    split
    · rw [bind_some, bind_some, he.left]
      cases e.left with
      | none => exact .none
      | some id => exact h.store.reference? id
    · exact .none

/-- Constants are no arrays, so arrays have the same types. -/
theorem arrayText?_eq (operand : NodeId) : c'.arrayText? operand = c.arrayText? operand := by
  have hreference := h.wrappedReference? operand
  unfold Checker.arrayText?
  generalize c.wrappedReference? operand = o, c'.wrappedReference? operand = o' at hreference
  cases hreference with
  | none => rfl
  | @some r r' hr =>
    have hsymbol := h.symbols.lookup r.name
    simp only [bind_eq_bind, bind_some, hr.name, hr.indices, h.store.listLength_eq]
    generalize c.symbols.lookup r.name = o, c'.symbols.lookup r.name = o' at hsymbol
    cases hsymbol with
    | none => rfl
    | @some symbol symbol' hs =>
      simp only [bind_some, hs.node, h.store.dimensions_eq]
      rcases hs.constant with hscalar | ⟨-, hdimensions⟩
      · rw [hscalar]
      · rw [h.alike.dimensions_eq, hdimensions, List.drop_nil]
        cases symbol.scalar <;> cases symbol'.scalar <;> rfl

/-- An argument that passes may be narrower. -/
theorem passes {argument : NodeId} {parameter : TypeNode}
    (hpasses : c.passes argument parameter = true) : c'.passes argument parameter = true := by
  have htype := h.store.resultType? argument
  unfold Checker.passes at hpasses ⊢
  split at hpasses
  next hscalar => exact htype.coercesTo _ hpasses
  next => rwa [htype.isNone_eq, h.arrayText?_eq]

theorem clashes_eq (name : String) : clashes c' name = clashes c name := by
  have hsymbol := h.symbols.lookup name
  rw [clashes, clashes, h.symbols.level?]
  generalize c.symbols.lookup name = o, c'.symbols.lookup name = o' at hsymbol
  cases hsymbol with
  | none => rfl
  | some hs => rw [any_some, any_some, hs.level, hs.kind]

theorem pushScope : Narrower s s' c.pushScope c'.pushScope :=
  { h with symbols := h.symbols.pushScope }

theorem popScope : Narrower s s' c.popScope c'.popScope :=
  { h with symbols := h.symbols.popScope }

theorem within {f f' : Option NodeId} (hf : f' = f) :
    Narrower s s' { c with function := f } { c' with function := f' } :=
  { h with function := hf }

theorem deeper : Narrower s s' { c with depth := c.depth + 1 } { c' with depth := c'.depth + 1 } :=
  { h with depth := congrArg (· + 1) h.depth }

theorem higher : Narrower s s' { c with depth := c.depth - 1 } { c' with depth := c'.depth - 1 } :=
  { h with depth := congrArg (· - 1) h.depth }

variable {type' : Option ScalarType}

theorem setResult {type : Option ScalarType} (htype : Narrows type type') :
    Narrower s s' { c with store := c.store.setResult id type }
      { c' with store := c'.store.setResult id type' } :=
  { h with
    alike := h.alike.trans (setResult_alike type)
    alike' := h.alike'.trans (setResult_alike type')
    store := h.store.setResult htype }

theorem setReferenceType (id : NodeId) {type : Option ScalarType}
    (htype : Narrows type type') :
    Narrower s s' { c with store := c.store.setReferenceType id type }
      { c' with store := c'.store.setReferenceType id type' } :=
  { h with
    alike := h.alike.trans (setReferenceType_alike type)
    alike' := h.alike'.trans (setReferenceType_alike type')
    store := h.store.setReferenceType htype }

theorem setCallType (type : Option ScalarType) :
    Narrower s s' { c with store := c.store.setCallType id type }
      { c' with store := c'.store.setCallType id type } :=
  { h with
    alike := h.alike.trans (setCallType_alike type)
    alike' := h.alike'.trans (setCallType_alike type)
    store := h.store.setCallType type }

end Narrower

/-! ### Steps and sequences -/

/-- What a check accepts in one state, another check accepts in another state. The states that they
reach are in the relation `R`. -/
def Accepts (R : Checker → Checker → Prop) (c c' : Checker) (x x' : Check Nat) : Prop :=
  ∀ c1, x c = .ok 0 c1 → ∃ c1', x' c' = .ok 0 c1' ∧ R c1 c1'

/-- The same check in both trees. -/
abbrev AcceptsSame (R : Checker → Checker → Prop) (c c' : Checker) (x : Check Nat) : Prop :=
  Accepts R c c' x x

namespace Accepts

variable {α : Type} {R S : Checker → Checker → Prop} {x x' y y' : Check Nat}

theorem mono (h : Accepts R c c' x x') (hRS : ∀ c1 c1', R c1 c1' → S c1 c1') :
    Accepts S c c' x x' := by
  intro c1 hrun
  obtain ⟨c1', hrun', hc1⟩ := h c1 hrun
  exact ⟨c1', hrun', hRS c1 c1' hc1⟩

theorem done (h : R c c') : AcceptsSame R c c' (pure 0) := by
  rintro c1 ⟨⟩
  exact ⟨c', rfl, h⟩

/-- A report is no acceptance. -/
theorem report {cause : Cause} : Accepts R c c' (report cause node) x' := by
  rintro c1 ⟨⟩

theorem complain {f : Checker → Cause} :
    Accepts R c c' (do let cause ← Check.view f; Check.report cause node) x' := by
  rintro c1 ⟨⟩

theorem look {f f' : Checker → α} {g g' : α → Check Nat}
    (h : Accepts R c c' (g (f c)) (g' (f' c'))) :
    Accepts R c c' (view f >>= g) (view f' >>= g') := h

theorem lookFirst {f : Checker → α} {g : α → Check Nat} (h : Accepts R c c' (g (f c)) x') :
    Accepts R c c' (view f >>= g) x' := h

variable {g g' : Unit → Check Nat}

theorem write {f f' : Store → Store}
    (h : Accepts R { c with store := f c.store } { c' with store := f' c'.store } (g ()) (g' ())) :
    Accepts R c c' (write f >>= g) (write f' >>= g') := h

theorem declare {name name' typeText typeText' detail detail' : String} {kind kind' : SymbolKind}
    {node' : NodeId}
    (h : Accepts R { c with symbols := c.symbols.insert name kind scalar typeText detail node }
      { c' with symbols := c'.symbols.insert name' kind' scalar' typeText' detail' node' }
      (g ()) (g' ())) :
    Accepts R c c' (declare name kind scalar typeText detail node >>= g)
      (declare name' kind' scalar' typeText' detail' node' >>= g') := h

/-- A check goes on only if it has found nothing so far. -/
theorem bind {f f' : Nat → Check Nat} (hx : Accepts R c c' x x')
    (hf : ∀ c1 c1', R c1 c1' → Accepts S c1 c1' (f 0) (f' 0))
    (hfound : ∀ m c1 c2, f m c1 = .ok 0 c2 → m = 0) :
    Accepts S c c' (x >>= f) (x' >>= f') := by
  intro c2 hrun
  obtain ⟨m, c1, hm, hrun⟩ := ok_of_bind hrun
  obtain rfl := hfound m c1 c2 hrun
  obtain ⟨c1', hm', hc1⟩ := hx c1 hm
  obtain ⟨c2', hrun', hc2⟩ := hf c1 c1' hc1 c2 hrun
  exact ⟨c2', (bind_of_ok hm').trans hrun', hc2⟩

theorem eq_zero_of_pure {m : Nat} {c1 c2 : Checker} (h : (pure m : Check Nat) c1 = .ok 0 c2) :
    m = 0 :=
  (EStateM.Result.ok.inj h).1

theorem eq_zero_of_plus {m : Nat} {c1 c2 : Checker}
    (h : (do let n ← y; pure (m + n) : Check Nat) c1 = .ok 0 c2) : m = 0 := by
  obtain ⟨n, c3, -, h⟩ := ok_of_bind h
  exact Nat.eq_zero_of_add_eq_zero_right (eq_zero_of_pure h)

section

variable (hx : Accepts R c c' x x') (hy : ∀ c1 c1', R c1 c1' → Accepts S c1 c1' y y')

include hx hy

theorem andThen : Accepts S c c' (andThen x y) (andThen x' y') := by
  refine hx.bind hy fun m c1 c2 h => ?_
  split at h
  next hzero => exact hzero
  next => exact eq_zero_of_pure h

theorem add :
    Accepts S c c' (do let m ← x; let n ← y; pure (m + n))
      (do let m ← x'; let n ← y'; pure (m + n)) := by
  refine hx.bind (fun c1 c1' h1 => ?_) fun m c1 c2 => eq_zero_of_plus
  exact (hy c1 c1' h1).bind (fun c2 c2' h2 => .done h2) fun n c2 c3 h => by
    rw [Nat.zero_add] at h
    exact eq_zero_of_pure h

theorem addThree {z z' : Check Nat} {T : Checker → Checker → Prop}
    (hz : ∀ c1 c1', S c1 c1' → Accepts T c1 c1' z z') :
    Accepts T c c' (do let l ← x; let m ← y; let n ← z; pure (l + m + n))
      (do let l ← x'; let m ← y'; let n ← z'; pure (l + m + n)) := by
  refine hx.bind (fun c1 c1' h1 => ?_) fun l c1 c2 h => ?_
  · simp only [Nat.zero_add]
    exact (hy c1 c1' h1).add hz
  · obtain ⟨m, c3, -, h⟩ := ok_of_bind h
    exact Nat.eq_zero_of_add_eq_zero_right (eq_zero_of_plus h)

end

/-- A check between two changes of the state. -/
theorem between (before : Checker → Checker) (behind : Checker → Checker → Checker)
    (hx : Accepts R (before c) (before c') x x')
    (hbehind : ∀ c1 c1', R c1 c1' → S (behind c c1) (behind c' c1')) :
    Accepts S c c' (fun c => endIn (behind c) (x (before c)))
      (fun c => endIn (behind c) (x' (before c))) := by
  intro c2 hrun
  dsimp only at hrun ⊢
  cases hm : x (before c) with
  | error e c1 =>
    rw [hm] at hrun
    cases hrun
  | ok m c1 =>
    rw [hm] at hrun
    obtain ⟨rfl, rfl⟩ := EStateM.Result.ok.inj hrun
    obtain ⟨c1', hm', hc1⟩ := hx c1 hm
    rw [hm']
    exact ⟨_, rfl, hbehind c1 c1' hc1⟩

theorem inScope (hx : Accepts R c.pushScope c'.pushScope x x')
    (hpop : ∀ c1 c1', R c1 c1' → S c1.popScope c1'.popScope) :
    Accepts S c c' (inScope x) (inScope x') := by
  rw [inScope_eq, inScope_eq]
  exact between _ _ hx hpop

theorem within (f : NodeId)
    (hx : Accepts R { c with function := some f } { c' with function := some f } x x')
    (hback : ∀ c1 c1', R c1 c1' →
      S { c1 with function := c.function } { c1' with function := c'.function }) :
    Accepts S c c' (within f x) (within f x') := by
  rw [within_eq, within_eq]
  exact between (fun c => { c with function := some f })
    (fun c c1 => { c1 with function := c.function }) hx hback

theorem deeper
    (hx : Accepts R { c with depth := c.depth + 1 } { c' with depth := c'.depth + 1 } x x')
    (hback : ∀ c1 c1', R c1 c1' →
      S { c1 with depth := c1.depth - 1 } { c1' with depth := c1'.depth - 1 }) :
    Accepts S c c' (deeper x) (deeper x') := by
  rw [deeper_eq, deeper_eq]
  exact between (fun c => { c with depth := c.depth + 1 })
    (fun _ c1 => { c1 with depth := c1.depth - 1 }) hx hback

theorem optional {visit : NodeId → Check Nat} {part : Option NodeId} (h : R c c')
    (hvisit : ∀ id, part = some id → AcceptsSame R c c' (visit id)) :
    AcceptsSame R c c' (optional visit part) := by
  cases part with
  | none => exact .done h
  | some id => exact hvisit id rfl

/-! ### Lists -/

variable {visit visit' : NodeId → Check Nat} {M : NodeId → Prop}

/-- A list whose members are of some sort. -/
theorem listUpTo (hnext : ∀ c c', R c c' → ∀ id, c'.store.next? id = c.store.next? id)
    (hM : ∀ c c', R c c' → ∀ id other, M id → c.store.next? id = some other → M other)
    (hvisit : ∀ id c c', M id → R c c' → Accepts R c c' (visit id) (visit' id))
    (policy : ListPolicy) (n : Nat) (head : Option NodeId) (hhead : ∀ id, head = some id → M id)
    (h : R c c') :
    Accepts R c c' (listUpTo visit policy n head) (listUpTo visit' policy n head) := by
  induction n generalizing head c c' with
  | zero => exact .done h
  | succ n ih =>
    cases head with
    | none => exact .done h
    | some id =>
      refine (hvisit id c c' (hhead id rfl) h).bind (fun c1 c1' h1 => ?_) fun m c1 c2 hrun => ?_
      · rw [if_neg (by simp), if_neg (by simp)]
        have hmore := ih (c1.store.next? id) (hM c1 c1' h1 id · (hhead id rfl)) h1
        refine .look (Accepts.bind (R := R) ?_ (fun c2 c2' h2 => .done h2) fun m c2 c3 hrun => ?_)
        · dsimp only
          rwa [hnext c1 c1' h1]
        · rw [Nat.zero_add] at hrun
          exact eq_zero_of_pure hrun
      · split at hrun
        · exact eq_zero_of_pure hrun
        · obtain ⟨next, c3, -, hrun⟩ := ok_of_bind hrun
          exact eq_zero_of_plus hrun

theorem list (hsize : ∀ c c', R c c' → c'.store.size = c.store.size)
    (hnext : ∀ c c', R c c' → ∀ id, c'.store.next? id = c.store.next? id)
    (hM : ∀ c c', R c c' → ∀ id other, M id → c.store.next? id = some other → M other)
    (hvisit : ∀ id c c', M id → R c c' → Accepts R c c' (visit id) (visit' id))
    (policy : ListPolicy) (head : Option NodeId) (hhead : ∀ id, head = some id → M id)
    (h : R c c') :
    Accepts R c c' (list visit policy head) (list visit' policy head) := by
  refine .look ?_
  rw [hsize c c' h]
  exact listUpTo hnext hM hvisit policy _ head hhead h

end Accepts

end PLang
