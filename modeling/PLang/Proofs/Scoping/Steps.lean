import PLang.Proofs.Checking.Annotation
import PLang.Proofs.Checking.Outcomes
import PLang.Proofs.Scoping.Sites
import PLang.Proofs.Scoping.Table
import PLang.Proofs.Scoping.Watched

/-!
# Checks in a context

`Does s c Γ symbols sites watched plain` says what a check does that starts with the context `Γ`:
being watched makes no difference, the symbols are declared in the innermost construct, and
redeclarations are reported at the sites, once each. One rule for every step of checks, and one
lemma for every check that declares nothing.
-/

namespace PLang

open Context Check List NodeKind Store

variable {id : NodeId}

/-- A store with what checking has noted in it. -/
structure Noted (s s' : Store) : Prop where
  alike : Alike s s'
  location : ∀ id, s'.location id = s.location id

/-- The symbol table shows a context, and the tree is the one that was parsed. -/
structure Stands (s : Store) (Γ : Context) (c : Checker) : Prop where
  ok : Ok Γ
  noted : Noted s c.store
  shows : c.symbols.Shows Γ

/-- Complaints about names that are declared twice. -/
def Cause.isRedeclared : Cause → Bool
  | redeclared _ => true
  | _ => false

/-- The complaints about names that are declared twice, oldest first. -/
def Diagnostics.redeclarations (d : Diagnostics) : List Error :=
  d.errors.filter fun e => e.cause.isRedeclared

/-- The complaint about the name that is declared at a node. -/
def Store.redeclaration (s : Store) (site : NodeId) : Error :=
  ⟨.redeclared (s.called site), s.location site⟩

/-- Between two states, redeclarations have been reported at some sites, once each. -/
def Finds (s : Store) (c c' : Checker) (sites : NodeId → Prop) : Prop :=
  ∃ found : List NodeId, found.Nodup ∧ (∀ id, id ∈ found ↔ sites id) ∧
    c'.diagnostics.redeclarations = c.diagnostics.redeclarations ++ found.map s.redeclaration

/-- How a check ends. If it fails, some symbols may have been declared. -/
def Ends (s : Store) (c : Checker) (Γ : Context) (symbols : List Symbol) (sites : NodeId → Prop) :
    EStateM.Result Error Checker Nat → Prop
  | .ok _ c' => Stands s (Γ.declare symbols) c' ∧ Finds s c c' sites
  | .error _ c' => ∃ symbols, Stands s (Γ.declare symbols) c'

/-- What a check does that starts with a context, watched or not. -/
def Does (s : Store) (c : Checker) (Γ : Context) (symbols : List Symbol) (sites : NodeId → Prop)
    (watched plain : Check Nat) : Prop :=
  Stands s Γ c → watched c = plain c ∧ Ends s c Γ symbols sites (plain c)

/-- A check that declares nothing and finds no redeclarations. -/
def Quiet (s : Store) (Γ : Context) (watched plain : Check Nat) : Prop :=
  ∀ c, Does s c Γ [] (fun _ => False) watched plain

/-- The same for a check that is not watched. -/
abbrev Calm (s : Store) (Γ : Context) (x : Check Nat) : Prop := Quiet s Γ x x

variable {s : Store} {c c1 c2 : Checker} {Γ : Context} {a b : List Symbol} {S T : NodeId → Prop}
  {x x' y y' : Check Nat}

/-! ### Reports -/

namespace Finds

theorem nothing (h : c1.diagnostics.redeclarations = c.diagnostics.redeclarations) :
    Finds s c c1 fun _ => False :=
  ⟨[], .nil, by simp, by simpa using h⟩

theorem trans (h : Finds s c c1 S) (h' : Finds s c1 c2 T) (hdisjoint : ∀ id, S id → ¬T id) :
    Finds s c c2 fun id => S id ∨ T id := by
  obtain ⟨found, hnodup, hmem, herrors⟩ := h
  obtain ⟨found', hnodup', hmem', herrors'⟩ := h'
  refine ⟨found ++ found', nodup_append'.2 ⟨hnodup, hnodup', ?_⟩, fun id => ?_, ?_⟩
  · exact fun id hid hid' => hdisjoint id ((hmem id).1 hid) ((hmem' id).1 hid')
  · rw [mem_append, hmem, hmem']
  · rw [herrors', herrors, map_append, append_assoc]

theorem congr (h : Finds s c c1 S) (hS : ∀ id, S id ↔ T id) : Finds s c c1 T := by
  obtain ⟨found, hnodup, hmem, herrors⟩ := h
  exact ⟨found, hnodup, fun id => (hmem id).trans (hS id), herrors⟩

end Finds

theorem redeclarations_report (d : Diagnostics) (e : Error) :
    (d.report e).redeclarations =
      d.redeclarations ++ if e.cause.isRedeclared then [e] else [] := by
  rw [Diagnostics.redeclarations, Diagnostics.report, filter_append, Diagnostics.redeclarations,
    filter_singleton]
  cases e.cause.isRedeclared <;> rfl

/-! ### Steps and sequences -/

namespace Does

theorem congr (h : Does s c Γ a S x y) (ha : a = b) (hS : ∀ id, S id ↔ T id) :
    Does s c Γ b T x y := by
  subst ha
  intro hc
  obtain ⟨heq, hends⟩ := h hc
  refine ⟨heq, ?_⟩
  cases hy : y c with
  | error e c' =>
    rw [hy] at hends
    exact hends
  | ok n c' =>
    rw [hy] at hends
    exact ⟨hends.1, hends.2.congr hS⟩

theorem pure (n : Nat) : Does s c Γ [] (fun _ => False) (pure n) (pure n) :=
  fun hc => ⟨rfl, by rwa [declare_nil], .nothing rfl⟩

theorem report {cause : Cause} (node : NodeId) (h : cause.isRedeclared = false) :
    Does s c Γ [] (fun _ => False) (report cause node) (report cause node) := by
  intro hc
  refine ⟨rfl, ?_, .nothing ?_⟩
  · rw [declare_nil]
    exact ⟨hc.ok, hc.noted, hc.shows⟩
  · show (c.diagnostics.report _).redeclarations = _
    rw [redeclarations_report, h]
    exact append_nil _

/-- Looking at the state does nothing. -/
theorem look {α : Type} {view : Check α} {r : α} {f g : α → Check Nat} (hview : view c = .ok r c)
    (h : Does s c Γ a S (f r) (g r)) : Does s c Γ a S (view >>= f) (view >>= g) := by
  intro hc
  rw [bind_of_ok hview, bind_of_ok hview]
  exact h hc

/-- Notes in the tree. -/
theorem write {note : Store → Store} {f g : Unit → Check Nat}
    (hnote : ∀ s', Noted s s' → Noted s (note s'))
    (h : Does s { c with store := note c.store } Γ a S (f ()) (g ())) :
    Does s c Γ a S (write note >>= f) (write note >>= g) := by
  intro hc
  exact h ⟨hc.ok, hnote _ hc.noted, hc.shows⟩

variable {f g : Nat → Check Nat}

/-- A check, and one after it. -/
theorem bind (hx : Does s c Γ a S x y)
    (hf : ∀ m c1, Does s c1 (Γ.declare a) b T (f m) (g m)) (hdisjoint : ∀ id, S id → ¬T id) :
    Does s c Γ (a ++ b) (fun id => S id ∨ T id) (x >>= f) (y >>= g) := by
  intro hc
  obtain ⟨heq, hends⟩ := hx hc
  cases hy : y c with
  | error e c1 =>
    rw [hy] at hends
    rw [bind_of_error hy, bind_of_error (heq.trans hy)]
    exact ⟨rfl, hends⟩
  | ok m c1 =>
    rw [hy] at hends
    obtain ⟨heq', hends'⟩ := hf m c1 hends.1
    rw [bind_of_ok hy, bind_of_ok (heq.trans hy)]
    refine ⟨heq', ?_⟩
    cases hg : g m c1 with
    | error e c2 =>
      rw [hg] at hends'
      obtain ⟨symbols, hsymbols⟩ := hends'
      exact ⟨a ++ symbols, by rwa [declare_declare] at hsymbols⟩
    | ok n c2 =>
      rw [hg] at hends'
      refine ⟨?_, hends.2.trans hends'.2 hdisjoint⟩
      rw [← declare_declare]
      exact hends'.1

/-- What a check returns does not matter. -/
theorem plus (h : Does s c Γ a S x y) (m : Nat) :
    Does s c Γ a S (do let n ← x; Pure.pure (m + n)) (do let n ← y; Pure.pure (m + n)) := by
  have hbind := h.bind (f := fun n => Pure.pure (m + n)) (g := fun n => Pure.pure (m + n))
    (fun n c1 => .pure (m + n)) fun _ _ h => h
  exact hbind.congr (append_nil a) fun id => or_iff_left fun h => h

/-- Two checks whose errors are added up. -/
theorem add (hx : Does s c Γ a S x x') (hy : ∀ c1, Does s c1 (Γ.declare a) b T y y')
    (hdisjoint : ∀ id, S id → ¬T id) :
    Does s c Γ (a ++ b) (fun id => S id ∨ T id) (do let m ← x; let n ← y; Pure.pure (m + n))
      (do let m ← x'; let n ← y'; Pure.pure (m + n)) :=
  hx.bind (fun m c1 => (hy c1).plus m) hdisjoint

theorem add₃ {d : List Symbol} {U : NodeId → Prop} {z z' : Check Nat} (hx : Does s c Γ a S x x')
    (hy : ∀ c1, Does s c1 (Γ.declare a) b T y y')
    (hz : ∀ c2, Does s c2 (Γ.declare (a ++ b)) d U z z') (hdisjoint : ∀ id, S id → ¬T id)
    (hdisjoint' : ∀ id, S id ∨ T id → ¬U id) :
    Does s c Γ (a ++ b ++ d) (fun id => (S id ∨ T id) ∨ U id)
      (do let k ← x; let m ← y; let n ← z; Pure.pure (k + m + n))
      (do let k ← x'; let m ← y'; let n ← z'; Pure.pure (k + m + n)) := by
  rw [add₃_eq, add₃_eq]
  exact (hx.add hy hdisjoint).add hz hdisjoint'

/-- A check, and one after it, if neither declares anything. -/
theorem quietly (hx : Does s c Γ [] (fun _ => False) x y)
    (hf : ∀ m c1, Does s c1 Γ [] (fun _ => False) (f m) (g m)) :
    Does s c Γ [] (fun _ => False) (x >>= f) (y >>= g) := by
  have hbind := hx.bind (fun m c1 => by
    rw [declare_nil]
    exact hf m c1) fun _ _ h => h
  exact hbind.congr rfl fun id => or_self_iff

/-- A check that is only made if the first one finds nothing. -/
theorem andThen (hx : Does s c Γ [] (fun _ => False) x x') (hy : Quiet s Γ y y') :
    Does s c Γ [] (fun _ => False) (andThen x y) (andThen x' y') := by
  refine hx.quietly fun m c1 => ?_
  by_cases hm : m = 0
  · rw [if_pos hm, if_pos hm]
    exact hy c1
  · rw [if_neg hm, if_neg hm]
    exact .pure m

end Does

/-! ### Checks that declare nothing -/

section Quiet

variable {visit plain : NodeId → Check Nat}

theorem Quiet.optional {id : Option NodeId} (h : ∀ i, id = some i → Quiet s Γ (visit i) (plain i)) :
    Quiet s Γ (optional visit id) (optional plain id) := by
  cases id with
  | none => exact fun c => .pure 0
  | some id => exact h id rfl

variable {head : Option NodeId}

theorem Quiet.listUpTo (hs : StoreOk s) (policy : ListPolicy)
    (h : ∀ id ∈ s.siblings head, Quiet s Γ (visit id) (plain id)) (n : Nat)
    (current : Option NodeId)
    (hcurrent : ∀ id, current = some id → id ∈ s.siblings head) :
    Quiet s Γ (listUpTo visit policy n current) (listUpTo plain policy n current) := by
  induction n generalizing current with
  | zero => exact fun c => .pure 0
  | succ n ih =>
    cases current with
    | none => exact fun c => .pure 0
    | some id =>
      intro c hc
      have hmem := hcurrent id rfl
      refine Does.quietly (h id hmem c) (fun m c1 => ?_) hc
      by_cases hstop : m > 0 ∧ policy = .stopAtFirst
      · rw [if_pos hstop, if_pos hstop]
        exact .pure m
      · rw [if_neg hstop, if_neg hstop]
        intro hc1
        have hnext : ∀ id', c1.store.next? id = some id' → id' ∈ s.siblings head := fun id' hid' =>
          hs.mem_siblings_next hmem ((hc1.noted.alike.next id).symm.trans hid')
        exact Does.look rfl ((ih _ hnext c1).plus m) hc1

theorem Quiet.list (hs : StoreOk s) (policy : ListPolicy)
    (h : ∀ id ∈ s.siblings head, Quiet s Γ (visit id) (plain id)) :
    Quiet s Γ (list visit policy head) (list plain policy head) := by
  intro c hc
  refine Does.look rfl ?_ hc
  dsimp only
  rcases Nat.eq_zero_or_pos s.size with hsize | hsize
  · rw [hc.noted.alike.size, hsize, Nat.mul_zero]
    exact .pure 0
  · refine Quiet.listUpTo hs policy h _ head (fun id hid => ?_) c
    rw [hid]
    exact StoreOk.mem_siblings_self hsize

/-! ### Expressions -/

theorem Noted.modifyKind {s' : Store} {f : NodeKind → NodeKind} (h : Noted s s')
    (halike : Alike s' (s'.modifyKind id f)) : Noted s (s'.modifyKind id f) :=
  ⟨h.alike.trans halike, fun other => (location_modifyKind s' id other f).trans (h.location other)⟩

theorem isRedeclared_operandCause (c : Checker) (operator : Operator) (left right : Option NodeId) :
    (c.operandCause operator left right).isRedeclared = false := by
  unfold Checker.operandCause
  split <;> rfl

variable {e : ExpressionNode} {k : NodeKind}

theorem quiet_operator (hk : s.kind? id = some k)
    (hbare : (expression e).bare = k.bare) : Calm s Γ (operator id e) := by
  have hnote : ∀ (type : ScalarType) (c : Checker), Does s c Γ [] (fun _ => False)
      (do write fun s => s.setResult id (some type); pure 0)
      (do write fun s => s.setResult id (some type); pure 0) :=
    fun type c => .write (fun s' h => h.modifyKind (setResult_alike _)) (.pure 0)
  have hreport : ∀ (meant : Operator) (c : Checker), Does s c Γ [] (fun _ => False)
      (do let cause ← view fun c => c.operandCause meant e.left e.right; report cause id)
      (do let cause ← view fun c => c.operandCause meant e.left e.right; report cause id) :=
    fun meant c => .look rfl (.report id (isRedeclared_operandCause ..))
  intro c
  refine .look rfl (.look rfl ?_)
  dsimp only
  split
  next hne =>
    obtain ⟨hadd, hconcat⟩ := Operator.resolve_ne hne
    refine .write (fun s' h => ?_) ?_
    · rw [hconcat]
      refine h.modifyKind (modifyKind_alike fun k' hk' => ?_)
      obtain ⟨k1, hk1, hbare'⟩ := h.alike.kind?_cases hk
      obtain rfl := Option.some.inj (hk1.symm.trans hk')
      cases k1 with
      | expression e' =>
        rw [← hbare] at hbare'
        simp only [bare, hadd, expression.injEq, ExpressionNode.mk.injEq,
          and_true] at hbare' ⊢
        exact hbare'.1.symm
      | _ => rfl
    · split
      · exact hnote _ _
      · exact hreport _ _
  next =>
    refine .look rfl ?_
    split
    · exact hnote _ _
    · exact hreport _ _

theorem quiet_resolved (hk : s.kind? id = some k)
    (hbare : (expression e).bare = k.bare) : Calm s Γ (resolved id e) := by
  intro c
  unfold resolved
  split
  · exact .look rfl (.write (fun s' h => h.modifyKind (setResult_alike _)) (.pure 0))
  · exact quiet_operator hk hbare c

theorem quiet_subscripted (id : NodeId) (r : ReferenceNode) (symbol : Symbol) :
    Calm s Γ (subscripted id r symbol) := by
  intro c
  refine .look rfl (.look rfl ?_)
  split
  · exact .report id rfl
  · exact .write (fun s' h => h.modifyKind (setReferenceType_alike _)) (.pure 0)

theorem quiet_passed (pairs : List (NodeId × NodeId)) : Calm s Γ (passed pairs) := by
  intro c
  induction pairs with
  | nil => exact .pure 0
  | cons pair pairs ih =>
    refine .look rfl ?_
    split
    · exact ih
    · refine .look rfl ?_
      split
      · exact ih
      · exact .look rfl (.report _ rfl)

theorem quiet_passing (id : NodeId) (call : CallNode) (symbol : Symbol) :
    Calm s Γ (passing id call symbol) := by
  intro c
  refine .look rfl (.look rfl ?_)
  split
  · exact quiet_passed _ c
  · exact .report id rfl

namespace Quiet

theorem expression {id : NodeId} (hk : s.kind? id = some k)
    (hbare : (expression e).bare = k.bare)
    (hleft : ∀ i, e.left = some i → Quiet s Γ (visit i) (plain i))
    (hright : ∀ i, e.right = some i → Quiet s Γ (visit i) (plain i)) :
    Quiet s Γ (expression visit id e) (expression plain id e) := by
  intro c
  refine Does.andThen ?_ (quiet_resolved hk hbare)
  exact (Quiet.optional hleft c).quietly fun m c1 => (Quiet.optional hright c1).plus m

theorem index (h : Quiet s Γ (visit id) (plain id)) :
    Quiet s Γ (index visit id) (index plain id) := by
  intro c
  refine (h c).andThen fun c1 => .look rfl ?_
  split
  · exact .pure 0
  · exact .report id rfl

theorem reference (hs : StoreOk s) {id : NodeId} {r : ReferenceNode}
    (h : ∀ i ∈ s.siblings r.indices, Quiet s Γ (visit i) (plain i)) :
    Quiet s Γ (reference visit id r) (reference plain id r) := by
  intro c
  refine .look rfl ?_
  split
  · exact .report id rfl
  · rename_i symbol _
    split
    · exact (Quiet.list hs .reportAll (fun i hi => (h i hi).index) c).andThen
        (quiet_subscripted id r symbol)
    · exact .report id rfl

theorem call (hs : StoreOk s) {id : NodeId} {node : CallNode}
    (h : ∀ i ∈ s.siblings node.arguments, Quiet s Γ (visit i) (plain i)) :
    Quiet s Γ (call visit id node) (call plain id node) := by
  intro c
  refine .look rfl ?_
  split
  · exact .report id rfl
  · rename_i symbol _
    split
    · refine .write (fun s' h => h.modifyKind (setCallType_alike _)) ?_
      exact (Quiet.list hs .stopAtFirst h _).andThen (quiet_passing id node symbol)
    · exact .report id rfl

end Quiet

/-! ### Statements -/

theorem isRedeclared_of_protection? {name : String} {kind : SymbolKind} {cause : Cause}
    (h : protection? name kind = some cause) : cause.isRedeclared = false := by
  unfold protection? at h
  split at h
  · exact Option.some.inj h ▸ rfl
  · exact Option.some.inj h ▸ rfl
  · cases h

theorem quiet_positive (d : DeclarationNode) : Calm s Γ (positive d) := by
  intro c
  refine .look rfl ?_
  split
  · exact .look rfl (.report _ rfl)
  · exact .pure 0

theorem quiet_assignable (id value : NodeId) (target : ScalarType) :
    Calm s Γ (assignable id value target) := by
  intro c
  refine .look rfl ?_
  split
  · exact .report _ rfl
  · split
    · exact .pure 0
    · exact .report _ rfl

theorem quiet_returnable (value : NodeId) (expected : ScalarType) :
    Calm s Γ (returnable value expected) := by
  intro c
  refine .look rfl ?_
  split
  · exact .pure 0
  · exact .look rfl (.report _ rfl)

namespace Quiet

theorem print {value : NodeId} (h : Quiet s Γ (visit value) (plain value)) :
    Quiet s Γ (print visit value) (print plain value) := by
  intro c
  refine (h c).andThen fun c1 => .look rfl ?_
  split
  · exact .report _ rfl
  · exact .report _ rfl
  · exact .pure 0

theorem assign {id target value : NodeId} (htarget : Quiet s Γ (visit target) (plain target))
    (hvalue : Quiet s Γ (visit value) (plain value)) :
    Quiet s Γ (assign visit id target value) (assign plain id target value) := by
  intro c
  refine (htarget c).andThen fun c1 => .look rfl ?_
  split
  · exact .pure 0
  · split
    · exact .report _ rfl
    · refine .look rfl ?_
      split
      · rename_i h
        obtain ⟨symbol, -, hcause⟩ := Option.bind_eq_some_iff.1 h
        exact .report _ (isRedeclared_of_protection? hcause)
      · exact (hvalue c1).andThen (quiet_assignable _ _ _)

theorem read {target : NodeId} (h : Quiet s Γ (visit target) (plain target)) :
    Quiet s Γ (read visit target) (read plain target) := by
  intro c
  refine (h c).andThen fun c1 => .look rfl ?_
  split
  · exact .pure 0
  · split
    · exact .report _ rfl
    · refine .look rfl ?_
      split
      · exact .report _ rfl
      · exact .pure 0

theorem guard (h : Quiet s Γ (visit id) (plain id)) :
    Quiet s Γ (guard visit id) (guard plain id) := by
  intro c
  refine (h c).andThen fun c1 => .look rfl ?_
  split
  · exact .pure 0
  · exact .report _ rfl

theorem returnValue {id : NodeId} {value : Option NodeId}
    (h : ∀ i, value = some i → Quiet s Γ (visit i) (plain i)) :
    Quiet s Γ (returnValue visit id value) (returnValue plain id value) := by
  intro c
  refine .look rfl ?_
  split
  · exact .report _ rfl
  · split
    · exact .pure 0
    · exact .report _ rfl
    · exact .report _ rfl
    · exact (h _ rfl c).andThen (quiet_returnable _ _)

end Quiet

end Quiet

end PLang
