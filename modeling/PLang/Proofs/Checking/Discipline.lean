import PLang.Proofs.Logged.Tandem

/-!
# What all checks keep to

A discipline relates the state before a check, what the check returns, and the state after it. It
goes through every step that checks are made of: reporting an error, writing to the tree, declaring
a name, opening and closing scopes, and going on with another check. So every walk keeps to it, from
any state and in any store, whether it comes to an end or fails.
-/

namespace PLang

open Check

/-- A relation between the state before a check, what the check returns and the state after it, that
goes through all steps of checks. -/
structure Discipline where
  /-- A check that starts in one state returns something and leaves another state. -/
  Holds : Checker → Except Error Nat → Checker → Prop
  refl : ∀ c, Holds c (.ok 0) c
  trans : ∀ {c c1 c2 m n}, Holds c (.ok m) c1 → Holds c1 (.ok n) c2 → Holds c (.ok (m + n)) c2
  fail : ∀ {c c1 c2 m e}, Holds c (.ok m) c1 → Holds c1 (.error e) c2 → Holds c (.error e) c2
  report : ∀ (c : Checker) {cause : Cause} (location : Location), cause.isFatal = false →
    Holds c (.ok 1) { c with diagnostics := c.diagnostics.report ⟨cause, location⟩ }
  note : ∀ (c : Checker) (n : Note), Holds c (.ok 0) { c with store := n.apply c.store }
  declare : ∀ (c : Checker) name kind scalar typeText detail node,
    Holds c (.ok 0) { c with symbols := c.symbols.insert name kind scalar typeText detail node }
  scope : ∀ {c r c'}, Holds c.pushScope r c' → Holds c r c'.popScope
  within : ∀ {c : Checker} {f r c'}, Holds { c with function := f } r c' →
    Holds c r { c' with function := c.function }
  deeper : ∀ {c : Checker} {r c'}, Holds { c with depth := c.depth + 1 } r c' →
    Holds c r { c' with depth := c'.depth - 1 }
  overstep : ∀ (c : Checker) (location : Location),
    Holds c (.error ⟨.nestingTooDeep c.limit, location⟩) { c with depth := c.depth + 1 }

namespace Discipline

variable (D : Discipline)

/-- A check keeps to the discipline in a state. -/
def Governs (c : Checker) (x : Check Nat) : Prop :=
  match x c with
  | .ok n c' => D.Holds c (.ok n) c'
  | .error e c' => D.Holds c (.error e) c'

variable {D} {c : Checker} {x y : Check Nat}

/-! ### Steps and sequences -/

namespace Governs

theorem pure_zero : D.Governs c (pure 0) := D.refl c

theorem report {cause : Cause} {node : NodeId} (h : cause.isFatal = false) :
    D.Governs c (Check.report cause node) := D.report c _ h

/-- Looking at the state does nothing. -/
theorem look {α : Type} {view : Check α} {a : α} {f : α → Check Nat} (hview : view c = .ok a c)
    (h : D.Governs c (f a)) : D.Governs c (view >>= f) := by
  unfold Governs at h ⊢
  rwa [bind_of_ok hview]

variable {f : Unit → Check Nat}

/-- A step that counts for nothing, and a check after it. -/
theorem step {act : Check Unit} {c1 : Checker} (hact : act c = .ok () c1)
    (h1 : D.Holds c (.ok 0) c1) (h : D.Governs c1 (f ())) : D.Governs c (act >>= f) := by
  unfold Governs at h ⊢
  rw [bind_of_ok hact]
  cases hf : f () c1 with
  | ok n c2 =>
    rw [hf] at h
    exact Nat.zero_add n ▸ D.trans h1 h
  | error e c2 =>
    rw [hf] at h
    exact D.fail h1 h

theorem note {n : Note}
    (h : D.Governs { c with store := n.apply c.store } (f ())) :
    D.Governs c (write n.apply >>= f) :=
  step rfl (D.note c n) h

theorem declare {name : String} {kind : SymbolKind} {scalar : Option ScalarType}
    {typeText detail : String} {node : NodeId}
    (h : D.Governs { c with symbols := c.symbols.insert name kind scalar typeText detail node }
      (f ())) : D.Governs c (Check.declare name kind scalar typeText detail node >>= f) :=
  step rfl (D.declare c ..) h

/-- Two checks whose errors are added up. The second one may hang on what the first one has
found. -/
theorem add {y : Nat → Check Nat} (hx : D.Governs c x) (hy : ∀ m c1, D.Governs c1 (y m)) :
    D.Governs c (do let m ← x; let n ← y m; pure (m + n)) := by
  unfold Governs at hx hy ⊢
  cases hrun : x c with
  | error e c1 =>
    rw [hrun] at hx
    rwa [bind_of_error hrun]
  | ok m c1 =>
    rw [hrun] at hx
    have hnext := hy m c1
    rw [bind_of_ok hrun]
    cases hrun' : y m c1 with
    | error e c2 =>
      rw [hrun'] at hnext
      rw [bind_of_error hrun']
      exact D.fail hx hnext
    | ok n c2 =>
      rw [hrun'] at hnext
      rw [bind_of_ok hrun']
      exact D.trans hx hnext

/-- A check that starts in another state and ends in another one. -/
theorem between {c1 : Checker} {leave : Checker → Checker} (hy : y c = endIn leave (x c1))
    (hleave : ∀ {r c'}, D.Holds c1 r c' → D.Holds c r (leave c')) (hx : D.Governs c1 x) :
    D.Governs c y := by
  unfold Governs at hx ⊢
  rw [hy]
  cases hrun : x c1 with
  | ok | error =>
    rw [hrun] at hx
    exact hleave hx

theorem inScope (h : D.Governs c.pushScope x) : D.Governs c (inScope x) :=
  .between (congrFun (inScope_eq x) c) D.scope h

theorem within {f : NodeId} (h : D.Governs { c with function := some f } x) :
    D.Governs c (Check.within f x) :=
  .between (congrFun (within_eq f x) c) D.within h

theorem deeper (h : D.Governs { c with depth := c.depth + 1 } x) :
    D.Governs c (Check.deeper x) :=
  .between (congrFun (deeper_eq x) c) D.deeper h

end Governs

/-! ### Walks -/

/-- Checks that keep to the discipline, as a tandem in which only the first check counts. -/
def tandem (D : Discipline) : Tandem where
  rename name := name
  Abreast := Eq
  Known _ := True
  Linked _ := True
  Member _ _ := True
  Site _ _ := True
  Rel _ x _ := ∀ c, D.Governs c x.run
  views h := h ▸ .refl _
  size h := h ▸ rfl
  next h _ _ := h ▸ ⟨rfl, fun _ _ => trivial⟩
  self _ := trivial
  name h _ _ := h ▸ rfl
  zero _ := .pure_zero
  report _ h _ := .report h
  look h c := .look rfl (h c c rfl c)
  note _ _ h _ := .note (h _)
  declare _ _ _ _ _ _ h _ := .declare (h _)
  add hx hy c := (hx c).add hy
  inScope h _ := .inScope (h _)
  within _ h _ := .within (h _)

variable (D)

/-- A step of the walk keeps to the discipline, so all levels of nesting do. -/
theorem rel_visitUpTo (n : Nat) (b : Bool) (id : NodeId) :
    D.tandem.Rel b (Logged.visitUpTo n id) (Logged.visitUpTo n id) := by
  induction n generalizing b id with
  | zero => exact fun c => D.overstep c _
  | succ n ih =>
    have hnode : D.tandem.Rel b (Logged.node (Logged.visitUpTo n) id)
        (Logged.node (Logged.visitUpTo n) id) := by
      refine D.tandem.same (fun _ _ h => h ▸ rfl) fun k => ?_
      cases k with
      | none => exact D.tandem.zero
      | some k =>
        have hkind : D.tandem.Rel k.isDeclaring (Logged.kind (Logged.visitUpTo n) id k) _ :=
          D.tandem.kind trivial fun _ _ _ => ⟨trivial, fun child _ => ⟨trivial, ih _ child⟩⟩
        exact hkind
    exact fun c => .deeper (hnode _)

/-- Every walk keeps to the discipline. -/
theorem governs_visit (id : NodeId) (c : Checker) : D.Governs c (Check.visit id) := by
  rw [← Logged.run_visit]
  exact D.rel_visitUpTo (c.limit - c.depth) false id c

theorem governs_visitList (policy : ListPolicy) (head : Option NodeId) (c : Checker) :
    D.Governs c (Check.visitList head policy) := by
  have hplain : Logged.plain Logged.visit = Check.visit := funext Logged.run_visit
  have hlist : D.tandem.Rel false (Logged.list Logged.visit policy head)
      (Logged.list Logged.visit policy head) := by
    refine D.tandem.list policy trivial fun id _ c => ?_
    rw [Logged.run_visit]
    exact D.governs_visit id c
  have hrun := hlist c
  rwa [Logged.run_list, hplain] at hrun

end Discipline

end PLang
