import PLang.Proofs.Logged.Tandem

/-!
# Checking with more levels of nesting

A check that may go down further does the same, up to the point where the other one has to stop. So
it returns the same and leaves the same state, unless the other one fails; and then it has reported
what the other one has, and possibly more. Checks read the nesting limit only where they fail, so
that the comparison goes through all steps that checks are made of.
-/

namespace PLang

variable {α β : Type} {l l' : Nat}

/-- A state with another nesting limit. -/
def Checker.withLimit (c : Checker) (limit : Nat) : Checker := { c with limit := limit }

namespace Check

/-- The errors that have been collected when a check ends, be it with a result or with a failure. -/
def reported (r : EStateM.Result Error Checker α) : List Error :=
  match r with
  | .ok _ c => c.diagnostics.errors
  | .error _ c => c.diagnostics.errors

/-- How a check ends under the limit `l` and under the limit `l'`, which is not less: alike, or
under the first limit too deep, after some of the reports made under the second one. -/
inductive Cut (l l' : Nat) :
    EStateM.Result Error Checker α → EStateM.Result Error Checker α → Prop
  | ok {a : α} {c : Checker} (hl : c.limit = l) : Cut l l' (.ok a c) (.ok a (c.withLimit l'))
  | deep {e : Error} {c : Checker} {r' : EStateM.Result Error Checker α}
    (he : e.cause = .nestingTooDeep l) (hr : c.diagnostics.errors <+: reported r') :
    Cut l l' (.error e c) r'

/-- A check that may go down further than another one, and does the same otherwise. -/
structure Extends (l l' : Nat) (x x' : Check α) : Prop where
  run : ∀ c, c.limit = l → Cut l l' (x c) (x' (c.withLimit l'))
  keeps : ∀ c, c.diagnostics.errors <+: reported (x' c)

namespace Extends

/-! ### Steps and sequences -/

theorem pure (a : α) : Extends l l' (pure a : Check α) (pure a) :=
  ⟨fun _ hl => .ok hl, fun _ => List.prefix_rfl⟩

variable {f f' : α → Check β}

theorem bind {x x' : Check α} (hx : Extends l l' x x')
    (hf : ∀ a, Extends l l' (f a) (f' a)) : Extends l l' (x >>= f) (x' >>= f') := by
  have hkeeps : ∀ c r', x' c = r' → reported r' <+: reported ((x' >>= f') c) := by
    intro c r' hr'
    cases r' with
    | ok a c1 =>
      rw [bind_of_ok hr']
      exact (hf a).keeps c1
    | error e c1 =>
      rw [bind_of_error hr']
      exact List.prefix_rfl
  constructor
  · intro c hl
    have hrun := hx.run c hl
    generalize hr : x c = r, hr' : x' (c.withLimit l') = r' at hrun
    cases hrun with
    | ok hl1 =>
      rw [bind_of_ok hr, bind_of_ok hr']
      exact (hf _).run _ hl1
    | deep he hfound =>
      rw [bind_of_error hr]
      exact .deep he (hfound.trans (hkeeps _ _ hr'))
  · intro c
    exact (hx.keeps c).trans (hkeeps c _ rfl)

/-- What is read off a state does not hang on the limit. -/
theorem look {g g' : Checker → α}
    (h : ∀ c limit, Extends l l' (f (g c)) (f' (g' (c.withLimit limit)))) :
    Extends l l' (view g >>= f) (view g' >>= f') :=
  ⟨fun c hl => (h c l').run c hl, fun c => (h c c.limit).keeps c⟩

theorem note (n : Note) : Extends l l' (write n.apply) (write n.apply) :=
  ⟨fun c hl => .ok (c := { c with store := n.apply c.store }) hl, fun _ => List.prefix_rfl⟩

theorem declare (name : String) (kind : SymbolKind) (scalar : Option ScalarType)
    (typeText detail : String) (node : NodeId) :
    Extends l l' (declare name kind scalar typeText detail node)
      (Check.declare name kind scalar typeText detail node) :=
  ⟨fun c hl => .ok
    (c := { c with symbols := c.symbols.insert name kind scalar typeText detail node }) hl,
    fun _ => List.prefix_rfl⟩

theorem report (cause : Cause) (node : NodeId) :
    Extends l l' (report cause node) (Check.report cause node) :=
  ⟨fun c hl => .ok
    (c := { c with diagnostics := c.diagnostics.report ⟨cause, c.store.location node⟩ }) hl,
    fun _ => List.prefix_append ..⟩

variable {x x' : Check Nat}

/-- A check between two changes of the state, neither of which looks at the limit or reports an
error. -/
theorem between (before : Checker → Checker) (behind : Checker → Checker → Checker)
    (hbefore : ∀ c limit, before (c.withLimit limit) = (before c).withLimit limit)
    (hbehind : ∀ c c1 limit, behind (c.withLimit limit) (c1.withLimit limit) =
      (behind c c1).withLimit limit)
    (herrors : ∀ c, (before c).diagnostics.errors = c.diagnostics.errors)
    (hreports : ∀ c c1, (behind c c1).diagnostics.errors = c1.diagnostics.errors)
    (hx : Extends l l' x x') :
    Extends l l' (fun c => endIn (behind c) (x (before c)))
      (fun c => endIn (behind c) (x' (before c))) := by
  have hreported : ∀ c, reported (endIn (behind c) (x' (before c))) = reported (x' (before c)) := by
    intro c
    cases x' (before c) with
    | ok n c1 => exact hreports c c1
    | error e c1 => exact hreports c c1
  constructor
  · intro c hl
    have hlimit : (before c).limit = c.limit := by
      have heq := congrArg Checker.limit (hbefore c c.limit)
      exact heq
    have hrun := hx.run (before c) (hlimit.trans hl)
    have hrep := hreported (c.withLimit l')
    rw [← hbefore] at hrun
    generalize x (before c) = r at hrun
    generalize x' (before (c.withLimit l')) = r' at hrun hrep
    cases hrun with
    | @ok n c1 hl1 =>
      show Cut l l' (.ok n (behind c c1)) (.ok n (behind (c.withLimit l') (c1.withLimit l')))
      rw [hbehind]
      have heq := congrArg Checker.limit (hbehind c c1 l)
      subst hl
      rw [show c1.withLimit c.limit = c1 by rw [← hl1]; rfl] at heq
      exact .ok heq
    | @deep e c1 _ he hfound =>
      refine .deep he ?_
      rw [hrep, hreports]
      exact hfound
  · intro c
    rw [hreported, ← herrors]
    exact hx.keeps (before c)

theorem inScope (hx : Extends l l' x x') : Extends l l' (inScope x) (Check.inScope x') := by
  rw [inScope_eq, inScope_eq]
  exact between Checker.pushScope (fun _ c => c.popScope) (fun _ _ => rfl) (fun _ _ _ => rfl)
    (fun _ => rfl) (fun _ _ => rfl) hx

theorem within (f : NodeId) (hx : Extends l l' x x') :
    Extends l l' (within f x) (Check.within f x') := by
  rw [within_eq, within_eq]
  exact between (fun c => { c with function := some f })
    (fun c c1 => { c1 with function := c.function }) (fun _ _ => rfl) (fun _ _ _ => rfl)
    (fun _ => rfl) (fun _ _ => rfl) hx

theorem deeper (hx : Extends l l' x x') : Extends l l' (deeper x) (Check.deeper x') := by
  rw [deeper_eq, deeper_eq]
  exact between (fun c => { c with depth := c.depth + 1 })
    (fun _ c1 => { c1 with depth := c1.depth - 1 }) (fun _ _ => rfl) (fun _ _ _ => rfl)
    (fun _ => rfl) (fun _ _ => rfl) hx

end Extends

/-! ### Walks -/

/-- Checks of which the second one may go down further, as a tandem. -/
def extending (l l' : Nat) : Tandem where
  rename name := name
  Abreast c c' := ∃ limit, c' = c.withLimit limit
  Known _ := True
  Linked _ := True
  Member _ _ := True
  Site _ _ := True
  Rel _ x x' := Extends l l' x.run x'.run
  views h := by
    obtain ⟨limit, rfl⟩ := h
    exact { Views.refl _ with }
  size h := by
    obtain ⟨limit, rfl⟩ := h
    rfl
  next h _ _ := by
    obtain ⟨limit, rfl⟩ := h
    exact ⟨rfl, fun _ _ => trivial⟩
  self _ := trivial
  name h _ _ := by
    obtain ⟨limit, rfl⟩ := h
    rfl
  zero := .pure 0
  report {_ cause} id _ := by
    rw [Cause.rename_self]
    exact .report cause id
  look h := .look fun c limit => h c _ ⟨limit, rfl⟩
  note _ _ h := (Extends.note _).bind fun _ => h
  declare _ _ _ _ _ _ h := (Extends.declare ..).bind fun _ => h
  add hx hy := hx.bind fun m => (hy m).bind fun n => .pure (m + n)
  inScope h := h.inScope
  within id h := h.within id

variable {n' : Nat}

theorem node_extends {n : Nat} (b : Bool) (id : NodeId)
    (hV : ∀ b id, (extending l l').Rel b (Logged.visitUpTo n id) (Logged.visitUpTo n' id)) :
    (extending l l').Rel b (Logged.node (Logged.visitUpTo n) id)
      (Logged.node (Logged.visitUpTo n') id) := by
  refine (extending l l').look fun c c' hc => ?_
  obtain ⟨limit, rfl⟩ := hc
  dsimp only [Checker.withLimit]
  cases c.store.kind? id with
  | none => exact (extending l l').zero
  | some k =>
    have hkind : (extending l l').Rel k.isDeclaring (Logged.kind (Logged.visitUpTo n) id k)
        (Logged.kind (Logged.visitUpTo n') id (k.rename fun name => name)) :=
      (extending l l').kind trivial fun _ _ _ => ⟨trivial, fun child _ => ⟨trivial, hV _ child⟩⟩
    rw [k.rename_self] at hkind
    exact hkind

/-- One level too deep, where another walk may go on. -/
theorem overstep_extends {x' : Check Nat} (id : NodeId)
    (hx' : ∀ c, c.diagnostics.errors <+: reported (x' c)) : Extends l l' (overstep id) x' := by
  constructor
  · intro c hl
    exact .deep (congrArg Cause.nestingTooDeep hl) (hx' (c.withLimit l'))
  · exact hx'

theorem rel_visitUpTo {n : Nat} (h : n ≤ n') (b : Bool) (id : NodeId) :
    (extending l l').Rel b (Logged.visitUpTo n id) (Logged.visitUpTo n' id) := by
  induction n' generalizing n b id with
  | zero =>
    obtain rfl : n = 0 := Nat.le_zero.1 h
    exact overstep_extends id fun c => List.prefix_rfl
  | succ n' ih =>
    cases n with
    | zero =>
      have hsame : Extends l l' (Logged.visitUpTo (n' + 1) id).run
        (Logged.visitUpTo (n' + 1) id).run :=
        .deeper (node_extends b id (ih (Nat.le_refl n')))
      exact overstep_extends id hsame.keeps
    | succ n => exact Extends.deeper (node_extends b id (ih (Nat.le_of_succ_le_succ h)))

/-- A walk that may go down further. -/
theorem visitUpTo_extends {n : Nat} (h : n ≤ n') (id : NodeId) :
    Extends l l' (visitUpTo n id) (visitUpTo n' id) := by
  rw [← Logged.run_visitUpTo, ← Logged.run_visitUpTo]
  exact rel_visitUpTo h false id

/-- A walk under a greater limit. -/
theorem visit_cut (h : l ≤ l') (id : NodeId) (c : Checker) (hl : c.limit = l) :
    Cut l l' (visit id c) (visit id (c.withLimit l')) := by
  have hle : c.limit - c.depth ≤ (c.withLimit l').limit - (c.withLimit l').depth := by
    show c.limit - c.depth ≤ l' - c.depth
    omega
  exact (visitUpTo_extends hle id).run c hl

end Check

end PLang
