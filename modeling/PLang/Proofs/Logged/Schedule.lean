import PLang.Proofs.Logged.Annotated

/-!
# The schedule of a check

What a check can do to the nodes of a tree, and in which order, hangs on the links of the tree
alone: `Store.schedule` lists it. A check leaves out what it does not come to, but it comes to all
statements and declarations (`Store.Inside`), unless it fails, and what is wrong with their form
alone it reports (`Store.fault?`). `Obeys` says this of a logged check, with one rule for every step
of checks.
-/

namespace PLang

open List Logged

variable {α β : Type} {s : Store} {c c1 : Checker} {id : NodeId} {f : Option NodeId}

/-! ### Keys -/

/-- The fields that checking writes. -/
inductive Field where
  | result
  | operator
  | reference
  | call
deriving DecidableEq

/-- The field that a note is written into, and its node. -/
def Note.place : Note → Field × NodeId
  | result id _ => (.result, id)
  | operator id _ => (.operator, id)
  | reference id _ => (.reference, id)
  | call id _ => (.call, id)

/-- A node and the function in whose body it is checked. -/
abbrev Site := NodeId × Option NodeId

/-- What can happen to a node: it is visited, or a field is written. -/
inductive Key where
  | visit (site : Site)
  | note (place : Field × NodeId)
deriving DecidableEq

def Event.key? : Event → Option Key
  | visit id f => some (.visit (id, f))
  | note n => some (.note n.place)
  | report _ _ => none

namespace NodeKind

/-- What is written before the parts of a node are visited. -/
def opening (id : NodeId) : NodeKind → List Key
  | call _ => [.note (.call, id)]
  | _ => []

/-- What is written after the parts of a node are visited. -/
def closing (id : NodeId) : NodeKind → List Key
  | expression _ => [.note (.operator, id), .note (.result, id)]
  | reference _ => [.note (.reference, id)]
  | _ => []

/-- The function in whose body the parts of a node are. -/
def around (id : NodeId) (f : Option NodeId) : NodeKind → Option NodeId
  | function _ => some id
  | _ => f

end NodeKind

namespace Store

variable (s : Store)

/-- The list that starts at a node, as far as checking goes. -/
def row (head : Option NodeId) : List NodeId := s.chain ((s.size + 2) * s.size) head

/-- The parts of a node that checking may come to, in order. -/
def inside : NodeKind → List NodeId
  | .program p => s.row p.declarations ++ s.row p.functions ++ [p.body]
  | .expression e => e.left.toList ++ e.right.toList
  | .compound b => s.row b.declarations ++ s.row b.statements
  | .print value => [value]
  | .reference r => s.row r.indices
  | .assign target value => [target, value]
  | .read target => [target]
  | .condition c => c.guard :: c.thenBody :: c.elseBody.toList
  | .whileLoop guardNode body => [guardNode, body]
  | .returnValue value => value.toList
  | .forLoop f => [f.declaration, f.body]
  | .call c => s.row c.arguments
  | .function f => if f.body.isSome then s.row f.parameters ++ s.row f.body else []
  | _ => []

/-- The parts of a node that checking does come to: declarations, functions and statements. -/
def obliged : NodeKind → List NodeId
  | .program p => s.row p.declarations ++ s.row p.functions ++ [p.body]
  | .compound b => s.row b.declarations ++ s.row b.statements
  | .condition c => c.thenBody :: c.elseBody.toList
  | .whileLoop _ body => [body]
  | .forLoop f => [f.declaration, f.body]
  | .function f => if f.body.isSome then s.row f.parameters ++ s.row f.body else []
  | _ => []

/-- What a check of a node may do in a function, when `n` levels of nesting are allowed. -/
def schedule : Nat → Option NodeId → NodeId → List Key
  | 0, _, _ => []
  | n + 1, f, id => .visit (id, f) :: ((s.kind? id).map fun k =>
      k.opening id ++ (s.inside k).flatMap (schedule n (k.around id f)) ++ k.closing id).getD []

end Store

/-! ### Sites -/

def Event.site? : Event → Option Site
  | visit id f => some (id, f)
  | _ => none

/-- The declarations, functions and statements in a node, and the node itself. -/
inductive Store.Inside (s : Store) : Site → Site → Prop
  | self (site : Site) : Inside s site site
  | part {id child : NodeId} {f : Option NodeId} {k : NodeKind} {site : Site} :
    s.kind? id = some k →
      child ∈ s.obliged k → Inside s (child, k.around id f) site → Inside s (id, f) site

/-- Complaints about the form of a statement or a declaration alone, whatever names mean and
whatever types expressions have. -/
def Cause.isStatic : Cause → Bool
  | returnOutsideFunction | returnFromProcedure _ | missingReturnValue _ _ | decreasingBounds
  | nonPositiveDimension _ => true
  | _ => false

/-- A complaint about the form of a statement or a declaration, and the node it is reported at. -/
abbrev Fault := Cause × NodeId

def Event.fault? : Event → Option Fault
  | report cause node => if cause.isStatic then some (cause, node) else none
  | _ => none

/-- What is wrong with a return statement in a function. -/
def FunctionNode.returnFault? (f : FunctionNode) (value : Option NodeId) : Option Cause :=
  match f.result, value with
  | .void, none => none
  | .void, some _ => some (.returnFromProcedure f.name)
  | expected, none => some (.missingReturnValue f.name expected.text)
  | _, some _ => none

namespace Store

/-- What is wrong with the form of a node. -/
def faultOf? (s : Store) (id : NodeId) (f : Option NodeId) : NodeKind → Option Fault
  | .returnValue value => match f.bind s.function? with
    | none => some (.returnOutsideFunction, id)
    | some function => (function.returnFault? value).map (·, id)
  | .forLoop loop => if loop.upper < loop.lower then some (.decreasingBounds, id) else none
  | .declaration d => if (s.dimensions d.type).any (· ≤ 0) then
      some (.nonPositiveDimension ((s.name? d.names).getD ""), d.names) else none
  | _ => none

def fault? (s : Store) (site : Site) : Option Fault :=
  (s.kind? site.1).bind (s.faultOf? site.1 site.2)

end Store

/-! ### Logs -/

/-- The sites that a log visits. -/
def sitesOf (log : List Event) : List Site := log.filterMap Event.site?

/-- The complaints about forms in a log. -/
def faultsOf (log : List Event) : List Fault := log.filterMap Event.fault?

@[simp]
theorem sitesOf_append (log log' : List Event) :
    sitesOf (log ++ log') = sitesOf log ++ sitesOf log' := filterMap_append

@[simp]
theorem faultsOf_append (log log' : List Event) :
    faultsOf (log ++ log') = faultsOf log ++ faultsOf log' := filterMap_append

theorem sitesOf_eq_nil {log : List Event} (h : log.filterMap Event.key? = []) :
    sitesOf log = [] := by
  rw [sitesOf, filterMap_eq_nil_iff]
  rw [filterMap_eq_nil_iff] at h
  intro e he
  cases e with
  | visit => cases h _ he
  | _ => rfl

/-- A logged check that starts in a state, in a tree that has come from `s`: its notes are sound and
keep to the schedule. If it does not fail, it comes to the sites, and it reports what is wrong with
the form of the nodes that it visits, after some complaints about the node that it is in. -/
structure ObeysAt (s : Store) (keys : List Key) (own : List Fault) (sites : Site → Prop)
    (x : Logged α) (c : Checker) : Prop where
  sound : SoundLog s c.store (x.log c)
  keys : ((x.log c).filterMap Event.key?).Sublist keys
  done : ∀ a c', x.run c = .ok a c' →
    faultsOf (x.log c) = own ++ (sitesOf (x.log c)).filterMap s.fault? ∧
      ∀ site, sites site → site ∈ sitesOf (x.log c)

/-- A logged check in the body of a function, or outside of all functions. -/
def Obeys (s : Store) (f : Option NodeId) (keys : List Key) (own : List Fault)
    (sites : Site → Prop) (x : Logged α) : Prop :=
  ∀ c, Annotated s c.store → c.function = f → ObeysAt s keys own sites x c

variable {keys keys' : List Key} {own own' : List Fault} {sites sites' : Site → Prop}

/-! ### Steps and sequences -/

variable {g : α → Logged β}

/-- A check and what comes after it. If both have complaints of their own, nothing is visited in
between. -/
theorem ObeysAt.bind {x : Logged α} (hs : Annotated s c.store)
    (hx : ObeysAt s keys own sites x c)
    (hg : ∀ a c1, Annotated s c1.store → c1.function = c.function →
      ObeysAt s keys' own' sites' (g a) c1) (horder : keys = [] ∨ own' = []) :
    ObeysAt s (keys ++ keys') (own ++ own') (fun site => sites site ∨ sites' site)
      (x >>= g) c := by
  cases hx' : x.run c with
  | error e c1 =>
    have hlog := log_bind_of_error (f := g) hx'
    refine ⟨hlog ▸ hx.sound, hlog ▸ hx.keys.trans (sublist_append_left ..), ?_⟩
    intro a c' hok
    cases (Check.bind_of_error hx').symm.trans hok
  | ok a c1 =>
    have htells := tells_of_ok hx'
    have hlog := log_bind_of_ok (f := g) hx'
    have hs1 : Annotated s c1.store := htells.store ▸ hs.writeAll hx.sound
    obtain ⟨hsound, hkeys, hdone⟩ := hg a c1 hs1 htells.function
    refine ⟨?_, ?_, ?_⟩
    · rw [hlog, soundLog_append, ← htells.store]
      exact ⟨hx.sound, hsound⟩
    · rw [hlog, filterMap_append]
      exact hx.keys.append hkeys
    · intro b c' hok
      obtain ⟨hfaults, hsites⟩ := hx.done a c1 hx'
      obtain ⟨hfaults', hsites'⟩ := hdone b c' ((Check.bind_of_ok hx').symm.trans hok)
      rw [hlog, faultsOf_append, sitesOf_append, hfaults, hfaults']
      constructor
      · rcases horder with rfl | rfl
        · rw [sitesOf_eq_nil (sublist_nil.1 hx.keys)]
          simp
        · simp
      · intro site hsite
        rw [mem_append]
        exact hsite.imp (hsites site) (hsites' site)

theorem ObeysAt.mono {x : Logged α} (h : ObeysAt s keys own sites x c)
    (hkeys : keys.Sublist keys') (hsites : ∀ site, sites' site → sites site) :
    ObeysAt s keys' own sites' x c :=
  ⟨h.sound, h.keys.trans hkeys, fun a c' hok =>
    ⟨(h.done a c' hok).1, fun site hsite => (h.done a c' hok).2 site (hsites site hsite)⟩⟩

theorem ObeysAt.note {n : Note} (h : (Event.note n).Sound s c.store) :
    ObeysAt s [.note n.place] [] (fun _ => False) (Logged.note n) c :=
  ⟨⟨h, trivial⟩, List.Sublist.refl _, fun _ _ _ => ⟨rfl, fun _ h => h.elim⟩⟩

variable {p : Checker → α}

theorem ObeysAt.look
    (h : ObeysAt s keys own sites (g (p c)) c) :
    ObeysAt s keys own sites (view p >>= g) c :=
  ⟨h.sound, h.keys, h.done⟩

namespace Obeys

variable {x y : Logged Nat}

theorem mono {x : Logged α} (h : Obeys s f keys own sites x) (hkeys : keys.Sublist keys')
    (hsites : ∀ site, sites' site → sites site) : Obeys s f keys' own sites' x :=
  fun c hs hf => (h c hs hf).mono hkeys hsites

/-- An action that logs nothing. -/
theorem silent {x : Check α} {h : ∀ c, Tells c [] (Check.reached (x c))} :
    Obeys s f [] [] (fun _ => False) (silent x h) :=
  fun _ _ _ => ⟨trivial, List.Sublist.refl [], fun _ _ _ => ⟨rfl, fun _ h => h.elim⟩⟩

theorem pure (a : α) : Obeys s f keys [] (fun _ => False) (pure a : Logged α) :=
  fun _ _ _ => ⟨trivial, nil_sublist keys, fun _ _ _ => ⟨rfl, fun _ h => h.elim⟩⟩

theorem report {cause : Cause} (h : cause.isStatic = false) (node : NodeId) :
    Obeys s f keys [] (fun _ => False) (Logged.report cause node) := by
  refine fun _ _ _ => ⟨⟨trivial, trivial⟩, List.nil_sublist keys, fun _ _ _ =>
    ⟨?_, fun _ h => h.elim⟩⟩
  simp [Logged.report, faultsOf, sitesOf, Event.fault?, Event.site?, h]

theorem reportStatic {cause : Cause} (h : cause.isStatic = true) (node : NodeId) :
    Obeys s f [] [(cause, node)] (fun _ => False) (Logged.report cause node) := by
  refine fun _ _ _ => ⟨⟨trivial, trivial⟩, List.Sublist.refl [], fun _ _ _ =>
    ⟨?_, fun _ h => h.elim⟩⟩
  simp [Logged.report, faultsOf, sitesOf, Event.fault?, Event.site?, h]

theorem note {n : Note} (h : ∀ t, (Event.note n).Sound s t) :
    Obeys s f [.note n.place] [] (fun _ => False) (note n) :=
  fun c _ _ => .note (h c.store)

theorem bind {x : Logged α} (hx : Obeys s f keys own sites x)
    (hg : ∀ a, Obeys s f keys' [] sites' (g a)) :
    Obeys s f (keys ++ keys') own (fun site => sites site ∨ sites' site) (x >>= g) := by
  intro c hs hf
  have hbind := (hx c hs hf).bind hs (fun a c1 hs1 hf1 => hg a c1 hs1 (hf1.trans hf)) (.inr rfl)
  rwa [append_nil] at hbind

/-- Before the complaints about a node, nothing is visited. -/
theorem afterSilence {x : Logged α} (hx : Obeys s f [] [] sites' x)
    (hg : ∀ a, Obeys s f keys own sites (g a)) : Obeys s f keys own sites (x >>= g) := by
  intro c hs hf
  have hbind := (hx c hs hf).bind hs (fun a c1 hs1 hf1 => hg a c1 hs1 (hf1.trans hf)) (.inl rfl)
  exact hbind.mono (List.Sublist.refl _) fun _ => .inr

/-- Looking at the state does nothing. -/
theorem lookThat {P : α → Prop}
    (hp : ∀ c, Annotated s c.store → c.function = f → P (p c))
    (h : ∀ a, P a → Obeys s f keys own sites (g a)) :
    Obeys s f keys own sites (view p >>= g) :=
  fun c hs hf => (h (p c) (hp c hs hf) c hs hf).look

theorem look (h : ∀ a, Obeys s f keys own sites (g a)) :
    Obeys s f keys own sites (view p >>= g) :=
  fun c hs hf => (h (p c) c hs hf).look

/-- What is read off the tree is the same before and after notes. -/
theorem lookIn {p : Store → α} {a : α} (hp : ∀ t, Annotated s t → p t = a)
    (h : Obeys s f keys own sites (g a)) :
    Obeys s f keys own sites (inStore p >>= g) :=
  fun c hs hf => .look ((hp c.store hs).symm ▸ h c hs hf)

theorem ite {p : Prop} [Decidable p] {x y : Logged α} (hx : p → Obeys s f keys own sites x)
    (hy : ¬p → Obeys s f keys own sites y) :
    Obeys s f keys own sites (if p then x else y) := by
  split
  next hp => exact hx hp
  next hp => exact hy hp

/-- What a check returns does not matter. -/
theorem plus {x : Logged α} {h : α → Nat} (hx : Obeys s f keys own sites x) :
    Obeys s f keys own sites (do let n ← x; Pure.pure (h n)) := by
  have hrest : ∀ n, Obeys s f [] [] (fun _ => False) (Pure.pure (h n) : Logged Nat) :=
    fun n => .pure (h n)
  have hbind := hx.bind hrest
  rw [append_nil] at hbind
  exact hbind.mono (List.Sublist.refl _) fun _ => .inl

/-- A check that is only made if the first one finds nothing. -/
theorem andThen (hx : Obeys s f keys [] sites x) (hy : Obeys s f keys' [] sites' y) :
    Obeys s f (keys ++ keys') [] sites (andThen x y) := by
  have hrest : ∀ found, Obeys s f keys' [] (fun _ => False)
      (if found = 0 then y else Pure.pure found) := fun found =>
    .ite (fun _ => hy.mono (List.Sublist.refl _) fun _ h => h.elim) fun _ => .pure found
  exact (hx.bind hrest).mono (List.Sublist.refl _) fun _ => .inl

/-- A check of a part, and a comparison after it. -/
theorem andCompare (hx : Obeys s f keys [] sites x)
    (hy : Obeys s f [] [] (fun _ => False) y) : Obeys s f keys [] sites (Logged.andThen x y) := by
  have h := hx.andThen hy
  rwa [List.append_nil] at h

theorem inScope (hx : Obeys s f keys own sites x) :
    Obeys s f keys own sites (inScope x) := by
  intro c hs hf
  obtain ⟨hsound, hkeys, hdone⟩ := hx c.pushScope hs hf
  refine ⟨hsound, hkeys, fun n c' hok => ?_⟩
  obtain ⟨c1, hrun, -⟩ := Check.ok_of_endIn ((congrFun (Check.inScope_eq x.run) c).symm.trans hok)
  exact hdone n c1 hrun

theorem within {function : NodeId} (hx : Obeys s (some function) keys own sites x) :
    Obeys s f keys own sites (within function x) := by
  intro c hs hf
  obtain ⟨hsound, hkeys, hdone⟩ := hx { c with function := some function } hs rfl
  refine ⟨hsound, hkeys, fun n c' hok => ?_⟩
  obtain ⟨c1, hrun, -⟩ :=
    Check.ok_of_endIn ((congrFun (Check.within_eq function x.run) c).symm.trans hok)
  exact hdone n c1 hrun

theorem deeper (hx : Obeys s f keys own sites x) :
    Obeys s f keys own sites (deeper x) := by
  intro c hs hf
  obtain ⟨hsound, hkeys, hdone⟩ := hx { c with depth := c.depth + 1 } hs hf
  refine ⟨hsound, hkeys, fun n c' hok => ?_⟩
  obtain ⟨c1, hrun, -⟩ := Check.ok_of_endIn ((congrFun (Check.deeper_eq x.run) c).symm.trans hok)
  exact hdone n c1 hrun

/-- What is wrong with the form of a node is reported in the check of the node. -/
theorem enter (hx : Obeys s f keys (s.fault? (id, f)).toList sites x) :
    Obeys s f (.visit (id, f) :: keys) [] (fun site => site = (id, f) ∨ sites site)
      (do Logged.enter id; x) := by
  intro c hs hf
  subst hf
  obtain ⟨hsound, hkeys, hdone⟩ := hx c hs rfl
  refine ⟨⟨trivial, hsound⟩, hkeys.cons_cons _, fun n c' hok => ?_⟩
  obtain ⟨hfaults, hsites⟩ := hdone n c' hok
  have hsitesOf : sitesOf ((do Logged.enter id; x).log c) = (id, c.function) :: sitesOf (x.log c) :=
    rfl
  constructor
  · rw [hsitesOf, List.nil_append, List.filterMap_cons]
    refine Eq.trans (b := faultsOf (x.log c)) rfl (hfaults.trans ?_)
    cases s.fault? (id, c.function) <;> rfl
  · intro site hsite
    rw [hsitesOf, List.mem_cons]
    exact hsite.imp_right (hsites site)

/-! ### Lists -/

section

variable {visit : NodeId → Logged Nat} {K : NodeId → List Key} {S : NodeId → Site → Prop}
  (hvisit : ∀ id, Obeys s f (K id) [] (S id) (visit id))

include hvisit

theorem optional (head : Option NodeId) : Obeys s f (head.toList.flatMap K) []
    (fun site => ∃ id ∈ head.toList, S id site) (optional visit head) := by
  cases head with
  | none => exact (Obeys.pure 0).mono (List.Sublist.refl _) (by simp)
  | some id => exact (hvisit id).mono (by simp) (by simp)

theorem listUpTo (policy : ListPolicy) (n : Nat) (head : Option NodeId) :
    Obeys s f ((s.chain n head).flatMap K) []
      (fun site => policy = .reportAll ∧ ∃ id ∈ s.chain n head, S id site)
      (listUpTo visit policy n head) := by
  induction n generalizing head with
  | zero => exact (Obeys.pure 0).mono (nil_sublist _) (by simp [Store.chain])
  | succ n ih =>
    cases head with
    | none => exact (Obeys.pure 0).mono (nil_sublist _) (by simp [Store.chain])
    | some id =>
      have hrest : ∀ found, Obeys s f ((s.chain n (s.next? id)).flatMap K) []
          (fun site => policy = .reportAll ∧ ∃ id' ∈ s.chain n (s.next? id), S id' site)
          (if found > 0 ∧ policy = .stopAtFirst then Pure.pure found
            else do
              let next ← inStore fun s => s.next? id
              let more ← Logged.listUpTo visit policy n next
              Pure.pure (found + more)) := by
        intro found
        refine .ite (fun hstop => ?_) fun _ => ?_
        · exact (Obeys.pure found).mono (List.Sublist.refl _) fun _ h => by simp [hstop.2] at h
        · exact .lookIn (fun t ht => ht.next id) (ih (s.next? id)).plus
      refine ((hvisit id).bind hrest).mono ?_ ?_
      · rw [Store.chain, flatMap_cons]
      · intro site hsite
        obtain ⟨hpolicy, id', hmem, hsite⟩ := hsite
        rw [Store.chain, mem_cons] at hmem
        rcases hmem with rfl | hmem
        · exact .inl hsite
        · exact .inr ⟨hpolicy, id', hmem, hsite⟩

/-- A list is checked to its end. -/
theorem list (head : Option NodeId) :
    Obeys s f ((s.row head).flatMap K) [] (fun site => ∃ id ∈ s.row head, S id site)
      (list visit .reportAll head) :=
  .lookIn (fun _ ht => ht.size)
    ((listUpTo hvisit .reportAll _ head).mono (List.Sublist.refl _) fun _ h => ⟨rfl, h⟩)

/-- A list may be checked up to the first element with an error. -/
theorem listToFirst (head : Option NodeId) : Obeys s f ((s.row head).flatMap K) []
    (fun _ => False) (Logged.list visit .stopAtFirst head) :=
  .lookIn (fun _ ht => ht.size)
    ((listUpTo hvisit .stopAtFirst _ head).mono (List.Sublist.refl _) fun _ h => h.elim)

end

end Obeys

end PLang
