import PLang.Proofs.Reordering.Tree
import PLang.Proofs.Scoping.Sites

/-!
# Two checks side by side

Two trees are checked side by side, of which the second one is linked in another way. As long as the
first check does not fail, the second one keeps pace with it (`Pairing.Paces`): it returns the same,
its state is the same as far as checks can tell (`Pairing.Abreast`), and its log is the same, apart
from stretches of the logs of which the pairing says how they may differ (`Pairing.Rearranged`). The
two ways of checking nodes need not be the same. One rule for every step that checks are made of.
-/

namespace PLang

open Check Logged Store

variable {α β : Type} {s : Store}

/-- A note changes what one node holds. -/
theorem Note.exists_modifyKind (n : Note) : ∃ f, ∀ t, n.apply t = t.modifyKind n.place.2 f := by
  cases n with
  | result id type => exact ⟨_, fun t => by rw [apply, setResult, place]⟩
  | operator id o => exact ⟨_, fun t => by rw [apply, setOperator, place]⟩
  | reference id type => exact ⟨_, fun t => by rw [apply, setReferenceType, place]⟩
  | call id type => exact ⟨_, fun t => by rw [apply, setCallType, place]⟩

/-- Two trees that are checked side by side under the same limit, at least as far as some nodes
go. -/
structure Pairing (s : Store) extends Relinking s where
  limit : Nat
  /-- The nodes whose notes are the same. -/
  agreed : Set NodeId
  /-- The nodes that both checks visit. -/
  visited : Set NodeId
  /-- The events that the logs have in common. -/
  Common : Event → Prop
  /-- How the logs may differ otherwise. -/
  Differ : List Event → List Event → Prop
  subset : visited ⊆ agreed
  parts : ∀ id ∈ visited, id ∉ blocks → ∀ k, s.kind? id = some k → k.isType = false →
    ∀ part ∈ k.parts, ∀ child ∈ s.siblings part.node, child ∈ visited
  reports : ∀ cause node, Common (.report cause node)
  notes : ∀ n : Note, n.place.2 ∈ visited → Common (.note n)

namespace Pairing

/-- Logs that are the same, apart from stretches that may differ. -/
inductive Rearranged (P : Pairing s) : List Event → List Event → Prop
  | same {log : List Event} : (∀ e ∈ log, P.Common e) → Rearranged P log log
  | differ {log log' : List Event} : P.Differ log log' → Rearranged P log log'
  | append {log log' more more' : List Event} : Rearranged P log log' → Rearranged P more more' →
      Rearranged P (log ++ more) (log' ++ more')

/-- Two checks have come equally far, at a level of nesting and with the same symbols in the open
scopes. -/
structure Abreast (P : Pairing s) (d : Nat) (scopes : List (List Symbol)) (c c' : Checker) :
    Prop where
  linked : P.Linked P.agreed c.store c'.store
  symbols : c.symbols.Holds scopes
  symbols' : c'.symbols.Holds scopes
  function : c'.function = c.function
  depth : c.depth = d
  depth' : c'.depth = d
  limit : c.limit = P.limit
  limit' : c'.limit = P.limit

/-- Where two checks are abreast and the first one goes on without failing, the second one can go on
so that they are abreast again. Symbols are only added to the innermost scope, and only if it is
`free`. -/
def Paces (P : Pairing s) (d : Nat) (free : Prop) (x x' : Logged α) : Prop :=
  ∀ scopes c c', P.Abreast d scopes c c' → ∀ a c1, x.run c = .ok a c1 →
    ∃ c1' scopes1, x'.run c' = .ok a c1' ∧ P.Abreast d scopes1 c1 c1' ∧
      scopes1.tail = scopes.tail ∧ (free ∨ scopes1 = scopes) ∧
      P.Rearranged (x.log c) (x'.log c')

variable {P : Pairing s} {d : Nat} {free : Prop} {scopes : List (List Symbol)} {c c' : Checker}
  {id : NodeId} {k : NodeKind}

/-! ### What both checks read -/

namespace Abreast

variable (h : P.Abreast d scopes c c')

include h

theorem lookup (name : String) : c'.symbols.lookup name = c.symbols.lookup name := by
  rw [h.symbols'.lookup, h.symbols.lookup]

theorem level? : c'.symbols.level? = c.symbols.level? := by
  rw [h.symbols'.level?, h.symbols.level?]

/-- The same note is made in both trees. -/
theorem note {n : Note} (halike : Alike s (n.apply c.store))
    (halike' : Alike P.other (n.apply c'.store)) :
    P.Abreast d scopes { c with store := n.apply c.store }
      { c' with store := n.apply c'.store } := by
  obtain ⟨f, hf⟩ := n.exists_modifyKind
  refine { h with linked := ⟨halike, halike', fun id => ?_, fun id hid hne => ?_⟩ }
  · dsimp only
    rw [hf, hf, location_modifyKind, location_modifyKind, h.linked.location]
  · dsimp only
    rw [hf, hf, kind?_modifyKind, kind?_modifyKind, h.linked.kind id hid hne]

theorem pushScope : P.Abreast d ([] :: scopes) c.pushScope c'.pushScope :=
  { h with symbols := h.symbols.pushScope, symbols' := h.symbols'.pushScope }

theorem popScope : P.Abreast d scopes.tail c.popScope c'.popScope :=
  { h with symbols := h.symbols.popScope, symbols' := h.symbols'.popScope }

theorem deeper : P.Abreast (d + 1) scopes { c with depth := c.depth + 1 }
    { c' with depth := c'.depth + 1 } :=
  { h with depth := congrArg (· + 1) h.depth, depth' := congrArg (· + 1) h.depth' }

end Abreast

theorem Abreast.higher (h : P.Abreast (d + 1) scopes c c') :
    P.Abreast d scopes { c with depth := c.depth - 1 } { c' with depth := c'.depth - 1 } :=
  { h with depth := congrArg (· - 1) h.depth, depth' := congrArg (· - 1) h.depth' }

/-! ### Steps and sequences -/

namespace Paces

variable {x x' : Logged α} {f f' : α → Logged β}

theorem mono {free' : Prop} (h : P.Paces d free x x') (hfree : free → free') :
    P.Paces d free' x x' := by
  intro scopes c c' hc a c1 hrun
  obtain ⟨c1', scopes1, hrun', hc1, htail, hscopes, hlog⟩ := h scopes c c' hc a c1 hrun
  exact ⟨c1', scopes1, hrun', hc1, htail, hscopes.imp_left hfree, hlog⟩

theorem pure (a : α) : P.Paces d free (pure a) (pure a) := by
  rintro scopes c c' hc _ _ ⟨⟩
  exact ⟨c', scopes, rfl, hc, rfl, .inr rfl, .same (by simp [Pure.pure])⟩

theorem bind (hx : P.Paces d free x x') (hf : ∀ a, P.Paces d free (f a) (f' a)) :
    P.Paces d free (x >>= f) (x' >>= f') := by
  intro scopes c c' hc b c2 hrun
  obtain ⟨a, c1, hrun1, hrun2⟩ := ok_of_bind hrun
  obtain ⟨c1', scopes1, hrun1', hc1, htail1, hscopes1, hlog1⟩ := hx scopes c c' hc a c1 hrun1
  obtain ⟨c2', scopes2, hrun2', hc2, htail2, hscopes2, hlog2⟩ := hf a scopes1 c1 c1' hc1 b c2 hrun2
  refine ⟨c2', scopes2, (bind_of_ok hrun1').trans hrun2', hc2, htail2.trans htail1, ?_, ?_⟩
  · rcases hscopes1 with hfree | rfl
    · exact .inl hfree
    · exact hscopes2
  · show P.Rearranged (x.log c ++ logAfter f (x.run c))
      (x'.log c' ++ logAfter f' (x'.run c'))
    rw [hrun1, hrun1']
    exact .append hlog1 hlog2

theorem report (cause : Cause) (node : NodeId) :
    P.Paces d free (report cause node) (report cause node) := by
  rintro scopes c c' hc _ _ ⟨⟩
  refine ⟨_, scopes, rfl, { hc with }, rfl, .inr rfl, .same fun e he => ?_⟩
  rw [List.mem_singleton.1 he]
  exact P.reports cause node

/-- The node in which a note is made is visited. -/
theorem note {n : Note} (hn : n.place.2 ∈ P.visited) (h : ∀ t, Alike s t → Alike s (n.apply t))
    (h' : ∀ t, Alike P.other t → Alike P.other (n.apply t)) :
    P.Paces d free (note n) (note n) := by
  rintro scopes c c' hc _ _ ⟨⟩
  refine ⟨_, scopes, rfl, hc.note (h _ hc.linked.alike) (h' _ hc.linked.alike'), rfl, .inr rfl,
    .same fun e he => ?_⟩
  rw [List.mem_singleton.1 he]
  exact P.notes n hn

theorem declare (name : String) (kind : SymbolKind) (scalar : Option ScalarType)
    (typeText detail : String) (node : NodeId) :
    P.Paces d True (declare name kind scalar typeText detail node)
      (declare name kind scalar typeText detail node) := by
  rintro scopes c c' hc _ _ ⟨⟩
  refine ⟨_, _, rfl, { hc with symbols := hc.symbols.insert .., symbols' := hc.symbols'.insert .. },
    ?_, .inl trivial, .same (by simp [Logged.declare, Logged.silent])⟩
  cases scopes <;> rfl

theorem enter (hid : ∀ f, P.Common (.visit id f)) :
    P.Paces d free (enter id) (enter id) := by
  rintro scopes c c' hc _ _ ⟨⟩
  refine ⟨c', scopes, rfl, hc, rfl, .inr rfl, ?_⟩
  show P.Rearranged [.visit id c.function] [.visit id c'.function]
  rw [hc.function]
  refine .same fun e he => ?_
  rw [List.mem_singleton.1 he]
  exact hid c.function

/-- What both checks read, and how they go on with it. -/
theorem look {g g' : Checker → α}
    (h : ∀ scopes c c', P.Abreast d scopes c c' → P.Paces d free (f (g c)) (f' (g' c'))) :
    P.Paces d free (view g >>= f) (view g' >>= f') :=
  fun scopes c c' hc => h scopes c c' hc scopes c c' hc

section

variable {x x' : Logged Nat}

/-! ### Scopes, functions and levels -/

/-- A check between two steps that leave the tree alone. -/
theorem between {wrap : Logged Nat → Logged Nat} (enter : Checker → Checker)
    (leave : Checker → Checker → Checker) {d' : Nat} {free' : Prop}
    (hrun : ∀ x c, (wrap x).run c = endIn (leave c) (x.run (enter c)))
    (hlog : ∀ x c, (wrap x).log c = x.log (enter c))
    (hin : ∀ scopes c c', P.Abreast d scopes c c' → ∃ scopes',
      P.Abreast d' scopes' (enter c) (enter c') ∧
      ∀ scopes1 c1 c1', P.Abreast d' scopes1 c1 c1' → scopes1.tail = scopes'.tail →
        (free' ∨ scopes1 = scopes') → ∃ scopes2, P.Abreast d scopes2 (leave c c1) (leave c' c1') ∧
          scopes2.tail = scopes.tail ∧ (free ∨ scopes2 = scopes))
    (hx : P.Paces d' free' x x') : P.Paces d free (wrap x) (wrap x') := by
  intro scopes c c' hc n c2 hwrap
  rw [hrun] at hwrap
  obtain ⟨scopes', henter1, hout⟩ := hin scopes c c' hc
  cases hx1 : x.run (enter c) with
  | error e c1 =>
    rw [hx1] at hwrap
    cases hwrap
  | ok m c1 =>
    rw [hx1] at hwrap
    obtain ⟨rfl, rfl⟩ := EStateM.Result.ok.inj hwrap
    obtain ⟨c1', scopes1, hrun', hc1, htail, hscopes, hlog1⟩ := hx _ _ _ henter1 m c1 hx1
    obtain ⟨scopes2, hc2, hkept⟩ := hout scopes1 c1 c1' hc1 htail hscopes
    refine ⟨leave c' c1', scopes2, ?_, hc2, hkept.1, hkept.2, ?_⟩
    · rw [hrun, hrun', endIn]
    · rw [hlog, hlog]
      exact hlog1

theorem inScope (hx : P.Paces d True x x') :
    P.Paces d free (inScope x) (inScope x') := by
  refine between Checker.pushScope (fun _ c1 => c1.popScope)
    (fun x c => congrFun (inScope_eq x.run) c) (fun _ _ => rfl)
    (fun scopes c c' hc => ⟨_, hc.pushScope, ?_⟩) hx
  intro scopes1 c1 c1' hc1 htail _
  refine ⟨scopes, ?_, rfl, .inr rfl⟩
  have hpop := hc1.popScope
  rwa [htail] at hpop

theorem within (function : NodeId) (hx : P.Paces d free x x') :
    P.Paces d free (within function x) (within function x') :=
  between (fun c => { c with function := some function })
    (fun c c1 => { c1 with function := c.function })
    (fun x c => congrFun (within_eq function x.run) c) (fun _ _ => rfl)
    (fun scopes _ _ hc => ⟨scopes, { hc with function := rfl }, fun scopes1 _ _ hc1 htail hscopes =>
      ⟨scopes1, { hc1 with function := hc.function }, htail, hscopes⟩⟩) hx

theorem deeper (hx : P.Paces (d + 1) free x x') :
    P.Paces d free (deeper x) (deeper x') :=
  between (fun c => { c with depth := c.depth + 1 }) (fun _ c1 => { c1 with depth := c1.depth - 1 })
    (fun x c => congrFun (deeper_eq x.run) c) (fun _ _ => rfl)
    (fun scopes _ _ hc => ⟨scopes, hc.deeper, fun scopes1 _ _ hc1 htail hscopes =>
      ⟨scopes1, hc1.higher, htail, hscopes⟩⟩) hx

theorem overstep (id : NodeId) : P.Paces d free (overstep id) (overstep id) := by
  rintro scopes c c' hc n c1 ⟨⟩

end

end Paces

end Pairing

end PLang
