import PLang.Proofs.Logged.Coverage
import PLang.Proofs.Reordering.Checks

/-!
# Traces

A trace is a log that names a node twice, when its check begins and when its check ends. So the
events that belong to the check of a node are those in between (`Enclosed`). A trace is that of the
same check (`Logged.run_traced`), and it names every node twice as often as the log does
(`Logged.visitsIn_traced`): in a parsed program, that is twice for every statement.
-/

namespace PLang

open Logged

variable {s : Store} {id root : NodeId} {k : NodeKind} {c c' : Checker} {log log' : List Event}

namespace Logged

/-- A check of a node, which is logged when it begins and again when it ends. -/
def tracedUpTo : Nat → NodeId → Logged Nat
  | 0, id => overstep id
  | n + 1, id => do
    enter id
    let found ← deeper (node (tracedUpTo n) id)
    enter id
    pure found

/-- A check of a node with a trace, as far as the nesting limit allows. -/
def traced (id : NodeId) : Logged Nat where
  run c := (tracedUpTo (c.limit - c.depth) id).run c
  log c := (tracedUpTo (c.limit - c.depth) id).log c
  tells c := (tracedUpTo (c.limit - c.depth) id).tells c

theorem plain_tracedUpTo (n : Nat) : plain (tracedUpTo n) = Check.visitUpTo n := by
  induction n with
  | zero => rfl
  | succ n ih =>
    funext id
    have hrun : (tracedUpTo (n + 1) id).run = (deeper (node (tracedUpTo n) id)).run >>= pure := rfl
    show (tracedUpTo (n + 1) id).run = _
    rw [hrun, bind_pure]
    exact congrArg Check.deeper ((run_node ..).trans (by rw [ih]))

/-- Without its trace, a traced check is the check. -/
theorem run_traced (id : NodeId) : (traced id).run = Check.visit id := by
  funext c
  exact congrFun (congrFun (plain_tracedUpTo (c.limit - c.depth)) id) c

end Logged

/-- A log that names a node first and last, as the trace of its check does. -/
def Enclosed (id : NodeId) (log : List Event) : Prop :=
  ∃ f inner, log = .visit id f :: (inner ++ [.visit id f])

theorem Logged.enclosed_tracedUpTo {n m : Nat} (h : (tracedUpTo n id).run c = .ok m c') :
    Enclosed id ((tracedUpTo n id).log c) := by
  cases n with
  | zero => cases h
  | succ n =>
    obtain ⟨found, c1, hrun, -⟩ := Check.ok_of_bind (x := (deeper (node (tracedUpTo n) id)).run) h
    have hfunction : c1.function = c.function := by
      have htells := ((deeper (node (tracedUpTo n) id)).tells c).function
      rwa [hrun] at htells
    refine ⟨c.function, (deeper (node (tracedUpTo n) id)).log c, congrArg (List.cons _) ?_⟩
    show _ ++ logAfter _ ((deeper (node (tracedUpTo n) id)).run c) = _
    rw [hrun]
    show _ ++ [Event.visit id c1.function] = _
    rw [hfunction]

/-! ### How often nodes are named -/

/-- How often a log names a node. -/
def visitsIn (id : NodeId) (log : List Event) : Nat := ((sitesOf log).map Prod.fst).count id

theorem visitsIn_append : visitsIn id (log ++ log') = visitsIn id log + visitsIn id log' := by
  rw [visitsIn, sitesOf_append, List.map_append, List.count_append, visitsIn, visitsIn]

theorem visitsIn_cons_visit (other : NodeId) (f : Option NodeId) :
    visitsIn id (.visit other f :: log) = visitsIn id log + if other = id then 1 else 0 := by
  have hsites : sitesOf (.visit other f :: log) = (other, f) :: sitesOf log := rfl
  rw [visitsIn, hsites, List.map_cons, List.count_cons, visitsIn]
  simp only [beq_iff_eq]

theorem visitsIn_eq_zero (h : ∀ e ∈ log, ∀ f, e ≠ .visit id f) : visitsIn id log = 0 := by
  induction log with
  | nil => rfl
  | cons e log ih =>
    have hlog := ih fun e' he' => h e' (.tail _ he')
    cases e with
    | visit other f =>
      have hne : other ≠ id := fun heq => h _ (.head _) f (congrArg (Event.visit · f) heq)
      rw [visitsIn_cons_visit, hlog, if_neg hne]
    | note | report => exact hlog

theorem Enclosed.le_visitsIn (h : Enclosed id log) : 2 ≤ visitsIn id log := by
  obtain ⟨f, inner, rfl⟩ := h
  rw [visitsIn_cons_visit, visitsIn_append, visitsIn_cons_visit, if_pos rfl]
  omega

theorem Event.report_ne_visit (cause : Cause) (node id : NodeId) (f : Option NodeId) :
    report cause node ≠ visit id f := by
  rintro ⟨⟩

namespace Pairing

/-- A check and the same check with a trace: nodes are named twice as often. -/
def doubling (hs : StoreOk s) (limit : Nat) : Pairing s where
  toRelinking := .refl hs
  limit := limit
  agreed := Set.univ
  visited := Set.univ
  Common := fun e => ∀ id f, e ≠ .visit id f
  Differ := fun log log' => ∀ id, visitsIn id log' = 2 * visitsIn id log
  subset := subset_rfl
  parts := fun _ _ _ _ _ _ _ _ _ _ => trivial
  reports := Event.report_ne_visit
  notes := by rintro _ _ _ _ ⟨⟩

theorem visitsIn_of_rearranged {hs : StoreOk s} {limit : Nat}
    (h : (doubling hs limit).Rearranged log log') (id : NodeId) :
    visitsIn id log' = 2 * visitsIn id log := by
  induction h with
  | same hlog => rw [visitsIn_eq_zero fun e he => hlog e he id]
  | differ hdiffer => exact hdiffer id
  | append _ _ ih ih' =>
    rw [visitsIn_append, visitsIn_append, ih, ih']
    omega

theorem doubling_paces (hs : StoreOk s) (limit n : Nat) :
    ∀ d, (doubling hs limit).PacesAll d (visitUpTo n) (tracedUpTo n) := by
  induction n with
  | zero => exact fun d id _ k _ => .overstep id
  | succ n ih =>
    intro d id hid k hk scopes c c' hc m c1 hrun
    have hnode := (ih (d + 1)).node ⟨hid, Set.notMem_empty id, hk⟩
    obtain ⟨c1', scopes1, hrun', hc1, htail, hscopes, hlog⟩ := hnode.deeper scopes c c' hc m c1 hrun
    refine ⟨c1', scopes1, Check.bind_of_ok hrun', hc1, htail, hscopes, .differ fun other => ?_⟩
    show visitsIn other (.visit id _ :: (_ ++ logAfter _
      ((deeper (node (tracedUpTo n) id)).run c'))) =
        2 * visitsIn other
          (.visit id _ :: (Logged.deeper (Logged.node (Logged.visitUpTo n) id)).log c)
    rw [hrun']
    show visitsIn other (.visit id _ :: (_ ++ [.visit id _])) = _
    have hdouble := visitsIn_of_rearranged hlog other
    rw [visitsIn_cons_visit, visitsIn_append, visitsIn_cons_visit, visitsIn_cons_visit, hdouble]
    have hnone : visitsIn other [] = 0 := rfl
    omega

/-! ### Traces side by side -/

/-- If the blocks that are visited keep pace in traced checks, then so do all nodes. -/
theorem tracedUpTo_paces {P : Pairing s} (hcommon : ∀ id ∈ P.visited, ∀ f, P.Common (.visit id f))
    (hblocks : ∀ id ∈ P.visited, id ∈ P.blocks → ∀ n d,
      P.PacesAll d (tracedUpTo n) (tracedUpTo n) →
      P.Paces d False (node (tracedUpTo n) id) (node (tracedUpTo n) id))
    (n : Nat) : ∀ d, P.PacesAll d (tracedUpTo n) (tracedUpTo n) := by
  induction n with
  | zero => exact fun d id _ k _ => .overstep id
  | succ n ih =>
    intro d id hid k hk
    refine .bind (.enter (hcommon id hid)) fun _ => .bind (.deeper ?_) fun found =>
      .bind (.enter (hcommon id hid)) fun _ => .pure found
    by_cases hblock : id ∈ P.blocks
    · exact (hblocks id hid hblock n (d + 1) (ih (d + 1))).mono False.elim
    · exact (ih (d + 1)).node ⟨hid, hblock, hk⟩

end Pairing

/-! ### Parsed programs -/

theorem Logged.visitsIn_traced {scopes : List (List Symbol)} {n : Nat} (hs : StoreOk c.store)
    (hsymbols : c.symbols.Holds scopes) (hk : c.store.kind? root = some k)
    (hok : Check.visit root c = .ok n c') (id : NodeId) :
    visitsIn id ((traced root).log c) = 2 * visitsIn id ((visit root).log c) := by
  have hpaces := Pairing.doubling_paces hs c.limit (c.limit - c.depth) c.depth root trivial k hk
  have habreast : (Pairing.doubling hs c.limit).Abreast c.depth scopes c c :=
    ⟨⟨.refl _, .refl _, fun _ => rfl, fun _ _ _ => rfl⟩, hsymbols, hsymbols, rfl, rfl,
      rfl, rfl, rfl⟩
  rw [← run_visit] at hok
  obtain ⟨c1', scopes1, -, -, -, -, hlog⟩ := hpaces scopes c c habreast n c' hok
  exact Pairing.visitsIn_of_rearranged hlog id

/-- A check of a parsed program that does not fail comes to every statement once. -/
theorem visitsIn_of_covered {ts : List Token} {limit n : Nat}
    (h : parseTokens ts limit = .ok (s, root))
    (hs : c.store = s) (hfunction : c.function = none) (hok : Check.visit root c = .ok n c')
    (hid : s.Covered id) : visitsIn id ((Logged.visit root).log c) = 1 := by
  obtain ⟨P, -, hprogram, -, -⟩ := parseTokens_layout h
  obtain ⟨p, htree⟩ := hprogram.subtree
  have honce := nodup_sitesOf_of_parseTokens h hs
  subst hs
  have hobeys := visit_obeys root c
  rw [hfunction] at hobeys
  rw [← run_visit] at hok
  have htour : Tour c.store root (sitesOf ((Logged.visit root).log c)) :=
    ⟨⟨_, fun site hsite => hobeys.keys.subset (mem_sitesOf hsite)⟩, (hobeys.done n c' hok).2⟩
  obtain ⟨f, hf⟩ := htour.exists_of_covered (wellFormed_of_parseTokens h) htree hid
  exact List.count_eq_one_of_mem honce (List.mem_map.2 ⟨_, hf, rfl⟩)

end PLang
