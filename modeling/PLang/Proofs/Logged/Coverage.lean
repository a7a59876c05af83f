import PLang.Proofs.Logged.Bodies
import PLang.Proofs.Logged.Frame

/-!
# Checking covers the whole program

A check of a parsed program that does not fail visits all statements, functions and declarations
once, whatever it finds wrong with them. So the complaints that hang on their form alone are those
that the tree tells without checking it (`Store.Faulty`), one for every fault.
-/

namespace PLang

open List NodeKind Option Store

variable {s : Store} {root id : NodeId} {sites : List Site} {p : ProgramNode}

/-! ### Faults -/

/-- What is wrong with the form of a statement or a declaration of a program: at which node, with
which complaint, and where the complaint is reported. -/
inductive Store.Faulty (s : Store) (root : NodeId) : NodeId → Fault → Prop
  /-- A return statement in the body of the program. -/
  | outside {id : NodeId} {value : Option NodeId} {p : ProgramNode} :
      s.kind? id = some (.returnValue value) → s.kind? root = some (.program p) →
      s.Under p.body id → Faulty s root id (.returnOutsideFunction, id)
  /-- A value returned in a function that returns none. -/
  | fromProcedure {id function value body : NodeId} {f : FunctionNode} :
      s.kind? id = some (.returnValue (some value)) → s.kind? function = some (.function f) →
      f.body = some body → s.Under body id → f.result = .void →
      Faulty s root id (.returnFromProcedure f.name, id)
  /-- No value returned in a function that returns one. -/
  | withoutValue {id function body : NodeId} {f : FunctionNode} :
      s.kind? id = some (.returnValue none) → s.kind? function = some (.function f) →
      f.body = some body → s.Under body id → f.result ≠ .void →
      Faulty s root id (.missingReturnValue f.name f.result.text, id)
  /-- A counting loop whose bounds decrease. -/
  | bounds {id : NodeId} {f : ForNode} : s.kind? id = some (.forLoop f) → f.upper < f.lower →
      Faulty s root id (.decreasingBounds, id)
  /-- An array without elements. It is reported at the first name. -/
  | dimension {id : NodeId} {d : DeclarationNode} {n : Int} : s.kind? id = some (.declaration d) →
      ¬s.Announced id → n ∈ s.dimensions d.type → n ≤ 0 →
      Faulty s root id (.nonPositiveDimension ((s.name? d.names).getD ""), d.names)

theorem FunctionNode.returnFault?_eq_some {f : FunctionNode} {value : Option NodeId}
    {cause : Cause} :
    f.returnFault? value = some cause ↔
      f.result = .void ∧ value.isSome ∧ cause = .returnFromProcedure f.name ∨
        f.result ≠ .void ∧ value = none ∧ cause = .missingReturnValue f.name f.result.text := by
  cases hresult : f.result <;> cases value <;> simp [returnFault?, hresult, eq_comm]

theorem WellFormed.le_root (hw : WellFormed s root) {k : NodeKind} (hk : s.kind? id = some k) :
    id ≤ root := by
  have hlt := lt_size_of_kind? hk
  rw [hw.last] at hlt
  exact Nat.le_of_lt_succ hlt

theorem Subtree.body {lo : Nat} {k : NodeKind} {body : NodeId} (h : Subtree s lo root k)
    (hk : k.isType = false) (hpart : ⟨.body, some body, isCompound⟩ ∈ k.parts) :
    ∃ lo' b, Subtree s lo' body (.compound b) := by
  have hmem : body ∈ s.chain 1 (some body) := (.head _)
  obtain ⟨lo', k', hstands⟩ := h.standsIn hk hpart hmem
  have hfits : k'.isCompound = true := hstands.fits
  cases k' with
  | compound b => exact ⟨lo', b, hstands.tree⟩
  | _ => cases hfits

/-- Some sites of a program tree that may be visited, and among them all that have to be. -/
structure Tour (s : Store) (root : NodeId) (sites : List Site) : Prop where
  scheduled : ∃ n, ∀ site ∈ sites, .visit site ∈ s.schedule n none root
  come : ∀ site, s.Inside (root, none) site → site ∈ sites

variable {fault : Fault}

namespace Tour

variable (hv : Tour s root sites) (hw : WellFormed s root)
  (htree : Subtree s 0 root (.program p))

include hv hw htree

theorem exists_of_covered (hid : s.Covered id) : ∃ f, (id, f) ∈ sites := by
  have hle : id ≤ root := by
    cases hid with
    | statement hk | function hk | declaration hk => exact hw.le_root hk
  obtain ⟨f, hf⟩ := htree.inside_of_covered (Nat.zero_le id) hle hid none
  exact ⟨f, hv.come _ hf⟩

theorem mem_of_under_program (hunder : s.Under p.body id) (hid : s.Covered id) :
    (id, none) ∈ sites := by
  have hparts : (⟨.body, some p.body, isCompound⟩ : Part) ∈ (program p).parts := by
    simp [NodeKind.parts]
  obtain ⟨lo, b, hbody⟩ := htree.body rfl hparts
  have hinside := hbody.inside_of_under hw.store rfl hunder hid none
  have hpart : p.body ∈ s.obliged (.program p) := by simp [obliged]
  exact hv.come _ (.part htree.kind? hpart hinside)

theorem mem_of_under_function {function body : NodeId} {f : FunctionNode}
    (hfunction : s.kind? function = some (.function f)) (hbody : f.body = some body)
    (hunder : s.Under body id) (hid : s.Covered id) : (id, some function) ∈ sites := by
  have hle := hw.le_root hfunction
  obtain ⟨lo, k, hk⟩ := exists_subtree.1 htree function (Nat.zero_le _) hle
  cases hk.kind?.symm.trans hfunction
  obtain ⟨g, hg⟩ := htree.inside_of_covered (Nat.zero_le _) hle (.function hfunction) none
  have hparts : (⟨.body, some body, NodeKind.isCompound⟩ : Part) ∈ (NodeKind.function f).parts := by
    simp [NodeKind.parts, hbody]
  obtain ⟨lo', b, htree'⟩ := hk.body rfl hparts
  have hinside := htree'.inside_of_under hw.store rfl hunder hid (some function)
  have hsize := Nat.zero_lt_of_lt (Store.lt_size_of_kind? hfunction)
  have hpart : body ∈ s.obliged (.function f) := by
    simp [Store.obliged, hbody, Store.mem_row_self hsize]
  exact hv.come _ (hg.trans (.part hfunction hpart hinside))

omit hv in
/-- A fault of a site that may be visited is one of the program. -/
theorem faulty_of_fault? {n : Nat} {f : Option NodeId}
    (hid : .visit (id, f) ∈ s.schedule n none root) (h : s.fault? (id, f) = some fault) :
    s.Faulty root id fault := by
  obtain ⟨k, hk, hfault⟩ := bind_eq_some_iff.1 h
  cases k with
  | returnValue value =>
    rcases htree.return_in_program hk hid with ⟨rfl, hunder⟩ |
      ⟨g, node, body, rfl, hg, hbody, hunder⟩
    · cases hfault
      exact .outside hk htree.kind? hunder
    · simp only [faultOf?, bind_some, function?, hg] at hfault
      obtain ⟨cause, hcause, rfl⟩ := map_eq_some_iff.1 hfault
      rcases FunctionNode.returnFault?_eq_some.1 hcause with ⟨hvoid, hvalue, rfl⟩ |
        ⟨hresult, rfl, rfl⟩
      · obtain ⟨v, rfl⟩ := isSome_iff_exists.1 hvalue
        exact .fromProcedure hk hg hbody hunder hvoid
      · exact .withoutValue hk hg hbody hunder hresult
  | forLoop loop =>
    rw [faultOf?] at hfault
    split at hfault
    next hbounds =>
      cases hfault
      exact .bounds hk hbounds
    next => cases hfault
  | declaration d =>
    rw [faultOf?] at hfault
    split at hfault
    next hany =>
      cases hfault
      obtain ⟨n, hn, hle⟩ := any_eq_true.1 hany
      exact .dimension hk (hw.not_announced hk hid) hn (of_decide_eq_true hle)
    next => cases hfault
  | _ => cases hfault

/-- A fault of the program is found at a site. -/
theorem exists_fault?_of_faulty (h : s.Faulty root id fault) :
    ∃ f, (id, f) ∈ sites ∧ s.fault? (id, f) = some fault := by
  have hreturn : ∀ {value}, s.kind? id = some (.returnValue value) → s.Covered id :=
    fun hk => .of_not_isCall hk rfl rfl
  cases h with
  | outside hk hroot hunder =>
    obtain rfl := program.inj (some.inj (htree.kind?.symm.trans hroot))
    refine ⟨none, hv.mem_of_under_program hw htree hunder (hreturn hk), ?_⟩
    rw [fault?, hk]
    rfl
  | @fromProcedure function value body f hk hfunction hbody hunder hvoid =>
    refine ⟨some function, hv.mem_of_under_function hw htree hfunction hbody hunder
      (hreturn hk), ?_⟩
    have hcause : f.returnFault? (some value) = some (.returnFromProcedure f.name) :=
      FunctionNode.returnFault?_eq_some.2 (.inl ⟨hvoid, rfl, rfl⟩)
    simp [fault?, hk, faultOf?, function?, hfunction, hcause]
  | @withoutValue function body f hk hfunction hbody hunder hresult =>
    refine ⟨some function, hv.mem_of_under_function hw htree hfunction hbody hunder
      (hreturn hk), ?_⟩
    have hcause : f.returnFault? none = some (.missingReturnValue f.name f.result.text) :=
      FunctionNode.returnFault?_eq_some.2 (.inr ⟨hresult, rfl, rfl⟩)
    simp [fault?, hk, faultOf?, function?, hfunction, hcause]
  | bounds hk hlt =>
    obtain ⟨f, hf⟩ := hv.exists_of_covered hw htree (.of_not_isCall hk rfl rfl)
    exact ⟨f, hf, by simp [fault?, hk, faultOf?, hlt]⟩
  | dimension hk hannounced hn hle =>
    obtain ⟨f, hf⟩ := hv.exists_of_covered hw htree (.declaration hk hannounced)
    have hany : (s.dimensions _).any (· ≤ 0) = true := any_eq_true.2 ⟨_, hn, decide_eq_true hle⟩
    exact ⟨f, hf, by simp only [fault?, hk, bind_some, faultOf?, if_pos hany]⟩

end Tour

/-! ### Logs -/

theorem sitesOf_eq (log : List Event) :
    (sitesOf log).map Prod.fst = ((log.filterMap Event.key?).map Key.place).filterMap fun place =>
      if place.1 = none then some place.2 else none := by
  rw [sitesOf, map_filterMap, map_filterMap, filterMap_filterMap]
  refine congrArg (filterMap · log) (funext fun e => ?_)
  cases e <;> rfl

theorem mem_sitesOf {log : List Event} {site : Site} (h : site ∈ sitesOf log) :
    .visit site ∈ log.filterMap Event.key? := by
  obtain ⟨e, he, hsite⟩ := mem_filterMap.1 h
  refine mem_filterMap.2 ⟨e, he, ?_⟩
  cases e with
  | visit =>
    cases hsite
    rfl
  | _ => cases hsite

/-- The errors about forms in a log. -/
theorem filter_errors (s : Store) (log : List Event) :
    (log.filterMap (Event.error? s)).filter (·.cause.isStatic) =
      (faultsOf log).map fun fault => ⟨fault.1, s.location fault.2⟩ := by
  induction log with
  | nil => rfl
  | cons e log ih =>
    cases e with
    | visit | note => exact ih
    | report cause node =>
      by_cases hstatic : cause.isStatic = true <;>
        simp_all [faultsOf, Event.error?, Event.fault?]

/-- The faults of sites, each with the node of its site. -/
def faultsAt (s : Store) (sites : List Site) : List (NodeId × Fault) :=
  sites.filterMap fun site => (s.fault? site).map (site.1, ·)

theorem mem_faultsAt : (id, fault) ∈ faultsAt s sites ↔
    ∃ f, (id, f) ∈ sites ∧ s.fault? (id, f) = some fault := by
  rw [faultsAt, mem_filterMap]
  constructor
  · intro h
    obtain ⟨site, hmem, hsite⟩ := h
    obtain ⟨fault', hfault, heq⟩ := map_eq_some_iff.1 hsite
    cases heq
    exact ⟨site.2, hmem, hfault⟩
  · intro h
    obtain ⟨f, hmem, hfault⟩ := h
    exact ⟨(id, f), hmem, by rw [hfault, map_some]⟩

theorem map_fst_faultsAt_sublist (s : Store) (sites : List Site) :
    ((faultsAt s sites).map Prod.fst).Sublist (sites.map Prod.fst) := by
  induction sites with
  | nil => exact .slnil
  | cons site sites ih =>
    rw [faultsAt, filterMap_cons]
    cases s.fault? site with
    | none => exact ih.cons _
    | some fault => exact ih.cons_cons _

theorem map_snd_faultsAt (s : Store) (sites : List Site) :
    (faultsAt s sites).map Prod.snd = sites.filterMap s.fault? := by
  rw [faultsAt, map_filterMap]
  simp [Function.comp_def]

/-- In a parsed program, no node is visited twice. -/
theorem nodup_sitesOf_of_parseTokens {ts : List Token} {limit : Nat} {c : Checker}
    (h : parseTokens ts limit = .ok (s, root)) (hc : c.store = s) :
    ((sitesOf ((Logged.visit root).log c)).map Prod.fst).Nodup := by
  rw [sitesOf_eq]
  refine (nodup_of_parseTokens h hc).filterMap ?_
  intro place place' id hplace hplace'
  simp only [mem_def, ite_none_right_eq_some, some.injEq] at hplace hplace'
  exact Prod.ext (hplace.1.trans hplace'.1.symm) (hplace.2.trans hplace'.2.symm)

/-- A check of a parsed program that does not fail visits every statement, every function and every
declaration once, apart from the formal parameters of functions without a body. Of the complaints
about the form of statements and declarations, it reports those that the tree calls for, once for
every node, and no others. -/
theorem Check.visit_covers {ts : List Token} {limit n : Nat} {c c' : Checker}
    (h : parseTokens ts limit = .ok (s, root)) (hs : c.store = s) (hfunction : c.function = none)
    (hok : Check.visit root c = .ok n c') :
    (Logged.visit root).run = Check.visit root ∧
      (∀ id, s.Covered id → ((sitesOf ((Logged.visit root).log c)).map Prod.fst).count id = 1) ∧
      ∃ found : List (NodeId × Fault), (found.map Prod.fst).Nodup ∧
        (∀ id fault, (id, fault) ∈ found ↔ s.Faulty root id fault) ∧
        c'.diagnostics.errors.filter (·.cause.isStatic) =
          c.diagnostics.errors.filter (·.cause.isStatic) ++
            found.map fun fault => ⟨fault.2.1, s.location fault.2.2⟩ := by
  have hw := wellFormed_of_parseTokens h
  obtain ⟨P, -, hprogram, -, -⟩ := parseTokens_layout h
  obtain ⟨p, htree⟩ := hprogram.subtree
  have honce := nodup_sitesOf_of_parseTokens h hs
  subst hs
  have hrun := Logged.run_visit root
  have hok' : (Logged.visit root).run c = .ok n c' := hrun ▸ hok
  have hobeys := Logged.visit_obeys root c
  have htells := (Logged.visit root).tells c
  rw [hfunction] at hobeys
  rw [hok'] at htells
  obtain ⟨hfaults, hcome⟩ := hobeys.done n c' hok'
  have hv : Tour c.store root (sitesOf ((Logged.visit root).log c)) :=
    ⟨⟨_, fun site hsite => hobeys.keys.subset (mem_sitesOf hsite)⟩, hcome⟩
  refine ⟨hrun, fun id hid => ?_,
    faultsAt c.store (sitesOf ((Logged.visit root).log c)), ?_, ?_, ?_⟩
  · obtain ⟨f, hf⟩ := hv.exists_of_covered hw htree hid
    exact List.count_eq_one_of_mem honce (List.mem_map.2 ⟨_, hf, rfl⟩)
  · exact honce.sublist (map_fst_faultsAt_sublist _ _)
  · intro id fault
    rw [mem_faultsAt]
    constructor
    · intro hfault
      obtain ⟨f, hmem, hfault⟩ := hfault
      obtain ⟨m, hm⟩ := hv.scheduled
      exact Tour.faulty_of_fault? hw htree (hm _ hmem) hfault
    · exact hv.exists_fault?_of_faulty hw htree
  · have herrors : c'.diagnostics.errors = _ := htells.errors
    have hfound : faultsOf ((Logged.visit root).log c) = _ := hfaults
    rw [herrors, List.filter_append, filter_errors, hfound, List.nil_append, ← map_snd_faultsAt,
      List.map_map]
    rfl

/-- A program with an empty array, a value returned from a procedure, and a loop with decreasing
bounds and a return statement behind a guard that is no condition. The parameter of the function
that is only announced has no elements either. -/
def faultyTokens : List Token :=
  tokensOf ("p; var a: array 0 of integer; g(b: array 0 of integer); f() begin return 1; " ++
    "end end begin if 1 then begin for i := 2 to 1 do begin return; end end do end end if " ++
    "end end")

theorem Check.visit_covers_faultyTokens : ∃ (s : Store) (root : NodeId) (c c' : Checker)
    (found : List (NodeId × Fault)), parseTokens faultyTokens 20 = .ok (s, root) ∧ c.store = s ∧
      c.function = none ∧ Check.visit root c = .ok 5 c' ∧
      (∀ id, s.Covered id → ((sitesOf ((Logged.visit root).log c)).map Prod.fst).count id = 1) ∧
      (found.map Prod.fst).Nodup ∧ (∀ id fault, (id, fault) ∈ found ↔ s.Faulty root id fault) ∧
      found.length = 4 := by
  have hrun : ((parseTokens faultyTokens 20).toOption.map fun tree =>
      let c := Checker.start tree.1 .empty .silent ⟨false, 20⟩
      ((Check.ending (Check.visit tree.2 c)).toOption,
        (((Check.visit tree.2).after c).diagnostics.errors.filter (·.cause.isStatic)).length)) =
      some (some 5, 4) := by
    rw [faultyTokens, ← String.ofList_append, ← String.ofList_append, tokensOf_ofList]
    decide +kernel
  obtain ⟨s, root, h, hrun⟩ := exists_parse_of_map hrun
  obtain ⟨hcount, hlength⟩ := Prod.mk.inj hrun
  obtain ⟨c', hok⟩ := Check.exists_ok_of_ending hcount
  obtain ⟨-, hvisited, found, honce, hfound, herrors⟩ := Check.visit_covers h rfl rfl hok
  rw [Check.after_of_ok hok] at hlength
  refine ⟨s, root, _, c', found, h, rfl, rfl, hok, hvisited, honce, hfound, ?_⟩
  have hnone : (Checker.start s .empty .silent ⟨false, 20⟩).diagnostics.errors = [] := rfl
  rw [herrors, hnone, List.filter_nil, List.nil_append, List.length_map] at hlength
  exact hlength

end PLang
