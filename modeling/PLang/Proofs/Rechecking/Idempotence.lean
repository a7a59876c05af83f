import PLang.Proofs.Rechecking.Statements
import PLang.Proofs.Tree.WellFormed

/-!
# Checking a tree that has been checked before

What checking finds does not hang on the notes that are in a tree. A parsed tree may be given any
types, and any of the additions that checking turns into concatenations may be such already:
checking ends the same way, reports the same and makes the same notes. So a tree can be checked
again and again.
-/

namespace PLang

open Check Option

/-- A tree in which notes have been changed, where `done` is the tree that checking makes. The types
in expressions, variables and calls are arbitrary, and any of the additions that checking turns into
concatenations are such already. -/
structure Store.Renoted (s done t : Store) : Prop where
  nodes : Alike s t
  located : ∀ id, t.location id = s.location id
  operator : ∀ id, t.operator? id = s.operator? id ∨
    s.operator? id = some .add ∧ t.operator? id = some .concat ∧ done.operator? id = some .concat

/-- A checker that starts with a tree and a nesting limit. No scope is open and nothing is reported,
but there may be symbols of scopes that have been closed. -/
def Checker.Starts (c : Checker) (s : Store) (limit : Nat) : Prop :=
  ∃ (symbols : SymbolTable) (diagnostics : Diagnostics) (options : CheckOptions),
    symbols.scopes = [] ∧ diagnostics.errors = [] ∧ options.limit = limit ∧
      c = .start s symbols diagnostics options

/-- The same complaint at the same place. -/
theorem eq_of_forall₂_like {es es' : List Error} (h : List.Forall₂ (Error.Like Eq) es es') :
    es' = es := by
  induction h with
  | nil => rfl
  | cons he _ ih => rw [he.eq, ih]

namespace Check

/-- Starts again with the tree and the symbol table that a check has left. -/
def restart (root : NodeId) (diagnostics : Diagnostics) (options : CheckOptions) (c : Checker) :
    Checker :=
  .start ((visit root).after c).store ((visit root).after c).symbols diagnostics options

theorem EndsLike.ending_eq {r r' : EStateM.Result Error Checker Nat} (h : EndsLike Eq r r') :
    ending r' = ending r := by
  cases h with
  | ok => rfl
  | error he => rw [he.eq, ending, ending]

theorem reported_eq_after (x : Check Nat) (c : Checker) :
    reported (x c) = (x.after c).diagnostics.errors := by
  unfold reported after
  cases x c <;> rfl

end Check

/-- A node is given by what it holds, where it stands and what follows it. -/
theorem Store.node?_eq_of {s s' : Store} {id : NodeId} (hkind : s'.kind? id = s.kind? id)
    (hlocation : s'.location id = s.location id) (hnext : s'.next? id = s.next? id) :
    s'.node? id = s.node? id := by
  unfold kind? at hkind
  unfold location at hlocation
  unfold next? at hnext
  cases hn : s.node? id with
  | none =>
    rw [hn, map_none, map_eq_none_iff] at hkind
    exact hkind
  | some n =>
    rw [hn, map_some, map_eq_some_iff] at hkind
    obtain ⟨n', hn', hkind⟩ := hkind
    rw [hn, hn'] at hlocation hnext
    obtain ⟨location, kind, next⟩ := n
    obtain ⟨location', kind', next'⟩ := n'
    simp only [map_some, getD_some, bind_some] at hkind hlocation hnext
    rw [hn', hkind, hlocation, hnext]

theorem Store.eq_of_node? {s s' : Store} (h : ∀ id, s'.node? id = s.node? id) : s' = s := by
  obtain ⟨nodes⟩ := s
  obtain ⟨nodes'⟩ := s'
  exact congrArg Store.mk (Array.ext_getElem? h)

section

variable {ts : List Token} {l limit : Nat} {s : Store} {root : NodeId} {c : Checker}

/-- The tree that checking makes is one in which notes have been changed. -/
theorem Stage.renoted (m : Stage s) : s.Renoted m.state.store m.state.store := by
  refine ⟨m.alike, m.located, fun id => ?_⟩
  rcases m.operator id with h | ⟨hadd, hconcat⟩
  · exact .inl h
  · exact .inr ⟨hadd, hconcat, hconcat⟩

/-- Checks of changed trees end the same way and make the same notes. -/
theorem exists_stage_of_renoted (h : parseTokens ts l = .ok (s, root)) (hc : c.Starts s limit) :
    ∃ m1 : Stage s, (visit root).after c = m1.state ∧
      ∀ t c', s.Renoted m1.state.store t → c'.Starts t limit →
        ending (visit root c') = ending (visit root c) ∧
          reported (visit root c') = reported (visit root c) ∧
          (∀ id ∈ m1.written,
            ((visit root).after c').store.node? id = m1.state.store.node? id) ∧
          ∀ id ∉ m1.written, ((visit root).after c').store.node? id = t.node? id := by
  obtain ⟨P, -, hprogram, -⟩ := parseTokens_layout h
  obtain ⟨p, htree⟩ := hprogram.subtree
  obtain ⟨symbols, diagnostics, options, hsymbols, hnone, rfl, rfl⟩ := hc
  let m := Stage.start s symbols diagnostics options
  obtain ⟨m1, hafter, hvariants⟩ :=
    visit_variants (m := m) Eq htree rfl (Set.empty_disjoint _)
  refine ⟨m1, hafter, fun t c' ht hc' => ?_⟩
  obtain ⟨symbols', diagnostics', options', hsymbols', hnone', hlimit, rfl⟩ := hc'
  let V : Variant s Eq :=
    { store := t
      before := []
      before' := []
      alike := ht.nodes
      operator := fun id => (ht.operator id).imp_right fun h => ⟨h.1, h.2.1⟩
      place := fun id _ _ _ => (ht.located id).symm }
  have hmatches : m.Matches V (.start t symbols' diagnostics' options') :=
    Stage.start_matches hsymbols hsymbols' hlimit hnone.symm hnone'.symm
  have hsettled : V.Settled (Set.Icc 0 root) m1 := by
    intro id _ hconcat
    rcases ht.operator id with hsame | ⟨-, -, hdone⟩
    · -- what is a concatenation in the tree stays one
      rcases m1.operator id with hkept | ⟨hadd, -⟩
      · rw [hkept, ← hsame]
        exact hconcat
      · rw [hadd] at hsame
        exact absurd (hsame.symm.trans hconcat) (by decide)
    · exact hdone
  obtain ⟨hends, hm1⟩ := hvariants V _ hmatches hsettled
  refine ⟨hends.ending_eq, ?_, fun id hid => ?_, fun id hid => ?_⟩
  · obtain ⟨es, es', hes, hes', hlike⟩ := hm1.errors
    rw [reported_eq_after, reported_eq_after, hes', eq_of_forall₂_like hlike]
    exact hes.symm.trans (congrArg (fun c : Checker => c.diagnostics.errors) hafter.symm)
  · refine Store.node?_eq_of (hm1.written id hid) ?_ ?_
    · exact (hm1.located id).trans ((ht.located id).trans (m1.located id).symm)
    · exact hm1.same.next id
  · refine Store.node?_eq_of (hm1.unwritten id hid) (hm1.located id) ?_
    exact (hm1.alike.next id).trans (ht.nodes.next id).symm

variable {options : CheckOptions} {diagnostics : Diagnostics}

/-- What a check leaves can be checked again. -/
theorem Checker.Starts.restart {done : Store} {k : NodeKind} (hc : c.Starts s limit)
    (hroot : s.kind? root = some k) (hscope : k.hasOwnScope = true)
    (hdone : ((visit root).after c).store = done) (hnone : diagnostics.errors = [])
    (hlimit : options.limit = limit) :
    (restart root diagnostics options c).Starts done limit := by
  obtain ⟨symbols, _, _, hsymbols, -, -, rfl⟩ := hc
  refine ⟨_, diagnostics, options, ?_, hnone, hlimit, by rw [restart, hdone]⟩
  rw [scopes_after_visit (c := .start s symbols _ _) hroot hscope]
  exact hsymbols

/-- Checking again starts, every time, with the tree that the first check has made. -/
theorem starts_of_restarts (h : parseTokens ts l = .ok (s, root)) (hc : c.Starts s limit)
    (hnone : diagnostics.errors = [])
    (hlimit : options.limit = limit) (n : Nat) :
    ((restart root diagnostics options)^[n + 1] c).Starts ((visit root).after c).store
      limit := by
  obtain ⟨P, -, hprogram, -⟩ := parseTokens_layout h
  obtain ⟨p, htree⟩ := hprogram.subtree
  have hroot := htree.kind?
  obtain ⟨m1, hafter, hvariants⟩ := exists_stage_of_renoted h hc
  induction n with
  | zero => exact hc.restart hroot rfl rfl hnone hlimit
  | succ n ih =>
    rw [Function.iterate_succ_apply']
    refine ih.restart (k := .program p) ?_ rfl ?_ hnone hlimit
    · rw [hafter]
      exact m1.alike.kind?_plain hroot rfl
    · rw [hafter] at ih ⊢
      obtain ⟨-, -, hwritten, hunwritten⟩ := hvariants _ _ m1.renoted ih
      refine Store.eq_of_node? fun id => ?_
      by_cases hid : id ∈ m1.written
      · exact hwritten id hid
      · exact hunwritten id hid

/-- Checking never reads a note that was in the tree before. Over any tree that differs from a
parsed one in its types and in additions that checking turns into concatenations, it returns the
same number of errors or fails the same way, reports the same errors, and makes the same notes in
the same nodes. So a tree can be checked any number of times with the same symbol table: the result
and the errors are the same each time, and the tree is not changed after the first time. -/
theorem visit_renoted (h : parseTokens ts l = .ok (s, root)) (hc : c.Starts s limit) :
    (∃ written : Set NodeId, ∀ t c', s.Renoted ((Check.visit root).after c).store t →
      c'.Starts t limit →
        Check.ending (Check.visit root c') = Check.ending (Check.visit root c) ∧
          Check.reported (Check.visit root c') = Check.reported (Check.visit root c) ∧
          (∀ id ∈ written, ((Check.visit root).after c').store.node? id =
            ((Check.visit root).after c).store.node? id) ∧
          ∀ id ∉ written, ((Check.visit root).after c').store.node? id = t.node? id) ∧
      ∀ diagnostics options, diagnostics.errors = [] → options.limit = limit → ∀ n,
        let again := (Check.restart root diagnostics options)^[n] c
        Check.ending (Check.visit root again) = Check.ending (Check.visit root c) ∧
          Check.reported (Check.visit root again) = Check.reported (Check.visit root c) ∧
          ((Check.visit root).after again).store = ((Check.visit root).after c).store := by
  obtain ⟨m₁, hafter, hvariants⟩ := exists_stage_of_renoted h hc
  refine ⟨⟨m₁.written, fun t c' ht hc' => ?_⟩, fun diagnostics options hnone hlimit n => ?_⟩
  · rw [hafter] at ht ⊢
    exact hvariants t c' ht hc'
  · cases n with
    | zero => exact ⟨rfl, rfl, rfl⟩
    | succ n =>
      have hagain := starts_of_restarts h hc hnone hlimit n
      have hnext := starts_of_restarts h hc hnone hlimit (n + 1)
      rw [hafter] at hagain
      obtain ⟨hending, hreported, -, -⟩ := hvariants _ _ m₁.renoted hagain
      refine ⟨hending, hreported, ?_⟩
      rw [Function.iterate_succ_apply'] at hnext
      obtain ⟨_, _, _, -, -, -, heq⟩ := hnext
      show (restart root diagnostics options _).store = _
      rw [heq]
      rfl

end

/-- A program that prints a sum of strings and a variable that is not declared. -/
def concatTokens : List Token :=
  tokensOf "p; begin print \"a\" + \"b\"; print x; end end"

theorem visit_renoted_concatTokens : ∃ s root c,
    parseTokens concatTokens 9 = .ok (s, root) ∧ c.Starts s 9 ∧ s.operator? 4 = some .add ∧
      Check.ending (Check.visit root c) = .ok 1 ∧
      (∀ n, Check.ending (Check.visit root ((Check.restart root .silent ⟨false, 9⟩)^[n] c)) =
        .ok 1) ∧
      ((Check.visit root).after (Check.restart root .silent ⟨false, 9⟩ c)).store.operator? 4 =
        some .concat := by
  have hrun : ((parseTokens concatTokens 9).toOption.map fun (s, root) =>
      let c := Checker.start s .empty .silent ⟨false, 9⟩
      (s.operator? 4, (ending (visit root c)).toOption,
        ((visit root).after c).store.operator? 4)) =
      some (some .add, some 1, some .concat) := by
    rw [concatTokens, tokensOf_ofList]
    decide +kernel
  obtain ⟨s, root, h, hrun⟩ := exists_parse_of_map hrun
  simp only [Prod.mk.injEq] at hrun
  obtain ⟨hadd, hcount, hconcat⟩ := hrun
  have hc : (Checker.start s .empty .silent ⟨false, 9⟩).Starts s 9 :=
    ⟨.empty, .silent, ⟨false, 9⟩, rfl, rfl, rfl, rfl⟩
  obtain ⟨-, hagain⟩ := visit_renoted h hc
  have hone : ending (visit root (.start s .empty .silent ⟨false, 9⟩)) = .ok 1 := by
    obtain ⟨c1, hok⟩ := exists_ok_of_ending hcount
    rw [hok, ending]
  refine ⟨s, root, _, h, hc, hadd, hone, fun n => ?_, ?_⟩
  · rw [(hagain .silent ⟨false, 9⟩ rfl rfl n).1, hone]
  · rw [← hconcat, ← (hagain .silent ⟨false, 9⟩ rfl rfl 1).2.2]
    rfl

end PLang
