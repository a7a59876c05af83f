import PLang.Proofs.FrontEnd
import PLang.Proofs.InStep.Program
import PLang.Proofs.Rechecking.Statements
import PLang.Proofs.Tree.WellFormed

/-!
# Spacing does not matter

Blanks, line breaks and comments change where tokens stand, and nothing else. Two sources with the
same tokens in this sense are parsed into trees that differ only in where their nodes stand.
Checking these trees ends the same way, with the same errors at the same tokens.
-/

namespace PLang

/-- Two places at which tokens with the same number start. -/
def SameToken (ts ts' : List Token) (l l' : Location) : Prop :=
  ∃ (i : Nat) (t t' : Token), ts[i]? = some t ∧ ts'[i]? = some t' ∧ l = t.location ∧
    l' = t'.location

/-- Checked trees that differ only in where their nodes stand. -/
structure Checked.Like (t t' : Checked) : Prop where
  root : t'.root = t.root
  errorCount : t'.errorCount = t.errorCount
  size : t'.store.size = t.store.size
  nodes : ∀ id n, t.store.node? id = some n →
    ∃ n', t'.store.node? id = some n' ∧ n'.kind = n.kind ∧ n'.next = n.next

/-- Results that differ only in places: trees, or errors at places that go together. -/
inductive OutcomesLike (link : Location → Location → Prop) :
    Except Error Checked → Except Error Checked → Prop
  | ok {t t' : Checked} : t.Like t' → OutcomesLike link (.ok t) (.ok t')
  | error {e e' : Error} : e.Like link e' → OutcomesLike link (.error e) (.error e')

/-- Reports that differ only in places. Errors that were there before are left aside. -/
structure CheckReport.Like (link : Location → Location → Prop) (before before' : List Error)
    (r r' : CheckReport) : Prop where
  outcome : OutcomesLike link r.outcome r'.outcome
  errors : ∃ es es', r.diagnostics.errors = before ++ es ∧ r'.diagnostics.errors = before' ++ es' ∧
    List.Forall₂ (Error.Like link) es es'

/-- The nodes of two stores are the same but for their places. -/
theorem exists_node_of_kind? {s s' : Store} (hkind : ∀ id, s'.kind? id = s.kind? id)
    (hnext : ∀ id, s'.next? id = s.next? id) (id : NodeId) (n : Node) (hn : s.node? id = some n) :
    ∃ n', s'.node? id = some n' ∧ n'.kind = n.kind ∧ n'.next = n.next := by
  have hk := hkind id
  have hx := hnext id
  rw [Store.kind?, Store.kind?, hn, Option.map_some, Option.map_eq_some_iff] at hk
  obtain ⟨n', hn', hk⟩ := hk
  rw [Store.next?, Store.next?, hn, hn'] at hx
  exact ⟨n', hn', hk, hx⟩

section

variable {link : Location → Location → Prop} {s s' : Store} {root : NodeId}

/-- A like tree as a variant: it has the same notes, and stands elsewhere. -/
def Store.Like.variant (h : s.Like link s') (before before' : List Error) : Variant s link where
  store := s'
  before := before
  before' := before'
  alike := ⟨h.size_eq, fun id => congrFun h.next?_eq id, fun id => by rw [h.kind?_eq]⟩
  operator id := .inl (by rw [Store.operator?, Store.operator?, h.kind?_eq])
  place _ _ hk ht := h.place hk ht

/-- Like trees give like reports. -/
theorem visit_like (hs : s.Like link s') {p : ProgramNode} {lo : Nat}
    (htree : Subtree s lo root (.program p)) {options options' : CheckOptions}
    (hlimit : options'.limit = options.limit) (diagnostics diagnostics' : Diagnostics) :
    ∃ m1 : Stage s,
      (Check.visit root).after (.start s .empty diagnostics options) = m1.state ∧
        Check.EndsLike link (Check.visit root (.start s .empty diagnostics options))
          (Check.visit root (.start s' .empty diagnostics' options')) ∧
        m1.Matches (hs.variant diagnostics.errors diagnostics'.errors)
          ((Check.visit root).after (.start s' .empty diagnostics' options')) := by
  obtain ⟨m1, hafter, hvariants⟩ := Check.visit_variants
    (m := .start s .empty diagnostics options) link htree rfl (Set.empty_disjoint _)
  refine ⟨m1, hafter, hvariants (hs.variant diagnostics.errors diagnostics'.errors) _
    (Stage.start_matches rfl rfl hlimit rfl rfl) ?_⟩
  intro id _ hconcat
  have hsame : s.operator? id = some .concat := by
    rw [← hconcat]
    show s.operator? id = s'.operator? id
    rw [Store.operator?, Store.operator?, hs.kind?_eq]
  rcases m1.operator id with hkept | ⟨hadd, -⟩
  · exact hkept.trans hsame
  · rw [hadd] at hsame
    cases hsame

end

section

variable {source source' : String} {ts ts' : List Token} {options options' : CheckOptions}
  {diagnostics diagnostics' : Diagnostics}

/-- Tokens with the same kinds and texts stand at the places that go together. -/
theorem forall₂_sameToken
    (h : List.Forall₂ (fun t t' => t'.kind = t.kind ∧ t'.value = t.value) ts ts') :
    List.Forall₂ (Token.Like (SameToken ts ts')) ts ts' := by
  refine List.forall₂_iff_get.2 ⟨h.length_eq, fun i hi hi' => ?_⟩
  have hget := (List.forall₂_iff_get.1 h).2 i hi hi'
  exact ⟨hget.1, hget.2, i, ts.get ⟨i, hi⟩, ts'.get ⟨i, hi'⟩, List.getElem?_eq_getElem hi,
    List.getElem?_eq_getElem hi', rfl, rfl⟩

/-- Sources with the same tokens are parsed the same way. -/
theorem parseTokens_sameToken (h : tokenize source = .ok ts) (h' : tokenize source' = .ok ts')
    (hlike : List.Forall₂ (fun t t' => t'.kind = t.kind ∧ t'.value = t.value) ts ts')
    (limit : Nat) :
    Comparison.Parses ⟨SameToken ts ts', limit, limit, Nat.le_refl limit⟩ (parseTokens ts limit)
      (parseTokens ts' limit) := by
  refine parseTokens_inStep (C := ⟨SameToken ts ts', limit, limit, Nat.le_refl limit⟩) ?_
  rw [closeTokens_of_tokenize h, closeTokens_of_tokenize h']
  exact forall₂_sameToken hlike

/-- Spacing does not matter. Two sources whose tokens have the same kinds and texts, one by one, are
both accepted or both rejected under any nesting limit. The trees have the same nodes, but for where
they stand. The errors reported, and the one that stops, are the same ones in the same order, and
stand at the tokens with the same numbers. -/
theorem checkSource_spacing (h : tokenize source = .ok ts) (h' : tokenize source' = .ok ts')
    (hlike : List.Forall₂ (fun t t' => t'.kind = t.kind ∧ t'.value = t.value) ts ts')
    (hlimit : options'.limit = options.limit) :
    CheckReport.Like (SameToken ts ts') diagnostics.errors diagnostics'.errors
      (checkSource source options diagnostics) (checkSource source' options' diagnostics') := by
  have hparses := parseTokens_sameToken h h' hlike options.limit
  generalize hr : parseTokens ts options.limit = r,
    hr' : parseTokens ts' options.limit = r' at hparses
  rw [← hlimit] at hr'
  cases hparses with
  | cut hlt => exact absurd hlt (Nat.lt_irrefl _)
  | error he =>
    rw [checkSource_of_parse_error h hr, checkSource_of_parse_error h' hr']
    exact ⟨.error he, [], [], (List.append_nil _).symm, (List.append_nil _).symm, .nil⟩
  | @ok s s' root hs =>
    obtain ⟨P, -, hprogram, -⟩ := parseTokens_layout hr
    obtain ⟨p, htree⟩ := hprogram.subtree
    obtain ⟨m₁, hafter, hends, hm₁⟩ := visit_like hs htree hlimit diagnostics diagnostics'
    generalize hrun : Check.visit root (.start s .empty diagnostics options) = run,
      hrun' : Check.visit root (.start s' .empty diagnostics' options') = run' at hends
    cases hends with
    | error he =>
      rw [Check.after_of_error hrun] at hafter
      rw [Check.after_of_error hrun'] at hm₁
      subst hafter
      rw [checkSource_of_visit_error h hr hrun, checkSource_of_visit_error h' hr' hrun']
      exact ⟨.error he, hm₁.errors⟩
    | ok =>
      rw [Check.after_of_ok hrun] at hafter
      rw [Check.after_of_ok hrun'] at hm₁
      subst hafter
      rw [checkSource_of_visit_ok h hr hrun, checkSource_of_visit_ok h' hr' hrun']
      refine ⟨.ok ⟨rfl, rfl, hm₁.same.size, ?_⟩, hm₁.errors⟩
      refine exists_node_of_kind? (fun id => ?_) fun id => hm₁.same.next id
      by_cases hid : id ∈ m₁.written
      · exact hm₁.written id hid
      · rw [hm₁.unwritten id hid, m₁.unwritten id hid]
        exact congrFun hs.kind?_eq id

end

/-- A program in one line. -/
def narrowSource : String := "p;begin print x;end end"

/-- The same program in several lines, with comments. -/
def wideSource : String := "p; // its name\nbegin\n  /* not declared */ print x;\nend end"

theorem checkSource_spacing_wideSource : ∃ ts ts',
    tokenize narrowSource = .ok ts ∧ tokenize wideSource = .ok ts' ∧
      List.Forall₂ (fun t t' => t'.kind = t.kind ∧ t'.value = t.value) ts ts' ∧
      ((checkSource narrowSource ⟨false, 9⟩ .silent).diagnostics.errors.map Error.location,
        (checkSource wideSource ⟨false, 9⟩ .silent).diagnostics.errors.map Error.location) =
        ([⟨1, 15⟩], [⟨3, 28⟩]) ∧
      CheckReport.Like (SameToken ts ts') Diagnostics.silent.errors Diagnostics.silent.errors
        (checkSource narrowSource ⟨false, 9⟩ .silent)
        (checkSource wideSource ⟨false, 9⟩ .silent) := by
  have hplaces :
      ((checkSource narrowSource ⟨false, 9⟩ .silent).diagnostics.errors.map Error.location,
      (checkSource wideSource ⟨false, 9⟩ .silent).diagnostics.errors.map Error.location) =
      ([⟨1, 15⟩], [⟨3, 28⟩]) := by decide +kernel
  have htokens : ∃ ts ts', (tokenize narrowSource).toOption = some ts ∧
      (tokenize wideSource).toOption = some ts' ∧
      List.Forall₂ (fun t t' => t'.kind = t.kind ∧ t'.value = t.value) ts ts' := by
    exact ⟨tokensOf narrowSource, tokensOf wideSource, by decide +kernel⟩
  obtain ⟨ts, ts', h, h', hlike⟩ := htokens
  exact ⟨ts, ts', eq_ok_of_toOption h, eq_ok_of_toOption h', hlike, hplaces,
    checkSource_spacing (eq_ok_of_toOption h) (eq_ok_of_toOption h') hlike rfl⟩

end PLang
