import PLang.Proofs.Checking.ScopeBalance
import PLang.Proofs.Renaming.Checking
import PLang.Proofs.Renaming.Parsing

/-!
# Names are only compared

Renaming the identifiers of a program so that different names stay different changes nothing in
what parsing and checking come to, but for the names themselves. Both succeed or both fail. The
trees have the same nodes under the same numbers, with the same types written into them. The symbols
are the same in the same order, and the same errors are reported at the same places.
-/

namespace PLang

variable {ρ : String → String} {s : Store} {root id : NodeId}

/-! ### Parsed trees -/

/-- The nodes of the names that declarations list. -/
def Store.Lists (s : Store) (id : NodeId) : Prop :=
  ∃ owner d, s.kind? owner = some (.declaration d) ∧ id ∈ s.siblings (some d.names)

namespace StoreOk

/-- The node in a slot that takes names holds one, and so do all that follow. -/
theorem exists_name_of_part (h : StoreOk s) {owner first : NodeId} {k : NodeKind} {slot : Slot}
    (hk : s.kind? owner = some k) (hpart : ⟨slot, some first, NodeKind.isName⟩ ∈ k.parts)
    (hid : id ∈ s.siblings (some first)) : ∃ x, s.kind? id = some (.name x) := by
  obtain ⟨-, hok⟩ := h.parts owner k hk _ hpart first rfl
  obtain ⟨k', hk', hfits⟩ := hok.members id hid
  cases k' with
  | name x => exact ⟨x, hk'⟩
  | _ => cases hfits

theorem exists_name_of_lists (h : StoreOk s) (hid : s.Lists id) :
    ∃ x, s.kind? id = some (.name x) := by
  obtain ⟨owner, d, hd, hid⟩ := hid
  exact h.exists_name_of_part hd (.head _) hid

theorem exists_name_of_isSign (h : StoreOk s) (hid : s.isSign id = true) :
    ∃ x, s.kind? id = some (.name x) := by
  obtain ⟨loop, f, hf, rfl⟩ := Store.isSign_iff.1 hid
  have hsize : 0 < s.size := Nat.zero_lt_of_lt (Store.lt_size_of_kind? hf)
  exact h.exists_name_of_part hf (.tail _ (.head _)) (mem_siblings_self hsize)

end StoreOk

namespace WellFormed

/-- There is a path to every node. -/
theorem exists_walk? (h : WellFormed s root) (hid : id < s.size) :
    ∃ path, s.walk? root path = some id := by
  by_cases hformal : s.FormalDimension id
  · -- one path for every type that holds the dimension, and there is such a type
    have hshared := h.paths.shared id hformal
    obtain ⟨_, d, -, -, hholds⟩ := hformal
    obtain ⟨path, ⟨hpath, -⟩, -⟩ := hshared d.type hholds
    exact ⟨path, hpath⟩
  · exact (h.paths.unique id hid hformal).exists

/-- A path that goes on from a slot of a node starts at the root. -/
theorem exists_walk?_slot (h : WellFormed s root) (slot : Slot) {owner child : NodeId}
    {k : NodeKind} (hk : s.kind? owner = some k) (hslot : k.slot? slot = some child)
    {path : List Link}
    (hpath : s.walk? child path = some id) :
    ∃ before, s.walk? root (before ++ .slot slot :: path) = some id := by
  obtain ⟨before, hbefore⟩ := h.exists_walk? (Store.lt_size_of_kind? hk)
  refine ⟨before, ?_⟩
  rw [Store.walk?_append, hbefore, Option.bind_some, Store.walk?, Store.follow?, hk,
    Option.bind_some, hslot]
  exact hpath

/-- No declaration lists the sign of a loop. -/
theorem isSign_eq_false_of_lists (h : WellFormed s root) (hid : s.Lists id) :
    s.isSign id = false := by
  obtain ⟨x, hx⟩ := h.store.exists_name_of_lists hid
  have hformal : ¬s.FormalDimension id := by
    rintro ⟨_, d, -, -, hholds⟩
    obtain ⟨n, hn⟩ := h.store.exists_number_of_holds hholds
    rw [hx] at hn
    cases hn
  have hunique := h.paths.unique id (Store.lt_size_of_kind? hx) hformal
  rw [Bool.eq_false_iff]
  intro hsign
  obtain ⟨owner, d, hd, hid⟩ := hid
  obtain ⟨loop, f, hf, hassign⟩ := Store.isSign_iff.1 hsign
  obtain ⟨nexts, hnexts, hlinks⟩ := Store.exists_walk_of_mem_chain hid
  have hself : s.walk? f.assignNode [] = some id := congrArg some hassign
  obtain ⟨toOwner, hlisted⟩ := h.exists_walk?_slot .names hd rfl hnexts
  obtain ⟨toLoop, hheld⟩ := h.exists_walk?_slot .assignNode hf rfl hself
  -- one path ends in the slot of the declaration or with a step to the next name, the other in the
  -- slot of the loop
  have hlast := congrArg List.getLast? (hunique.unique hlisted hheld)
  rw [List.getLast?_append_cons, List.getLast?_concat] at hlast
  have hmem : Link.slot .assignNode ∈ .slot .names :: nexts := List.mem_of_getLast? hlast
  rcases List.mem_cons.1 hmem with hslot | hnext
  · cases hslot
  · cases hlinks _ hnext

/-- A parsed tree is ready for a renaming. -/
theorem fits (h : WellFormed s root) (hρ : Function.Injective ρ) (before before' : List Error) :
    Renaming.Fits ⟨ρ, hρ, s.isSign, s.Lists, before, before'⟩ s where
  sign := rfl
  kept id k hid hk := by
    obtain ⟨x, hx⟩ := h.store.exists_name_of_isSign hid
    exact ⟨x, Option.some.inj (hk.symm.trans hx)⟩
  head id d hd :=
    ⟨id, d, hd, StoreOk.mem_siblings_self (Nat.zero_lt_of_lt (Store.lt_size_of_kind? hd))⟩
  next id other hid hother := by
    obtain ⟨owner, d, hd, hid⟩ := hid
    exact ⟨owner, d, hd, h.store.mem_siblings_next hid hother⟩
  name id hid := ⟨h.isSign_eq_false_of_lists hid, h.store.exists_name_of_lists hid⟩

end WellFormed

/-! ### Parsing and checking -/

/-- Checkers after the check of a program and of the renamed program: tree, symbols and the errors
that were reported are renamed. -/
structure Checker.Renames (ρ : String → String) (before before' : List Error) (c c' : Checker) :
    Prop where
  store : c'.store = c.store.rename ρ
  symbols : c'.symbols = c.symbols.rename ρ
  errors : ∃ es, c.diagnostics.errors = before ++ es ∧
    c'.diagnostics.errors = before' ++ es.map (Error.rename ρ)

/-- What the checks of a program and of the renamed program come to: the same count, or an error
that stops both. -/
inductive ChecksRenamed (ρ : String → String) (before before' : List Error) :
    EStateM.Result Error Checker Nat → EStateM.Result Error Checker Nat → Prop
  | ok {n : Nat} {c c' : Checker} (hc : c.Renames ρ before before' c') :
    ChecksRenamed ρ before before' (.ok n c) (.ok n c')
  | error {e : Error} {c c' : Checker} (hc : c.Renames ρ before before' c') :
    ChecksRenamed ρ before before' (.error e c) (.error (e.rename ρ) c')

theorem Renaming.Relates.renames {R : Renaming} {c c' : Checker} (h : R.Relates c c') :
    c.Renames R.rename R.before R.before' c' where
  store := by rw [h.store, Store.rename, h.fits.sign]
  symbols := h.symbols
  errors := h.errors

/-- The checks of a parsed tree and of the renamed tree come to the same, renamed. -/
theorem WellFormed.visit_rename (h : WellFormed s root) (hρ : Function.Injective ρ)
    (diagnostics diagnostics' : Diagnostics) (options : CheckOptions) :
    ChecksRenamed ρ diagnostics.errors diagnostics'.errors
      (Check.visit root (.start s .empty diagnostics options))
      (Check.visit root (.start (s.rename ρ) .empty diagnostics' options)) := by
  have hstart : Renaming.Relates
      ⟨ρ, hρ, s.isSign, s.Lists, diagnostics.errors, diagnostics'.errors⟩
      (.start s .empty diagnostics options) (.start (s.rename ρ) .empty diagnostics' options) :=
    ⟨h.fits hρ _ _, rfl, (SymbolTable.rename_empty _).symm,
      ⟨[], (List.append_nil _).symm, (List.append_nil _).symm⟩, rfl, rfl, rfl⟩
  have hends := Renaming.visit_matches root _ _ hstart
  generalize Check.visit root (.start s .empty diagnostics options) = r,
    Check.visit root (.start (s.rename ρ) .empty diagnostics' options) = r' at hends
  cases hends with
  | ok hn hc =>
    subst hn
    exact .ok hc.renames
  | error hc => exact .error hc.renames

/-- Renaming invariance. Where the identifiers among the tokens are renamed and different ones stay
different, the parser makes the same tree, renamed but for the signs of counting loops, or fails
with the same complaint about the same token, renamed. The check of the tree then comes to the same
count or the same error, with the same types noted, the same symbols and the same reports in the
same order. -/
theorem parse_check_rename (hρ : Function.Injective ρ) (ts : List Token) (limit : Nat)
    (diagnostics diagnostics' : Diagnostics) (options : CheckOptions) :
    (∃ complaint, ∃ t ∈ closeTokens ts,
      parseTokens ts limit = .error (Complaint.about complaint t) ∧
      parseTokens (ts.map (Token.rename ρ)) limit = .error (complaint.about (t.rename ρ))) ∨
    ∃ s root, parseTokens ts limit = .ok (s, root) ∧
      parseTokens (ts.map (Token.rename ρ)) limit = .ok (s.rename ρ, root) ∧
      ChecksRenamed ρ diagnostics.errors diagnostics'.errors
        (Check.visit root (.start s .empty diagnostics options))
        (Check.visit root (.start (s.rename ρ) .empty diagnostics' options)) := by
  have hparses := parseTokens_rename ρ ts limit
  generalize hr : parseTokens ts limit = r,
    parseTokens (ts.map (Token.rename ρ)) limit = r' at hparses
  cases hparses with
  | ok s root =>
    exact .inr ⟨s, root, rfl, rfl,
      (wellFormed_of_parseTokens hr).visit_rename hρ diagnostics diagnostics' options⟩
  | error complaint ht => exact .inl ⟨complaint, _, ht, rfl, rfl⟩

/-- A loop that prints its variable and a name that is not declared. -/
def printLoopTokens : List Token :=
  tokensOf "p; begin for i := 1 to 3 do begin print i; print x; end end do end end"

theorem parse_check_rename_printLoopTokens : Function.Injective ("my_" ++ ·) ∧ ∃ s root,
    parseTokens printLoopTokens 9 = .ok (s, root) ∧
      parseTokens (printLoopTokens.map (Token.rename ("my_" ++ ·))) 9 =
        .ok (s.rename ("my_" ++ ·), root) ∧
      ChecksRenamed ("my_" ++ ·) [] []
        (Check.visit root (.start s .empty .silent ⟨false, 9⟩))
        (Check.visit root (.start (s.rename ("my_" ++ ·)) .empty .silent ⟨false, 9⟩)) ∧
      (List.range s.size).filterMap (s.rename ("my_" ++ ·)).name? = ["my_i", ":=", "my_i"] ∧
      ((Check.visit root).after (.start (s.rename ("my_" ++ ·)) .empty .silent
        ⟨false, 9⟩)).diagnostics.errors.map Error.cause = [.undeclared "my_x"] := by
  have hinjective : Function.Injective ("my_" ++ ·) :=
    fun _ _ h => (String.append_right_inj "my_").1 h
  have hrun : ((parseTokens printLoopTokens 9).toOption.map fun (s, root) =>
      ((List.range s.size).filterMap (s.rename ("my_" ++ ·)).name?,
        ((Check.visit root).after (.start (s.rename ("my_" ++ ·)) .empty .silent
          ⟨false, 9⟩)).diagnostics.errors.map Error.cause)) =
      some (["my_i", ":=", "my_i"], [.undeclared "my_x"]) := by
    rw [printLoopTokens, tokensOf_ofList]
    decide +kernel
  refine ⟨hinjective, ?_⟩
  rcases parse_check_rename hinjective printLoopTokens 9 .silent .silent ⟨false, 9⟩ with
    ⟨_, _, -, herror, -⟩ | ⟨s, root, hparse, hparse', hchecks⟩
  · rw [herror] at hrun
    cases hrun
  · rw [hparse] at hrun
    obtain ⟨hnames, hcauses⟩ := Prod.mk.inj (Option.some.inj hrun)
    exact ⟨s, root, hparse, hparse', hchecks, hnames, hcauses⟩

end PLang
