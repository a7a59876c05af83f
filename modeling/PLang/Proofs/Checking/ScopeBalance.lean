import PLang.Proofs.Checking.Discipline
import PLang.Proofs.Lexemes
import PLang.Proofs.Parsing.Program

/-!
# Balance of scopes

A check closes all scopes that it opens, also if it fails. What is left of it in the symbol table
are the symbols that it has inserted into the scope that was innermost before, and a node with a
scope of its own leaves none there.
-/

namespace PLang

/-- The scopes after symbols were inserted into the innermost one. -/
inductive ScopesGrow : List (List SymbolId) → List (List SymbolId) → Prop
  | none : ScopesGrow [] []
  | top (added scope : List SymbolId) (outer : List (List SymbolId)) :
    ScopesGrow (scope :: outer) ((added ++ scope) :: outer)

namespace ScopesGrow

variable {scopes scopes1 scopes2 : List (List SymbolId)}

theorem refl (scopes : List (List SymbolId)) : ScopesGrow scopes scopes := by
  cases scopes with
  | nil => exact .none
  | cons scope outer => exact .top [] scope outer

theorem trans (h1 : ScopesGrow scopes scopes1) (h2 : ScopesGrow scopes1 scopes2) :
    ScopesGrow scopes scopes2 := by
  cases h1 with
  | none => exact h2
  | top added scope outer =>
    cases h2 with
    | top more =>
      rw [← List.append_assoc]
      exact .top (more ++ added) scope outer

theorem tail_eq (h : ScopesGrow ([] :: scopes) scopes1) : scopes1.tail = scopes := by
  cases h with
  | top added => rfl

end ScopesGrow

/-- A check has only inserted symbols, and those into the innermost scope. -/
structure Balances (c c' : Checker) : Prop where
  function : c'.function = c.function
  scopes : ScopesGrow c.symbols.scopes c'.symbols.scopes
  entries : c.symbols.entries.toList <+: c'.symbols.entries.toList

namespace Balances

variable {c c1 c2 : Checker}

/-- A step that leaves the function and the symbols alone. -/
theorem of_eq (hfunction : c1.function = c.function) (hsymbols : c1.symbols = c.symbols) :
    Balances c c1 :=
  ⟨hfunction, hsymbols ▸ .refl _, hsymbols ▸ List.prefix_rfl⟩

theorem trans (h1 : Balances c c1) (h2 : Balances c1 c2) : Balances c c2 :=
  ⟨h2.function.trans h1.function, h1.scopes.trans h2.scopes, h1.entries.trans h2.entries⟩

theorem declare (c : Checker) (name : String) (kind : SymbolKind) (scalar : Option ScalarType)
    (typeText detail : String) (node : NodeId) :
    Balances c { c with symbols := c.symbols.insert name kind scalar typeText detail node } := by
  refine ⟨rfl, ?_, ?_⟩
  · unfold SymbolTable.insert
    cases c.symbols.scopes with
    | nil => exact .none
    | cons scope outer => exact .top [c.symbols.nextId] scope outer
  · simp [SymbolTable.insert]

theorem popScope_scopes (h : Balances c.pushScope c1) :
    c1.popScope.symbols.scopes = c.symbols.scopes := h.scopes.tail_eq

theorem scope (h : Balances c.pushScope c1) : Balances c c1.popScope :=
  ⟨h.function, h.popScope_scopes ▸ .refl _, h.entries⟩

end Balances

/-- Checks keep the scopes in balance. -/
def balance : Discipline where
  Holds c _ c' := Balances c c'
  refl _ := .of_eq rfl rfl
  trans := .trans
  fail := .trans
  report _ _ _ _ := .of_eq rfl rfl
  note _ _ := .of_eq rfl rfl
  declare := .declare
  scope := .scope
  within h := ⟨rfl, h.scopes, h.entries⟩
  deeper h := ⟨h.function, h.scopes, h.entries⟩
  overstep _ _ := .of_eq rfl rfl

theorem balances_after {c : Checker} {x : Check Nat} (h : balance.Governs c x) :
    Balances c (x.after c) := by
  unfold Discipline.Governs at h
  unfold Check.after
  cases hx : x c with
  | ok n c' => rw [hx] at h; exact h
  | error e c' => rw [hx] at h; exact h

namespace Check

variable {c : Checker} {x : Check Nat}

theorem after_congr {y : Check Nat} (h : x c = y c) : x.after c = y.after c := by
  unfold after
  rw [h]

theorem after_inScope (x : Check Nat) (c : Checker) :
    (inScope x).after c = (x.after c.pushScope).popScope := by
  unfold after inScope
  cases x c.pushScope <;> rfl

theorem after_deeper (x : Check Nat) (c : Checker) :
    (deeper x).after c =
      { x.after { c with depth := c.depth + 1 } with
        depth := (x.after { c with depth := c.depth + 1 }).depth - 1 } := by
  unfold after deeper
  cases x { c with depth := c.depth + 1 } <;> rfl

/-- The scopes are as before after a check in a scope of its own. -/
theorem scopes_after_inScope (h : balance.Governs c.pushScope x) :
    ((inScope x).after c).symbols.scopes = c.symbols.scopes := by
  rw [after_inScope]
  exact (balances_after h).popScope_scopes

variable {k : NodeKind}

theorem scopes_after_kind (n : Nat) (id : NodeId) (hk : k.hasOwnScope = true) :
    ((Logged.kind (Logged.visitUpTo n) id k).run.after c).symbols.scopes = c.symbols.scopes := by
  have hV := balance.rel_visitUpTo n true
  have hlist : ∀ head, balance.tandem.Rel true (Logged.list (Logged.visitUpTo n) .reportAll head)
      (Logged.list (Logged.visitUpTo n) .reportAll head) := fun head =>
    balance.tandem.list .reportAll trivial fun child _ => hV child
  cases k with
  | program p =>
    exact scopes_after_inScope (balance.tandem.declare _ _ _ _ _ _
      (balance.tandem.add₃ (hlist p.declarations) (hlist p.functions) (hV p.body)) _)
  | compound b =>
    exact scopes_after_inScope
      (balance.tandem.add (hlist b.declarations) (fun _ => hlist b.statements) _)
  | forLoop f =>
    refine scopes_after_inScope ?_
    dsimp only
    split
    · exact balance.tandem.add₃ (balance.tandem.report id rfl) (hV f.declaration) (hV f.body) _
    · exact balance.tandem.add₃ balance.tandem.zero (hV f.declaration) (hV f.body) _
  | _ => cases hk

theorem node_eq_kind {visit : NodeId → Check Nat} {id : NodeId}
    (h : c.store.kind? id = some k) : node visit id c = kind visit id k c := by
  have hview : inStore (fun s => s.kind? id) c = .ok (some k) c :=
    congrArg (EStateM.Result.ok · c) h
  exact bind_of_ok hview

theorem scopes_after_visit {id : NodeId} (hnode : c.store.kind? id = some k)
    (hk : k.hasOwnScope = true) : ((visit id).after c).symbols.scopes = c.symbols.scopes := by
  show ((visitUpTo (c.limit - c.depth) id).after c).symbols.scopes = _
  cases c.limit - c.depth with
  | zero => rfl
  | succ n =>
    have hrun : (node (visitUpTo n) id).after { c with depth := c.depth + 1 } =
        (kind (visitUpTo n) id k).after { c with depth := c.depth + 1 } :=
      after_congr (node_eq_kind hnode)
    rw [visitUpTo, after_deeper, hrun]
    rw [← Logged.plain_visitUpTo, ← Logged.run_kind]
    exact scopes_after_kind n id hk

end Check

/-- Checking a node, whether it comes to an end or fails, leaves the function around and the scopes
below the innermost one as they were, keeps all symbols, and only adds to the innermost scope. A
node with a scope of its own leaves all scopes as they were. So checking a parsed program keeps the
level and the number of symbols in open scopes. -/
theorem visit_balances :
    (∀ id c, Balances c ((Check.visit id).after c)) ∧
      (∀ id c k, c.store.kind? id = some k → k.hasOwnScope = true →
        ((Check.visit id).after c).symbols.scopes = c.symbols.scopes) ∧
      ∀ ts limit store root, parseTokens ts limit = .ok (store, root) →
        ∀ symbols diagnostics options,
          let c := (Check.visit root).after (.start store symbols diagnostics options)
          c.symbols.level? = symbols.level? ∧ c.symbols.liveCount = symbols.liveCount := by
  refine ⟨fun id c => ?_, fun id c k hnode hk => ?_, fun ts limit store root h => ?_⟩
  · exact balances_after (balance.governs_visit id c)
  · exact Check.scopes_after_visit hnode hk
  · intro symbols diagnostics options c
    obtain ⟨P, -, ⟨_, _, _, _, _, -, -, -, -, -, hroot⟩, -⟩ := parseTokens_layout h
    have hscopes : c.symbols.scopes = symbols.scopes :=
      Check.scopes_after_visit (c := .start store symbols diagnostics options) hroot rfl
    exact ⟨by rw [SymbolTable.level?, hscopes, SymbolTable.level?],
      by rw [SymbolTable.liveCount, SymbolTable.live, hscopes]; rfl⟩

/-- A program with a loop around a print statement. -/
def loopTokens : List Token :=
  tokensOf "p; begin for i := 1 to 2 do begin print i; end end do end end"

/-- A table with one open scope and a symbol in it. -/
def oneSymbol : SymbolTable :=
  SymbolTable.empty.pushScope.insert "x" .var (some .integer) "integer" "" 0

theorem visit_balances_loopTokens : ∃ store root k e c,
    parseTokens loopTokens 9 = .ok (store, root) ∧
      store.kind? root = some k ∧ k.hasOwnScope = true ∧
      Check.visit root (.start store oneSymbol .silent ⟨false, 4⟩) = .error e c ∧
      c.symbols.scopes = [[0]] ∧ c.symbols.level? = some 0 ∧ c.symbols.liveCount = 1 := by
  have hrun : ((parseTokens loopTokens 9).toOption.map fun tree =>
      ((tree.1.kind? tree.2).map NodeKind.hasOwnScope, (Check.ending
        (Check.visit tree.2 (.start tree.1 oneSymbol .silent ⟨false, 4⟩))).toOption)) =
      some (some true, none) := by
    rw [loopTokens, tokensOf_ofList]
    decide +kernel
  obtain ⟨store, root, h, hrun⟩ := exists_parse_of_map hrun
  obtain ⟨hkind, hfails⟩ := Prod.mk.inj hrun
  obtain ⟨k, hk, hown⟩ := Option.map_eq_some_iff.1 hkind
  obtain ⟨hlevel, hlive⟩ := visit_balances.2.2 _ _ _ _ h oneSymbol .silent ⟨false, 4⟩
  have hscopes := visit_balances.2.1 root (.start store oneSymbol .silent ⟨false, 4⟩) k hk hown
  cases hvisit : Check.visit root (.start store oneSymbol .silent ⟨false, 4⟩) with
  | ok n c =>
    rw [hvisit] at hfails
    cases hfails
  | error e c =>
    rw [Check.after_of_error hvisit] at hlevel hlive hscopes
    exact ⟨store, root, k, e, c, h, hk, hown, hvisit, hscopes, hlevel, hlive⟩

end PLang
