import PLang.Proofs.Checking.Declaration
import PLang.Proofs.Checking.Expression

/-!
# Checking statements is right

Checking a statement or a block finds no error exactly if it is well typed, and leaves the symbol
table as it was. The checks of the parts are assumed to be right.
-/

namespace PLang

open Syntax Typing

variable {b : Block} {e : Expr} {es : List Expr} {t : DataType} {value : Nat} {x : String}

/-- A way of checking nodes is right on the declarations, statements and expressions of a tree. -/
structure StatementVisits (s : Store) (visit : NodeId → Check Nat) : Prop extends
    ExprVisits s visit where
  declared : ∀ {Γ : Env} {lo root : Nat} {kind : SymbolKind} {names : Names} {t : DataType}
    {c : Checker} (role : Role), DeclaredAt s kind lo root names t → kind = role.kind →
    Alike s c.store → ScopesMatch c.symbols s c.symbols.scopes Γ → Γ.Guarded →
    Checks c (visit root)
      ((∃ Γ', Sequence (Declares (.object role t)) Γ names.toList Γ') ∧ Positive t) fun c' =>
      ∀ Γ', Sequence (Declares (.object role t)) Γ names.toList Γ' →
        Declared s lo (root + 1) c Γ' c'
  declaration : ∀ {Γ : Env} {lo root : Nat} {d : Declaration} {c : Checker},
    DeclarationAt s lo root d → Alike s c.store → ScopesMatch c.symbols s c.symbols.scopes Γ →
    Γ.Guarded → Checks c (visit root) (∃ Γ', DeclarationOk Γ d Γ') fun c' =>
      ∀ Γ', DeclarationOk Γ d Γ' → Declared s lo (root + 1) c Γ' c'
  statement : ∀ {Γ : Env} {ρ : Option ScalarType} {lo root : Nat} {st : Statement} {c : Checker},
    StatementAt s lo root st → Sees s Γ ρ lo (root + 1) c → Γ.Guarded →
    Checks c (visit root) (StatementOk Γ ρ st) (Restores lo (root + 1) c)
  block : ∀ {Γ : Env} {ρ : Option ScalarType} {lo root : Nat} {b : Block} {c : Checker},
    BlockAt s lo root b → Sees s Γ ρ lo (root + 1) c → Γ.Guarded →
    Checks c (visit root) (BlockOk Γ ρ b) (Restores lo (root + 1) c)

namespace Check

variable {s : Store} {visit : NodeId → Check Nat} {Γ : Env} {ρ : Option ScalarType} {c : Checker}
  {lo root : Nat}

/-! ### Statements with expressions only -/

theorem print_iff : StatementOk Γ ρ (.print e) ↔ ∃ t, HasType Γ e (.ofScalar t) ∧ t ≠ .void := by
  constructor
  · intro h
    cases h with
    | print ht hvoid => exact ⟨_, ht, hvoid⟩
  · rintro ⟨t, ht, hvoid⟩
    exact .print ht hvoid

theorem print_checks (hV : ExprVisits s visit) (h : ExprAt s lo value e)
    (hc : Sees s Γ ρ lo (value + 1) c) :
    Checks c (print visit value) (StatementOk Γ ρ (.print e)) (Restores lo (value + 1) c) := by
  rw [print_iff]
  refine ((hV.expression h hc).andThen fun c1 hG h1 => ?_).mono (and_iff_right_of_imp ?_)
    fun _ h => h
  · obtain ⟨t, ht⟩ := hG
    refine .look (a := t.scalar?) (by rw [inStore, view, h1.2.resultType? ht]) ?_
    have huse : ∀ a, HasType Γ e (.ofScalar a) → t.scalar? = some a :=
      fun a ha => DataType.scalar?_eq_some.2 (ht.unique ha)
    cases hscalar : t.scalar? with
    | none =>
      refine .reject ?_
      rintro ⟨a, ha, -⟩
      rw [huse a ha] at hscalar
      cases hscalar
    | some a =>
      obtain rfl := DataType.scalar?_eq_some.1 hscalar
      cases a with
      | void =>
        refine .reject ?_
        rintro ⟨a, ha, hvoid⟩
        exact hvoid (Option.some.inj (huse a ha)).symm
      | integer | real | boolean | string => exact .pass ⟨_, ht, by decide⟩ h1.1
  · rintro ⟨t, ht, -⟩
    exact ⟨_, ht⟩

/-! ### Assignments -/

/-- The variables that can be changed are those that nothing protects. -/
theorem protection?_eq_none {role : Role} : protection? x role.kind = none ↔ role.Mutable := by
  cases role <;> simp [protection?, Role.kind, Role.Mutable]

variable {target : ScalarType}

theorem assignable_checks (ht : HasType Γ e t)
    (htyped : Typed Γ e (c.store.kind? value)) :
    Checks c (assignable root value target) (∃ a, HasType Γ e (.ofScalar a) ∧ Coerces a target)
      (· = c) := by
  refine .look (a := t.scalar?) (by rw [inStore, view, htyped.resultType? ht]) ?_
  cases hscalar : t.scalar? with
  | none =>
    refine .reject ?_
    rintro ⟨a, ha, -⟩
    rw [ht.unique ha] at hscalar
    cases hscalar
  | some a =>
    obtain rfl := DataType.scalar?_eq_some.1 hscalar
    dsimp only
    by_cases hcoerces : Coerces a target
    · rw [if_pos (coercesTo_iff.2 hcoerces)]
      exact .pass ⟨a, ht, hcoerces⟩ rfl
    · rw [if_neg fun h => hcoerces (coercesTo_iff.1 h)]
      refine .reject ?_
      rintro ⟨b, hb, hb'⟩
      cases ht.unique hb
      exact hcoerces hb'

/-- A value that must coerce to a type, where a check of the type follows. -/
theorem coerced_checks (hV : ExprVisits s visit) {check : Check Nat}
    (h : ExprAt s lo value e) (hc : Sees s Γ ρ lo (value + 1) c)
    (hcheck : ∀ c1 t, HasType Γ e t → Typed Γ e (c1.store.kind? value) →
      Checks c1 check (∃ a, HasType Γ e (.ofScalar a) ∧ Coerces a target) (· = c1)) :
    Checks c (andThen (visit value) check) (∃ a, HasType Γ e (.ofScalar a) ∧ Coerces a target)
      (Restores lo (value + 1) c) := by
  refine ((hV.expression h hc).andThen fun c1 hG h1 => ?_).mono (and_iff_right_of_imp ?_)
    fun _ h => h
  · obtain ⟨t, ht⟩ := hG
    refine (hcheck c1 t ht h1.2).mono Iff.rfl ?_
    rintro _ rfl
    exact h1.1
  · rintro ⟨a, ha, -⟩
    exact ⟨_, ha⟩

theorem assign_iff :
    StatementOk Γ ρ (.assign x es e) ↔
      ∃ target, Assignable Γ x es target ∧ ∃ a, HasType Γ e (.ofScalar a) ∧ Coerces a target := by
  constructor
  · intro h
    cases h with
    | assign htarget ht hcoerces => exact ⟨_, htarget, _, ht, hcoerces⟩
  · rintro ⟨target, htarget, a, ht, hcoerces⟩
    exact .assign htarget ht hcoerces

theorem read_iff : StatementOk Γ ρ (.read x es) ↔ ∃ target, Assignable Γ x es target := by
  constructor
  · intro h
    cases h with
    | read htarget => exact ⟨_, htarget⟩
  · rintro ⟨target, htarget⟩
    exact .read htarget

/-- What is known of a variable that has a type. -/
theorem lookup_of_hasType (hscopes : ScopesMatch c.symbols s c.symbols.scopes Γ)
    (ht : HasType Γ (.reference x es) t) :
    ∃ (symbol : Symbol) (role : Role), c.symbols.lookup x = some symbol ∧ symbol.kind = role.kind ∧
      ∀ target, Assignable Γ x es target ↔ t = .ofScalar target ∧ role.Mutable := by
  have hunique : ∀ a, HasType Γ (.reference x es) (.ofScalar a) → t = .ofScalar a :=
    fun _ => ht.unique
  cases ht with
  | @reference _ _ role t hx hindices hle =>
    obtain ⟨symbol, hlookup, hdenotes, -⟩ := hscopes.lookup_some hx
    refine ⟨symbol, role, hlookup, hdenotes.1, fun target => ⟨?_, ?_⟩⟩
    · rintro ⟨hscalar, role', type, hx', hmutable⟩
      cases hx.symm.trans hx'
      exact ⟨hunique _ hscalar, hmutable⟩
    · rintro ⟨heq, hmutable⟩
      exact ⟨heq ▸ .reference hx hindices hle, role, t, hx, hmutable⟩

theorem assign_checks (hV : ExprVisits s visit) {target : Nat}
    (htarget : ReferenceAt s lo target (x, es)) (hvalue : ExprAt s (target + 1) value e)
    (hc : Sees s Γ ρ lo (value + 1) c) :
    Checks c (assign visit root target value) (StatementOk Γ ρ (.assign x es e))
      (Restores lo (value + 1) c) := by
  have hle1 : lo ≤ target := referenceAt_local.le htarget
  have hle2 : target + 1 ≤ value := exprAt_local.le hvalue
  rw [assign_iff]
  refine ((hV.reference htarget (hc.narrow .refl (by omega))).andThen
    fun c1 hG h1 => ?_).mono (and_iff_right_of_imp ?_) fun _ h => h
  · obtain ⟨t, ht⟩ := hG
    obtain ⟨hr1, hfound⟩ := h1
    obtain ⟨head, hk⟩ := hfound t ht
    have hc1 := hc.restores hr1 (by omega) .refl (.inl .refl)
    obtain ⟨symbol, role, hlookup, hkind, hassignable⟩ := lookup_of_hasType hc1.scopes ht
    simp only [hassignable]
    refine .look (a := some ⟨x, head, t.scalar?⟩) (by rw [inStore, view, Store.reference?, hk]) ?_
    dsimp only
    cases hscalar : t.scalar? with
    | none =>
      refine .reject ?_
      rintro ⟨a, ⟨rfl, -⟩, -⟩
      cases hscalar
    | some a =>
      obtain rfl := DataType.scalar?_eq_some.1 hscalar
      refine .look (a := c1.symbols.lookup x) rfl ?_
      rw [hlookup, Option.bind_some, hkind]
      cases hprotected : protection? x role.kind with
      | some cause =>
        refine .reject ?_
        rintro ⟨-, ⟨-, hmutable⟩, -⟩
        rw [protection?_eq_none.2 hmutable] at hprotected
        cases hprotected
      | none =>
        have hmutable := protection?_eq_none.1 hprotected
        refine (coerced_checks hV hvalue hc1 fun c2 t' ht' htyped =>
          assignable_checks ht' htyped).mono ?_ fun c2 hr2 => hr1.append hr2 (by omega) (by omega)
        constructor
        · exact fun h => ⟨a, ⟨rfl, hmutable⟩, h⟩
        · rintro ⟨a', ⟨heq, -⟩, h⟩
          cases heq
          exact h
  · rintro ⟨target, h, -⟩
    exact ⟨_, h.1⟩

theorem read_checks (hV : ExprVisits s visit) {target : Nat}
    (htarget : ReferenceAt s lo target (x, es)) (hc : Sees s Γ ρ lo (target + 1) c) :
    Checks c (read visit target) (StatementOk Γ ρ (.read x es)) (Restores lo (target + 1) c) := by
  rw [read_iff]
  refine ((hV.reference htarget hc).andThen fun c1 hG h1 => ?_).mono (and_iff_right_of_imp ?_)
    fun _ h => h
  · obtain ⟨t, ht⟩ := hG
    obtain ⟨hr1, hfound⟩ := h1
    obtain ⟨head, hk⟩ := hfound t ht
    obtain ⟨symbol, role, hlookup, hkind, hassignable⟩ :=
      lookup_of_hasType (hc.scopes_restores hr1) ht
    have hprotected : (symbol.kind == .constant || symbol.kind == .loopVar) = true ↔
        ¬role.Mutable := by
      rw [hkind]
      cases role <;> simp [Role.kind, Role.Mutable]
    simp only [hassignable]
    refine .look (a := some ⟨x, head, t.scalar?⟩) (by rw [inStore, view, Store.reference?, hk]) ?_
    dsimp only
    cases hscalar : t.scalar? with
    | none =>
      refine .reject ?_
      rintro ⟨a, rfl, -⟩
      cases hscalar
    | some a =>
      obtain rfl := DataType.scalar?_eq_some.1 hscalar
      rw [if_neg (by simp)]
      refine .look (a := c1.symbols.lookup x) rfl ?_
      rw [hlookup, Option.any_some]
      by_cases hmutable : role.Mutable
      · rw [if_neg fun h => hprotected.1 h hmutable]
        exact .pass ⟨a, rfl, hmutable⟩ hr1
      · rw [if_pos (hprotected.2 hmutable)]
        refine .reject ?_
        rintro ⟨_, _, h⟩
        exact hmutable h
  · rintro ⟨target, h⟩
    exact ⟨_, h.1⟩

/-! ### Returning -/

theorem returnable_checks {expected : ScalarType} (ht : HasType Γ e t)
    (htyped : Typed Γ e (c.store.kind? value)) :
    Checks c (returnable value expected) (∃ a, HasType Γ e (.ofScalar a) ∧ Coerces a expected)
      (· = c) := by
  refine .look (a := t.scalar?) (by rw [inStore, view, htyped.resultType? ht]) ?_
  have hany : t.scalar?.any (·.coercesTo expected) = true ↔
      ∃ a, HasType Γ e (.ofScalar a) ∧ Coerces a expected := by
    rw [Option.any_eq_true]
    constructor
    · rintro ⟨a, ha, hcoerces⟩
      exact ⟨a, DataType.scalar?_eq_some.1 ha ▸ ht, coercesTo_iff.1 hcoerces⟩
    · rintro ⟨a, ha, hcoerces⟩
      exact ⟨a, DataType.scalar?_eq_some.2 (ht.unique ha), coercesTo_iff.2 hcoerces⟩
  by_cases h : ∃ a, HasType Γ e (.ofScalar a) ∧ Coerces a expected
  · rw [if_pos (hany.2 h)]
    exact .pass h rfl
  · rw [if_neg fun h' => h (hany.1 h')]
    exact .look (a := c.typeName value) rfl (.reject h)

theorem returnValue_checks (hV : ExprVisits s visit) {value : Option NodeId} {e : Option Expr}
    (h : ListAt s (ExprAt s) lo root value e.toList) (hc : Sees s Γ ρ lo root c) :
    Checks c (returnValue visit root value) (StatementOk Γ ρ (.returnValue e))
      (Restores lo root c) := by
  have hview : c.function.bind c.store.function? = c.function.bind s.function? :=
    congrArg c.function.bind (funext hc.alike.function?_eq)
  refine .look (a := c.function.bind s.function?) (by rw [view, hview]) ?_
  have hresult := hc.result
  cases hfunction : c.function.bind s.function? with
  | none =>
    rw [hfunction] at hresult
    obtain rfl : none = ρ := hresult
    refine .reject ?_
    rintro ⟨⟩
  | some function =>
    rw [hfunction] at hresult
    obtain rfl : some function.result = ρ := hresult
    dsimp only
    cases e with
    | none =>
      cases h
      cases hvoid : function.result with
      | void => exact .pass .returnNothing (.refl ..)
      | integer | real | boolean | string =>
        refine .reject ?_
        rintro ⟨⟩
    | some e =>
      cases h with
      | @cons _ _ id _ _ _ hAt _ hnil =>
        cases hnil
        cases function.result with
        | void =>
          refine .reject fun hok => ?_
          cases hok with
          | returnValue hne _ _ => exact hne rfl
        | integer | real | boolean | string =>
          refine (coerced_checks hV hAt hc fun c1 t ht htyped =>
            returnable_checks ht htyped).mono ?_ fun _ h => h
          constructor
          · rintro ⟨a, ha, hcoerces⟩
            exact .returnValue (by decide) ha hcoerces
          · intro hok
            cases hok with
            | returnValue _ ha hcoerces => exact ⟨_, ha, hcoerces⟩

/-! ### Conditions and loops -/

theorem guard_checks (hV : ExprVisits s visit) (h : ExprAt s lo root e)
    (hc : Sees s Γ ρ lo (root + 1) c) :
    Checks c (guard visit root) (HasType Γ e (.ofScalar .boolean)) (Restores lo (root + 1) c) :=
  demand_checks hV h hc .boolean .nonBooleanGuard

theorem condition_iff {b' : Option Block} :
    StatementOk Γ ρ (.condition e b b') ↔
      HasType Γ e (.ofScalar .boolean) ∧ BlockOk Γ ρ b ∧ ∀ x ∈ b', BlockOk Γ ρ x := by
  constructor
  · intro h
    cases h with
    | condition hguard hthen helse => exact ⟨hguard, hthen, helse⟩
  · rintro ⟨hguard, hthen, helse⟩
    exact .condition hguard hthen helse

theorem whileLoop_iff :
    StatementOk Γ ρ (.whileLoop e b) ↔ HasType Γ e (.ofScalar .boolean) ∧ BlockOk Γ ρ b := by
  constructor
  · intro h
    cases h with
    | whileLoop hguard hbody => exact ⟨hguard, hbody⟩
  · rintro ⟨hguard, hbody⟩
    exact .whileLoop hguard hbody

theorem forLoop_iff {m n : Int} :
    StatementOk Γ ρ (.forLoop x m n b) ↔ m ≤ n ∧ ∃ Γ',
      Declares (.object .loopVariable (.ofScalar .integer)) ([] :: Γ) x Γ' ∧ BlockOk Γ' ρ b := by
  constructor
  · intro h
    cases h with
    | forLoop hbounds hdeclares hbody => exact ⟨hbounds, _, hdeclares, hbody⟩
  · rintro ⟨hbounds, Γ', hdeclares, hbody⟩
    exact .forLoop hbounds hdeclares hbody

theorem condition_checks (hV : StatementVisits s visit) (hguarded : Γ.Guarded)
    {guardNode thenBody : Nat} {elseBody : Option NodeId} {b' : Option Block}
    (hguard : ExprAt s lo guardNode e) (hthen : BlockAt s (guardNode + 1) thenBody b)
    (helse : ListAt s (BlockAt s) (thenBody + 1) root elseBody b'.toList)
    (hc : Sees s Γ ρ lo root c) :
    Checks c (condition visit ⟨guardNode, thenBody, elseBody⟩) (StatementOk Γ ρ (.condition e b b'))
      (Restores lo root c) := by
  have hle1 : lo ≤ guardNode := exprAt_local.le hguard
  have hle2 : guardNode + 1 ≤ thenBody := blockAt_local.le hthen
  have hle3 : thenBody + 1 ≤ root := helse.le blockAt_local.le_of_mem
  rw [condition_iff]
  have hguard' := guard_checks hV.toExprVisits hguard (hc.narrow .refl (by omega))
  have hthen' : ∀ c1, Restores lo (guardNode + 1) c c1 →
      Checks c1 (visit thenBody) (BlockOk Γ ρ b) (Restores lo (thenBody + 1) c) := by
    intro c1 hr1
    have hc1 := hc.restores hr1 (by omega : lo ≤ guardNode + 1) (by omega : thenBody + 1 ≤ root)
      (.inl .refl)
    exact (hV.block hthen hc1 hguarded).mono Iff.rfl fun c2 hr2 =>
      hr1.append hr2 (by omega) (by omega)
  have helse' : ∀ c2, Restores lo (thenBody + 1) c c2 →
      Checks c2 (optional visit elseBody) (∀ x ∈ b', BlockOk Γ ρ x) (Restores lo root c) := by
    intro c2 hr2
    cases b' with
    | none =>
      cases helse
      exact .pass (fun _ h => absurd h (Option.not_mem_none _)) hr2
    | some b' =>
      cases helse with
      | @cons _ _ id _ _ _ hAt _ hnil =>
        cases hnil
        have hc2 := hc.restores hr2 (by omega : lo ≤ thenBody + 1) .refl
          (.inl .refl)
        refine (hV.block hAt hc2 hguarded).mono ?_ fun c3 hr3 => hr2.append hr3 (by omega) hle3
        simp
  exact hguard'.add₃ (fun c1 _ => hthen' c1) fun c2 _ _ => helse' c2

theorem whileLoop_checks (hV : StatementVisits s visit) (hguarded : Γ.Guarded)
    {guardNode body : Nat} (hguard : ExprAt s lo guardNode e)
    (hbody : BlockAt s (guardNode + 1) body b) (hc : Sees s Γ ρ lo (body + 1) c) :
    Checks c (whileLoop visit guardNode body) (StatementOk Γ ρ (.whileLoop e b))
      (Restores lo (body + 1) c) := by
  have hle1 : lo ≤ guardNode := exprAt_local.le hguard
  have hle2 : guardNode + 1 ≤ body := blockAt_local.le hbody
  rw [whileLoop_iff]
  refine .add (guard_checks hV.toExprVisits hguard (hc.narrow .refl (by omega)))
    fun c1 _ hr1 => ?_
  have hc1 := hc.restores hr1 (by omega : lo ≤ guardNode + 1) .refl (.inl .refl)
  exact (hV.block hbody hc1 hguarded).mono Iff.rfl fun c2 hr2 =>
    hr1.append hr2 (by omega) (by omega)

theorem forLoop_eq (visit : NodeId → Check Nat) (id : NodeId) (f : ForNode) :
    forLoop visit id f = inScope (do
      let bounds ← (if f.upper < f.lower then report .decreasingBounds id else pure 0)
      let declaration ← visit f.declaration
      let body ← visit f.body
      pure (bounds + declaration + body)) := by
  unfold forLoop
  split <;> rfl

/-- A counting loop. The header stands after the body, but is checked before it. -/
theorem forLoop_checks (hV : StatementVisits s visit) (hguarded : Γ.Guarded) {body : Nat}
    {m n : Int} {f : ForNode} (hbody : BlockAt s lo body b)
    (hheader : LoopHeaderAt s (body + 1) x m n)
    (hf : f.lower = m ∧ f.upper = n ∧ f.declaration = body + 7 ∧ f.body = body)
    (hc : Sees s Γ ρ lo (body + 8) c) :
    Checks c (forLoop visit root f) (StatementOk Γ ρ (.forLoop x m n b))
      (Restores lo (body + 8) c) := by
  have hle : lo ≤ body := blockAt_local.le hbody
  obtain ⟨rfl, rfl, hdeclaration, rfl⟩ := hf
  have hpush := hc.pushScope
  have hbounds : Checks c.pushScope
      (if f.upper < f.lower then report .decreasingBounds root else pure 0) (f.lower ≤ f.upper)
      (· = c.pushScope) := by
    by_cases hlt : f.upper < f.lower
    · rw [if_pos hlt]
      exact .reject (by omega)
    · rw [if_neg hlt]
      exact .pass (by omega) rfl
  have hvariable : ∀ c1, c1 = c.pushScope → Checks c1 (visit f.declaration)
      (∃ Γ', Declares (.object .loopVariable (.ofScalar .integer)) ([] :: Γ) x Γ') fun c' =>
      ∀ Γ', Declares (.object .loopVariable (.ofScalar .integer)) ([] :: Γ) x Γ' →
        Declared s (f.body + 5) (f.body + 8) c.pushScope Γ' c' := by
    rintro _ rfl
    have hpositive : Positive (.ofScalar .integer) := fun _ h => absurd h List.not_mem_nil
    rw [hdeclaration]
    refine (hV.declared .loopVariable hheader.declaration rfl hpush.alike hpush.scopes
      hguarded.push).mono ((and_iff_left hpositive).trans ?_) ?_
    · exact exists_congr fun _ => sequence_singleton
    · exact fun c' h Γ' hΓ' => h Γ' (sequence_singleton.2 hΓ')
  rw [forLoop_iff, forLoop_eq]
  refine .scoped ?_
  have hinside : ∀ c2 Γ', Declared s (f.body + 5) (f.body + 8) c.pushScope Γ' c2 →
      Checks c2 (visit f.body) (BlockOk Γ' ρ b) (Restores lo (f.body + 1) c2) := fun c2 Γ' h2 =>
    hV.block hbody (hpush.frame h2.frame h2.scopes .refl (by omega) (.inr (by omega)))
      h2.guarded
  refine (hbounds.add₃ (fun c1 _ => hvariable c1) fun c2 _ hG h2 => Declared.checks hG h2
    (fun Γ' hΓ' => hinside c2 Γ' (h2 Γ' hΓ')) ⟨by omega, .refl⟩
    ⟨.refl, by omega⟩).mono ?_ fun _ h => h
  constructor
  · exact fun h => ⟨h.1, h.2.2⟩
  · rintro ⟨hle, Γ', hΓ', hok⟩
    exact ⟨hle, ⟨Γ', hΓ'⟩, Γ', hΓ', hok⟩

/-! ### Blocks -/

variable {ds : List Declaration} {head : Option NodeId}

/-- A list of declarations. -/
theorem declarations_checks (hV : StatementVisits s visit) {hi : Nat}
    (h : ListAt s (DeclarationAt s) lo hi head ds) (hhi : hi ≤ s.size)
    (halike : Alike s c.store) (hscopes : ScopesMatch c.symbols s c.symbols.scopes Γ)
    (hguarded : Γ.Guarded) :
    Checks c (list visit .reportAll head) (∃ Γ', Sequence DeclarationOk Γ ds Γ') fun c' =>
      ∀ Γ', Sequence DeclarationOk Γ ds Γ' → Declared s lo hi c Γ' c' :=
  sequence_checks hscopes hguarded halike h declarationAt_local.le hhi hV.declaration

variable {ss : List Statement}

/-- A list of statements. -/
theorem statements_checks (hV : StatementVisits s visit) (hguarded : Γ.Guarded) {hi : Nat}
    (h : ListAt s (StatementAt s) lo hi head ss)
    (hhi : hi ≤ s.size) (hc : Sees s Γ ρ lo hi c) :
    Checks c (list visit .reportAll head) (∀ st ∈ ss, StatementOk Γ ρ st) (Restores lo hi c) := by
  refine .list (k := hi - lo) (by rw [hc.alike.size]; omega) fun n hn => ?_
  exact (h.checksEach statementAt_local.le_of_mem (F := fun _ _ => True)
    (fun _ _ _ _ _ hAt hSees => (hV.statement hAt hSees hguarded).mono Iff.rfl
      fun _ h => ⟨h, trivial⟩) hc .refl hn).mono Iff.rfl fun _ h => h.1

theorem block_iff :
    BlockOk Γ ρ (.mk ds ss) ↔
      ∃ Γ', Sequence DeclarationOk ([] :: Γ) ds Γ' ∧ ∀ st ∈ ss, StatementOk Γ' ρ st := by
  constructor
  · intro h
    cases h with
    | mk hds hss => exact ⟨_, hds, hss⟩
  · rintro ⟨Γ', hds, hss⟩
    exact .mk hds hss

theorem block_checks (hV : StatementVisits s visit) (hguarded : Γ.Guarded) (h : BlockAt s lo root b)
    (hc : Sees s Γ ρ lo (root + 1) c) :
    Checks c (node visit root) (BlockOk Γ ρ b) (Restores lo (root + 1) c) := by
  have hle : lo ≤ root := blockAt_local.le h
  cases h with
  | @mk _ mid _ _ _ ds ss hds hss hk =>
    have hsize := Store.lt_size_of_kind? hk
    have hle1 : lo ≤ mid := hds.le declarationAt_local.le_of_mem
    have hle2 : mid ≤ root := hss.le statementAt_local.le_of_mem
    have hpush := hc.pushScope
    refine node_checks (hc.kind hk hle (Nat.lt_succ_self _)) ?_
    rw [block_iff]
    refine .scoped ?_
    have hdeclarations := declarations_checks hV hds (by omega) hpush.alike
      hpush.scopes hguarded.push
    refine (hdeclarations.add fun c1 hG h1 => Declared.checks hG h1 (fun Γ' hΓ' =>
      statements_checks hV (h1 Γ' hΓ').guarded hss (Nat.le_of_lt hsize) (hpush.frame
        (h1 Γ' hΓ').frame (h1 Γ' hΓ').scopes hle1 (Nat.le_succ _) (.inl .refl)))
      ⟨.refl, by omega⟩ ⟨hle1, Nat.le_succ _⟩).mono (and_iff_right_of_imp ?_) fun _ h => h
    rintro ⟨Γ', hΓ', -⟩
    exact ⟨Γ', hΓ'⟩

/-- Statements, if their parts are right. -/
theorem statement_checks (hV : StatementVisits s visit) (hguarded : Γ.Guarded) {st : Statement}
    (h : StatementAt s lo root st) (hc : Sees s Γ ρ lo (root + 1) c) :
    Checks c (node visit root) (StatementOk Γ ρ st) (Restores lo (root + 1) c) := by
  have hlo : lo ≤ root := statementAt_local.le h
  have hparts : Sees s Γ ρ lo root c := hc.narrow .refl (Nat.le_succ _)
  have hroot : ∀ {k : NodeKind} {G : Prop}, s.kind? root = some k →
      Checks c (kind visit root k) G (Restores lo root c) →
      Checks c (node visit root) G (Restores lo (root + 1) c) := fun hk hx =>
    node_checks (hc.kind hk hlo (Nat.lt_succ_self _))
      (hx.mono Iff.rfl fun _ hr => hr.mono .refl (Nat.le_succ _))
  cases h with
  | block hb =>
    refine (block_checks hV hguarded hb hc).mono ⟨.block, fun hok => ?_⟩ fun _ h => h
    cases hok with
    | block hok => exact hok
  | assign htarget _ hvalue _ hk =>
    exact hroot hk (assign_checks hV.toExprVisits htarget hvalue hparts)
  | print hvalue _ hk => exact hroot hk (print_checks hV.toExprVisits hvalue hparts)
  | read htarget _ hk => exact hroot hk (read_checks hV.toExprVisits htarget hparts)
  | condition hguard _ hthen _ helse hk =>
    exact hroot hk (condition_checks hV hguarded hguard hthen helse hparts)
  | whileLoop hguard _ hbody _ hk =>
    exact hroot hk (whileLoop_checks hV hguarded hguard hbody hparts)
  | forLoop hbody _ hheader hk =>
    exact hroot hk (forLoop_checks hV hguarded hbody hheader ⟨rfl, rfl, rfl, rfl⟩ hparts)
  | returnValue hvalue hk => exact hroot hk (returnValue_checks hV.toExprVisits hvalue hparts)
  | call hcall =>
    refine (call_checks hV.toExprVisits hcall hc).mono ?_ fun _ h => h.1
    constructor
    · rintro ⟨t, ht⟩
      exact .call ht
    · intro hok
      cases hok with
      | call ht => exact ⟨_, ht⟩

end Check

/-- One level of nesting more is right, if the levels below are. -/
theorem StatementVisits.deeper {s : Store} {visit : NodeId → Check Nat}
    (hV : StatementVisits s visit) :
    StatementVisits s fun id => Check.deeper (Check.node visit id) where
  toExprVisits := hV.toExprVisits.deeper
  declared role h hkind halike hscopes hguarded :=
    .deeper (Check.declared_checks (by exact hscopes) hguarded (by exact halike) role h hkind)
      fun _ h Γ' hΓ' => (h Γ' hΓ').depth
  declaration h halike hscopes hguarded :=
    .deeper (Check.declarationAt_checks (by exact hscopes) hguarded (by exact halike) h)
      fun _ h Γ' hΓ' => (h Γ' hΓ').depth
  statement h hc hguarded :=
    .deeper (Check.statement_checks hV hguarded h hc.depth) fun _ h => h.depth
  block h hc hguarded := .deeper (Check.block_checks hV hguarded h hc.depth) fun _ h => h.depth

end PLang
