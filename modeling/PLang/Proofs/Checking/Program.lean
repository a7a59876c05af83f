import PLang.Proofs.Checking.Statement
import PLang.Proofs.Lexemes
import PLang.Proofs.Parsing.Program

/-!
# Checking programs is right

Checking a program finds no error exactly if the program is well typed.
-/

namespace PLang

open Syntax Typing

variable {P : Program} {f : Function} {hi mid : Nat}

namespace Typing

/-- There is no loop around. -/
def Env.Loopless (Γ : Env) : Prop := ∀ x, ¬Γ.LoopVariable x

variable {Γ Γ' : Env}

theorem Env.Loopless.guarded (h : Γ.Loopless) : Γ.Guarded := fun x hx => absurd hx (h x)

theorem Env.Loopless.declare {x : String} {m : Meaning} (h : Γ.Loopless)
    (hm : ∀ t, m ≠ .object .loopVariable t) : (Γ.declare x m).Loopless := by
  intro y hy
  rcases loopVariable_declare hy with ⟨-, -, t, hm'⟩ | hy
  · exact hm t hm'
  · exact h y hy

theorem Sequence.loopless {α : Type} {R : Env → α → Env → Prop} {as : List α}
    (h : Sequence R Γ as Γ') (hR : ∀ Γ a Γ', R Γ a Γ' → Γ.Loopless → Γ'.Loopless)
    (hΓ : Γ.Loopless) : Γ'.Loopless := by
  induction h with
  | nil => exact hΓ
  | cons ha _ ih => exact ih (hR _ _ _ ha hΓ)

theorem DeclarationOk.loopless {d : Declaration} (h : DeclarationOk Γ d Γ') (hΓ : Γ.Loopless) :
    Γ'.Loopless := by
  have hdeclares : ∀ {m : Meaning}, (∀ t, m ≠ .object .loopVariable t) →
      ∀ Γ x Γ', Declares m Γ x Γ' → Γ.Loopless → Γ'.Loopless := by
    rintro m hm Γ x _ ⟨-, rfl⟩ hΓ
    exact hΓ.declare hm
  cases h with
  | vars _ hseq => exact hseq.loopless (hdeclares fun _ h => nomatch h) hΓ
  | constants hseq => exact hseq.loopless (hdeclares fun _ h => nomatch h) hΓ

theorem FunctionOk.loopless (h : FunctionOk Γ f Γ') (hΓ : Γ.Loopless) : Γ'.Loopless := by
  obtain ⟨-, rfl, -⟩ := h
  exact hΓ.declare fun _ h => nomatch h

end Typing

/-- A way of checking nodes is right on all of a tree but its root. -/
structure ProgramVisits (s : Store) (visit : NodeId → Check Nat) : Prop extends
    StatementVisits s visit where
  function : ∀ {Γ : Env} {ρ : Option ScalarType} {lo root : Nat} {f : Function} {c : Checker},
    FunctionAt s lo root f → Sees s Γ ρ lo (root + 1) c → Γ.Loopless →
    Checks c (visit root) (∃ Γ', FunctionOk Γ f Γ') fun c' =>
      ∀ Γ', FunctionOk Γ f Γ' → Declared s lo (root + 1) c Γ' c'

namespace Check

variable {s : Store} {visit : NodeId → Check Nat} {Γ : Env} {ρ : Option ScalarType} {c : Checker}
  {lo root : Nat}

/-! ### Functions -/

/-- A copy of a type holds the type. -/
theorem CopyAt.typeNodeOf {start : Nat} {t : DataType} (h : CopyAt s start lo root t) :
    TypeNodeOf s root t := by
  obtain ⟨-, first, mid, type, -, -, ⟨head, hds, hk⟩, -, hcopy⟩ := h
  refine ⟨⟨t.scalar, head, t.text⟩, ?_, rfl, rfl, ?_⟩
  · rw [Store.type?, hcopy, hk]
  · constructor
    · rintro rfl
      exact hds.of_none.1
    · intro hnil
      rw [hnil] at hds
      cases hds
      rfl

/-- The symbol of a function tells its type. -/
theorem denotes_function (h : FunctionAt s lo root f) {level : Nat} {typeText detail : String} :
    Denotes s ⟨level, f.name, .function, some f.result, typeText, detail, root⟩
      (.function (parameterTypes f.parameters) f.result) := by
  obtain ⟨mid, last, type, parameters, body, types, -, -, -, -, htypes, hk⟩ := h
  refine ⟨rfl, rfl, _, by rw [Store.function?, hk], ?_⟩
  have hsize := Store.lt_size_of_kind? hk
  refine (htypes.siblings_forall₂ (fun _ _ _ _ h => Nat.le_of_eq h.1.symm)
    (Nat.le_of_lt hsize)).imp ?_
  rintro id t ⟨lo', -, -, hcopy⟩
  exact CopyAt.typeNodeOf hcopy

/-- A name is found at the innermost level exactly if it is declared in the innermost scope. -/
theorem declaredHere_iff {x : String} (hscopes : ScopesMatch c.symbols s c.symbols.scopes Γ) :
    ((c.symbols.lookup x).any fun symbol => some symbol.level == c.symbols.level?) = true ↔
      x ∈ Γ.here := by
  cases hx : Γ.lookup x with
  | none =>
    rw [hscopes.lookup_none hx]
    exact iff_of_false Bool.false_ne_true fun h => lookup_ne_none_of_here h hx
  | some m =>
    obtain ⟨symbol, hlookup, -, hlevel⟩ := hscopes.lookup_some hx
    rw [hlookup, Option.any_some, beq_iff_eq, hlevel]

theorem declareFunction_checks {node : FunctionNode} (h : FunctionAt s lo root f)
    (hname : node.name = f.name) (hresult : node.result = f.result) {a b : Nat}
    (hscopes : ScopesMatch c.symbols s c.symbols.scopes Γ) (hΓ : Γ.Loopless) :
    Checks c (declareFunction root node) (f.name ∉ Γ.here) (Declared s a b c
      (Γ.declare f.name (.function (parameterTypes f.parameters) f.result))) := by
  refine .look rfl ?_
  rw [hname, hresult]
  by_cases hhere : f.name ∈ Γ.here
  · rw [if_pos ((declaredHere_iff hscopes).2 hhere)]
    exact .reject (not_not.2 hhere)
  · rw [if_neg fun h => hhere ((declaredHere_iff hscopes).1 h)]
    refine .declare (.pass hhere ?_)
    exact declared_insert hscopes hΓ.guarded (hΓ _) fun _ => denotes_function h

/-- Declarations of parameters. -/
theorem parameters_checks (hV : StatementVisits s visit) {head : Option NodeId}
    {ps : List Parameter} (h : ListAt s (ParameterAt s) lo hi head ps) (hhi : hi ≤ s.size)
    (halike : Alike s c.store) (hscopes : ScopesMatch c.symbols s c.symbols.scopes Γ)
    (hguarded : Γ.Guarded) :
    Checks c (list visit .reportAll head) (∃ Γ', Sequence ParameterOk Γ ps Γ') fun c' =>
      ∀ Γ', Sequence ParameterOk Γ ps Γ' → Declared s lo hi c Γ' c' := by
  refine sequence_checks hscopes hguarded halike h parameterAt_local.le hhi
    fun hAt halike hscopes hguarded => ?_
  refine (hV.declared .parameter hAt rfl halike hscopes hguarded).mono ?_
    fun c2 h2 Γ2 hΓ2 => h2 Γ2 hΓ2.2
  constructor
  · rintro ⟨⟨Γ', hseq⟩, hpositive⟩
    exact ⟨Γ', hpositive, hseq⟩
  · rintro ⟨Γ', hpositive, hseq⟩
    exact ⟨⟨Γ', hseq⟩, hpositive⟩

theorem bodyBlock_checks (hV : StatementVisits s visit) (hguarded : Γ.Guarded) {body : Nat}
    {b : Block} (h : ListAt s (BlockAt s) lo hi (some body) [b]) (hhi : hi ≤ s.size)
    (hc : Sees s Γ ρ lo hi c) :
    Checks c (list visit .reportAll (some body)) (BlockOk Γ ρ b) (Restores lo hi c) := by
  refine .list (k := hi - lo) (by rw [hc.alike.size]; omega) fun n hn => ?_
  exact (h.checksEach blockAt_local.le_of_mem (F := fun _ _ => True)
    (fun _ _ _ _ _ hAt hSees => (hV.block hAt hSees hguarded).mono Iff.rfl
      fun _ h => ⟨h, trivial⟩) hc .refl hn).mono List.forall_mem_singleton fun _ h => h.1

/-- The body of a function, after its parameters. -/
theorem body_checks (hV : StatementVisits s visit) {lo' body : Nat} {parameters : Option NodeId}
    {b : Block} (hps : ListAt s (ParameterAt s) lo mid parameters f.parameters)
    (hbody : ListAt s (BlockAt s) lo' hi (some body) [b]) (hmid : mid ≤ lo') (hhi : hi ≤ s.size)
    (hc : Sees s Γ (some f.result) lo hi c) (hΓ : Γ.Loopless) :
    Checks c (inScope do
        let parameters ← list visit .reportAll parameters
        let statements ← list visit .reportAll (some body)
        pure (parameters + statements))
      (BodyOk Γ f b) (Restores lo hi c) := by
  have hle1 : lo ≤ mid := hps.le parameterAt_local.le_of_mem
  have hle2 : lo' ≤ hi := hbody.le blockAt_local.le_of_mem
  have hpush := hc.pushScope
  have hparameters := parameters_checks hV hps (by omega) hpush.alike hpush.scopes hΓ.guarded.push
  have hinside : ∀ c1 Γ', Declared s lo mid c.pushScope Γ' c1 →
      Checks c1 (list visit .reportAll (some body)) (BlockOk Γ' (some f.result) b)
        (Restores lo' hi c1) := fun c1 Γ' h1 =>
    bodyBlock_checks hV h1.guarded hbody hhi (hpush.frame h1.frame h1.scopes (by omega)
      .refl (.inl hmid))
  refine .scoped ?_
  refine (hparameters.add fun c1 hG h1 => Declared.checks hG h1
    (fun Γ' hΓ' => hinside c1 Γ' (h1 Γ' hΓ')) ⟨.refl, by omega⟩
    ⟨by omega, .refl⟩).mono (and_iff_right_of_imp ?_) fun _ h => h
  rintro ⟨Γ', hΓ', -⟩
  exact ⟨Γ', hΓ'⟩

/-- Where the body of a function stands, if it has one. -/
theorem RestAt.body {lo type : Nat} {body : Option NodeId} {result : ScalarType} {b : Option Block}
    (h : RestAt s lo hi type body result b) :
    ∃ lo' hi', lo ≤ lo' ∧ hi' ≤ hi ∧ ListAt s (BlockAt s) lo' hi' body b.toList := by
  cases h with
  | typed _ hb => exact ⟨lo + 1, hi, Nat.le_succ _, .refl, hb⟩
  | untyped hb => exact ⟨lo, _, .refl, Nat.le_succ _, hb⟩

theorem functionOk_iff {Γ' : Env} :
    FunctionOk Γ f Γ' ↔ (f.name ∉ Γ.here ∧ ∀ b ∈ f.body,
        BodyOk (Γ.declare f.name (.function (parameterTypes f.parameters) f.result)) f b) ∧
      Γ' = Γ.declare f.name (.function (parameterTypes f.parameters) f.result) := by
  constructor
  · rintro ⟨hname, rfl, hbody⟩
    exact ⟨⟨hname, hbody⟩, rfl⟩
  · rintro ⟨⟨hname, hbody⟩, rfl⟩
    exact ⟨hname, rfl, hbody⟩

theorem function_eq_of_none {node : FunctionNode} (h : node.body = none) :
    function visit root node = declareFunction root node := by
  unfold function
  rw [h]
  exact bind_pure _

/-- What a function declares, and its body. -/
theorem functionNode_checks (hV : StatementVisits s visit) {node : FunctionNode} {lo' hi' : Nat}
    {Γ1 : Env} (hk : s.kind? root = some (.function node)) (hresult : node.result = f.result)
    (hheader : Checks c (declareFunction root node) (f.name ∉ Γ.here)
      (Declared s root (root + 1) c Γ1))
    (hps : ListAt s (ParameterAt s) lo mid node.parameters f.parameters)
    (hbody : ListAt s (BlockAt s) lo' hi' node.body f.body.toList) (hmid : mid ≤ lo')
    (hhi : hi' ≤ root) (hc : Sees s Γ ρ lo (root + 1) c) (hΓ1 : Γ1.Loopless) :
    Checks c (function visit root node) (f.name ∉ Γ.here ∧ ∀ b ∈ f.body, BodyOk Γ1 f b)
      (Declared s lo (root + 1) c Γ1) := by
  have hle1 : lo ≤ mid := hps.le parameterAt_local.le_of_mem
  have hle2 : lo' ≤ hi' := hbody.le blockAt_local.le_of_mem
  have hsize := Store.lt_size_of_kind? hk
  cases hb : f.body with
  | none =>
    rw [hb] at hbody
    generalize hnone : node.body = body at hbody
    cases hbody
    rw [function_eq_of_none hnone]
    exact hheader.mono (and_iff_left fun _ h => nomatch h).symm fun c1 h1 =>
      h1.mono (by omega) .refl
  | some b =>
    rw [hb] at hbody
    generalize hsome : node.body = body at hbody
    cases body with
    | none => cases hbody
    | some id =>
      unfold function
      rw [hsome]
      refine hheader.add fun c1 _ h1 => ?_
      have hc1 := hc.frame h1.frame h1.scopes .refl (by omega : hi' ≤ root + 1)
        (.inr hhi)
      have hfunction : ((some root).bind s.function?).map FunctionNode.result = some f.result := by
        rw [Option.bind_some, Store.function?, hk, ← hresult]
        rfl
      have hinside := body_checks hV hps hbody hmid (by omega)
        (c := { c1 with function := some root }) ⟨hc1.alike, hc1.fresh, hc1.scopes, hfunction⟩ hΓ1
      refine .within (hinside.mono (by simp) fun _ h => h) fun c2 hr2 => ?_
      have hr : Restores lo (root + 1) c1 { c2 with function := c1.function } :=
        ⟨⟨hr2.touches.mono .refl (by omega), rfl, hr2.grows, hr2.outer⟩, hr2.scopes⟩
      exact (h1.mono (by omega) .refl).restores hr

/-- Functions, if their parts are right. -/
theorem function_checks (hV : StatementVisits s visit) (h : FunctionAt s lo root f)
    (hc : Sees s Γ ρ lo (root + 1) c) (hΓ : Γ.Loopless) :
    Checks c (node visit root) (∃ Γ', FunctionOk Γ f Γ') fun c' =>
      ∀ Γ', FunctionOk Γ f Γ' → Declared s lo (root + 1) c Γ' c' := by
  have hlo : lo ≤ root := functionAt_local.le h
  have hdeclare : ∀ {node : FunctionNode}, node.name = f.name → node.result = f.result →
      Checks c (declareFunction root node) (f.name ∉ Γ.here) (Declared s root (root + 1) c
        (Γ.declare f.name (.function (parameterTypes f.parameters) f.result))) :=
    fun hname hresult => declareFunction_checks h hname hresult hc.scopes hΓ
  obtain ⟨mid, last, type, parameters, body, types, hps, hrest, -, -, htypes, hk⟩ := h
  have hle : last ≤ root := htypes.le fun _ _ _ _ h => Nat.le_of_eq h.1.symm
  obtain ⟨lo', hi', hmid, hlast, hbody⟩ := RestAt.body hrest
  refine node_checks (hc.kind hk hlo (Nat.lt_succ_self _))
    ((functionNode_checks hV hk rfl (hdeclare rfl rfl) hps hbody hmid (by omega) hc
      (hΓ.declare fun _ h => nomatch h)).mono ?_ ?_)
  · simp only [functionOk_iff, exists_and_left, exists_eq, and_true]
  · intro c1 h1 Γ' hΓ'
    rw [(functionOk_iff.1 hΓ').2]
    exact h1

/-! ### Programs -/

/-- A list of functions. -/
theorem functions_checks (hV : ProgramVisits s visit) {head : Option NodeId} {fs : List Function}
    (h : ListAt s (FunctionAt s) lo hi head fs) (hhi : hi ≤ s.size) (hc : Sees s Γ ρ lo hi c)
    (hΓ : Γ.Loopless) :
    Checks c (list visit .reportAll head) (∃ Γ', Sequence FunctionOk Γ fs Γ') fun c' =>
      ∀ Γ', Sequence FunctionOk Γ fs Γ' → Declared s lo hi c Γ' c' := by
  refine .list (k := hi - lo) (by rw [hc.alike.size]; omega) fun n hn => ?_
  refine (h.checks functionAt_local.le_of_mem
    (I := fun pos Γ' c' => Declared s lo pos c Γ' c' ∧ Γ'.Loopless) ?_ ?_
    ⟨⟨.refl .., hc.scopes, hΓ.guarded⟩, hΓ⟩ hn).mono Iff.rfl fun _ h Γ' hΓ' => (h Γ' hΓ').1
  · exact fun pos Γ' c' h id => (h.1.frame.touches.alike.next id).trans (hc.alike.next id)
  · intro f _ lo' root Γ1 c1 hlo hroot hAt h1
    have hle : lo' ≤ root := functionAt_local.le hAt
    have hc1 := hc.frame h1.1.frame h1.1.scopes hlo (by omega : root + 1 ≤ hi)
      (.inl .refl)
    refine (hV.function hAt hc1 h1.2).mono Iff.rfl fun c2 h2 Γ2 hΓ2 => ⟨?_, hΓ2.loopless h1.2⟩
    exact h1.1.append (h2 Γ2 hΓ2) hlo (by omega)

/-- The parts of a program, one after another. -/
theorem parts_checks (hV : ProgramVisits s visit) {last body : Nat}
    {declarations functions : Option NodeId}
    (hds : ListAt s (DeclarationAt s) lo mid declarations P.declarations)
    (hfs : ListAt s (FunctionAt s) mid last functions P.functions)
    (hbody : BlockAt s last body P.body) (hsize : body < s.size) (hc : Sees s Γ ρ lo (body + 1) c)
    (hΓ : Γ.Loopless) :
    Checks c (do
        let declarations ← list visit .reportAll declarations
        let functions ← list visit .reportAll functions
        let body ← visit body
        pure (declarations + functions + body))
      (∃ Γ1, Sequence DeclarationOk Γ P.declarations Γ1 ∧
        ∃ Γ2, Sequence FunctionOk Γ1 P.functions Γ2 ∧ BlockOk Γ2 ρ P.body) fun _ => True := by
  have hle1 : lo ≤ mid := hds.le declarationAt_local.le_of_mem
  have hle2 : mid ≤ last := hfs.le functionAt_local.le_of_mem
  have hle3 : last ≤ body := blockAt_local.le hbody
  have hfirst := declarations_checks hV.toStatementVisits hds (by omega) hc.alike
    hc.scopes hΓ.guarded
  have hsecond : ∀ c1 Γ1, Sequence DeclarationOk Γ P.declarations Γ1 → Declared s lo mid c Γ1 c1 →
      Checks c1 (list visit .reportAll functions) (∃ Γ2, Sequence FunctionOk Γ1 P.functions Γ2)
        fun c2 => ∀ Γ2, Sequence FunctionOk Γ1 P.functions Γ2 → Declared s lo last c Γ2 c2 := by
    intro c1 Γ1 hΓ1 h1
    have hloopless := hΓ1.loopless (fun _ _ _ => DeclarationOk.loopless) hΓ
    refine (functions_checks hV hfs (by omega) (hc.frame h1.frame h1.scopes hle1 (by omega)
      (.inl .refl)) hloopless).mono Iff.rfl fun c2 h2 Γ2 hΓ2 => ?_
    exact h1.append (h2 Γ2 hΓ2) hle1 hle2
  have hthird : ∀ c2 Γ2, Declared s lo last c Γ2 c2 →
      Checks c2 (visit body) (BlockOk Γ2 ρ P.body) fun _ => True := fun c2 Γ2 h2 =>
    (hV.block hbody (hc.frame h2.frame h2.scopes (by omega) .refl (.inl .refl))
      h2.guarded).mono Iff.rfl fun _ _ => trivial
  have hall := hfirst.add₃
    (fun c1 hG h1 => .exists_and hG fun Γ1 hΓ1 => hsecond c1 Γ1 hΓ1 (h1 Γ1 hΓ1))
    fun c2 _ (hG : ∃ Γ1, _) h2 => .exists_and hG fun Γ1 hΓ1 => .exists_and hΓ1.2 fun Γ2 hΓ2 =>
      hthird c2 Γ2 (h2 Γ1 hΓ1.1 Γ2 hΓ2)
  refine hall.mono ?_ fun _ _ => trivial
  constructor
  · rintro ⟨-, -, Γ1, hΓ1, Γ2, hΓ2, hok⟩
    exact ⟨Γ1, hΓ1.1, Γ2, hΓ2, hok⟩
  · rintro ⟨Γ1, hΓ1, Γ2, hΓ2, hok⟩
    exact ⟨⟨Γ1, hΓ1⟩, ⟨Γ1, hΓ1, Γ2, hΓ2⟩, Γ1, ⟨hΓ1, Γ2, hΓ2⟩, Γ2, hΓ2, hok⟩

/-- Programs, if their parts are right. -/
theorem program_checks (hV : ProgramVisits s visit) (h : ProgramAt s lo root P)
    (hc : Sees s [] none lo (root + 1) c) :
    Checks c (node visit root) (ProgramOk P) fun _ => True := by
  obtain ⟨mid, last, body, declarations, functions, hds, hfs, hbody, -, rfl, hk⟩ := h
  have hle1 : lo ≤ mid := hds.le declarationAt_local.le_of_mem
  have hle2 : mid ≤ last := hfs.le functionAt_local.le_of_mem
  have hle3 : last ≤ body := blockAt_local.le hbody
  have hsize := Store.lt_size_of_kind? hk
  have hempty : Env.Loopless [[]] := by
    rintro x ⟨scope, hscope, t, ht⟩
    rw [List.mem_singleton.1 hscope] at ht
    exact absurd ht List.not_mem_nil
  have hstart : Env.Loopless [[(P.name, .program)]] :=
    hempty.declare (x := P.name) (m := .program) fun _ h => nomatch h
  -- the name of the program is the first one in the outermost scope
  have hnamed : Declared s lo lo c.pushScope [[(P.name, .program)]] { c.pushScope with
      symbols := c.pushScope.symbols.insert P.name .program (some .void) "void" "" (body + 1) } :=
    declared_insert hc.pushScope.scopes hempty.guarded (hempty _) fun _ => rfl
  have hc0 := hc.pushScope.frame hnamed.frame hnamed.scopes .refl
    (Nat.le_succ (body + 1)) (.inl .refl)
  refine node_checks (hc.kind hk (by omega) (Nat.lt_succ_self _)) (.inScope (Q := fun _ => True)
    (.declare ((parts_checks hV hds hfs hbody (by omega) hc0 hstart).mono ?_ fun _ h => h))
    fun _ _ => trivial)
  constructor
  · rintro ⟨Γ1, hds, Γ2, hfs, hbody⟩
    exact ⟨Γ1, Γ2, hds, hfs, hbody⟩
  · rintro ⟨Γ1, Γ2, hds, hfs, hbody⟩
    exact ⟨Γ1, hds, Γ2, hfs, hbody⟩

end Check

/-- One level of nesting more is right, if the levels below are. -/
theorem ProgramVisits.deeper {s : Store} {visit : NodeId → Check Nat} (hV : ProgramVisits s visit) :
    ProgramVisits s fun id => Check.deeper (Check.node visit id) where
  toStatementVisits := hV.toStatementVisits.deeper
  function h hc hΓ := .deeper (Check.function_checks hV.toStatementVisits h hc.depth hΓ)
    fun _ h Γ' hΓ' => (h Γ' hΓ').depth

/-- Checking is right on all levels. Without any level left no check comes to an end. -/
theorem programVisits (s : Store) (n : Nat) : ProgramVisits s (Check.visitUpTo n) := by
  induction n with
  | zero =>
    have hnever : ∀ {c : Checker} {id : NodeId} {G : Prop} {P : Checker → Prop},
        Checks c (Check.visitUpTo 0 id) G P := fun _ _ h => nomatch h
    exact ⟨⟨⟨fun _ => hnever, fun _ _ => hnever, fun _ _ => hnever, fun _ _ => hnever⟩,
      fun _ _ _ _ _ _ => hnever, fun _ _ _ _ => hnever, fun _ _ _ => hnever, fun _ _ _ => hnever⟩,
      fun _ _ _ => hnever⟩
  | succ n ih => exact ih.deeper

theorem visit_checks {s : Store} {root : Nat} (h : ProgramAt s 0 root P) (diagnostics : Diagnostics)
    (options : CheckOptions) :
    Checks (.start s .empty diagnostics options) (Check.visit root) (ProgramOk P)
      fun _ => True := by
  have hc : Sees s [] none 0 (root + 1) (.start s .empty diagnostics options) :=
    ⟨.refl s, fun _ _ _ => rfl, .nil, rfl⟩
  show Checks _ (Check.visitUpTo options.limit root) _ _
  cases options.limit with
  | zero => exact fun _ _ h => nomatch h
  | succ n => exact .deeper (Check.program_checks (programVisits s n) h hc.depth) fun _ _ => trivial

/-- The checker is sound and complete. Tokens that can be parsed spell one program, and checking its
tree from an empty symbol table, if it comes to an end, finds no error exactly if the program is
well typed. -/
theorem errorCount_eq_zero_iff_programOk {ts : List Token} {limit : Nat} {store : Store}
    {root : NodeId} (h : parseTokens ts limit = .ok (store, root)) :
    ∃ P, (∀ P', Spells limit (closeTokens ts) P' ↔ P' = P) ∧
      ∀ diagnostics options n c,
        Check.visit root (.start store .empty diagnostics options) = .ok n c →
          (n = 0 ↔ ProgramOk P) := by
  obtain ⟨P, hspells, hAt, -, -⟩ := parseTokens_layout h
  refine ⟨P, hspells, fun diagnostics options n c hrun => ?_⟩
  exact (visit_checks hAt diagnostics options n c hrun).1

/-- A program that declares a variable and assigns to it. -/
def negationTokens : List Token :=
  tokensOf "p; var b: boolean; begin b := not true; end end"

theorem programOk_negationTokens : ∃ store root c P,
    parseTokens negationTokens 9 = .ok (store, root) ∧
      Check.visit root (.start store .empty .silent ⟨false, 9⟩) = .ok 0 c ∧
      Spells 9 negationTokens P ∧ ProgramOk P := by
  have hclosed : closeTokens negationTokens = negationTokens := by
    rw [negationTokens, tokensOf_ofList]
    decide +kernel
  have hrun : ((parseTokens negationTokens 9).toOption.map fun tree => (Check.ending
      (Check.visit tree.2 (.start tree.1 .empty .silent ⟨false, 9⟩))).toOption) =
      some (some 0) := by
    rw [negationTokens, tokensOf_ofList]
    decide +kernel
  obtain ⟨store, root, h, hcount⟩ := exists_parse_of_map hrun
  obtain ⟨c, hok⟩ := Check.exists_ok_of_ending hcount
  obtain ⟨P, hspells, hcheck⟩ := errorCount_eq_zero_iff_programOk h
  rw [hclosed] at hspells
  exact ⟨store, root, c, P, h, hok, (hspells P).2 rfl, (hcheck _ _ 0 c hok).1 rfl⟩

end PLang
