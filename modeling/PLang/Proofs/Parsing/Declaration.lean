import PLang.Parser.Program
import PLang.Proofs.Parsing.Simulation

/-!
# The rules for types, declarations and functions follow their readings
-/

namespace PLang.Parse

open Syntax

variable {d l : Nat} {p : Parser}

variable {t : Token}

/-- The number that a token spells. -/
theorem integer_simulates {α β : Type} {m : Nat} {f : Int → Parse β}
    {S : Int → Reading α} {post : α → β → Parser → Prop}
    (hf : ∀ n, Simulates d l m p (f n) (S n) post) :
    Simulates d l m p (integer t >>= f) (Reading.value (wordOfText? t.value) >>= S) post := by
  cases hn : wordOfText? t.value with
  | none =>
    have hrun : integer t p = .error ⟨.malformedNumber t.value, t.location⟩ p := by
      simp only [integer, wordOf, hn]
    unfold Simulates
    rw [bind_error hrun]
    refine ⟨.refl p, ?_⟩
    rintro a rest ⟨n, mid, ⟨h, -⟩, -⟩
    cases h
  | some n =>
    have hrun : integer t p = .ok n p := by simp only [integer, wordOf, hn]
    refine .look hrun (.congr ?_ (hf n))
    funext a rest
    refine propext ⟨?_, fun h => ⟨n, _, ⟨rfl, rfl⟩, h⟩⟩
    rintro ⟨n', mid, ⟨h, rfl⟩, hS⟩
    exact Option.some.inj h ▸ hS

/-! ### Types -/

theorem kind_ne_of_scalarOf? {s : ScalarType} (h : scalarOf? t.kind = some s) :
    t.kind ≠ .endOfFile ∧ t.kind ≠ .varWord := by
  constructor <;> intro hk <;> rw [hk] at h <;> cases h

theorem scalarOf?_ne_void {k : TokenKind} : scalarOf? k ≠ some .void := by
  cases k <;> decide

theorem scalarType_simulates (hp : p.Ready d l) :
    Simulates d l 1 p scalarType Reading.scalar
      fun s id p' => s ≠ .void ∧ Adds TypeAt p.store (.ofScalar s) id p'.store := by
  refine .look (c := p.stream.current.kind) rfl ?_
  cases hs : scalarOf? p.stream.current.kind with
  | none =>
    exact .fail fun _ _ => Reading.not_one hs
  | some s =>
    rw [← Reading.bind_pure Reading.scalar]
    refine .take hp hs (kind_ne_of_scalarOf? hs) fun p1 hp1 hs1 =>
      .build hp1 (.plain rfl rfl) ⟨?_, ?_⟩
    · rintro rfl
      exact scalarOf?_ne_void hs
    · rw [← hs1]
      exact (Build.added_add ..).scalarType

theorem dimension_simulates (hp : p.Ready d l)
    (hk : (p.stream.current.kind == TokenKind.arrayWord) = true) :
    Simulates d l 1 p dimension Reading.dimension (Builds NumberAt p) := by
  refine .advance hp (eq_of_beq hk) (by decide) fun _ p1 hp1 hs1 _ => ?_
  refine .expectOr hp1 (by decide) fun t p2 hp2 hs2 _ => ?_
  refine integer_simulates fun n => ?_
  refine .expectOr hp2 (by decide) fun _ p3 hp3 hs3 _ => .build hp3 (.plain rfl rfl) ?_
  rw [Builds, ← hs1, ← hs2, ← hs3]
  exact (Build.added_add ..).number

theorem arrayType_simulates (hp : p.Ready d l) (hk : p.stream.current.kind = .arrayWord) :
    Simulates d l 1 p arrayType Reading.type (Builds TypeAt p) := by
  refine .look (c := p.location) rfl ?_
  have hmany : Simulates d l 0 p (many (· == .arrayWord) dimension none)
      (Reading.Many (· == .arrayWord) Reading.dimension) (BuildsList NumberAt p) :=
    many_simulates numberAt_local (fun p hp => dimension_simulates hp) hp
  refine hmany.reads.bind fun ds head p1 hp1 hds => ?_
  obtain ⟨hread, hlist⟩ := hds
  refine .look (c := p1.stream.current.kind) rfl ?_
  cases hs : scalarOf? p1.stream.current.kind with
  | none =>
    refine .fail fun _ _ => ?_
    rintro ⟨_, _, hone, -⟩
    exact Reading.not_one hs hone
  | some s =>
    refine .take hp1 hs (kind_ne_of_scalarOf? hs) fun p2 hp2 hs2 => ?_
    cases head with
    | none =>
      exact absurd hlist.layout.of_none.1 (hread.ne_nil (beq_iff_eq.2 hk))
    | some first =>
      have hlist : AddsList NumberAt p.store ds (some first) p2.store := hs2 ▸ hlist
      exact .build hp2 (.plain rfl rfl) (hlist.arrayType (Build.added_add ..))

/-- The table knows the first tokens of types. -/
theorem standardType_eq (k : TokenKind) : RuleTables.standardType k =
    if k = .arrayWord then some .arrayType else (scalarOf? k).map fun _ => .scalarType := by
  cases k <;> rfl

/-- The rule for a type is found in the table, and types contain no other types. -/
theorem type_eq (hp : p.Ready d l) (nested : Nested → Parse NodeId) : type nested p =
    (RuleTables.standardType p.stream.current.kind).elim (fail Parser.misplaced)
      (rule nested (type nested)) p := by
  have htable : p.tables.type p.stream.current.kind =
      RuleTables.standardType p.stream.current.kind := by
    rw [hp.tables]
    rfl
  have hrun : type nested p = (RuleTables.standardType p.stream.current.kind).elim
      (fail Parser.misplaced p) fun r => rule nested (typeUpTo nested p.remaining) r p := by
    rw [← htable, type, typeUpTo]
    dsimp only
    cases p.tables.type p.stream.current.kind <;> rfl
  rw [hrun]
  cases p.stream.current.kind <;> rfl

theorem type_simulates (nested : Nested → Parse NodeId) (hp : p.Ready d l) :
    Simulates d l 1 p (type nested) Reading.type (Builds TypeAt p) := by
  refine .ofRun (type_eq hp nested) ?_
  rw [standardType_eq]
  by_cases hk : p.stream.current.kind = .arrayWord
  · rw [if_pos hk]
    exact arrayType_simulates hp hk
  · refine .congr (Reading.type_of_scalar hk) ?_
    rw [if_neg hk]
    cases hs : scalarOf? p.stream.current.kind with
    | none =>
      refine .fail fun _ _ => ?_
      rintro ⟨_, _, hone, -⟩
      exact Reading.not_one hs hone
    | some s => exact (scalarType_simulates hp).mapRead fun _ _ _ h => h.2

/-! ### Declarations -/

/-- The value of a literal token is found where there is one. -/
theorem literalValue_eq (t : Token) (negative : Bool) (p : Parser) :
    (∀ v, Reading.literalOf? t negative = some v → literalValue t negative p = .ok v p) ∧
      (Reading.literalOf? t negative = none → ∃ e, literalValue t negative p = .error e p) := by
  unfold Reading.literalOf? literalValue
  generalize t.kind = kind
  cases kind with
  | integer =>
    cases hn : wordOfText? t.value with
    | none =>
      have hrun : integer t p = .error ⟨.malformedNumber t.value, t.location⟩ p := by
        simp only [integer, wordOf, hn]
      exact ⟨fun v h => (nomatch h), fun _ => ⟨_, bind_error hrun⟩⟩
    | some n =>
      have hrun : integer t p = .ok n p := by simp only [integer, wordOf, hn]
      refine ⟨fun v h => ?_, fun h => (nomatch h)⟩
      exact (bind_ok hrun).trans (congrArg (EStateM.Result.ok · p) (Option.some.inj h))
  | real =>
    cases hx : Binary64.ofText? t.value with
    | none =>
      have hrun : real t p = .error ⟨.malformedNumber t.value, t.location⟩ p := by
        simp only [real, hx]
      exact ⟨fun v h => (nomatch h), fun _ => ⟨_, bind_error hrun⟩⟩
    | some x =>
      have hrun : real t p = .ok x p := by simp only [real, hx]
      refine ⟨fun v h => ?_, fun h => (nomatch h)⟩
      exact (bind_ok hrun).trans (congrArg (EStateM.Result.ok · p) (Option.some.inj h))
  | string | trueWord | falseWord =>
    cases negative with
    | true => exact ⟨fun v h => (nomatch h), fun _ => ⟨_, rfl⟩⟩
    | false =>
      exact ⟨fun v h => congrArg (EStateM.Result.ok · p) (Option.some.inj h), fun h => (nomatch h)⟩
  | _ => exact ⟨fun v h => (nomatch h), fun _ => ⟨_, rfl⟩⟩

theorem kind_ne_of_literalOf? {negative : Bool} {v : LiteralValue}
    (h : Reading.literalOf? t negative = some v) : t.kind ≠ .endOfFile ∧ t.kind ≠ .varWord := by
  constructor <;> intro hk <;> simp only [Reading.literalOf?, hk] at h <;> cases h

/-- A literal stands where its sign stands, if it has one. -/
theorem literal_simulates (hp : p.Ready d l) (minus : Option Token) :
    Simulates d l 1 p (literal minus) (Reading.literal minus.isSome) fun v id p' =>
      Builds LiteralAt p v id p' ∧ (p'.store.node? id).map Node.content =
        some ((minus.getD p.stream.current).location, .literal ⟨v, v.text⟩) := by
  obtain ⟨hsome, hnone⟩ := literalValue_eq p.stream.current minus.isSome p
  refine .look (c := p.stream.current) rfl ?_
  cases hv : Reading.literalOf? p.stream.current minus.isSome with
  | none =>
    obtain ⟨e, he⟩ := hnone hv
    unfold Simulates
    rw [bind_error he]
    exact ⟨.refl p, fun _ _ => Reading.not_one hv⟩
  | some v =>
    refine .look (hsome v hv) (.build_bind (.plain rfl rfl) ?_)
    have hp' : Parser.Ready d l
      { p with store := (Build.literal (minus.getD p.stream.current).location v p.store).2 } :=
      ⟨hp.tables, hp.depth, hp.limit, hp.closed⟩
    rw [← Reading.bind_pure (Reading.literal _)]
    refine .take hp' hv (kind_ne_of_literalOf? hv) fun p1 hp1 hs1 => .pure hp1 ?_
    rw [Builds, hs1]
    refine ⟨(Build.added_add ..).literal, ?_⟩
    rw [Build.literal, Build.node?_add, if_pos (Build.fst_add ..)]
    rfl

theorem declaredName_simulates (hp : p.Ready d l) (wanted : String) :
    Simulates d l 1 p (declaredName wanted)
      (do let t ← Reading.token .identifier; return t.value) (Builds NameAt p) := by
  refine .expectOr hp (by decide) fun t p1 hp1 hs1 _ => .build hp1 (.plain rfl rfl) ?_
  rw [Builds, ← hs1]
  exact (Build.added_add ..).name

theorem nameList_simulates (hp : p.Ready d l) :
    Simulates d l 1 p nameList Reading.names
      fun names first p' => AddsList NameAt p.store names.toList (some first) p'.store :=
  (separated_simulates nameAt_local (by decide) (fun _ hp => declaredName_simulates hp _)
    (fun _ hp => declaredName_simulates hp _) hp).mapRead fun _ _ _ h => h

theorem minus_simulates (hp : p.Ready d l) :
    Simulates d l 0 p (accept? .dash) Reading.minus fun negative minus p' =>
      negative = minus.isSome ∧ p'.store = p.store ∧
        minus.getD p'.stream.current = p.stream.current := by
  have h : Simulates d l 0 p (accept? .dash >>= pure) Reading.minus fun negative minus p' =>
      negative = minus.isSome ∧ p'.store = p.store ∧
        minus.getD p'.stream.current = p.stream.current := by
    refine .accept (fun hk => ?_) fun _ => .pure hp ⟨rfl, rfl, rfl⟩
    rw [Reading.token_eq_one]
    exact .take hp (if_pos hk) (hk ▸ by decide) fun _ hp1 hs1 => .pure hp1 ⟨rfl, hs1, rfl⟩
  rwa [bind_pure] at h

theorem declared_simulates {type : Parse NodeId} {names : Names} {first : NodeId} {s : Store}
    (place : Location)
    (htype : ∀ p : Parser, p.Ready d l → Simulates d l 1 p type Reading.type (Builds TypeAt p))
    (hp : p.Ready d l) (hnames : AddsList NameAt s names.toList (some first) p.store) :
    Simulates d l 1 p (declared type place first) (Reading.declared names) fun declaration id p' =>
      Adds DeclarationAt s declaration id p'.store ∧ ∀ names' value,
        declaration = .constants names' value →
          names' = names ∧ p'.store.HoldsConstant place p.stream.current.location value id := by
  refine .ofRun (y := if (RuleTables.standardType p.stream.current.kind).isSome then
      (do let node ← type; build (Build.declaration place first node .var))
    else
      (do
        let minus ← accept? .dash
        let node ← literal minus
        build (Build.constant place first node))) ?_ ?_
  · rw [declared, hp.tables]
    show (if (RuleTables.standardType p.stream.current.kind).isSome then _ else _) = _
    split <;> rfl
  · refine .choose _ rfl (fun _ => ?_) fun _ => ?_
    · refine (htype p hp).bind fun t id p1 hp1 hadds => .build hp1 (.plain rfl rfl) ?_
      refine ⟨hnames.vars hadds (Build.added_add ..), ?_⟩
      rintro _ _ ⟨⟩
    · refine (minus_simulates hp).bind fun negative minus p1 hp1 hsign => ?_
      obtain ⟨rfl, hs1, hstart⟩ := hsign
      refine (literal_simulates hp1 minus).bind fun v id p2 hp2 hliteral => ?_
      obtain ⟨hadds, hplace⟩ := hliteral
      have hgrown := Store.Grown.constant hadds.layout.2 place first
      refine .build hp2 hgrown ⟨AddsList.constants place (hs1 ▸ hnames) hadds, ?_⟩
      rintro _ _ ⟨⟩
      refine ⟨rfl, first, p2.store.size, id, ?_, hgrown.kept _ _ (hstart ▸ hplace)⟩
      rw [Build.constant_eq hadds.layout.2, Build.fst_add, Build.node?_add, if_pos rfl]
      rfl

section Rules

variable {type : Parse NodeId}
  (htype : ∀ p : Parser, p.Ready d l → Simulates d l 1 p type Reading.type (Builds TypeAt p))

include htype

theorem declaration_simulates (hp : p.Ready d l) :
    Simulates d l 1 p (declaration type) Reading.declaration (Builds DeclarationAt p) := by
  refine .expectNoting hp (by decide) fun t p1 hp1 hs1 ht _ => ?_
  refine .imp (?_ : Simulates d l 0 p1 _ _ fun a id p' => Builds DeclarationAt p a id p' ∧
    ∀ names value, a = .constants names value → ∃ colon start behind,
      Reading.names p1.tokens names (colon :: start :: behind) ∧
        p'.store.HoldsConstant t.location start.location value id) .refl ?_
  · refine (nameList_simulates hp1).reads.bind fun names first p2 hp2 hlist => ?_
    obtain ⟨hread, hnames⟩ := hlist
    refine .expectNoting hp2 (by decide) fun colon p3 hp3 hs3 _ htokens => ?_
    refine (declared_simulates t.location htype hp3 (hs3 ▸ hnames)).bind
      fun dec id p4 hp4 hdec => ?_
    refine .expectOr hp4 (by decide) fun _ p5 hp5 hs5 _ =>
      .pure hp5 ⟨⟨?_, fun names' value heq => ?_⟩, fun h => by cases h⟩
    · rw [Builds, ← hs1, hs5]
      exact hdec.1
    · obtain ⟨rfl, hconstant⟩ := hdec.2 names' value heq
      exact ⟨colon, p3.stream.current, p3.stream.rest, htokens ▸ hread, hs5 ▸ hconstant⟩
  · intro a id p' _ hread h
    refine ⟨h.1, fun _ =>
      ⟨a, p'.tokens, ⟨t, p1.tokens, ⟨rfl, ht⟩, hread⟩, fun names value heq => ?_⟩⟩
    obtain ⟨colon, start, behind, hnames, hconstant⟩ := h.2 names value heq
    exact ⟨colon, start, behind, id, hnames, hconstant⟩

theorem declarations_simulates (hp : p.Ready d l) :
    Simulates d l 0 p (declarations type) Reading.declarations (BuildsList DeclarationAt p) :=
  many_simulates declarationAt_local (fun _ hp _ => declaration_simulates htype hp) hp

theorem parameter_simulates (hp : p.Ready d l) :
    Simulates d l 1 p (parameter type) Reading.parameter (Builds ParameterAt p) := by
  refine .look (c := p.location) rfl ?_
  refine (nameList_simulates hp).bind fun names first p1 hp1 hnames => ?_
  refine .expectOr hp1 (by decide) fun _ p2 hp2 hs2 _ => ?_
  refine (htype p2 hp2).bind fun t id p3 hp3 hadds => .build hp3 (.plain rfl rfl) ?_
  exact hnames.parameter (hs2 ▸ hadds) (Build.added_add ..)

theorem parameters_simulates (hp : p.Ready d l) :
    Simulates d l 0 p (parameters type) Reading.parameters (BuildsList ParameterAt p) := by
  refine .look (c := p.stream.current.kind) rfl (.chooseKind (fun _ => ?_) fun _ => ?_)
  · exact .pure hp (AddsList.nil _)
  · exact (some_separated_simulates parameterAt_local (by decide)
      (fun _ hp => parameter_simulates htype hp) hp).mono (Nat.zero_le _) fun _ _ _ h => h

end Rules

/-- The return type of a function, which is not there for one that returns nothing. -/
def ReturnsAt (p : Parser) (result : ScalarType) : Option NodeId → Parser → Prop
  | some type, p' => result ≠ .void ∧ Adds TypeAt p.store (.ofScalar result) type p'.store
  | none, p' => result = .void ∧ p'.store = p.store

theorem returnType_simulates (hp : p.Ready d l) :
    Simulates d l 0 p returnType Reading.returnType (ReturnsAt p) := by
  refine .accept (fun hk => ?_) fun _ => .pure hp ⟨rfl, rfl⟩
  refine .advance hp hk (by decide) fun _ p1 hp1 hs1 _ => ?_
  refine ((scalarType_simulates hp1).map fun s id p' h => ?_).mono (Nat.zero_le _)
    fun _ _ _ h => h
  rw [ReturnsAt, ← hs1]
  exact h

variable {compound : Parse NodeId}

theorem functionBody_simulates {N : Nesting}
    (hcompound : ∀ p : Parser, p.Ready d l →
      Simulates d l 1 p compound (Reading.block N) (Builds BlockAt p)) (hp : p.Ready d l) :
    Simulates d l 0 p (functionBody compound) (Reading.functionBody N)
      fun b body p' => AddsList BlockAt p.store b.toList body p'.store := by
  refine .accept (fun hk => ?_) fun _ => ?_
  · refine .advance hp hk (by decide) fun _ p1 hp1 hs1 _ => .pure hp1 ?_
    rw [← hs1]
    exact AddsList.nil _
  · refine (hcompound p hp).bind fun b id p1 hp1 hadds => ?_
    refine .expectOr hp1 (by decide) fun _ p2 hp2 hs2 _ => .pure hp2 ?_
    rw [hs2]
    exact AddsList.singleton hadds

theorem function_simulates {type : Parse NodeId} {N : Nesting}
    (htype : ∀ p : Parser, p.Ready d l → Simulates d l 1 p type Reading.type (Builds TypeAt p))
    (hcompound : ∀ p : Parser, p.Ready d l →
      Simulates d l 1 p compound (Reading.block N) (Builds BlockAt p)) (hp : p.Ready d l) :
    Simulates d l 1 p (function type compound) (Reading.function N) (Builds FunctionAt p) := by
  refine .expectOr hp (by decide) fun name p1 hp1 hs1 _ => ?_
  refine .expectOr hp1 (by decide) fun _ p2 hp2 hs2 _ => ?_
  refine (parameters_simulates htype hp2).bind fun ps list p3 hp3 hps => ?_
  refine .expectOr hp3 (by decide) fun _ p4 hp4 hs4 _ => ?_
  refine (returnType_simulates hp4).bind fun result type p5 hp5 hresult => ?_
  refine (functionBody_simulates hcompound hp5).bind fun b body p6 hp6 hbody =>
    .build hp6 (Build.Grows.function _) ?_
  have hps : AddsList ParameterAt p.store ps list p4.store := by
    rw [← hs1, ← hs2, hs4]
    exact hps
  cases type with
  | some type =>
    exact AddsList.typedFunction (f := ⟨name.value, ps, result, b⟩) name.location hps hresult.1
      hresult.2 hbody
  | none =>
    obtain ⟨rfl, hs5⟩ := hresult
    exact AddsList.untypedFunction name.location hps (hs5 ▸ hbody)

end PLang.Parse
