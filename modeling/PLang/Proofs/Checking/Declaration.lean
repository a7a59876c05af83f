import PLang.Proofs.Checking.Frames

/-!
# Checking declarations is right

Checking a declaration finds no error exactly if the names can be declared and the dimensions are
positive, and then the innermost scope holds the names.
-/

namespace PLang

open Syntax Typing

variable {c c1 : Checker} {d : DeclarationNode} {detail x : String} {hi lo : Nat} {role : Role}
  {s : Store} {t : DataType} {type : TypeNode} {Γ : Env}

/-- Declarations on the nodes from `lo` up to `hi` have led to an environment. -/
structure Declared (s : Store) (lo hi : Nat) (c : Checker) (Γ : Env) (c' : Checker) : Prop where
  frame : Frame lo hi c c'
  scopes : ScopesMatch c'.symbols s c'.symbols.scopes Γ
  guarded : Γ.Guarded

theorem Declared.mono {c' : Checker} {lo' hi' : Nat} (h : Declared s lo' hi' c Γ c')
    (hlo : lo ≤ lo') (hhi : hi' ≤ hi) : Declared s lo hi c Γ c' :=
  ⟨h.frame.mono hlo hhi, h.scopes, h.guarded⟩

theorem Declared.depth {c' : Checker} {d d' : Nat}
    (h : Declared s lo hi { c with depth := d } Γ c') :
    Declared s lo hi c Γ { c' with depth := d' } :=
  ⟨⟨h.frame.touches, h.frame.function, h.frame.grows, h.frame.outer⟩, h.scopes, h.guarded⟩

/-- What has been declared before some nodes and on them. -/
theorem Declared.append {Γ1 Γ2 : Env} {c2 : Checker} {mid : Nat} (h1 : Declared s lo mid c Γ1 c1)
    (h2 : Declared s mid hi c1 Γ2 c2) (hlo : lo ≤ mid) (hhi : mid ≤ hi) :
    Declared s lo hi c Γ2 c2 :=
  ⟨(h1.frame.mono .refl hhi).trans (h2.frame.mono hlo .refl), h2.scopes,
    h2.guarded⟩

/-- What is declared stays declared. -/
theorem Declared.restores {c2 : Checker} (h : Declared s lo hi c Γ c1) (hr : Restores lo hi c1 c2) :
    Declared s lo hi c Γ c2 := by
  refine ⟨h.frame.trans hr.toFrame, ?_, h.guarded⟩
  rw [hr.scopes]
  exact h.scopes.keep hr.grows.symbol

/-- A check that follows declarations sees the environment that they have led to. -/
theorem Declared.checks {D G : Env → Prop} {x : Check Nat} {a b a' b' : Nat} (hD : ∃ Γ, D Γ)
    (h : ∀ Γ, D Γ → Declared s a b c Γ c1) (hx : ∀ Γ, D Γ → Checks c1 x (G Γ) (Restores a' b' c1))
    (hfirst : lo ≤ a ∧ b ≤ hi) (hsecond : lo ≤ a' ∧ b' ≤ hi) :
    Checks c1 x (∃ Γ, D Γ ∧ G Γ) (Frame lo hi c) := by
  refine (Checks.exists_and hD hx).mono Iff.rfl fun c2 h2 => ?_
  obtain ⟨Γ, hΓ⟩ := hD
  exact ((h Γ hΓ).frame.mono hfirst.1 hfirst.2).trans
    ((h2 Γ hΓ).toFrame.mono hsecond.1 hsecond.2)

namespace Check

variable {s : Store} {visit : NodeId → Check Nat} {Γ : Env} {ρ : Option ScalarType} {c : Checker}
  {lo root : Nat}

/-! ### Names -/

theorem lookup_ne_none_of_here (h : x ∈ Γ.here) : Γ.lookup x ≠ none := by
  cases Γ with
  | nil => exact absurd h List.not_mem_nil
  | cons scope outer =>
    intro hnone
    rw [Env.lookup, List.flatten_cons, List.lookup_append, Option.or_eq_none_iff] at hnone
    exact mem_here_iff.1 h hnone.1

theorem loopVariable_of_lookup (h : Γ.lookup x = some (.object .loopVariable t)) :
    Γ.LoopVariable x := by
  obtain ⟨before, after, hsplit, -⟩ := List.lookup_eq_some_iff.1 h
  have hmem : (x, Meaning.object .loopVariable t) ∈ Γ.flatten := by
    rw [hsplit]
    exact List.mem_append_right _ (.head _)
  obtain ⟨scope, hscope, hentry⟩ := List.mem_flatten.1 hmem
  exact ⟨scope, hscope, t, hentry⟩

section

variable (hscopes : ScopesMatch c.symbols s c.symbols.scopes Γ) (hguarded : Γ.Guarded)

include hscopes hguarded

/-- A name clashes exactly if it is not free. -/
theorem clashes_iff : clashes c x = true ↔ ¬Γ.Free x := by
  cases hx : Γ.lookup x with
  | none =>
    have hfree : Γ.Free x := by
      refine ⟨fun h => lookup_ne_none_of_here h hx, fun h => ?_⟩
      obtain ⟨t, ht⟩ := hguarded x h
      cases hx.symm.trans ht
    rw [clashes, hscopes.lookup_none hx]
    exact iff_of_false Bool.false_ne_true (not_not.2 hfree)
  | some m =>
    obtain ⟨symbol, hlookup, hdenotes, hlevel⟩ := hscopes.lookup_some hx
    have hloop : symbol.kind = .loopVar ↔ Γ.LoopVariable x := by
      constructor
      · intro hkind
        obtain ⟨t, rfl⟩ := hdenotes.isLoopVariable_iff.1 hkind
        exact loopVariable_of_lookup hx
      · intro h
        obtain ⟨t, ht⟩ := hguarded x h
        cases hx.symm.trans ht
        exact hdenotes.1
    rw [clashes, hlookup, Option.any_some, Bool.or_eq_true, beq_iff_eq, beq_iff_eq, hlevel, hloop,
      Env.Free]
    tauto

omit hscopes hguarded in
theorem tail_scopes_insert (t : SymbolTable) (x : String) (kind : SymbolKind)
    (scalar : Option ScalarType) (typeText detail : String) (node : NodeId) :
    (t.insert x kind scalar typeText detail node).scopes.tail = t.scopes.tail := by
  rw [SymbolTable.insert]
  cases t.scopes <;> rfl

/-- Inserting a symbol for a name that is free. -/
theorem declared_insert {kind : SymbolKind} {scalar : Option ScalarType} {typeText : String}
    {node : NodeId} {m : Meaning} (hfree : ¬Γ.LoopVariable x)
    (hm : ∀ level, Denotes s ⟨level, x, kind, scalar, typeText, detail, node⟩ m) :
    Declared s lo hi c (Γ.declare x m)
      { c with symbols := c.symbols.insert x kind scalar typeText detail node } :=
  ⟨⟨.refl .., rfl, .insert .., tail_scopes_insert ..⟩, hscopes.insert hm, hguarded.declare hfree⟩

variable (halike : Alike s c.store)

include halike

theorem declareName_checks (h : NameAt s lo root x) (hkind : d.kind = role.kind)
    (hscalar : type.scalar = t.scalar) (hdims : s.dimensions d.type = t.dimensions) :
    Checks c (declareName d type detail root) (∃ Γ', Declares (.object role t) Γ x Γ') fun c' =>
      ∀ Γ', Declares (.object role t) Γ x Γ' → Declared s lo (root + 1) c Γ' c' := by
  have hname : c.store.name? root = some x := by
    rw [halike.name?_eq, Store.name?, h.2]
  refine .look (a := x) (by rw [inStore, view, hname]; rfl) (.look (a := clashes c x) rfl ?_)
  by_cases hfree : Γ.Free x
  · rw [if_neg fun h => (clashes_iff hscopes hguarded).1 h hfree]
    refine .declare (.pass ⟨_, hfree, rfl⟩ ?_)
    rintro Γ' ⟨-, rfl⟩
    refine declared_insert hscopes hguarded hfree.2 fun level => ⟨hkind, ?_, hdims⟩
    exact congrArg some hscalar
  · rw [if_pos ((clashes_iff hscopes hguarded).2 hfree)]
    refine .reject ?_
    rintro ⟨Γ', hdeclares⟩
    exact hfree hdeclares.1

/-! ### Declarations -/

/-- Declarations one after another, each of which is right in the environment that it finds. -/
theorem sequence_checks {α : Type} {At : Nat → NodeId → α → Prop} {D : Env → α → Env → Prop}
    {head : Option NodeId} {as : List α} (h : ListAt s At lo hi head as)
    (hle : ∀ {a lo' root}, At lo' root a → lo' ≤ root) (hhi : hi ≤ s.size)
    (hvisit : ∀ {a lo' root Γ1 c1}, At lo' root a → Alike s c1.store →
      ScopesMatch c1.symbols s c1.symbols.scopes Γ1 → Γ1.Guarded →
      Checks c1 (visit root) (∃ Γ', D Γ1 a Γ') fun c' =>
        ∀ Γ', D Γ1 a Γ' → Declared s lo' (root + 1) c1 Γ' c') :
    Checks c (list visit .reportAll head) (∃ Γ', Sequence D Γ as Γ') fun c' =>
      ∀ Γ', Sequence D Γ as Γ' → Declared s lo hi c Γ' c' := by
  refine .list (k := hi - lo) (by rw [halike.size]; omega) fun n hn => ?_
  refine h.checks (fun _ _ _ _ => hle)
    (I := fun pos Γ' c' => Declared s lo pos c Γ' c') ?_ ?_ ⟨.refl .., hscopes, hguarded⟩ hn
  · exact fun pos Γ' c' h id => (h.frame.touches.alike.next id).trans (halike.next id)
  · intro a _ lo' root Γ1 c1 hlo _ hAt h1
    have hroot : lo' ≤ root := hle hAt
    refine (hvisit hAt (halike.trans h1.frame.touches.alike) h1.scopes h1.guarded).mono Iff.rfl
      fun c2 h2 Γ2 hΓ2 => ?_
    exact h1.append (h2 Γ2 hΓ2) hlo (by omega)

variable {names : List String}

/-- The names of a declaration. -/
theorem names_checks (hnames : ListAt s (NameAt s) lo hi (some d.names) names)
    (hhi : hi ≤ s.size) (hkind : d.kind = role.kind) (hscalar : type.scalar = t.scalar)
    (hdims : s.dimensions d.type = t.dimensions) :
    Checks c (list (declareName d type detail) .reportAll (some d.names))
      (∃ Γ', Sequence (Declares (.object role t)) Γ names Γ') fun c' =>
      ∀ Γ', Sequence (Declares (.object role t)) Γ names Γ' → Declared s lo hi c Γ' c' :=
  sequence_checks hscopes hguarded halike hnames nameAt_local.le hhi
    fun hAt halike hscopes hguarded =>
      declareName_checks hscopes hguarded halike hAt hkind hscalar hdims

omit hscopes hguarded in
theorem positive_checks (hdims : s.dimensions d.type = t.dimensions) :
    Checks c (positive d) (Positive t) (· = c) := by
  have hany : (c.store.dimensions d.type).any (· ≤ 0) = t.dimensions.any (· ≤ 0) := by
    rw [halike.dimensions_eq, hdims]
  have hpositive : t.dimensions.any (· ≤ 0) = true ↔ ¬Positive t := by
    simp [Positive]
  refine .look (a := t.dimensions.any (· ≤ 0)) (by rw [inStore, view, hany]) ?_
  by_cases h : Positive t
  · rw [if_neg fun hneg => hpositive.1 hneg h]
    exact .pass h rfl
  · rw [if_pos (hpositive.2 h)]
    exact .look (a := (c.store.name? d.names).getD "") rfl (.reject h)

/-- Names that are declared with a type. -/
theorem declaration_checks
    (hnames : ListAt s (NameAt s) lo hi (some d.names) names) (hhi : hi ≤ s.size)
    (htype : s.type? d.type = some type) (hkind : d.kind = role.kind)
    (hscalar : type.scalar = t.scalar) (hdims : s.dimensions d.type = t.dimensions) :
    Checks c (declaration d)
      ((∃ Γ', Sequence (Declares (.object role t)) Γ names Γ') ∧ Positive t) fun c' =>
      ∀ Γ', Sequence (Declares (.object role t)) Γ names Γ' → Declared s lo hi c Γ' c' := by
  have htype' : c.store.type? d.type = some type := (halike.type?_eq _).trans htype
  refine .look (a := some type) (by rw [inStore, view, htype']) (.look rfl ?_)
  refine (names_checks hscopes hguarded halike hnames hhi hkind hscalar hdims).good.add
    fun c1 _ h1 => ?_
  obtain ⟨⟨Γ1, hΓ1⟩, h1⟩ := h1
  refine (positive_checks (halike.trans (h1 Γ1 hΓ1).frame.touches.alike) hdims).mono Iff.rfl ?_
  rintro _ rfl
  exact h1

/-- Names that are declared with a type. -/
theorem declared_checks {kind : SymbolKind} (role : Role) {names : Names}
    (h : DeclaredAt s kind lo root names t) (hkind : kind = role.kind) :
    Checks c (node visit root)
      ((∃ Γ', Sequence (Declares (.object role t)) Γ names.toList Γ') ∧ Positive t) fun c' =>
      ∀ Γ', Sequence (Declares (.object role t)) Γ names.toList Γ' →
        Declared s lo (root + 1) c Γ' c' := by
  obtain ⟨first, mid, type, hnames, htype, -, rfl, hk⟩ := h
  have hsize := Store.lt_size_of_kind? hk
  have hle : mid ≤ type := typeAt_local.le htype
  have hdims := htype.dimensions (by omega)
  obtain ⟨head, -, htypeKind⟩ := htype
  have htypeNode : s.type? type = some ⟨t.scalar, head, t.text⟩ := by
    rw [Store.type?, htypeKind]
  refine node_checks (halike.kind?_plain hk rfl) ((declaration_checks hscopes hguarded halike hnames
    (by omega) htypeNode hkind rfl hdims).mono Iff.rfl fun c1 h1 Γ' hΓ' => ?_)
  exact (h1 Γ' hΓ').mono .refl (by omega)

/-- Names that are declared as constants. -/
theorem constants_checks {names : Names} {v : LiteralValue} (h : ConstantsAt s lo root names v) :
    Checks c (node visit root)
      (∃ Γ', Sequence (Declares (.object .constant (.ofScalar v.scalarType))) Γ names.toList Γ')
      fun c' => ∀ Γ',
        Sequence (Declares (.object .constant (.ofScalar v.scalarType))) Γ names.toList Γ' →
          Declared s lo (root + 1) c Γ' c' := by
  obtain ⟨first, literal, hnames, -, -, htypeKind, -, rfl, hk⟩ := h
  have hsize := Store.lt_size_of_kind? hk
  have htype : TypeAt s (literal + 1) (literal + 1) (.ofScalar v.scalarType) :=
    ⟨none, .nil, htypeKind⟩
  have htypeNode : s.type? (literal + 1) = some ⟨v.scalarType, none, v.scalarType.text⟩ := by
    rw [Store.type?, htypeKind]
  have hpositive : Positive (.ofScalar v.scalarType) := fun _ h => absurd h List.not_mem_nil
  refine node_checks (halike.kind?_plain hk rfl) ((declaration_checks hscopes hguarded halike hnames
    (by omega) htypeNode rfl rfl (htype.dimensions (by omega))).mono (and_iff_left hpositive)
    fun c1 h1 Γ' hΓ' => ?_)
  exact (h1 Γ' hΓ').mono .refl (by omega)

/-- Declarations. -/
theorem declarationAt_checks {d : Declaration} (h : DeclarationAt s lo root d) :
    Checks c (node visit root) (∃ Γ', DeclarationOk Γ d Γ') fun c' =>
      ∀ Γ', DeclarationOk Γ d Γ' → Declared s lo (root + 1) c Γ' c' := by
  cases d with
  | vars names t =>
    refine (declared_checks hscopes hguarded halike .var h rfl).mono ?_ ?_
    · constructor
      · rintro ⟨⟨Γ', hseq⟩, hpositive⟩
        exact ⟨Γ', .vars hpositive hseq⟩
      · rintro ⟨Γ', hok⟩
        cases hok with
        | vars hpositive hseq => exact ⟨⟨Γ', hseq⟩, hpositive⟩
    · intro c' h' Γ' hok
      cases hok with
      | vars _ hseq => exact h' Γ' hseq
  | constants names v =>
    refine (constants_checks hscopes hguarded halike h).mono ?_ ?_
    · constructor
      · rintro ⟨Γ', hseq⟩
        exact ⟨Γ', .constants hseq⟩
      · rintro ⟨Γ', hok⟩
        cases hok with
        | constants hseq => exact ⟨Γ', hseq⟩
    · intro c' h' Γ' hok
      cases hok with
      | constants hseq => exact h' Γ' hseq

end

end Check

end PLang
