import PLang.Proofs.InStep.Coupling
import PLang.Proofs.Parsing.Simulation

/-!
# Two parsers in step

Two parsers read tokens that go together, and the second may go down more levels. They stay in step:
they take the same tokens, make trees that go together and complain about the same tokens, up to the
point where the first one goes down a level too many. This holds for every lawful coupling. One of
them couples tokens of the same kinds and texts, which may stand elsewhere.
-/

namespace PLang

variable {α β : Type}

variable {element element' : Parse NodeId}

/-! ### Tokens that may stand elsewhere -/

/-- Two runs that are compared: which locations of the one go with which of the other, and the
nesting limit of each. -/
structure Comparison where
  link : Location → Location → Prop
  limit : Nat
  limit' : Nat
  le : limit ≤ limit'

/-- Tokens that read the same and stand at places that go together. -/
structure Token.Like (link : Location → Location → Prop) (t t' : Token) : Prop where
  kind : t'.kind = t.kind
  value : t'.value = t.value
  place : link t.location t'.location

/-- The same complaint at places that go together. -/
structure Error.Like (link : Location → Location → Prop) (e e' : Error) : Prop where
  cause : e'.cause = e.cause
  place : link e.location e'.location

theorem Error.Like.eq {e e' : Error} (h : e.Like Eq e') : e' = e := by
  obtain ⟨cause, location⟩ := e
  obtain ⟨cause', location'⟩ := e'
  have hcause : cause' = cause := h.cause
  have hplace : location = location' := h.place
  rw [hcause, hplace]

namespace Comparison

/-- The coupling of tokens that read the same, and of like stores. -/
def coupling (C : Comparison) : Coupling where
  token := Token.Like C.link
  store := Store.Like C.link
  limit := C.limit
  limit' := C.limit'
  le := C.le

theorem link_of_place {C : Comparison} {l l' : Location} (h : C.coupling.Place l l') :
    C.link l l' := by
  cases h with
  | of ht => exact ht.place

instance (C : Comparison) : C.coupling.Lawful where
  kind_eq h := h.kind
  value_eq h _ := h.value
  siblings_eq h := h.siblings_eq
  number?_eq h := h.number?_eq
  type?_eq h := h.type?_eq
  literal?_eq h := h.literal?_eq
  declaration?_eq h := h.declaration?_eq
  append head node h := h.append head node
  add hl _ := Build.add_inStep (link_of_place hl) _
  -- no token has to stand where a missing return type stands
  addVoid hl := Build.add_inStep_of_near _ (.inr ⟨_, _, link_of_place hl, rfl, rfl⟩)
    (by simp [NodeKind.isType])
  duplicate h _ := Build.duplicate_inStep _ _ _ h
  addNamed ht _ := by
    rw [ht.token.value]
    exact Build.add_inStep ht.token.place _
  addLoop ht hname hassign hlower hupper low high body := by
    rw [Build.loopWithHeader_eq, Build.loopWithHeader_eq, hname.token.value, hassign.token.value]
    apply (Build.add_inStep hname.token.place _).bind
    intro variableNode
    apply (Build.add_inStep hassign.token.place _).bind
    intro assignNode
    apply (Build.add_inStep hlower.place _).bind
    intro lowerNode
    apply (Build.add_inStep hupper.place _).bind
    intro upperNode
    apply (Build.add_inStep hname.token.place _).bind
    intro declared
    apply (Build.add_inStep hname.token.place _).bind
    intro type
    apply (Build.add_inStep hname.token.place _).bind
    intro declaration
    exact Build.add_inStep ht.place _

end Comparison

/-! ### Coupled parsers -/

/-- What a parser may say about a token. -/
inductive Complaint where
  | misplaced
  | wanted (text : String)
  | malformed
  | tooDeep (limit : Nat)

/-- The error that a complaint about a token is. -/
def Complaint.about : Complaint → Token → Error
  | misplaced, t => ⟨.unexpectedToken t.value, t.location⟩
  | wanted text, t => ⟨.unexpectedTokenFor t.value text, t.location⟩
  | malformed, t => ⟨.malformedNumber t.value, t.location⟩
  | tooDeep limit, t => ⟨.nestingTooDeep limit, t.location⟩

/-- The same complaint about tokens that read the same. -/
theorem Token.Like.about {link : Location → Location → Prop} {t t' : Token} (h : t.Like link t')
    (complaint : Complaint) : (complaint.about t).Like link (complaint.about t') := by
  cases complaint with
  | misplaced => exact ⟨congrArg Cause.unexpectedToken h.value, h.place⟩
  | wanted text => exact ⟨congrArg (Cause.unexpectedTokenFor · text) h.value, h.place⟩
  | malformed => exact ⟨congrArg Cause.malformedNumber h.value, h.place⟩
  | tooDeep limit => exact ⟨rfl, h.place⟩

/-- Parsers that have read as much and made trees that go together. -/
structure Parser.Like (C : Coupling) (p p' : Parser) : Prop where
  current : C.token p.stream.current p'.stream.current
  rest : List.Forall₂ C.token p.stream.rest p'.stream.rest
  store : C.store p.store p'.store
  tables : p'.tables = p.tables
  depth : p'.depth = p.depth
  limit : p.limit = C.limit
  limit' : p'.limit = C.limit'

open Coupling

variable {C : Coupling}

namespace Parser.Like

variable {p p' : Parser}

theorem remaining (h : p.Like C p') : p'.remaining = p.remaining := h.rest.length_eq.symm

theorem kind [C.Lawful] (h : p.Like C p') : p'.stream.current.kind = p.stream.current.kind :=
  Lawful.kind_eq h.current

theorem peek [C.Lawful] (h : p.Like C p') :
    (p'.stream.peek 1).kind = (p.stream.peek 1).kind := by
  obtain ⟨⟨t, rest⟩, store, tables, depth, limit⟩ := p
  obtain ⟨⟨t', rest'⟩, store', tables', depth', limit'⟩ := p'
  cases h.rest with
  | nil => exact h.kind
  | cons ht _ => exact Lawful.kind_eq ht

theorem advance (h : p.Like C p') :
    Parser.Like C { p with stream := p.stream.advance }
      { p' with stream := p'.stream.advance } := by
  obtain ⟨⟨t, rest⟩, store, tables, depth, limit⟩ := p
  obtain ⟨⟨t', rest'⟩, store', tables', depth', limit'⟩ := p'
  cases h.rest with
  | nil => exact h
  | cons ht hrest => exact ⟨ht, hrest, h.store, h.tables, h.depth, h.limit, h.limit'⟩

end Parser.Like

namespace Parse

/-- How two runs may end: with results in the relation `R`, with the same complaint about tokens
that go together, or, where the second has more levels, with the complaint of the first that there
are too many. -/
inductive Outcomes (C : Coupling) (R : α → α → Prop) :
    EStateM.Result Error Parser α → EStateM.Result Error Parser α → Prop
  | ok {a a' : α} {p p' : Parser} (hR : R a a') (hp : p.Like C p') :
    Outcomes C R (.ok a p) (.ok a' p')
  | error {t t' : Token} {p p' : Parser} (complaint : Complaint) (ht : C.token t t') :
    Outcomes C R (.error (complaint.about t) p) (.error (complaint.about t') p')
  | cut {e : Error} {p : Parser} {r' : EStateM.Result Error Parser α} (hlt : C.limit < C.limit')
    (he : e.cause = .nestingTooDeep C.limit) : Outcomes C R (.error e p) r'

/-- Actions that, from parsers that are alike, end alike. -/
def InStep (C : Coupling) (R : α → α → Prop) (x x' : Parse α) : Prop :=
  ∀ p p', p.Like C p' → Outcomes C R (x p) (x' p')

variable {R : α → α → Prop} {S : β → β → Prop}

namespace InStep

theorem pure {a a' : α} (h : R a a') : InStep C R (pure a) (pure a') :=
  fun _ _ hp => .ok h hp

variable {x x' : Parse α} {f f' : α → Parse β}

theorem bind (hx : InStep C R x x')
    (hf : ∀ a a', R a a' → InStep C S (f a) (f' a')) : InStep C S (x >>= f) (x' >>= f') := by
  intro p p' hp
  have hrun := hx p p' hp
  generalize hr : x p = r, hr' : x' p' = r' at hrun
  cases hrun with
  | ok hR hp1 =>
    rw [bind_ok hr, bind_ok hr']
    exact hf _ _ hR _ _ hp1
  | error complaint ht =>
    rw [bind_error hr, bind_error hr']
    exact .error complaint ht
  | cut hlt he =>
    rw [bind_error hr]
    exact .cut hlt he

theorem skip {y y' : Parse β} (hx : InStep C R x x') (hy : InStep C S y y') :
    InStep C S (x >>= fun _ => y) (x' >>= fun _ => y') :=
  hx.bind fun _ _ _ => hy

theorem same (hx : InStep C Eq x x')
    (hf : ∀ a, InStep C S (f a) (f' a)) : InStep C S (x >>= f) (x' >>= f') :=
  hx.bind fun a _ h => h ▸ hf a

theorem map {f : α → β} (hx : InStep C R x x')
    (hf : ∀ a a', R a a' → S (f a) (f a')) : InStep C S (f <$> x) (f <$> x') := by
  rw [map_eq_pure_bind, map_eq_pure_bind]
  exact hx.bind fun a a' h => .pure (hf a a' h)

theorem unexpected (wanted : String) :
    InStep C R (Parse.fail (·.unexpected wanted)) (Parse.fail (·.unexpected wanted)) :=
  fun _ _ hp => .error (.wanted wanted) hp.current

theorem misplaced : InStep C R (Parse.fail Parser.misplaced) (Parse.fail Parser.misplaced) :=
  fun _ _ hp => .error .misplaced hp.current

theorem build {b b' : Build α} (hb : Build.InStep C.store b b') :
    InStep C Eq (build b) (build b') := by
  intro p p' hp
  obtain ⟨ha, hs⟩ := hb p.store p'.store hp.store
  exact .ok ha.symm
    ⟨hp.current, hp.rest, hs, hp.tables, hp.depth, hp.limit, hp.limit'⟩

end InStep

/-! ### Looking at tokens and taking them -/

theorem current_inStep : InStep C C.token current current :=
  fun _ _ hp => .ok hp.current hp

theorem location_inStep : InStep C C.Place location location :=
  fun _ _ hp => .ok (.of hp.current) hp

theorem advance_inStep : InStep C C.token advance advance :=
  fun _ _ hp => .ok hp.current hp.advance

variable [C.Lawful]

theorem currentKind_inStep : InStep C Eq currentKind currentKind :=
  fun _ _ hp => .ok hp.kind.symm hp

theorem nextKind_inStep : InStep C Eq nextKind nextKind :=
  fun _ _ hp => .ok hp.peek.symm hp

theorem expectOr_inStep (kind : TokenKind) {complaint : Parser → Error}
    (h : InStep C (C.TokenOf kind) (fail complaint) (fail complaint)) :
    InStep C (C.TokenOf kind) (expectOr kind complaint) (expectOr kind complaint) := by
  intro p p' hp
  unfold expectOr
  rw [hp.kind]
  by_cases hk : p.stream.current.kind = kind
  · rw [if_pos hk, if_pos hk]
    exact .ok ⟨hp.current, hk⟩ hp.advance
  · rw [if_neg hk, if_neg hk]
    exact h p p' hp

theorem expect_inStep (kind : TokenKind) :
    InStep C (C.TokenOf kind) (expect kind) (expect kind) :=
  expectOr_inStep kind .misplaced

theorem expectFor_inStep (kind : TokenKind) (wanted : String) :
    InStep C (C.TokenOf kind) (expectFor kind wanted) (expectFor kind wanted) :=
  expectOr_inStep kind (.unexpected wanted)

theorem accept?_inStep (kind : TokenKind) :
    InStep C (Option.Rel C.token) (accept? kind) (accept? kind) := by
  intro p p' hp
  unfold accept?
  rw [hp.kind]
  by_cases hk : p.stream.current.kind = kind
  · rw [if_pos hk, if_pos hk]
    exact .ok (.some hp.current) hp.advance
  · rw [if_neg hk, if_neg hk]
    exact .ok .none hp

/-! ### Lists -/

theorem manyUpTo_inStep {more : TokenKind → Bool} (h : InStep C Eq element element') (n : Nat)
    (list : Option NodeId) :
    InStep C Eq (manyUpTo more element n list) (manyUpTo more element' n list) := by
  induction n generalizing list with
  | zero => exact .pure rfl
  | succ n ih =>
    apply currentKind_inStep.same
    intro kind
    cases more kind with
    | false => exact .pure rfl
    | true =>
      apply h.same
      intro node
      apply (InStep.build (Build.appendTo_coupled list node)).bind
      rintro head _ rfl
      exact ih (some head)

theorem many_inStep (more : TokenKind → Bool) (h : InStep C Eq element element')
    (list : Option NodeId) : InStep C Eq (many more element list) (many more element' list) := by
  intro p p' hp
  unfold many
  rw [hp.remaining]
  exact manyUpTo_inStep h _ list p p' hp

theorem separated_inStep {first first' : Parse NodeId} (separator : TokenKind)
    (hf : InStep C Eq first first') (he : InStep C Eq element element') :
    InStep C Eq (separated separator first element) (separated separator first' element') := by
  apply hf.same
  intro head
  have hitem : InStep C Eq (advance >>= fun _ => element) (advance >>= fun _ => element') :=
    advance_inStep.bind fun _ _ _ => he
  apply (many_inStep _ hitem (some head)).skip
  exact .pure rfl

/-! ### Literals and types -/

section Literals

variable {t t' : Token} (h : C.token t t')

include h

theorem integer_inStep (hk : t.kind ≠ .identifier) : InStep C Eq (integer t) (integer t') := by
  intro p p' hp
  unfold integer wordOf
  cases hvalue : wordOfText? t.value with
  | some value =>
    rw [Lawful.value_eq h hk, hvalue]
    exact .ok rfl hp
  | none =>
    have hvalue' : wordOfText? t'.value = none := by rw [Lawful.value_eq h hk, hvalue]
    rw [hvalue']
    exact .error .malformed h

theorem real_inStep (hk : t.kind ≠ .identifier) : InStep C Eq (real t) (real t') := by
  intro p p' hp
  unfold real
  cases hvalue : Binary64.ofText? t.value with
  | some value =>
    rw [Lawful.value_eq h hk, hvalue]
    exact .ok rfl hp
  | none =>
    have hvalue' : Binary64.ofText? t'.value = none := by rw [Lawful.value_eq h hk, hvalue]
    rw [hvalue']
    exact .error .malformed h

theorem literalValue_inStep (negative : Bool) :
    InStep C Eq (literalValue t negative) (literalValue t' negative) := by
  unfold literalValue
  rw [Lawful.kind_eq h]
  split
  next hk =>
    apply (integer_inStep h (by simp [hk])).same
    intro value
    exact .pure rfl
  next hk =>
    apply (real_inStep h (by simp [hk])).same
    intro value
    exact .pure rfl
  next hk => exact .pure (congrArg LiteralValue.string (Lawful.value_eq h (by simp [hk])).symm)
  · exact .pure rfl
  · exact .pure rfl
  · exact .unexpected _

end Literals

theorem literal_inStep {minus minus' : Option Token} (h : Option.Rel C.token minus minus') :
    InStep C Eq (literal minus) (literal minus') := by
  apply current_inStep.bind
  intro t t' ht
  have hsome : minus'.isSome = minus.isSome := by cases h <;> rfl
  have hplace : C.Place (minus.getD t).location (minus'.getD t').location := by
    cases h with
    | none => exact .of ht
    | some hm => exact .of hm
  rw [hsome]
  apply (literalValue_inStep ht minus.isSome).same
  intro value
  apply (InStep.build (Lawful.add hplace rfl)).bind
  rintro node _ rfl
  apply advance_inStep.skip
  exact .pure rfl

theorem literalExpr_inStep : InStep C Eq literalExpr literalExpr := by
  apply location_inStep.bind
  intro place place' hplace
  apply (literal_inStep .none).same
  intro value
  exact .build (Lawful.add hplace rfl)

theorem scalarType_inStep : InStep C Eq scalarType scalarType := by
  apply currentKind_inStep.same
  intro kind
  cases scalarOf? kind with
  | none => exact .unexpected _
  | some scalar =>
    apply advance_inStep.bind
    intro t t' ht
    exact .build (Lawful.add (.of ht) rfl)

theorem dimension_inStep : InStep C Eq dimension dimension := by
  apply advance_inStep.skip
  apply (expectFor_inStep _ _).bind
  intro size size' hsize
  apply (integer_inStep hsize.token (by simp [hsize.kind])).same
  intro value
  apply (expectFor_inStep _ _).skip
  exact .build (Lawful.add hsize.place rfl)

theorem arrayType_inStep : InStep C Eq arrayType arrayType := by
  apply location_inStep.bind
  intro place place' hplace
  apply (many_inStep _ dimension_inStep none).same
  intro dimensions
  apply currentKind_inStep.bind
  rintro kind _ rfl
  cases scalarOf? kind with
  | none => exact .unexpected _
  | some scalar =>
    apply advance_inStep.skip
    cases dimensions with
    | none => exact .unexpected _
    | some first => exact .build (Build.arrayType_coupled hplace first scalar)

/-! ### Declarations and functions -/

theorem declaredName_inStep (wanted : String) :
    InStep C Eq (declaredName wanted) (declaredName wanted) := by
  apply (expectFor_inStep _ _).bind
  intro t t' ht
  exact .build (Lawful.addNamed ht .name)

theorem nameList_inStep : InStep C Eq nameList nameList :=
  separated_inStep _ (declaredName_inStep _) (declaredName_inStep _)

section Typed

variable {type type' : Parse NodeId} (ht : InStep C Eq type type')

include ht

theorem declared_inStep {place place' : Location} (hplace : C.Place place place')
    (names : NodeId) : InStep C Eq (declared type place names) (declared type' place' names) := by
  have hvar : InStep C Eq
      (type >>= fun node => build (Build.declaration place names node .var))
      (type' >>= fun node => build (Build.declaration place' names node .var)) := by
    apply ht.same
    intro node
    exact .build (Lawful.add hplace rfl)
  have hconstant : InStep C Eq
      (do
        let minus ← accept? .dash
        let node ← literal minus
        build (Build.constant place names node))
      (do
        let minus ← accept? .dash
        let node ← literal minus
        build (Build.constant place' names node)) := by
    apply (accept?_inStep _).bind
    intro minus minus' hminus
    apply (literal_inStep hminus).same
    intro node
    exact .build (Build.constant_coupled hplace names node)
  intro p p' hp
  unfold declared
  rw [hp.tables, hp.kind]
  by_cases hk : (p.tables.type p.stream.current.kind).isSome = true
  · rw [if_pos hk, if_pos hk]
    exact hvar p p' hp
  · rw [if_neg hk, if_neg hk]
    exact hconstant p p' hp

theorem declaration_inStep : InStep C Eq (declaration type) (declaration type') := by
  apply (expect_inStep _).bind
  intro t t' htoken
  apply nameList_inStep.same
  intro names
  apply (expectFor_inStep _ _).skip
  apply (declared_inStep ht htoken.place names).same
  intro node
  apply (expect_inStep _).skip
  exact .pure rfl

theorem declarations_inStep : InStep C Eq (declarations type) (declarations type') :=
  many_inStep _ (declaration_inStep ht) none

theorem parameter_inStep : InStep C Eq (parameter type) (parameter type') := by
  apply location_inStep.bind
  intro place place' hplace
  apply nameList_inStep.same
  intro names
  apply (expectFor_inStep _ _).skip
  apply ht.same
  intro node
  exact .build (Lawful.add hplace rfl)

theorem parameters_inStep : InStep C Eq (parameters type) (parameters type') := by
  apply currentKind_inStep.same
  intro kind
  split
  · exact .pure rfl
  · have hlist := separated_inStep .semicolon (parameter_inStep ht) (parameter_inStep ht)
    exact hlist.map fun a _ h => congrArg some h

omit ht in
theorem returnType_inStep : InStep C Eq returnType returnType := by
  apply (accept?_inStep _).bind
  intro colon colon' h
  cases h with
  | none => exact .pure rfl
  | some _ => exact scalarType_inStep.map fun _ _ h => congrArg some h

variable {compound compound' : Parse NodeId}

omit ht in
theorem functionBody_inStep
    (hc : InStep C Eq compound compound') :
    InStep C Eq (functionBody compound) (functionBody compound') := by
  apply (accept?_inStep _).bind
  intro semicolon semicolon' h
  cases h with
  | some _ => exact .pure rfl
  | none =>
    apply hc.same
    intro body
    apply (expectFor_inStep _ _).skip
    exact .pure rfl

theorem function_inStep
    (hc : InStep C Eq compound compound') :
    InStep C Eq (function type compound) (function type' compound') := by
  apply (expect_inStep _).bind
  intro name name' hname
  apply (expectFor_inStep _ _).skip
  apply (parameters_inStep ht).same
  intro list
  apply (expectFor_inStep _ _).skip
  apply returnType_inStep.same
  intro result
  apply (functionBody_inStep hc).bind
  rintro body _ rfl
  exact .build (Build.function_coupled hname list result body)

end Typed

end Parse

end PLang
