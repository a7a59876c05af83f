import PLang.Proofs.Parsing.Program
import PLang.Proofs.ValidPrefix.Following

/-!
# The rules take words of the grammar

One lemma for every rule of the parser: it takes the words of its rule in the grammar. A construct
one level further down starts after a token of the one around it, so that a parser with a nesting
level for every token left never runs out of them.
-/

namespace PLang

open Syntax Grammar Grammar.Phrase List Parse

/-- The phrase of a construct. -/
def Nested.phrase : Nested → Phrase
  | .expression _ => name .expression
  | .statement => name .statement

/-- Expressions and statements one nesting level further down take words of the grammar. -/
def NestedFollows (d l l' : Nat) (nested nested' : Nested → Parse NodeId) : Prop :=
  ∀ (construct : Nested) {b n : Nat} {p p' : Parser}, p.Agrees d l l' (b + 1) n p' →
    Follows [] d l l' n (Derives construct.phrase) Any p p' (nested construct) (nested' construct)

/-- Looking one token ahead is looking at the current token after this one. -/
theorem TokenStream.peek_one (s : TokenStream) : s.peek 1 = s.advance.current := by
  obtain ⟨current, rest⟩ := s
  cases rest <;> rfl

variable {L : List TokenKind → Prop}

namespace Parse

variable {d l l' b n : Nat} {p p' : Parser}

section

variable (hp : p.Agrees d l l' b n p') (nested nested' : Nested → Parse NodeId)

/-! ### Types -/

theorem mem_scalarKinds {kind : TokenKind} {s : ScalarType} (h : scalarOf? kind = some s) :
    kind ∈ scalarKinds := by
  cases kind <;> first | decide | cases h

theorem scalarType_follows : hp.Takes (oneOf scalarKinds) scalarType scalarType := by
  refine .lookKind hp ?_
  cases hs : scalarOf? p.stream.current.kind with
  | none =>
    exact .fail (p.unexpected_blames _) (cons_ne_nil .integerWord []) (.oneOf (by decide))
  | some s =>
    exact .andQuiet hp (.take hp (mem_scalarKinds hs) (by decide)) fun hp1 _ =>
      .build hp1 rfl

theorem dimension_follows (hk : (p.stream.current.kind == TokenKind.arrayWord) = true) :
    hp.Takes Grammar.dimension dimension dimension := by
  refine .tokenThen hp (.advance hp (eq_of_beq hk) rfl) fun hp1 _ => ?_
  refine .integerThen hp1 fun hp2 => ?_
  exact .tokenThen hp2 (.expectFor hp2 rfl) fun hp3 _ => .build hp3 .nil

theorem arrayType_follows
    (hk : p.stream.current.kind = .arrayWord) : hp.Takes (name .type) arrayType arrayType := by
  refine .name (.look rfl rfl ?_)
  refine .andThen hp (.many (.token_sequence _) (fun _ _ _ hq hk => dimension_follows hq hk) hp rfl)
    fun {_ _ _ p1 _} hp1 hfound => ?_
  obtain ⟨hsome, hsome'⟩ := hfound.2 (.inr (beq_iff_eq.2 hk))
  obtain ⟨first, rfl⟩ := Option.isSome_iff_exists.1 hsome
  obtain ⟨first', rfl⟩ := Option.isSome_iff_exists.1 hsome'
  refine .last (.lookKind hp1 ?_)
  cases hs : scalarOf? p1.stream.current.kind with
  | none =>
    exact .fail (p1.unexpected_blames _) (cons_ne_nil .integerWord []) (.oneOf (by decide))
  | some s =>
    exact .andQuiet hp1 (.take hp1 (mem_scalarKinds hs) (by decide)) fun hp2 _ =>
      .build hp2 rfl

theorem type_follows : hp.Takes (name .type) (type nested) (type nested') := by
  refine .ofRun _ _ (type_eq hp.left nested) (fun hn =>
    (hp.current hn).kind ▸ type_eq (hp.right hn) nested') ?_
  cases hk : p.stream.current.kind with
  | arrayWord => exact arrayType_follows hp hk
  | integerWord | realWord | booleanWord | stringWord =>
    exact (scalarType_follows hp).widen fun w hw => .name (.cons .stop (derives_last hw))
  | _ => exact .fail p.misplaced_blames (cons_ne_nil _ _) derives_type

/-! ### Declarations -/

theorem declaredName_follows (wanted : String) :
    hp.Takes (token .identifier) (declaredName wanted) (declaredName wanted) :=
  .andQuiet hp (.expectFor hp rfl) fun hp1 _ => .build hp1 rfl

theorem nameList_follows : hp.Takes (name .names) nameList nameList :=
  .name (.separated (by decide) hp (declaredName_follows hp _) fun _ _ _ hq =>
    declaredName_follows hq _)

/-- The kinds of the literals, which are only numbers behind a sign. -/
def literalKindsAfter (negative : Bool) : List TokenKind :=
  if negative then numberKinds else literalKinds

/-- Where there is no literal, a number cannot be read or the token is of a wrong kind. -/
theorem literalValue_error {t : Token} {negative : Bool} (q : Parser)
    (h : Reading.literalOf? t negative = none) :
    (literalValue t negative q = .error ⟨.malformedNumber t.value, t.location⟩ q ∧
      t.kind ∈ literalKindsAfter negative) ∨
    (literalValue t negative q = .error (q.unexpected "expected literal constant") q ∧
      t.kind ∉ literalKindsAfter negative) := by
  obtain ⟨kind, value, span⟩ := t
  cases kind with
  | integer =>
    have hnone : wordOfText? value = none := by simpa [Reading.literalOf?] using h
    have hrun : integer ⟨.integer, value, span⟩ q =
      .error ⟨.malformedNumber value, span.start⟩ q := by
      rw [integer, wordOf, hnone]
      rfl
    exact .inl ⟨bind_error hrun, by cases negative <;> exact (.head _)⟩
  | real =>
    have hnone : Binary64.ofText? value = none := by simpa [Reading.literalOf?] using h
    have hrun : real ⟨.real, value, span⟩ q = .error ⟨.malformedNumber value, span.start⟩ q := by
      rw [real, hnone]
      rfl
    exact .inl
      ⟨bind_error hrun, by cases negative <;> simp [literalKindsAfter, literalKinds, numberKinds]⟩
  | _ =>
    cases negative <;> first
      | exact .inr ⟨rfl, by simp [literalKindsAfter, literalKinds, numberKinds]⟩
      | cases h

theorem literal_follows (minus minus' : Option Token) (hminus : minus'.isSome = minus.isSome) :
    hp.Takes (oneOf (literalKindsAfter minus.isSome)) (literal minus) (literal minus') := by
  refine .look rfl rfl ?_
  rw [hminus]
  have hfits := hp.current
  generalize minus.isSome = negative
  have hsome := literalOf?_isSome p.stream.current negative
  cases hv : Reading.literalOf? p.stream.current negative with
  | none =>
    rcases literalValue_error p hv with ⟨hrun, hkind⟩ | ⟨hrun, hkind⟩
    · have hunread : ¬Readable p.stream.current := by
        intro hread
        rw [hv] at hsome
        cases hsome.2 ⟨hkind, hread⟩
      exact .malformed [] p.stream.rest (bind_error hrun) rfl (.first hunread) (.oneOf hkind)
        prefix_rfl
    · refine .complaint [] [.integer] (bind_error hrun) rfl (p.unexpected_blames _)
        (cons_ne_nil _ _) (.oneOf (by cases negative <;> decide)) fun hn => ?_
      have hnone : Reading.literalOf? p'.stream.current negative = none := by
        rw [← Option.not_isSome_iff_eq_none, literalOf?_isSome, (hfits hn).kind]
        exact fun h => hkind h.1
      rcases literalValue_error p' hnone with ⟨hrun', -⟩ | ⟨hrun', -⟩
      · exact ⟨_, _, bind_error hrun'⟩
      · exact ⟨_, _, bind_error hrun'⟩
  | some v =>
    obtain ⟨hkind, hreadable⟩ := hsome.1 (by rw [hv]; rfl)
    have hright : 0 < n → literalValue p'.stream.current negative p' =
        .ok ((Reading.literalOf? p'.stream.current negative).getD v) p' := by
      intro hn
      obtain ⟨v', hv'⟩ := Option.isSome_iff_exists.1
        ((literalOf?_isSome p'.stream.current negative).2
        ⟨(hfits hn).kind ▸ hkind, (hfits hn).readable hreadable⟩)
      rw [hv']
      exact (literalValue_eq _ _ p').1 v' hv'
    refine .ofRun _ _ (bind_ok ((literalValue_eq _ _ p).1 v hv)) (fun hn => bind_ok (hright hn)) ?_
    have hapart : ∀ k ∈ literalKindsAfter negative, k ≠ .endOfFile ∧ k ≠ .forWord := by
      cases negative <;> decide
    obtain ⟨hend, hfor⟩ := hapart _ hkind
    refine .build_bind (.andQuiet (hp.withStores _ _) (.taken (hp.withStores _ _) hkind hend
      (.single hreadable hfor)) fun hp1 _ => .pure hp1 rfl trivial trivial)

/-- What a declaration declares its names as. -/
def declaredPhrase : Phrase :=
  choice [name .type, oneOf literalKinds, sequence [token .dash, oneOf numberKinds]]

theorem declared_follows (place place' : Location) (names names' : NodeId) :
    hp.Takes declaredPhrase (declared (type nested) place names)
      (declared (type nested') place' names') := by
  have htable : 0 < n → p'.tables.type p'.stream.current.kind =
      p.tables.type p.stream.current.kind := by
    intro hn
    rw [hp.left.tables, (hp.right hn).tables, (hp.current hn).kind]
  by_cases htype : (p.tables.type p.stream.current.kind).isSome
  · refine .ofRun _ _ (if_pos htype) (fun hn => if_pos ((htable hn).symm ▸ htype)) ?_
    refine .andQuiet hp (.widen (type_follows hp nested nested') fun w hw => ?_) fun hp1 _ =>
      .build hp1 rfl
    exact .choice (.head _) hw
  · refine .ofRun _ _ (if_neg htype) (fun hn => if_neg ((htable hn).symm ▸ htype)) ?_
    refine .accept hp (fun hk => ?_) fun _ => ?_
    · have hnumber : hp.Takes (sequence [token .dash, oneOf numberKinds])
          (advance >>= fun t => do
            let node ← literal (some t)
            build (Build.constant place names node))
          (advance >>= fun t => do
            let node ← literal (some t)
            build (Build.constant place' names' node)) := by
        refine .tokenThen hp (.advance hp hk rfl) fun hp1 _ => .last ?_
        exact .andQuiet hp1 (literal_follows hp1 (some _) (some _) rfl) fun hp2 _ => .build hp2 rfl
      exact hnumber.widen fun w hw => .choice (by simp) hw
    · refine .andQuiet hp (.widen (literal_follows hp none none rfl) fun w hw => ?_) fun hp1 _ =>
        .build hp1 rfl
      exact .choice (.tail _ (.head _)) hw

theorem declaration_follows :
    hp.Takes (name .declaration) (declaration (type nested)) (declaration (type nested')) := by
  refine .name (.tokenThen hp (.expect hp rfl) fun hp1 _ => ?_)
  refine .andThen hp1 (nameList_follows hp1) fun hp2 _ => ?_
  refine .tokenThen hp2 (.expectFor hp2 rfl) fun hp3 _ => ?_
  refine .andThen hp3 (declared_follows hp3 nested nested' _ _ _ _) fun hp4 _ => ?_
  exact .tokenThen hp4 (.expect hp4 rfl) fun hp5 _ => .done hp5

theorem declarations_follows :
    hp.Takes (Phrase.many (name .declaration)) (declarations (type nested))
      (declarations (type nested')) :=
  .mono (.many starts_declaration (fun _ _ _ hq _ => declaration_follows hq nested nested') hp rfl)
    (fun _ => id) fun _ _ _ _ => trivial

/-! ### Functions -/

theorem parameter_follows :
    hp.Takes (name .parameter) (parameter (type nested)) (parameter (type nested')) := by
  refine .name (.look rfl rfl (.andThen hp (nameList_follows hp) fun hp1 _ => ?_))
  refine .tokenThen hp1 (.expectFor hp1 rfl) fun hp2 _ => .last ?_
  exact .andQuiet hp2 (type_follows hp2 nested nested') fun hp3 _ => .build hp3 rfl

/-- Elements up to a closing parenthesis, if there are any. -/
theorem untilParen_follows {separator : TokenKind} {element element' : Parse NodeId} {r : Phrase}
    [r.Productive] (hseparator : separator.isPlain = true)
    (helement : ∀ n q q', q.Agrees d l l' b n q' → Follows [] d l l' n (Derives r) Any q q'
      element element') :
    hp.Takes (optional (Phrase.separated separator r))
      (do if (← currentKind) = .closeParen then pure none
          else some <$> separated separator element element)
      (do if (← currentKind) = .closeParen then pure none
          else some <$> separated separator element' element') := by
  refine .lookKind hp (.ite (fun _ => ?_) fun _ => ?_)
  · exact .pure hp .none trivial trivial
  · exact .widen (.map (.separated hseparator hp (helement n p p' hp) helement)) fun _ => .some

theorem returnType_follows :
    hp.Takes (optional (sequence [token .colon, oneOf scalarKinds])) returnType returnType := by
  refine .accept hp (fun hk => .widen ?_ fun _ => .some) fun _ => .pure hp .none trivial trivial
  exact .tokenThen hp (.advance hp hk rfl) fun hp1 _ =>
    .last (.map (scalarType_follows hp1))

variable {compound compound' : Parse NodeId}

theorem functionBody_follows
    (hcompound : hp.Takes (name .block) compound compound') :
    hp.Takes (choice [token .semicolon, sequence [name .block, token .endWord]])
      (functionBody compound) (functionBody compound') := by
  refine .accept hp (fun hk => ?_) fun _ => ?_
  · refine .andQuiet hp (.widen (.advance hp hk rfl) fun w hw => ?_) fun hp1 _ =>
      .pure hp1 rfl trivial trivial
    exact .choice (.head _) hw
  · refine .widen (.andThen hp hcompound fun hp1 _ => ?_) fun w hw =>
      .choice (.tail _ (.head _)) hw
    exact .tokenThen hp1 (.expectFor hp1 rfl) fun hp2 _ => .done hp2

theorem function_follows
    (hcompound : ∀ {n : Nat} {q q' : Parser}, q.Agrees d l l' b n q' →
      Follows [] d l l' n (Derives (name .block)) Any q q' compound compound') :
    hp.Takes (name .function) (function (type nested) compound)
      (function (type nested') compound') := by
  refine .name (.tokenThen hp (.expect hp rfl) fun hp1 _ => ?_)
  refine .tokenThen hp1 (.expectFor hp1 rfl) fun hp2 _ => ?_
  refine .andThen hp2 (untilParen_follows hp2 (by decide) fun _ _ _ hq =>
    parameter_follows hq nested nested')
    fun hp3 _ => ?_
  refine .tokenThen hp3 (.expectFor hp3 rfl) fun hp4 _ => ?_
  refine .andThen hp4 (returnType_follows hp4) fun hp5 _ => .last ?_
  have hbody := hcompound (hp5.weaken (by omega))
  exact .andQuiet hp5 (functionBody_follows hp5 hbody) fun hp6 _ => .build hp6 rfl

end

/-! ### Expressions -/

section Nested

variable {nested nested' : Nested → Parse NodeId} (hN : NestedFollows d l l' nested nested')
  (hp : p.Agrees d l l' b n p')

theorem literalExpr_follows : hp.Takes (name .expression) literalExpr literalExpr :=
  .look rfl rfl (.andQuiet hp (.widen (literal_follows hp none none rfl) fun _ => derives_literal)
    fun hp1 _ => .build hp1 rfl)

include hN

theorem subscript_follows (hk : (p.stream.current.kind == TokenKind.openBracket) = true) :
    hp.Takes Grammar.subscript (subscript nested) (subscript nested') := by
  refine .tokenThen hp (.advance hp (eq_of_beq hk) rfl) fun hp1 _ => ?_
  refine .andThen hp1 (hN (.expression .default) hp1) fun hp2 _ => ?_
  exact .tokenThen hp2 (.expect hp2 rfl) fun hp3 _ => .done hp3

/-- What comes behind the name of a variable. -/
def referenceTail (nested : Nested → Parse NodeId) (name : Token) : Parse NodeId := do
  let indices ← many (· == .openBracket) (subscript nested) none
  build (Build.reference name.location name.value indices)

theorem referenceTail_follows (name name' : Token) :
    hp.Takes (Phrase.many Grammar.subscript) (referenceTail nested name)
      (referenceTail nested' name') :=
  .andQuiet hp (.many (.token_sequence _) (fun _ _ _ hq hk => subscript_follows hN hq hk) hp rfl)
    fun hp1 _ => .build hp1 rfl

theorem reference_follows : hp.Takes (name .reference) (reference nested) (reference nested') :=
  .name (.tokenThen hp (.expectFor hp rfl) fun {t t' _ _ _} hp1 _ =>
    .last (referenceTail_follows hN hp1 t t'))

/-- What comes behind the name of a function in a call. -/
def callTail (nested : Nested → Parse NodeId) (name : Token) : Parse NodeId := do
  let _ ← expect .openParen
  let list ← arguments nested
  let _ ← expectFor .closeParen "expected ')' after arguments"
  build (Build.call name.location name.value list)

/-- The phrase of what comes behind the name of a function in a call. -/
def callTailPhrase : Phrase :=
  sequence [token .openParen, optional (Phrase.separated .comma (name .expression)),
    token .closeParen]

theorem callTail_follows (name name' : Token) :
    hp.Takes callTailPhrase (callTail nested name) (callTail nested' name') := by
  refine .tokenThen hp (.expect hp rfl) fun hp1 _ => ?_
  refine .andThen hp1 (untilParen_follows hp1 (by decide) fun _ _ _ hq =>
    hN (.expression .default) hq) fun hp2 _ => ?_
  exact .tokenThen hp2 (.expectFor hp2 rfl) fun hp3 _ => .build hp3 .nil

omit hN

variable {F G : NodeId → Parse NodeId}

/-- The name is taken first, whether it is called or not. -/
theorem callOr_eq (hk : p.stream.current.kind = .identifier) :
    (do if (← nextKind) = .openParen then call nested >>= F else reference nested >>= G :
      Parse NodeId) p =
    (do let name ← advance
        if (← currentKind) = .openParen then callTail nested name >>= F
        else referenceTail nested name >>= G : Parse NodeId) p := by
  have hnext : nextKind p = .ok p.stream.advance.current.kind p := by
    rw [nextKind, TokenStream.peek_one]
  have hadvance : advance p = .ok p.stream.current { p with stream := p.stream.advance } := rfl
  have hexpect : ∀ wanted, expectFor .identifier wanted p = advance p := fun wanted => if_pos hk
  have hkind : ∀ q : Parser, currentKind q = .ok q.stream.current.kind q := fun _ => rfl
  rw [bind_ok hnext, bind_ok hadvance, bind_ok (hkind _)]
  by_cases hopen : p.stream.advance.current.kind = .openParen
  · rw [if_pos hopen, if_pos hopen, call, bind_assoc, bind_ok ((hexpect _).trans hadvance)]
    rfl
  · rw [if_neg hopen, if_neg hopen, reference, bind_assoc, bind_ok ((hexpect _).trans hadvance)]
    rfl

include hp in
/-- A choice between a call and a variable is one between what can come behind a name. -/
theorem callOr_follows {F' G' : NodeId → Parse NodeId}
    (hk : p.stream.current.kind = .identifier)
    (hword : ∃ v, L (.identifier :: v))
    (hcall : ∀ t t' n p p', p.Agrees d l l' (b + 1) n p' →
      Follows [] d l l' n (fun v => L (.identifier :: v)) Any p p' (callTail nested t >>= F)
        (callTail nested' t' >>= F'))
    (hreference : ∀ t t' n p p', p.Agrees d l l' (b + 1) n p' →
      Follows [] d l l' n (fun v => L (.identifier :: v)) Any p p' (referenceTail nested t >>= G)
        (referenceTail nested' t' >>= G')) :
    Follows [] d l l' n L Any p p'
      (do if (← nextKind) = .openParen then call nested >>= F else reference nested >>= G)
      (do if (← nextKind) = .openParen then call nested' >>= F' else reference nested' >>= G') := by
  refine .ofRun _ _ (callOr_eq hk) (fun hn => callOr_eq ((hp.current hn).kind.trans hk)) ?_
  refine .tokenBind hp (.advance hp hk rfl) hword fun {t t' n1 p1 p1'} hp1 _ => ?_
  exact .lookKind hp1 (.ite (fun _ => hcall t t' n1 p1 p1' hp1) fun _ =>
    hreference t t' n1 p1 p1' hp1)

variable {w : List TokenKind}

theorem derives_call (h : Derives callTailPhrase w) :
    Derives (name .call) (.identifier :: w) := .name (.cons (derives_token _) h)

theorem derives_reference (h : Derives (Phrase.many Grammar.subscript) w) :
    Derives (name .reference) (.identifier :: w) :=
  .name (.cons (derives_token _) (derives_last h))

include hN

theorem symbolExpr_follows (hk : p.stream.current.kind = .identifier) :
    hp.Takes (name .expression) (symbolExpr nested) (symbolExpr nested') := by
  have hcall : ∀ w, Derives callTailPhrase w → Derives (name .expression) (.identifier :: w) :=
    fun w hw => derives_atom (.choice (by simp) (derives_call hw))
  have hreference : ∀ w, Derives (Phrase.many Grammar.subscript) w →
      Derives (name .expression) (.identifier :: w) :=
    fun w hw => derives_atom (.choice (by simp) (derives_reference hw))
  refine .look rfl rfl (callOr_follows hp hk ⟨[], hreference [] .stop⟩ (fun t t' _ _ _ hp1 => ?_)
    fun t t' _ _ _ hp1 => ?_)
  · exact .andQuiet hp1 (.widen (callTail_follows hN hp1 t t') hcall) fun hp2 _ =>
      .build hp2 rfl
  · exact .andQuiet hp1 (.widen (referenceTail_follows hN hp1 t t') hreference)
      fun hp2 _ => .build hp2 rfl

theorem groupingExpr_follows :
    hp.Takes (name .expression) (groupingExpr nested) (groupingExpr nested') := by
  refine .widen (.tokenThen hp (.expect hp rfl) fun hp1 _ => ?_)
    fun w hw => derives_atom (.choice (.head _) hw)
  refine .andThen hp1 (hN (.expression .default) hp1) fun hp2 _ => ?_
  exact .tokenThen hp2 (.expectFor hp2 rfl) fun hp3 _ => .done hp3

theorem unaryExpr_follows (o : UnaryOperator) (hk : p.stream.current.kind = o.kind) :
    hp.Takes (name .expression) (unaryExpr nested) (unaryExpr nested') := by
  have hunary : ∀ w, Derives (sequence [token o.kind, name .expression]) w →
      Derives (name .expression) w := by
    intro w hw
    cases o with
    | negate => exact .name (.choice (by simp [UnaryOperator.kind]) hw)
    | not => exact .name (.choice (by simp [UnaryOperator.kind]) hw)
  refine .widen (.tokenThen hp (.advance hp hk (by cases o <;> decide))
    fun {t t' _ _ _} hp1 ht => ?_)
    hunary
  rw [ht.2.kind]
  exact .last (.andQuiet hp1 (hN (.expression _) hp1) fun hp2 _ => .build hp2 rfl)

/-! ### Operators -/

theorem binaryExpr_follows (left left' : NodeId) (power : BindingPower)
    (hk : p.stream.current.kind ∈ binaryKinds) :
    hp.Takes (sequence [oneOf binaryKinds, name .expression]) (binaryExpr nested left power)
      (binaryExpr nested' left' power) := by
  refine .tokenThen hp (.take hp hk (by decide)) fun {t t' _ _ _} hp1 ht => ?_
  rw [ht.2.kind]
  obtain ⟨o, ho⟩ := Option.isSome_iff_exists.1 ((ofKind?_isSome t.kind).2 ht.1)
  rw [BinaryOperator.binaryOperator?_eq, ho]
  exact .last (.andQuiet hp1 (hN (.expression power) hp1) fun hp2 _ => .build hp2 rfl)

omit hN in
theorem operatorAbove?_eq (hp : p.Ready d l) (power : BindingPower) : operatorAbove? power p =
    .ok ((RuleTables.standardOperator p.stream.current.kind).filter (power.rank < ·.rank)) p := by
  rw [operatorAbove?, hp.tables]
  rfl

/-- Operators extend an expression to the right. Each takes a token, so that there are enough
rounds. -/
theorem operatorsUpTo_follows (power : BindingPower) (fuel : Nat) :
    ∀ (fuel' n : Nat) (p p' : Parser) (left left' : NodeId) (w : List TokenKind),
      p.Agrees d l l' b n p' → p.remaining < fuel → (0 < n → p'.remaining < fuel') →
      Derives (name .expression) w →
      Follows [] d l l' n (fun v => Derives (name .expression) (w ++ v)) Any p p'
        (operatorsUpTo nested power fuel left) (operatorsUpTo nested' power fuel' left') := by
  induction fuel with
  | zero => exact fun _ _ p _ _ _ _ _ hfuel => absurd hfuel (Nat.not_lt_zero _)
  | succ fuel ih =>
    intro fuel' n p p' left left' w hp hfuel hfuel' hw
    wlog hpos : 0 < fuel' generalizing fuel' n p' left'
    · obtain rfl : n = 0 := by
        by_contra hn
        exact hpos (Nat.zero_lt_of_lt (hfuel' (Nat.pos_of_ne_zero hn)))
      exact (this (fuel + 1) 0 p left (hp.left.alone hp.room) (fun _ => hfuel)
        (Nat.succ_pos fuel)).past
    obtain ⟨fuel', rfl⟩ := Nat.exists_eq_succ_of_ne_zero (Nat.ne_of_gt hpos)
    refine .ofRun _ _ (bind_ok (operatorAbove?_eq hp.left power)) (fun hn =>
      bind_ok ((hp.current hn).kind ▸ operatorAbove?_eq (hp.right hn) power)) ?_
    cases hnext : (RuleTables.standardOperator p.stream.current.kind).filter
      (power.rank < ·.rank) with
    | none =>
      refine .pure hp ?_ trivial trivial
      rwa [append_nil]
    | some next =>
      have hk : p.stream.current.kind ∈ binaryKinds := by
        rw [← ofKind?_isSome, ← Option.isSome_map, ← BinaryOperator.standardOperator_eq,
          (Option.filter_eq_some_iff.1 hnext).1]
        rfl
      have hstarts : (sequence [oneOf binaryKinds, name .expression]).Starts binaryKinds :=
        .sequence (.oneOf _)
      have hextend : ∀ v, Derives (sequence [oneOf binaryKinds, name .expression]) v →
          Derives (name .expression) (w ++ v) :=
        fun v hv => .name (.choice (.head _) (.cons hw hv))
      refine .bind (k := 1) hp (binaryExpr_follows hN hp left left' next hk)
        (fun v hv => hstarts.length_pos hv) (fun v hv => ⟨[], ?_⟩)
        fun c c' n1 p1 p1' v hv hp1 hremaining hremaining' _ => ?_
      · rw [append_nil]
        exact hextend v hv
      · have hrest := ih fuel' n1 p1 p1' c c' (w ++ v) (hp1.weaken (Nat.le_add_right b 1))
          (by omega) (fun hn => by have := hremaining' hn; have := hfuel' this.1; omega)
            (hextend v hv)
        exact hrest.widen fun u hu => by rwa [← append_assoc]

include hp in
theorem operators_follows (power : BindingPower) (left left' : NodeId)
    (hw : Derives (name .expression) w) :
    Follows [] d l l' n (fun v => Derives (name .expression) (w ++ v)) Any p p'
      (operators nested power left) (operators nested' power left') :=
  .ofRun (operatorsUpTo nested power (p.remaining + 1) left)
    (operatorsUpTo nested' power (p'.remaining + 1) left') rfl (fun _ => rfl)
    (operatorsUpTo_follows hN power _ _ n p p' left left' w hp (Nat.lt_succ_self _)
      (fun _ => Nat.lt_succ_self _) hw)

/-- The operand that the table finds for the first token. -/
theorem operand_follows {r : Rule}
    (hr : RuleTables.standardOperand p.stream.current.kind = some r) :
    hp.Takes (name .expression) (rule nested (type nested) r) (rule nested' (type nested') r) := by
  cases hk : p.stream.current.kind <;> rw [hk] at hr <;> cases hr
  case integer | real | string | trueWord | falseWord => exact literalExpr_follows hp
  case identifier => exact symbolExpr_follows hN hp hk
  case openParen => exact groupingExpr_follows hN hp
  case dash => exact unaryExpr_follows hN hp .negate hk
  case notWord => exact unaryExpr_follows hN hp .not hk

theorem expression_follows (power : BindingPower) :
    hp.Takes (name .expression) (expression nested power) (expression nested' power) := by
  refine .ofRun _ _ (expression_eq hp.left power) (fun hn =>
    (hp.current hn).kind ▸ expression_eq (hp.right hn) power) ?_
  cases hr : RuleTables.standardOperand p.stream.current.kind with
  | none => exact .fail (p.unexpected_blames _) (cons_ne_nil _ _) derives_expression
  | some r =>
    refine .bind (k := 0) hp (operand_follows hN hp hr) (fun _ _ => Nat.zero_le _)
      (fun w hw => ⟨[], ?_⟩) fun left left' _ _ _ w hw hp1 _ _ _ => ?_
    · rwa [append_nil]
    · exact operators_follows hN hp1 power left left' hw

/-! ### Statements -/

theorem blockStatement_follows (hp : p.Agrees d l l' (b + 1) n p') :
    hp.Takes (name .statement) (blockStatement nested) (blockStatement nested') := by
  refine .lookKind hp (.ite (fun _ => ?_) fun _ => hN .statement hp)
  exact .fail (p.unexpected_blames _) (cons_ne_nil _ _) derives_statement

theorem compound_follows :
    hp.Takes (name .block) (compound nested (type nested)) (compound nested' (type nested')) := by
  refine .name (.tokenThen hp (.expect hp rfl) fun hp1 _ => ?_)
  refine .andThen hp1 (declarations_follows hp1 nested nested') fun hp2 _ => ?_
  refine .andThen hp2
    (.many starts_statement (fun _ _ _ hq _ => blockStatement_follows hN hq) hp2 rfl)
    fun {_ _ _ p3 _} hp3 hend => ?_
  have hk : p3.stream.current.kind = .endWord := by simpa using hend.1
  exact .tokenThen hp3 (.advance hp3 hk rfl) fun hp4 _ => .build hp4 .nil

theorem print_follows (hk : p.stream.current.kind = .printWord) :
    hp.Takes Grammar.print (print nested) (print nested') := by
  refine .tokenThen hp (.advance hp hk rfl) fun hp1 _ => ?_
  refine .andThen hp1 (hN (.expression .default) hp1) fun hp2 _ => ?_
  exact .tokenThen hp2 (.expect hp2 rfl) fun hp3 _ => .build hp3 .nil

theorem read_follows (hk : p.stream.current.kind = .readWord) :
    hp.Takes Grammar.read (read nested) (read nested') := by
  refine .tokenThen hp (.advance hp hk rfl) fun hp1 _ => ?_
  refine .andThen hp1 (reference_follows hN hp1) fun hp2 _ => ?_
  exact .tokenThen hp2 (.expect hp2 rfl) fun hp3 _ => .build hp3 .nil

theorem elseBody_follows :
    hp.Takes (optional (sequence [token .elseWord, name .block])) (elseBody nested)
      (elseBody nested') := by
  refine .accept hp (fun hk => .widen ?_ fun _ => .some) fun _ => .pure hp .none trivial trivial
  exact .tokenThen hp (.advance hp hk rfl) fun hp1 _ =>
    .last (.map (compound_follows hN hp1))

/-- The end of a conditional statement. -/
def conditionEnd (place : Location) (guard thenBody : NodeId) (elseBody : Option NodeId) :
    Parse NodeId := do
  let _ ← expectFor .endWord "expected 'end if'"
  let _ ← expectFor .ifWord "expected 'end if'"
  build (Build.condition place guard thenBody elseBody)

theorem condition_follows (hk : p.stream.current.kind = .ifWord) :
    hp.Takes Grammar.condition (condition nested (type nested))
      (condition nested' (type nested')) := by
  refine .tokenThen hp (.advance hp hk rfl) fun {t t' _ _ _} hp1 _ => ?_
  refine .andThen hp1 (hN (.expression .default) hp1) fun {guard guard' _ _ _} hp2 _ => ?_
  refine .tokenThen hp2 (.expectFor hp2 rfl) fun hp3 _ => ?_
  refine .andThen hp3 (compound_follows hN hp3) fun {thenBody thenBody' _ p4 p4'} hp4 _ => ?_
  refine .ofRun (elseBody nested >>= conditionEnd t.location guard thenBody)
    (elseBody nested' >>= conditionEnd t'.location guard' thenBody') ?_ (fun _ => ?_) ?_
  · rw [elseBody, bind_assoc]
    exact congrFun (congrArg (accept? .elseWord >>= ·) (funext fun c => by cases c <;> rfl)) p4
  · rw [elseBody, bind_assoc]
    exact congrFun (congrArg (accept? .elseWord >>= ·) (funext fun c => by cases c <;> rfl)) p4'
  refine .andThen hp4 (elseBody_follows hN hp4) fun hp5 _ => ?_
  refine .tokenThen hp5 (.expectFor hp5 rfl) fun hp6 _ => ?_
  exact .tokenThen hp6 (.expectFor hp6 rfl) fun hp7 _ => .build hp7 .nil

theorem loopBody_follows :
    hp.Takes loopTail (loopBody nested (type nested)) (loopBody nested' (type nested')) := by
  refine .andThen hp (compound_follows hN hp) fun hp1 _ => ?_
  refine .tokenThen hp1 (.expectFor hp1 rfl) fun hp2 _ => ?_
  exact .tokenThen hp2 (.expectFor hp2 rfl) fun hp3 _ => .done hp3

theorem whileLoop_follows (hk : p.stream.current.kind = .whileWord) :
    hp.Takes Grammar.whileLoop (whileLoop nested (type nested))
      (whileLoop nested' (type nested')) := by
  refine .tokenThen hp (.advance hp hk rfl) fun hp1 _ => ?_
  refine .andThen hp1 (hN (.expression .default) hp1) fun hp2 _ => ?_
  refine .tokenThen hp2 (.expectFor hp2 rfl) fun hp3 _ => ?_
  exact .andQuiet hp3 (loopBody_follows hN hp3) fun hp4 _ => .build hp4 rfl

include hp in
/-- What comes behind the header of a counting loop: its body, and the numbers of its bounds. -/
theorem forBody_follows {header : List Token} {lower lower' upper upper' : Token}
    {action action' : Int → Int → NodeId → Build NodeId}
    (hheader : header.map Token.kind = loopHeader)
    (hlower : header[3]? = some lower ∧ lower.Fits lower')
    (hupper : header[5]? = some upper ∧ upper.Fits upper') :
    Follows header d l l' n (Derives loopTail) Any p p'
      (do let body ← loopBody nested (type nested)
          let low ← integer lower
          let high ← integer upper
          build (action low high body))
      (do let body ← loopBody nested' (type nested')
          let low ← integer lower'
          let high ← integer upper'
          build (action' low high body)) := by
  cases loopBody_follows hN hp with
  | complaint front u run split blames more word step =>
    refine .complaint front u (bind_error run) split blames more word fun hn => ?_
    obtain ⟨e', p1', run'⟩ := step hn
    exact ⟨e', p1', bind_error run'⟩
  | malformed before behind run split stops word start =>
    obtain ⟨v, rfl⟩ := start
    have hstops := stops.inLoop hheader (w := v) (by simpa using word)
    refine .malformed (header ++ before) behind (bind_error run) ?_ hstops word ?_
    · rw [append_assoc, ← split]
      rfl
    · exact ⟨v, by simp⟩
  | ok front run split settled word ready post step =>
    refine .afterOk (k := 0) (Q := Any) hp run split (Nat.zero_le _) ready trivial step
      fun c' n1 p1' hp1 _ _ _ => .widen (M := (· = [])) ?_ fun v hv => ?_
    · have hbody : loopTail.Covers front := ⟨word, settled.readable⟩
      refine .bound_bind hheader rfl hlower.1 hlower.2
        (readable_of_bounds hheader fun k t hk hbound _ =>
        ?_) hbody fun hlow _ _ => ?_
      · rcases eq_of_bound hbound with rfl | rfl <;> omega
      have hfirst : ∀ k t, k < 5 → loopHeader[k]? = some .integer → header[k]? = some t →
          Readable t := by
        intro k t hk hbound ht
        obtain rfl : k = 3 := (eq_of_bound hbound).resolve_right (Nat.ne_of_lt hk)
        exact Option.some.inj (hlower.1.symm.trans ht) ▸ hlow
      refine .bound_bind hheader rfl hupper.1 hupper.2 (readable_of_bounds hheader hfirst) hbody
        fun hhigh _ _ => ?_
      refine .within (.build hp1 rfl) (.append ⟨?_, hheader ▸ not_endsInHeader_loopHeader⟩ settled)
      rw [← take_length (l := header)]
      refine readable_of_bounds hheader fun k t _ hbound ht => ?_
      rcases eq_of_bound hbound with rfl | rfl
      · exact hfirst 3 t (by omega) hbound ht
      · exact Option.some.inj (hupper.1.symm.trans ht) ▸ hhigh
    · subst hv
      rwa [append_nil]

theorem forLoop_follows (hk : p.stream.current.kind = .forWord) :
    hp.Takes Grammar.forLoop (forLoop nested (type nested)) (forLoop nested' (type nested')) := by
  have hfirst : ∀ (f : Token → Parse NodeId) (q : Parser), q.stream.current.kind = .forWord →
      (advance >>= f) q = (expectFor .forWord "expected 'for'" >>= f) q := by
    intro f q hq
    have hrun : expectFor .forWord "expected 'for'" q = advance q := if_pos hq
    exact (bind_ok rfl).trans (bind_ok hrun).symm
  refine .ofRun _ _ (hfirst _ p hk) (fun hn => hfirst _ p' ((hp.current hn).kind.trans hk)) ?_
  refine .tokenOpen hp rfl fun hp1 h1 => ?_
  refine .tokenOpen hp1 rfl fun hp2 h2 => ?_
  refine .tokenOpen hp2 rfl fun hp3 h3 => ?_
  refine .tokenOpen hp3 rfl fun hp4 h4 => ?_
  refine .tokenOpen hp4 rfl fun hp5 h5 => ?_
  refine .tokenOpen hp5 rfl fun hp6 h6 => ?_
  refine .tokenOpen hp6 rfl fun hp7 h7 => ?_
  refine forBody_follows hN hp7 ?_ ⟨rfl, h4.2⟩ ⟨rfl, h6.2⟩
  simp [loopHeader, h1.1, h2.1, h3.1, h4.1, h5.1, h6.1, h7.1]

theorem returnValue_follows (hk : p.stream.current.kind = .returnWord) :
    hp.Takes Grammar.returnValue (returnValue nested) (returnValue nested') := by
  refine .tokenThen hp (.advance hp hk rfl) fun hp1 _ => ?_
  refine .lookKind hp1 (.ite (fun _ => ?_) fun _ => ?_)
  · refine .widen (.look rfl rfl (.tokenThen hp1 (.expect hp1 rfl) fun hp2 _ =>
      .build hp2 .nil)) fun w hw => ?_
    exact .cons .none hw
  · refine .andThen hp1 (.widen (.map (hN (.expression .default) hp1)) fun _ => .some)
      fun hp2 _ => ?_
    exact .tokenThen hp2 (.expect hp2 rfl) fun hp3 _ => .build hp3 .nil

theorem identifierStatement_follows (hk : p.stream.current.kind = .identifier) :
    hp.Takes (name .statement) (identifierStatement nested) (identifierStatement nested') := by
  have hcall : ∀ w, Derives (sequence [callTailPhrase, token .semicolon]) w →
      Derives (name .statement) (.identifier :: w) := by
    intro w hw
    cases hw with
    | cons hu hv =>
      have hstatement : Derives callStatement _ := .cons (derives_call hu) hv
      exact .name (.choice (by simp) hstatement)
  have hassign : ∀ w, Derives (sequence [Phrase.many Grammar.subscript, token .assignment,
      name .expression, token .semicolon]) w → Derives (name .statement) (.identifier :: w) := by
    intro w hw
    cases hw with
    | cons hu hv =>
      have hstatement : Derives assign _ := .cons (derives_reference hu) hv
      exact .name (.choice (by simp) hstatement)
  have hword : (sequence [Phrase.many Grammar.subscript, token .assignment, name .expression,
      token .semicolon]).Productive := inferInstance
  obtain ⟨v, hv⟩ := hword.word
  refine callOr_follows hp hk ⟨v, hassign v hv⟩ (fun t t' _ _ _ hp1 => .widen ?_ hcall)
    fun t t' _ _ _ hp1 => .widen ?_ hassign
  · refine .andThen hp1 (callTail_follows hN hp1 t t') fun hp2 _ => ?_
    exact .tokenThen hp2 (.expect hp2 rfl) fun hp3 _ => .done hp3
  · refine .andThen hp1 (referenceTail_follows hN hp1 t t') fun hp2 _ => ?_
    refine .tokenThen hp2 (.expectFor hp2 rfl) fun hp3 _ => ?_
    refine .andThen hp3 (hN (.expression .default) hp3) fun hp4 _ => ?_
    exact .tokenThen hp4 (.expect hp4 rfl) fun hp5 _ => .build hp5 .nil

theorem statement_follows : hp.Takes (name .statement) (statement nested) (statement nested') := by
  refine .ofRun _ _ (statement_eq hp.left) (fun hn => (hp.current hn).kind ▸
    statement_eq (hp.right hn)) ?_
  have hchoice : ∀ r ∈ [name .block, assign, Grammar.print, Grammar.read, Grammar.condition,
      Grammar.whileLoop, Grammar.forLoop, Grammar.returnValue, callStatement],
      ∀ w, Derives r w → Derives (name .statement) w := fun r hr w hw => .name (.choice hr hw)
  cases hk : p.stream.current.kind with
  | beginWord => exact (compound_follows hN hp).widen (hchoice _ (by simp))
  | printWord => exact (print_follows hN hp hk).widen (hchoice _ (by simp))
  | readWord => exact (read_follows hN hp hk).widen (hchoice _ (by simp))
  | ifWord => exact (condition_follows hN hp hk).widen (hchoice _ (by simp))
  | whileWord => exact (whileLoop_follows hN hp hk).widen (hchoice _ (by simp))
  | forWord => exact (forLoop_follows hN hp hk).widen (hchoice _ (by simp))
  | returnWord => exact (returnValue_follows hN hp hk).widen (hchoice _ (by simp))
  | identifier => exact identifierStatement_follows hN hp hk
  | _ => exact .fail (p.unexpected_blames _) (List.cons_ne_nil _ _) derives_statement

theorem programBody_follows :
    hp.Takes (name .block) (programBody nested (type nested))
      (programBody nested' (type nested')) := by
  refine .lookKind hp (.ite (fun _ => compound_follows hN hp) fun _ => ?_)
  exact .fail (p.unexpected_blames _) (cons_ne_nil _ _) derives_block

theorem program_follows :
    hp.Takes (name .program) (program nested (type nested)) (program nested' (type nested')) := by
  refine .name (.tokenThen hp (.expectFor hp rfl) fun hp1 _ => ?_)
  refine .tokenThen hp1 (.expect hp1 rfl) fun hp2 _ => ?_
  refine .andThen hp2 (declarations_follows hp2 nested nested') fun hp3 _ => ?_
  refine .andThen hp3 (.many starts_function (fun _ _ _ hq _ => function_follows hq nested nested'
    fun hq => compound_follows hN hq) hp3 rfl) fun hp4 _ => ?_
  refine .andThen hp4 (programBody_follows hN hp4) fun hp5 _ => ?_
  exact .tokenThen hp5 (.expectFor hp5 rfl) fun hp6 _ => .build hp6 .nil

end Nested

end Parse

/-! ### The levels of nesting -/

section Nesting

variable {d l l' b n : Nat} {p p' : Parser}

/-- The level that a construct is on takes the place of a token. -/
theorem Parser.Agrees.descend (h : p.Agrees d l l' (b + 1) n p') :
    Parser.Agrees (d + 1) l l' b n { p with depth := p.depth + 1 }
      { p' with depth := p'.depth + 1 } := by
  refine ⟨h.left.descend, fun hn => (h.right hn).descend, ?_, h.tokens⟩
  have := h.room
  show d + 1 + p.remaining + b ≤ l
  omega

theorem follows_deeper {x x' : Parse NodeId}
    (h : Follows [] (d + 1) l l' n L Any { p with depth := p.depth + 1 }
      { p' with depth := p'.depth + 1 } x x') :
    Follows [] d l l' n L Any p p' (do descend; let node ← x; leave; pure node)
      (do descend; let node ← x'; leave; pure node) := by
  have hready : ∀ {l : Nat} {q : Parser}, q.Ready (d + 1) l →
      Parser.Ready d l { q with depth := q.depth - 1 } := by
    intro l q hq
    refine ⟨hq.tables, ?_, hq.limit, hq.closed⟩
    show q.depth - 1 = d
    rw [hq.depth]
    rfl
  have hok : ∀ {x : Parse NodeId} {q q1 : Parser} {a : NodeId},
      x { q with depth := q.depth + 1 } = .ok a q1 →
      (do descend; let node ← x; leave; pure node : Parse NodeId) q =
        .ok a { q1 with depth := q1.depth - 1 } := fun run => bind_ok run
  have herror : ∀ {x : Parse NodeId} {q q1 : Parser} {e : Error},
      x { q with depth := q.depth + 1 } = .error e q1 →
      (do descend; let node ← x; leave; pure node : Parse NodeId) q = .error e q1 := by
    intro x q q1 e run
    have hdescend : descend q = .ok () { q with depth := q.depth + 1 } := rfl
    exact (bind_ok hdescend).trans (bind_error run)
  cases h with
  | ok front run split settled word ready _ step =>
    refine .ok front (hok run) split settled word (hready ready) trivial fun hn => ?_
    obtain ⟨a', p1', run', ready', hremaining, -, hfits⟩ := step hn
    exact ⟨a', _, hok run', hready ready', hremaining, trivial, hfits⟩
  | complaint front u run split complains more word step =>
    refine .complaint front u (herror run) split complains more word fun hn => ?_
    obtain ⟨e', p1', run'⟩ := step hn
    exact ⟨e', p1', herror run'⟩
  | malformed before behind run split stops word start =>
    exact .malformed before behind (herror run) split stops word start

/-- Both parsers go down level by level. The first one has a level left for every token, and the
second one has no fewer levels. -/
theorem nestedUpTo_follows (hl : l ≤ l') (m : Nat) : ∀ d m', l - d = m → l' - d = m' →
    NestedFollows d l l' (nestedUpTo m) (nestedUpTo m') := by
  induction m with
  | zero =>
    intro d m' hm _ construct b n p p' hp
    have := hp.room
    omega
  | succ m ih =>
    intro d m' hm hm' construct b n p p' hp
    obtain ⟨m', rfl⟩ : ∃ m1, m' = m1 + 1 := Nat.exists_eq_succ_of_ne_zero (by omega)
    have hN := ih (d + 1) m' (by omega) (by omega)
    cases construct with
    | expression power => exact follows_deeper (expression_follows hN hp.descend power)
    | statement => exact follows_deeper (statement_follows hN hp.descend)

theorem nested_follows (d : Nat) (hl : l ≤ l') :
    NestedFollows d l l' nested nested := by
  intro construct b n p p' hp
  refine .ofRun (nestedUpTo (l - d) construct) (nestedUpTo (l' - d) construct) ?_
    (fun hn => ?_) (nestedUpTo_follows hl (l - d) d (l' - d) rfl rfl construct hp)
  · rw [nested, hp.left.limit, hp.left.depth]
  · rw [nested, (hp.right hn).limit, (hp.right hn).depth]

end Nesting

/-! ### Programs -/

section Program

variable {ts : List Token} {limit : Nat} {e : Error}

/-- The program that a list of tokens starts with. -/
def parseProgram (ts : List Token) (limit : Nat) : EStateM.Result Error Parser NodeId :=
  program nested (type nested) (.ofTokens ts limit .standard)

theorem parseTokens_of_program_error {p : Parser} (h : parseProgram ts limit = .error e p) :
    parseTokens ts limit = .error e :=
  parseTokens_of_error (bind_error h)

/-- Behind a program, the file ends. -/
theorem parseTokens_of_program_ok {root : NodeId} {p : Parser}
    (h : parseProgram ts limit = .ok root p) : parseTokens ts limit =
      if p.stream.current.kind = .endOfFile then .ok (p.store, root)
      else .error (p.unexpected "expected end of file after the program") := by
  by_cases hend : p.stream.current.kind = .endOfFile
  · have hexpect : expectFor .endOfFile "expected end of file after the program" p =
        .ok p.stream.current { p with stream := p.stream.advance } := if_pos hend
    rw [if_pos hend]
    have hwhole : wholeProgram (.ofTokens ts limit .standard) =
        .ok root { p with stream := p.stream.advance } :=
      (bind_ok h).trans ((bind_ok hexpect).trans rfl)
    rw [parseTokens_of_ok hwhole]
  · have hexpect : expectFor .endOfFile "expected end of file after the program" p =
        .error (p.unexpected "expected end of file after the program") p := if_neg hend
    rw [if_neg hend]
    exact parseTokens_of_error ((bind_ok h).trans (bind_error hexpect))

/-- A program is read the same way from tokens that fit, with a nesting level for every token. -/
theorem parseProgram_follows (ts' : List Token) {limit' n : Nat} (hl : limit ≤ limit')
    (hlimit : (closeTokens ts).length ≤ limit + 1)
    (hfits : List.Forall₂ Token.Fits ((closeTokens ts).take n) ((closeTokens ts').take n)) :
    Follows [] 0 limit limit' n (Derives (name .program)) Any (.ofTokens ts limit .standard)
      (.ofTokens ts' limit' .standard) (program nested (type nested))
      (program nested (type nested)) := by
  refine program_follows (b := 0) (nested_follows 0 hl) ⟨ready_ofTokens ts limit,
    fun _ => ready_ofTokens ts' limit', ?_, hfits⟩
  rw [closeTokens, length_cons] at hlimit
  show 0 + (TokenStream.ofList ts).rest.length + 0 ≤ limit
  omega

end Program

end PLang
