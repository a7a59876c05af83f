import PLang.Proofs.Grammar.Lookahead

/-!
# What can be derived is read

One token of lookahead decides everywhere, except between references and calls, which takes two.
Where an expression stops at an operator, the enclosing ones go on with it, so every flat expression
is read to its end. Each nesting level uses up a token, so as many levels as there are tokens are
enough.
-/

namespace PLang

open Syntax Grammar Grammar.Phrase List

variable {front rest ts : List Token}

namespace Reading

/-! ### Types and declarations -/

variable {m : Nat}

theorem scalar_finds : scalar.Finds m (oneOf scalarKinds) anything := .one scalarOf?_isSome

theorem type_finds : type.Finds m (.name .type) anything := by
  have hdimension : dimension.Finds m Grammar.dimension anything :=
    .skip fun _ _ _ => .integer_bind fun _ _ => .skip fun _ _ _ => .pure
  have hdimensions : (Many (· == .arrayWord) dimension).Finds m (many Grammar.dimension)
      (· != .arrayWord) :=
    .many hdimension (.token_sequence _) (by decide) fun k hk => ⟨by simpa using hk, rfl⟩
  exact .name (.bind hdimensions (.starts (.oneOf _) (by decide)) fun _ =>
    .bind scalar_finds (.nil fun _ h => h) fun _ => .pure)

theorem names_finds : names.Finds m (.name .names) (· != .comma) := by
  have hname : (do let t ← token .identifier; return t.value : Reading String).Finds m
      (.token .identifier) anything := .map .token
  exact .name (.map (.separated hname rfl fun k hk => ⟨by simpa using hk, rfl⟩))

/-- A literal has no sign in front. -/
theorem constant_finds (ns : Names) : (do
      let negative ← minus
      let v ← literal negative
      return .constants ns v : Reading Declaration).Finds m (oneOf literalKinds) anything := by
  intro front rest _ hfront _
  obtain ⟨t, rfl, hkind, hread⟩ := covers_oneOf.1 hfront
  obtain ⟨v, hv⟩ := Option.isSome_iff_exists.1 ((literalOf?_isSome t false).2 ⟨hkind, hread⟩)
  have hdash : t.kind ≠ .dash := by
    intro h
    rw [h] at hkind
    exact absurd hkind (by decide)
  have hminus : minus ([t] ++ rest) false ([t] ++ rest) := by
    rw [minus, choose, singleton_append, headKind_cons, if_neg (by simpa using hdash)]
    exact ⟨rfl, rfl⟩
  exact ⟨_, false, [t] ++ rest, hminus, v, rest, ⟨t, rfl, hv⟩, rfl, rfl⟩

theorem negated_finds (ns : Names) : (do
      let negative ← minus
      let v ← literal negative
      return .constants ns v : Reading Declaration).Finds m
        (sequence [.token .dash, oneOf numberKinds]) anything := by
  intro front rest _ hfront _
  obtain ⟨_, us, rfl, hdash, hnumber⟩ := covers_cons.1 hfront
  obtain ⟨d, rfl, hd, -⟩ := covers_token.1 hdash
  obtain ⟨t, rfl, hkind, hread⟩ := covers_oneOf.1 (covers_last.1 hnumber)
  obtain ⟨v, hv⟩ := Option.isSome_iff_exists.1 ((literalOf?_isSome t true).2 ⟨hkind, hread⟩)
  have hminus : minus (d :: t :: rest) true (t :: rest) := by
    rw [minus, choose, headKind_cons, if_pos (by simpa using hd)]
    exact ⟨d, t :: rest, ⟨rfl, hd⟩, rfl, rfl⟩
  exact ⟨_, true, t :: rest, hminus, v, rest, ⟨t, rfl, hv⟩, rfl, rfl⟩

theorem declared_finds (ns : Names) : (declared ns).Finds m
    (.choice [.name .type, oneOf literalKinds, sequence [.token .dash, oneOf numberKinds]])
    anything := by
  refine .choice fun r hr => ?_
  simp only [mem_cons, not_mem_nil, or_false] at hr
  rcases hr with rfl | rfl | rfl
  · exact .choose_left (.map type_finds) starts_type (by decide)
  · exact .choose_right (constant_finds ns) (.oneOf _) (by decide)
  · exact .choose_right (negated_finds ns) (.token_sequence _) (by decide)

theorem declaration_finds : declaration.Finds m (.name .declaration) anything :=
  .name (.skip fun _ _ _ => .bind names_finds (.token rfl) fun ns => .skip fun _ _ _ =>
    .bind (declared_finds ns) (.token rfl) fun _ => .skip fun _ _ _ => .pure)

theorem declarations_finds : declarations.Finds m (many (.name .declaration)) (· != .varWord) :=
  .many declaration_finds starts_declaration (by decide) fun k hk => ⟨by simpa using hk, rfl⟩

theorem parameters_finds : parameters.Finds m (optional (.separated .semicolon (.name .parameter)))
    (· == .closeParen) := by
  have hparameter : parameter.Finds m (.name .parameter) anything :=
    .name (.bind names_finds (.token rfl) fun _ => .skip fun _ _ _ =>
      .bind type_finds (.nil fun _ h => h) fun _ => .pure)
  have hparameters : (separated .semicolon parameter).Finds m
      (.separated .semicolon (.name .parameter)) (· == .closeParen) := by
    refine .separated hparameter rfl fun k hk => ⟨?_, rfl⟩
    rw [eq_of_beq hk]
    rfl
  have hstart : (Phrase.separated .semicolon (.name .parameter)).Starts [.identifier] :=
    .sequence (.name (.sequence starts_names))
  exact .optional_right (.map hparameters) hstart (by decide) fun _ h => h

theorem returnType_finds : returnType.Finds m
    (optional (sequence [.token .colon, oneOf scalarKinds])) (· != .colon) := by
  have hscalar : (do let _ ← token .colon; scalar : Reading ScalarType).Finds m
      (sequence [.token .colon, oneOf scalarKinds]) (· != .colon) :=
    .skip fun _ _ _ => .last (.one scalarOf?_isSome)
  exact .optional_left hscalar (.token_sequence _) (by decide) fun k hk => by simpa using hk

/-! ### Expressions -/

/-- Whether a flat expression is found up to the first operator that does not bind more strongly
than a power. -/
def FindsOperands (R : BindingPower → Reading Expr) (m : Nat) : Prop :=
  ∀ power front rest, front.length ≤ m → (Phrase.name .expression).Covers front →
    endsExpression (headKind rest) = true →
    ∃ e tail, R power (front ++ rest) e (tail ++ rest) ∧ tail.length ≤ front.length ∧
      operatorTail.Covers tail ∧ Stops power (tail ++ rest)

end Reading

/-- Whether everything that can be derived, up to a length, is read one nesting level further
down. -/
structure Nesting.Complete (N : Nesting) (m : Nat) : Prop where
  expression : Reading.FindsOperands N.expression m
  statement : N.statement.Finds m (.name .statement) Reading.anything

namespace Reading

section Complete

variable {N : Nesting} (hN : N.Complete m)

include hN

/-- Where every operator binds strongly enough, an expression is read to its end. -/
theorem expression_finds : (N.expression .default).Finds m (.name .expression) endsExpression := by
  intro front rest hlength hfront hrest
  obtain ⟨e, tail, hread, -, htail, hstops⟩ := hN.expression .default front rest
    hlength hfront hrest
  rcases covers_operatorTail.1 htail with rfl | ⟨t, us, rfl, hkind, -⟩
  · exact ⟨e, hread⟩
  · obtain ⟨o, ho⟩ := Option.isSome_iff_exists.1 ((ofKind?_isSome t.kind).2 hkind)
    exact absurd (hstops o ho) (Nat.not_le.2 o.rank_default_lt_power)

theorem reference_finds : (reference N).Finds (m + 1) (.name .reference) (· != .openBracket) := by
  have hsubscript : (subscript N).Finds m Grammar.subscript anything :=
    .skip fun _ _ _ => .bind (expression_finds hN) (.token rfl) fun _ =>
      .skip fun _ _ _ => .pure
  have hsubscripts : (Many (· == .openBracket) (subscript N)).Finds m (many Grammar.subscript)
      (· != .openBracket) :=
    .many hsubscript (.token_sequence _) (by decide) fun k hk => ⟨by simpa using hk, rfl⟩
  exact .name (.token_bind fun _ _ _ => .bind hsubscripts (.nil fun _ h => h) fun _ => .pure)

theorem arguments_finds : (arguments N).Finds m (optional (.separated .comma (.name .expression)))
    (· == .closeParen) := by
  have hexpressions : (separated .comma (N.expression .default)).Finds m
      (.separated .comma (.name .expression)) (· == .closeParen) := by
    refine .separated (expression_finds hN) (by decide) fun k hk => ?_
    rw [eq_of_beq hk]
    decide
  exact .optional_right (.map hexpressions) (.sequence starts_expression) (by decide) fun _ h => h

theorem call_finds : (call N).Finds (m + 1) (.name .call) anything :=
  .name (.token_bind fun _ _ _ => .skip fun _ _ _ => .bind (arguments_finds hN) (.token rfl)
    fun _ => .skip fun _ _ _ => .pure)

omit hN in
/-- A call is told from a reference by its second token. -/
theorem secondKind?_call (h : (Phrase.name .call).Covers front) :
    secondKind? (front ++ rest) = some .openParen := by
  obtain ⟨_, _, rfl, hname, hfront⟩ := covers_cons.1 (covers_name.1 h)
  obtain ⟨_, _, rfl, hopen, -⟩ := covers_cons.1 hfront
  obtain ⟨t, rfl, -, -⟩ := covers_token.1 hname
  obtain ⟨u, rfl, hkind, -⟩ := covers_token.1 hopen
  exact congrArg some hkind

omit hN in
theorem secondKind?_reference (h : (Phrase.name .reference).Covers front)
    (hrest : headKind rest ≠ .openParen) : secondKind? (front ++ rest) ≠ some .openParen := by
  obtain ⟨_, us, rfl, hname, hsubscripts⟩ := covers_cons.1 (covers_name.1 h)
  obtain ⟨t, rfl, -, -⟩ := covers_token.1 hname
  have hlead : Leads [many Grammar.subscript] (· != .openParen) (· != .openParen) :=
    .many (.token_sequence _) (by decide) (.nil fun _ h => h)
  have hsecond : headKind (us ++ rest) ≠ .openParen := by
    simpa using hlead us rest hsubscripts (by simpa using hrest)
  intro hkind
  refine hsecond ?_
  have hopen : (us ++ rest).head?.map Token.kind = some .openParen := hkind
  rw [headKind, hopen]
  rfl

theorem symbol_finds_call : (symbol N).Finds (m + 1) (.name .call) anything := by
  intro front rest hlength hfront hrest
  obtain ⟨c, hread⟩ := call_finds hN front rest hlength hfront hrest
  refine ⟨.call c.1 c.2, ?_⟩
  rw [symbol, callOr, if_pos (secondKind?_call hfront)]
  exact ⟨c, rest, hread, rfl, rfl⟩

theorem symbol_finds_reference : (symbol N).Finds (m + 1) (.name .reference) endsName := by
  intro front rest hlength hfront hrest
  obtain ⟨hbracket, hparen⟩ := Bool.and_eq_true_iff.1 hrest
  obtain ⟨r, hread⟩ := reference_finds hN front rest hlength hfront hbracket
  refine ⟨.reference r.1 r.2, ?_⟩
  rw [symbol, callOr, if_neg (secondKind?_reference hfront (by simpa using hparen))]
  exact ⟨r, rest, hread, rfl, rfl⟩

omit hN in
theorem operand_eq_literal (h : headKind ts ∈ literalKinds) :
    operand N ts = (do let v ← literal false; return .literal v : Reading Expr) ts := by
  unfold operand
  generalize headKind ts = kind at h
  cases kind <;> first | rfl | exact absurd h (by decide)

omit hN in
theorem operand_eq_symbol (h : headKind ts = .identifier) : operand N ts = symbol N ts := by
  rw [operand, h]

omit hN in
theorem operand_eq_grouping (h : headKind ts = .openParen) : operand N ts = grouping N ts := by
  rw [operand, h]

omit hN in
theorem operand_eq_unary {o : UnaryOperator} (h : headKind ts = o.kind) :
    operand N ts = unary N o ts := by
  cases o <;> rw [operand, h] <;> rfl

theorem atom_finds : (operand N).Finds (m + 1) atom endsName := by
  have hidentifier : ∀ ts, headKind ts ∈ [TokenKind.identifier] → operand N ts = symbol N ts :=
    fun ts h => operand_eq_symbol (mem_singleton.1 h)
  have hgrouping : (grouping N).Finds (m + 1)
      (sequence [.token .openParen, .name .expression, .token .closeParen]) endsName :=
    .token_bind fun _ _ _ => .bind (expression_finds hN) (.token rfl) fun _ =>
      .skip fun _ _ _ => .pure
  refine .choice fun r hr => ?_
  simp only [mem_cons, not_mem_nil, or_false] at hr
  rcases hr with rfl | rfl | rfl | rfl
  · exact hgrouping.dispatch (.token_sequence _) fun ts h =>
      operand_eq_grouping (mem_singleton.1 h)
  · have hliteral : (literal false).Finds (m + 1) (oneOf literalKinds) endsName :=
      .one fun t => literalOf?_isSome t false
    exact (Finds.map hliteral).dispatch (.oneOf _) fun ts h => operand_eq_literal h
  · exact (symbol_finds_reference hN).dispatch starts_reference hidentifier
  · exact ((symbol_finds_call hN).follows fun _ _ => rfl).dispatch starts_call hidentifier

/-- Operators that bind strongly enough are taken with their right operands, until one does not. -/
theorem operators_find (power : BindingPower) (left : Expr) (hlength : front.length ≤ m + 1)
    (hfront : operatorTail.Covers front) (hrest : endsExpression (headKind rest) = true) :
    ∃ e tail, Operators N power left (front ++ rest) e (tail ++ rest) ∧
      tail.length ≤ front.length ∧ operatorTail.Covers tail ∧ Stops power (tail ++ rest) := by
  induction hn : front.length using Nat.strongRecOn generalizing front left with
  | ind n ih =>
    rcases covers_operatorTail.1 hfront with rfl | ⟨t, us, rfl, hkind, hu⟩
    · have hstops : Stops power ([] ++ rest) := by
        intro o ho
        have hnone := Option.isNone_iff_eq_none.1 (Bool.and_eq_true_iff.1 hrest).2
        rw [nil_append, hnone] at ho
        cases ho
      exact ⟨left, [], .stop hstops, Nat.zero_le _, hfront, hstops⟩
    · obtain ⟨o, ho⟩ := Option.isSome_iff_exists.1 ((ofKind?_isSome t.kind).2 hkind)
      rw [length_cons] at hlength hn
      by_cases hpower : power.rank < o.power.rank
      · obtain ⟨right, mid, hright, hmid, hcovers, -⟩ :=
          hN.expression o.power us rest (by omega) hu hrest
        have hgo : ∃ e tail, Operators N power (.binary o left right) (mid ++ rest) e
          (tail ++ rest) ∧
            tail.length ≤ mid.length ∧ operatorTail.Covers tail ∧ Stops power (tail ++ rest) :=
          ih mid.length (by omega) (.binary o left right) (by omega) hcovers rfl
        obtain ⟨e, tail, hread, htail, hcovers', hstops⟩ := hgo
        exact ⟨e, tail, .next ho hpower hright hread, by omega, hcovers', hstops⟩
      · have hstops : Stops power (t :: us ++ rest) := by
          intro o' ho'
          cases ho.symm.trans ho'
          exact Nat.not_lt.1 hpower
        exact ⟨left, t :: us, .stop hstops, Nat.le_of_eq hn, hfront, hstops⟩

omit hN in
theorem endsName_of_operatorTail (hfront : operatorTail.Covers front)
    (hrest : endsExpression (headKind rest) = true) :
    endsName (headKind (front ++ rest)) = true := by
  rcases covers_operatorTail.1 hfront with rfl | ⟨t, us, rfl, hkind, -⟩
  · exact (Bool.and_eq_true_iff.1 hrest).1
  · exact endsName_of_mem hkind

/-- The operand of a prefix operator may leave operators behind, which the loop goes on with. -/
theorem expression_findsOperands : FindsOperands (expression N) (m + 1) := by
  intro power front rest hlength hfront hrest
  rcases expression_head hfront with ⟨o, t, us, rfl, hkind, hu⟩ | ⟨us, vs, rfl, hatom, htail⟩
  · rw [length_cons] at hlength
    obtain ⟨e, mid, hread, hmid, hcovers, -⟩ := hN.expression o.power us rest (by omega) hu hrest
    obtain ⟨e', tail, hoperators, htail, hcovers', hstops⟩ :=
      operators_find hN power (.unary o e) (by omega) hcovers hrest
    have hhead : headKind (t :: us ++ rest) = o.kind := hkind
    have hoperand : operand N (t :: us ++ rest) (.unary o e) (mid ++ rest) := by
      rw [operand_eq_unary hhead]
      exact ⟨t, us ++ rest, ⟨rfl, hkind⟩, e, mid ++ rest, hread, rfl, rfl⟩
    refine ⟨e', tail, ⟨.unary o e, mid ++ rest, hoperand, hoperators⟩, ?_, hcovers', hstops⟩
    rw [length_cons]
    omega
  · rw [length_append] at hlength
    obtain ⟨e, hread⟩ := atom_finds hN us (vs ++ rest) (by omega) hatom
      (endsName_of_operatorTail htail hrest)
    obtain ⟨e', tail, hoperators, hlength', hcovers, hstops⟩ :=
      operators_find hN power e (by omega) htail hrest
    rw [← append_assoc] at hread
    refine ⟨e', tail, ⟨e, vs ++ rest, hread, hoperators⟩, ?_, hcovers, hstops⟩
    rw [length_append]
    omega

/-! ### Statements and programs -/

theorem block_finds : (block N).Finds (m + 1) (.name .block) anything := by
  have hstatement : (blockStatement N).Finds m (.name .statement) anything := by
    intro front rest hlength hfront hrest
    obtain ⟨s, hread⟩ := hN.statement front rest hlength hfront hrest
    obtain ⟨t, us, rfl, hkind⟩ := starts_statement front hfront
    refine ⟨s, fun h => ?_, hread⟩
    have hend : t.kind = .endOfFile := h
    rw [hend] at hkind
    exact absurd hkind (by decide)
  have hstatements : (Many (· != .endWord) (blockStatement N)).Finds m
      (many (.name .statement)) (· == .endWord) :=
    .many hstatement starts_statement (by decide) fun k hk => ⟨by simpa using hk, rfl⟩
  have hlead : Leads [many (.name .statement), .token .endWord] anything (· != .varWord) :=
    .many starts_statement (by decide) (.token rfl)
  exact .name (.token_bind fun _ _ _ => .bind declarations_finds hlead fun _ =>
    .bind hstatements (.token rfl) fun _ => .skip fun _ _ _ => .pure)

theorem elseBody_finds : (elseBody N).Finds m
    (optional (sequence [.token .elseWord, .name .block])) (· != .elseWord) := by
  have hblock : (do let _ ← token .elseWord; let b ← block N; return some b :
      Reading (Option Block)).Finds m (sequence [.token .elseWord, .name .block])
        (· != .elseWord) :=
    .skip fun _ _ _ => .last (.map (((block_finds hN).mono (Nat.le_succ m)).follows fun _ _ => rfl))
  exact .optional_left hblock (.token_sequence _) (by decide) fun k hk => by simpa using hk

theorem print_finds : (print N).Finds (m + 1) Grammar.print anything :=
  .token_bind fun _ _ _ => .bind (expression_finds hN) (.token rfl) fun _ =>
    .skip fun _ _ _ => .pure

theorem read_finds : (read N).Finds (m + 1) Grammar.read anything :=
  .token_bind fun _ _ _ => .bind ((reference_finds hN).mono (Nat.le_succ m)) (.token rfl)
    fun _ => .skip fun _ _ _ => .pure

theorem condition_finds : (condition N).Finds (m + 1) Grammar.condition anything := by
  have hlead : Leads [optional (sequence [.token .elseWord, .name .block]), .token .endWord,
      .token .ifWord] anything anything := fun _ _ _ _ => rfl
  exact .token_bind fun _ _ _ => .bind (expression_finds hN) (.token rfl) fun _ =>
    .skip fun _ _ _ => .bind ((block_finds hN).mono (Nat.le_succ m)) hlead fun _ =>
    .bind (elseBody_finds hN) (.token rfl) fun _ => .skip fun _ _ _ =>
    .skip fun _ _ _ => .pure

theorem whileLoop_finds : (whileLoop N).Finds (m + 1) Grammar.whileLoop anything := by
  unfold whileLoop
  refine .token_bind fun _ _ _ => .bind (expression_finds hN) (.token rfl) fun _ =>
    .skip fun _ _ _ => ?_
  rw [loopBody_bind]
  exact .bind ((block_finds hN).mono (Nat.le_succ m)) (.token rfl) fun _ => .skip fun _ _ _ =>
    .skip fun _ _ _ => .pure

theorem forLoop_finds : (forLoop N).Finds (m + 1) Grammar.forLoop anything := by
  rw [forLoop_eq]
  exact .token_bind fun _ _ _ => .skip fun _ _ _ => .skip fun _ _ _ => .integer_bind fun _ _ =>
    .skip fun _ _ _ => .integer_bind fun _ _ => .skip fun _ _ _ =>
    .bind ((block_finds hN).mono (Nat.le_succ m)) (.token rfl) fun _ => .skip fun _ _ _ =>
    .skip fun _ _ _ => .pure

theorem returnValue_finds : (returnValue N).Finds (m + 1) Grammar.returnValue anything := by
  have hexpression : (N.expression .default).Finds m (.name .expression) (· == .semicolon) := by
    refine (expression_finds hN).follows fun k hk => ?_
    rw [eq_of_beq hk]
    decide
  have hreturned : (returned N).Finds m (optional (.name .expression)) (· == .semicolon) :=
    .optional_right (.map hexpression) starts_expression (by decide) fun _ h => h
  exact .token_bind fun _ _ _ => .bind hreturned (.token rfl) fun _ =>
    .skip fun _ _ _ => .pure

theorem callStatement_finds : (callStatement N).Finds (m + 1) Grammar.callStatement anything :=
  .bind (call_finds hN) (.token rfl) fun _ => .skip fun _ _ _ => .pure

theorem assign_finds : (assign N).Finds (m + 1) Grammar.assign anything :=
  .bind (reference_finds hN) (.token rfl) fun _ => .token_bind fun _ _ _ =>
    .bind (expression_finds hN) (.token rfl) fun _ => .skip fun _ _ _ => .pure

theorem identifier_finds_call : (callOr (callStatement N) (assign N)).Finds (m + 1)
    Grammar.callStatement anything := by
  intro front rest hlength hfront hrest
  obtain ⟨s, hread⟩ := callStatement_finds hN front rest hlength hfront hrest
  obtain ⟨us, vs, rfl, hcall, -⟩ := covers_cons.1 hfront
  refine ⟨s, ?_⟩
  rw [callOr, if_pos (by rw [List.append_assoc]; exact secondKind?_call hcall)]
  exact hread

theorem identifier_finds_assign : (callOr (callStatement N) (assign N)).Finds (m + 1)
    Grammar.assign anything := by
  intro front rest hlength hfront hrest
  obtain ⟨s, hread⟩ := assign_finds hN front rest hlength hfront hrest
  obtain ⟨us, vs, rfl, hreference, hvs⟩ := covers_cons.1 hfront
  have hassignment : headKind (vs ++ rest) ≠ .openParen := by
    obtain ⟨t, vs, rfl, hkind⟩ := Starts.token_sequence .assignment vs hvs
    show t.kind ≠ .openParen
    rw [List.mem_singleton.1 hkind]
    decide
  refine ⟨s, ?_⟩
  rw [callOr,
    if_neg (by rw [List.append_assoc]; exact secondKind?_reference hreference hassignment)]
  exact hread

theorem statement_finds : (statement N).Finds (m + 1) (.name .statement) anything := by
  have hidentifier : ∀ ts, headKind ts ∈ [TokenKind.identifier] →
      statement N ts = callOr (callStatement N) (assign N) ts := by
    intro ts h
    rw [statement, mem_singleton.1 h]
  refine .name (.choice fun r hr => ?_)
  simp only [mem_cons, not_mem_nil, or_false] at hr
  rcases hr with rfl | rfl | rfl | rfl | rfl | rfl | rfl | rfl | rfl
  · exact (Finds.map (block_finds hN)).dispatch starts_block fun ts h => by
      rw [statement, mem_singleton.1 h]
  · exact (identifier_finds_assign hN).dispatch (.sequence starts_reference) hidentifier
  · exact (print_finds hN).dispatch (.token_sequence _) fun ts h => by
      rw [statement, List.mem_singleton.1 h]
  · exact (read_finds hN).dispatch (.token_sequence _) fun ts h => by
      rw [statement, List.mem_singleton.1 h]
  · exact (condition_finds hN).dispatch (.token_sequence _) fun ts h => by
      rw [statement, List.mem_singleton.1 h]
  · exact (whileLoop_finds hN).dispatch (.token_sequence _) fun ts h => by
      rw [statement, List.mem_singleton.1 h]
  · exact (forLoop_finds hN).dispatch (.token_sequence _) fun ts h => by
      rw [statement, List.mem_singleton.1 h]
  · exact (returnValue_finds hN).dispatch (.token_sequence _) fun ts h => by
      rw [statement, List.mem_singleton.1 h]
  · exact (identifier_finds_call hN).dispatch (.sequence starts_call) hidentifier

theorem functionBody_finds : (functionBody N).Finds m
    (.choice [.token .semicolon, sequence [.name .block, .token .endWord]]) anything := by
  refine .choice fun r hr => ?_
  simp only [mem_cons, not_mem_nil, or_false] at hr
  rcases hr with rfl | rfl
  · exact .choose_left (.map .token) (.token _) (by decide)
  · have hbody : (do let b ← block N; let _ ← token .endWord; return some b :
        Reading (Option Block)).Finds m (sequence [.name .block, .token .endWord]) anything :=
      .bind ((block_finds hN).mono (Nat.le_succ m)) (.token rfl) fun _ => .skip fun _ _ _ => .pure
    exact .choose_right hbody (.sequence starts_block) (by decide)

theorem function_finds : (function N).Finds m (.name .function) anything := by
  have hlead : Leads [.choice [.token .semicolon, sequence [.name .block, .token .endWord]]]
      anything (· != .colon) := by
    have hstart :
      (Phrase.choice [.token .semicolon, sequence [.name .block, .token .endWord]]).Starts
        [.semicolon, .beginWord] := by
      refine .choice fun r hr => ?_
      simp only [mem_cons, not_mem_nil, or_false] at hr
      rcases hr with rfl | rfl
      · exact (Starts.token _).mono (by decide)
      · exact (Starts.sequence starts_block).mono (by decide)
    exact .starts hstart (by decide)
  exact .name (.skip fun _ _ _ => .skip fun _ _ _ => .bind parameters_finds (.token rfl)
    fun _ => .skip fun _ _ _ => .bind returnType_finds hlead fun _ =>
    .bind (functionBody_finds hN) (.nil fun _ h => h) fun _ => .pure)

theorem program_finds : (program N).Finds m (.name .program) anything := by
  have hfunctions : (Many (· == .identifier) (function N)).Finds m (many (.name .function))
      (· != .identifier) :=
    .many (function_finds hN) starts_function (by decide) fun k hk => ⟨by simpa using hk, rfl⟩
  have hlead : Leads [many (.name .function), .name .block, .token .endWord] anything
      (· != .varWord) := .many starts_function (by decide) (.starts starts_block (by decide))
  exact .name (.skip fun _ _ _ => .skip fun _ _ _ => .bind declarations_finds hlead fun _ =>
    .bind hfunctions (.starts starts_block (by decide)) fun _ =>
    .bind ((block_finds hN).mono (Nat.le_succ m)) (.token rfl) fun _ => .skip fun _ _ _ => .pure)

end Complete

end Reading

/-- As many nesting levels as there are tokens are enough. -/
theorem Nesting.upTo_complete (n : Nat) : (Nesting.upTo n).Complete n := by
  induction n with
  | zero =>
    refine ⟨fun power front rest hlength hfront _ => ?_, fun front rest hlength hfront _ => ?_⟩
    · obtain ⟨t, us, rfl, -⟩ := starts_expression front hfront
      exact absurd hlength (Nat.not_succ_le_zero _)
    · obtain ⟨t, us, rfl, -⟩ := starts_statement front hfront
      exact absurd hlength (Nat.not_succ_le_zero _)
  | succ n ih => exact ⟨Reading.expression_findsOperands ih, Reading.statement_finds ih⟩

end PLang
