import PLang.Proofs.RoundTrip.Expression

/-!
# Reading written programs

Statements, functions and programs are recovered from the tokens that they are written with, when as
many nesting levels are allowed as there are tokens.
-/

namespace PLang

open Syntax

variable {n : Nat}

namespace Reading

/-! ### Statements -/

theorem firstKind_statement (s : Statement) (k : TokenKind) :
    firstKind s.lexemes k ∈ Grammar.statementKinds := by
  cases s with
  | block b => cases b; exact of_decide_eq_true rfl
  | returnValue e => cases e <;> exact of_decide_eq_true rfl
  | assign | print | read | condition | whileLoop | forLoop | call => exact of_decide_eq_true rfl

theorem firstKind_block (b : Block) (k : TokenKind) : firstKind b.lexemes k = .beginWord := by
  cases b
  rfl

/-- What is read one nesting level further down. -/
theorem nested_recovers {l : Lexeme} {ls : List Lexeme} {s : Statement}
    {R : Nesting → Reading Statement}
    (hdispatch : ∀ N ts, headKind ts = l.kind → statement N ts = R N ts)
    (h : ∀ n, ls.length ≤ n → (R (.upTo n)).Recovers (l :: ls) s anything) (n : Nat)
    (hlength : (l :: ls).length ≤ n) : (Nesting.upTo n).statement.Recovers (l :: ls) s
    anything := by
  cases n with
  | zero => simp at hlength
  | succ n => exact .dispatch (h n (Nat.le_of_succ_le_succ hlength)) (hdispatch (.upTo n))

variable {ss : List Statement}

theorem statements_recovers {N : Nesting}
    (hss : ∀ s ∈ ss, N.statement.Recovers s.lexemes s anything) :
    (Many (· != .endWord) (blockStatement N)).Recovers (ss.flatMap Statement.lexemes) ss
      (· == .endWord) := by
  have hkinds : ∀ k ∈ Grammar.statementKinds, (k != .endWord) = true ∧ k ≠ .endOfFile := by decide
  have hstatement : ∀ s ∈ ss, (blockStatement N).Recovers s.lexemes s anything := by
    intro s hs ts rest hts hrest
    refine ⟨?_, hss s hs ts rest hts hrest⟩
    rw [headKind_append hts]
    exact (hkinds _ (firstKind_statement s _)).2
  exact .many hstatement (fun s _ k => ⟨(hkinds _ (firstKind_statement s k)).1, rfl⟩)
    fun k hk => ⟨by simpa using hk, rfl⟩

theorem block_recovers {ds : List Declaration}
    (hds : ∀ d ∈ ds, WritableDeclaration d)
    (hss : ∀ s ∈ ss, (Nesting.upTo n).statement.Recovers s.lexemes s anything) :
    (block (.upTo n)).Recovers (Block.mk ds ss).lexemes (.mk ds ss) anything := by
  have hkinds : ∀ k ∈ Grammar.statementKinds, (k != .varWord) = true := by decide
  rw [Block.lexemes, statementLexemes_eq]
  refine .mark fun _ => .bind (declarations_recovers hds) (fun k _ => ?_)
    (.bind (statements_recovers hss) (fun _ _ => rfl) (.mark fun _ => .pure))
  rw [firstKind_append]
  exact firstKind_flatMap (p := fun k => k != .varWord)
    (fun s _ k => hkinds _ (firstKind_statement s k)) rfl

/-! ### The kinds of statements -/

section Kinds

variable {N : Nesting} {e : Expr} {es : List Expr} {b : Block}

theorem print_recovers (he : (N.expression .default).Recovers e.lexemes e endsExpression) :
    (print N).Recovers (Statement.print e).lexemes (.print e) anything :=
  .mark fun _ => .bind he (fun _ _ => rfl) (.mark fun _ => .pure)

section

variable (name : String)
  (hes : ∀ e ∈ es, (N.expression .default).Recovers e.lexemes e endsExpression)

include name hes

theorem assign_recovers (he : (N.expression .default).Recovers e.lexemes e endsExpression) :
    (callOr (callStatement N) (assign N)).Recovers (Statement.assign name es e).lexemes
      (.assign name es e) anything := by
  have hassign : (assign N).Recovers ((.name name :: subscriptLexemes es) ++
      .mark .assignment :: (e.lexemes ++ [.mark .semicolon])) (.assign name es e) anything :=
    .bind (reference_recovers name hes) (fun _ _ => rfl)
      (.mark fun _ => .bind he (fun _ _ => rfl) (.mark fun _ => .pure))
  refine .callOr_right hassign fun k _ => ?_
  rw [firstKind_append]
  exact firstKind_subscript_ne rfl

theorem callStatement_recovers :
    (callOr (callStatement N) (assign N)).Recovers (Statement.call name es).lexemes (.call name es)
      anything := by
  have hcall : (callStatement N).Recovers ((.name name :: .mark .openParen ::
      (separate .comma (listLexemes es) ++ [.mark .closeParen])) ++ [.mark .semicolon])
      (.call name es) anything :=
    .bind (call_recovers name hes) (fun _ _ => rfl) (.mark fun _ => .pure)
  rw [List.cons_append, List.cons_append, List.append_assoc] at hcall
  exact .callOr_left hcall

theorem read_recovers :
    (read N).Recovers (Statement.read name es).lexemes (.read name es) anything :=
  .mark fun _ => .bind (reference_recovers name hes) (fun _ _ => rfl) (.mark fun _ => .pure)


end
theorem elseBody_recovers {b : Option Block}
    (hb : ∀ x ∈ b, (block N).Recovers x.lexemes x anything) :
    (elseBody N).Recovers (elseLexemes b) b (· == .endWord) := by
  cases b with
  | none =>
    refine .choose_right .pure fun k hk => ?_
    obtain rfl : k = .endWord := by simpa using hk
    rfl
  | some b =>
    exact .choose_left (.mark fun _ => .map ((hb b rfl).follows fun _ _ => rfl)) fun _ _ => rfl

section

variable (he : (N.expression .default).Recovers e.lexemes e endsExpression)
  (hb : (block N).Recovers b.lexemes b anything)

include he hb

theorem condition_recovers {b' : Option Block}
    (hb' : ∀ x ∈ b', (block N).Recovers x.lexemes x anything) :
    (condition N).Recovers (Statement.condition e b b').lexemes (.condition e b b') anything :=
  .mark fun _ => .bind he (fun _ _ => rfl) (.mark fun _ => .bind hb (fun _ _ => rfl)
    (.bind (elseBody_recovers hb') (fun _ _ => rfl) (.mark fun _ => .mark fun _ => .pure)))

theorem whileLoop_recovers :
    (whileLoop N).Recovers (Statement.whileLoop e b).lexemes (.whileLoop e b) anything := by
  have hbody : (loopBody N).Recovers (b.lexemes ++ [.mark .endWord, .mark .doWord]) b anything :=
    .bind hb (fun _ _ => rfl) (.mark fun _ => .mark fun _ => .pure)
  exact .mark fun _ => .bind he (fun _ _ => rfl) (.mark fun _ => .map hbody)


end
theorem forLoop_recovers {lower upper : Int} (name : String) (hlower : WritableInteger lower)
    (hupper : WritableInteger upper) (hb : (block N).Recovers b.lexemes b anything) :
    (forLoop N).Recovers (Statement.forLoop name lower upper b).lexemes
      (.forLoop name lower upper b) anything := by
  rw [forLoop_eq]
  refine .mark fun _ => .name fun t ht => .mark fun _ => .integer hlower fun _ => .mark fun _ =>
    .integer hupper fun _ => .mark fun _ => ?_
  subst ht
  exact .bind hb (fun _ _ => rfl) (.mark fun _ => .mark fun _ => .pure)

theorem returned_recovers {e : Option Expr}
    (he : ∀ x ∈ e, (N.expression .default).Recovers x.lexemes x endsExpression) :
    (returnValue N).Recovers (Statement.returnValue e).lexemes (.returnValue e) anything := by
  cases e with
  | none =>
    have hreturned : (returned N).Recovers [] none (· == .semicolon) :=
      .choose_left .pure fun k hk => hk
    exact .mark fun _ => .bind hreturned (fun _ _ => rfl) (.mark fun _ => .pure)
  | some e =>
    have hreturned : (returned N).Recovers e.lexemes (some e) endsExpression := by
      refine .choose_right (.map (he e rfl)) fun k _ => ?_
      have hkinds : ∀ k ∈ Grammar.operandKinds, (k == .semicolon) = false := by decide
      exact hkinds _ (firstKind_expression e k)
    exact .mark fun _ => .bind hreturned (fun _ _ => rfl) (.mark fun _ => .pure)

end Kinds

/-! ### Nesting -/

theorem expression_recovers {e : Expr} (he : WritableExpr e) (hlength : e.lexemes.length ≤ n) :
    ((Nesting.upTo n).expression .default).Recovers e.lexemes e endsExpression :=
  (returns he).recovers hlength

theorem subscripts_expressions {es : List Expr} (hes : ∀ e ∈ es, WritableExpr e)
    (hlength : (subscriptLexemes es).length ≤ n) :
    ∀ e ∈ es, ((Nesting.upTo n).expression .default).Recovers e.lexemes e endsExpression := by
  intro e he
  refine expression_recovers (hes e he) (Nat.le_trans ?_ hlength)
  have h := length_le_flatMap (w := fun e : Expr =>
    .mark .openBracket :: (e.lexemes ++ [.mark .closeBracket])) he
  rw [← subscriptLexemes_eq, List.length_cons, List.length_append] at h
  omega

theorem arguments_expressions {es : List Expr} (hes : ∀ e ∈ es, WritableExpr e)
    (hlength : (separate .comma (listLexemes es)).length ≤ n) :
    ∀ e ∈ es, ((Nesting.upTo n).expression .default).Recovers e.lexemes e endsExpression := by
  intro e he
  rw [listLexemes_eq] at hlength
  exact expression_recovers (hes e he) (Nat.le_trans (length_le_separate he .comma) hlength)

/-- Every statement and every block that can be written is recovered. Each part of a statement has
fewer tokens than the statement, so that its nesting level is allowed. -/
theorem statement_recovers :
    (∀ s, WritableStatement s → ∀ n, s.lexemes.length ≤ n →
      (Nesting.upTo n).statement.Recovers s.lexemes s anything) ∧
    ∀ b, WritableBlock b → ∀ n, b.lexemes.length ≤ n + 1 →
      (block (.upTo n)).Recovers b.lexemes b anything := by
  refine Statement.induction ?ofBlock ?assign ?print ?read ?condition ?whileLoop
    ?forLoop ?returnValue
    ?call ?mk
  case ofBlock =>
    rintro ⟨ds, ss⟩ ih ⟨hb⟩
    refine nested_recovers (R := fun N => do let b ← block N; return .block b)
      (fun N ts hts => by rw [statement, hts]; rfl) fun n hlength => ?_
    exact .map (ih hb n (Nat.succ_le_succ hlength))
  case assign =>
    rintro name es e ⟨⟩
    rename_i hes he
    refine nested_recovers (R := fun N => callOr (callStatement N) (assign N))
      (fun N ts hts => by rw [statement, hts]; rfl) fun n hlength => ?_
    simp at hlength
    exact assign_recovers name (subscripts_expressions hes (by omega))
      (expression_recovers he (by omega))
  case print =>
    rintro e ⟨⟩
    rename_i he
    refine nested_recovers (R := print) (fun N ts hts => by rw [statement, hts]; rfl)
      fun n hlength => ?_
    rw [List.length_append] at hlength
    exact print_recovers (expression_recovers he (by omega))
  case read =>
    rintro name es ⟨⟩
    rename_i hes
    refine nested_recovers (R := read) (fun N ts hts => by rw [statement, hts]; rfl)
      fun n hlength => ?_
    simp at hlength
    exact read_recovers name (subscripts_expressions hes (by omega))
  case condition =>
    rintro e b b' ihb ihb' ⟨⟩
    rename_i he hb hb'
    refine nested_recovers (R := condition) (fun N ts hts => by rw [statement, hts]; rfl)
      fun n hlength => ?_
    simp at hlength
    refine condition_recovers (expression_recovers he (by omega)) (ihb hb n (by omega))
      fun x hx => ihb' x hx (hb' x hx) n ?_
    obtain rfl := hx
    rw [elseLexemes, List.length_cons] at hlength
    omega
  case whileLoop =>
    rintro e b ihb ⟨⟩
    rename_i he hb
    refine nested_recovers (R := whileLoop) (fun N ts hts => by rw [statement, hts]; rfl)
      fun n hlength => ?_
    simp at hlength
    exact whileLoop_recovers (expression_recovers he (by omega)) (ihb hb n (by omega))
  case forLoop =>
    rintro x lower upper b ihb ⟨⟩
    rename_i hlower hupper hb
    refine nested_recovers (R := forLoop) (fun N ts hts => by rw [statement, hts]; rfl)
      fun n hlength => ?_
    simp at hlength
    exact forLoop_recovers x hlower hupper (ihb hb n (by omega))
  case returnValue =>
    rintro e ⟨⟩
    rename_i he
    have hrecovers : ∀ n, (Statement.returnValue e).lexemes.length ≤ n + 1 →
        (returnValue (.upTo n)).Recovers (Statement.returnValue e).lexemes (.returnValue e)
          anything := by
      refine fun n hlength => returned_recovers fun x hx => expression_recovers (he x hx) ?_
      obtain rfl := hx
      rw [Statement.lexemes, List.length_cons, List.length_append] at hlength
      omega
    cases e with
    | none =>
      exact nested_recovers (R := returnValue) (fun N ts hts => by rw [statement, hts]; rfl)
        fun n hlength => hrecovers n (Nat.succ_le_succ hlength)
    | some e =>
      exact nested_recovers (R := returnValue) (fun N ts hts => by rw [statement, hts]; rfl)
        fun n hlength => hrecovers n (Nat.succ_le_succ hlength)
  case call =>
    rintro name es ⟨⟩
    rename_i hes
    refine nested_recovers (R := fun N => callOr (callStatement N) (assign N))
      (fun N ts hts => by rw [statement, hts]; rfl) fun n hlength => ?_
    simp at hlength
    exact callStatement_recovers name (arguments_expressions hes (by omega))
  case mk =>
    rintro ds ss ih ⟨⟩ n hlength
    rename_i hds hss
    refine block_recovers hds fun s hs => ih s hs (hss s hs) n ?_
    have h := length_le_flatMap (w := Statement.lexemes) hs
    rw [Block.lexemes, statementLexemes_eq] at hlength
    simp only [List.length_append, List.length_cons] at hlength
    omega

/-! ### Functions and programs -/

theorem function_recovers {f : Function} (hf : WritableFunction f)
    (hlength : f.lexemes.length ≤ n) :
    (function (.upTo n)).Recovers f.lexemes f anything := by
  obtain ⟨name, ps, result, body⟩ := f
  have hbody : (functionBody (.upTo n)).Recovers
      (body.elim [.mark .semicolon] fun b => b.lexemes ++ [.mark .endWord]) body anything := by
    cases body with
    | none => exact .choose_left (.mark fun _ => .pure) fun _ _ => rfl
    | some b =>
      have hb : b.lexemes.length ≤ n + 1 := by
        simp only [Function.lexemes, Option.elim, List.length_append, List.length_cons] at hlength
        omega
      refine .choose_right (.bind (statement_recovers.2 b (hf.body b rfl) n hb) (fun _ _ => rfl)
        (.mark fun _ => .pure)) fun k _ => ?_
      rw [Option.elim, firstKind_append, firstKind_block]
      rfl
  have hresult : (do
      let result ← returnType
      let b ← functionBody (.upTo n)
      return ⟨name, ps, result, b⟩ : Reading Function).Recovers (resultLexemes result ++
        body.elim [.mark .semicolon] fun b => b.lexemes ++ [.mark .endWord])
          ⟨name, ps, result, body⟩
        anything := by
    refine .bind (returnType_recovers result) (fun k _ => ?_) (.map hbody)
    cases body with
    | none => rfl
    | some b =>
      rw [Option.elim, firstKind_append, firstKind_block]
      rfl
  refine .name fun t ht => .mark fun _ => ?_
  subst ht
  exact .bind (parameters_recovers hf.parameters) (fun _ _ => rfl) (.mark fun _ => hresult)

theorem program_recovers {P : Program} (hP : WritableProgram P) (hlength : P.lexemes.length ≤ n) :
    (program (.upTo n)).Recovers P.lexemes P anything := by
  obtain ⟨name, ds, fs, b⟩ := P
  simp only [Program.lexemes, List.length_append, List.length_cons] at hlength
  have hfunction : ∀ f ∈ fs, (function (.upTo n)).Recovers f.lexemes f anything := by
    intro f hf
    have h := length_le_flatMap (w := Function.lexemes) hf
    exact function_recovers (hP.functions f hf) (by omega)
  have hfunctions : (Many (· == .identifier) (function (.upTo n))).Recovers
      (fs.flatMap Function.lexemes) fs (· == .beginWord) := by
    refine .many hfunction (fun _ _ _ => ⟨rfl, rfl⟩) fun k hk => ?_
    obtain rfl : k = .beginWord := by simpa using hk
    exact ⟨rfl, rfl⟩
  have hb := statement_recovers.2 b hP.body n (by omega)
  refine .name fun t ht => .mark fun _ => ?_
  subst ht
  refine .bind (declarations_recovers hP.declarations) (fun k _ => ?_)
    (.bind hfunctions (fun k _ => ?_) (.bind hb (fun _ _ => rfl) (.mark fun _ => .pure)))
  · rw [firstKind_append]
    refine firstKind_flatMap (p := fun k => k != .varWord) (fun _ _ _ => rfl) ?_
    rw [firstKind_append, firstKind_block]
    rfl
  · rw [firstKind_append, firstKind_block]
    rfl

end Reading

end PLang
