import PLang.Proofs.RoundTrip.Declaration

/-!
# Reading written expressions

Expressions are recovered from the tokens that they are written with. The tokens behind an
expression may go on with operators: an operand without parentheses is one that the loop over
operators puts together again, and an operand with parentheses is read one nesting level further
down.
-/

namespace PLang

open Syntax

namespace Reading

/-! ### Lengths -/

theorem length_le_flatMap {α : Type} {w : α → List Lexeme} {a : α} {as : List α} (ha : a ∈ as) :
    (w a).length ≤ (as.flatMap w).length := by
  obtain ⟨front, back, rfl⟩ := List.append_of_mem ha
  simp only [List.flatMap_append, List.flatMap_cons, List.length_append]
  omega

theorem length_le_separate {α : Type} {w : α → List Lexeme} {a : α} {as : List α} (ha : a ∈ as)
    (separator : TokenKind) : (w a).length ≤ (separate separator (as.map w)).length := by
  cases as with
  | nil => cases ha
  | cons b as =>
    rw [List.map_cons, separate, List.length_append, List.flatMap_map]
    rcases List.mem_cons.1 ha with rfl | ha
    · omega
    · have h := length_le_flatMap (w := fun a => .mark separator :: w a) ha
      rw [List.length_cons] at h
      omega

/-! ### First tokens -/

theorem firstKind_expression (e : Expr) (k : TokenKind) :
    firstKind e.lexemes k ∈ Grammar.operandKinds := by
  induction e generalizing k with
  | literal v =>
    cases v with
    | boolean b => cases b <;> exact of_decide_eq_true rfl
    | integer | real | string => exact of_decide_eq_true rfl
  | reference | call => exact of_decide_eq_true rfl
  | unary o e => cases o <;> exact of_decide_eq_true rfl
  | binary o l r ihl =>
    rw [Expr.lexemes, firstKind_append, grouped]
    split
    · exact of_decide_eq_true rfl
    · exact ihl _

theorem one_le_length (e : Expr) : 1 ≤ e.lexemes.length := by
  have h := firstKind_expression e .endOfFile
  cases he : e.lexemes with
  | nil =>
    rw [he] at h
    exact absurd h (by decide)
  | cons l ls => simp

theorem one_le_length_grouped (needed : Bool) (e : Expr) :
    1 ≤ (Syntax.grouped needed e.lexemes).length := by
  cases needed with
  | false => exact one_le_length e
  | true => simp [Syntax.grouped]

/-! ### Names -/

section Names

variable {N : Nesting} {es : List Expr}

theorem subscripts_recovers
    (hes : ∀ e ∈ es, (N.expression .default).Recovers e.lexemes e endsExpression) :
    (Many (· == .openBracket) (subscript N)).Recovers (subscriptLexemes es) es
      (· != .openBracket) := by
  have hsubscript : ∀ e ∈ es, (subscript N).Recovers
      (.mark .openBracket :: (e.lexemes ++ [.mark .closeBracket])) e anything := fun e he =>
    .mark fun _ => .bind (hes e he) (fun _ _ => rfl) (.mark fun _ => .pure)
  rw [subscriptLexemes_eq]
  exact .many hsubscript (fun _ _ _ => ⟨rfl, rfl⟩) fun k hk => ⟨by simpa using hk, rfl⟩

theorem reference_recovers (name : String)
    (hes : ∀ e ∈ es, (N.expression .default).Recovers e.lexemes e endsExpression) :
    (reference N).Recovers (.name name :: subscriptLexemes es) (name, es) (· != .openBracket) := by
  refine .name fun t ht => ?_
  subst ht
  exact .map (subscripts_recovers hes)

theorem arguments_recovers
    (hes : ∀ e ∈ es, (N.expression .default).Recovers e.lexemes e endsExpression) :
    (arguments N).Recovers (separate .comma (listLexemes es)) es (· == .closeParen) := by
  rw [listLexemes_eq]
  refine .members hes (fun e _ k => ?_) rfl rfl (by decide)
  have hfirst := firstKind_expression e k
  refine beq_eq_false_iff_ne.2 fun heq => ?_
  rw [heq] at hfirst
  exact absurd hfirst (by decide)

theorem call_recovers (name : String)
    (hes : ∀ e ∈ es, (N.expression .default).Recovers e.lexemes e endsExpression) :
    (call N).Recovers (.name name :: .mark .openParen ::
      (separate .comma (listLexemes es) ++ [.mark .closeParen])) (name, es) anything := by
  refine .name fun t ht => .mark fun _ => ?_
  subst ht
  exact .bind (arguments_recovers hes) (fun _ _ => rfl) (.mark fun _ => .pure)

/-- Behind a variable with its subscripts there is no parenthesis. -/
theorem firstKind_subscript_ne {k : TokenKind} (h : endsName k = true) :
    firstKind (subscriptLexemes es) k ≠ .openParen := by
  cases es with
  | nil =>
    rintro rfl
    cases h
  | cons e es => exact of_decide_eq_true rfl

theorem symbol_recovers_reference (name : String)
    (hes : ∀ e ∈ es, (N.expression .default).Recovers e.lexemes e endsExpression) :
    (operand N).Recovers (.name name :: subscriptLexemes es) (.reference name es) endsName := by
  have hsymbol : (symbol N).Recovers (.name name :: subscriptLexemes es) (.reference name es)
      endsName := by
    refine .callOr_right (.map ((reference_recovers name hes).follows fun k hk => ?_))
      fun k hk => firstKind_subscript_ne hk
    exact (Bool.and_eq_true_iff.1 hk).1
  refine .dispatch hsymbol fun ts hts => ?_
  rw [operand, hts]
  rfl

theorem symbol_recovers_call (name : String)
    (hes : ∀ e ∈ es, (N.expression .default).Recovers e.lexemes e endsExpression) :
    (operand N).Recovers (.name name :: .mark .openParen ::
      (separate .comma (listLexemes es) ++ [.mark .closeParen])) (.call name es) endsName := by
  have hsymbol : (symbol N).Recovers (.name name :: .mark .openParen ::
      (separate .comma (listLexemes es) ++ [.mark .closeParen])) (.call name es) endsName :=
    .callOr_left (.map ((call_recovers name hes).follows fun _ _ => rfl))
  refine .dispatch hsymbol fun ts hts => ?_
  rw [operand, hts]
  rfl

end Names

/-! ### Operands and operators -/

theorem Stops.mono {p q : BindingPower} {ts : List Token} (h : Stops p ts) (hpq : p.rank ≤ q.rank) :
    Stops q ts :=
  fun o ho => Nat.le_trans (h o ho) hpq

/-- Whether an expression can stand without parentheses where the operators have to bind more
strongly than a power. Only operators with two operands are found by the loop over operators. -/
def Fits (power : BindingPower) : Expr → Prop
  | .binary o _ _ => power.rank < o.power.rank
  | _ => True

variable {power : BindingPower}

theorem Fits.of_lt {e : Expr} (h : power.rank < e.power.rank) :
    Fits power e := by
  cases e with
  | binary o l r => exact h
  | literal | reference | call | unary => trivial

/-- Whether an expression is read back from the tokens that it is written with, as the first operand
of what comes behind it. -/
def Returns (e : Expr) : Prop :=
  ∀ ⦃n : Nat⦄ ⦃power : BindingPower⦄ ⦃ts rest last : List Token⦄ ⦃whole : Expr⦄,
    e.lexemes.length ≤ n + 1 → Written e.lexemes ts → Fits power e →
      endsName (headKind rest) = true →
    Stops e.power rest → Operators (.upTo n) power e rest whole last →
    expression (.upTo n) power (ts ++ rest) whole last

namespace Returns

variable {e : Expr}

theorem of_operand (h : ∀ n, e.lexemes.length ≤ n + 1 →
    (operand (.upTo n)).Recovers e.lexemes e endsName) : Returns e := by
  intro n power ts rest last whole hlength hts _ hrest _ hoperators
  exact ⟨e, rest, h n hlength ts rest hts hrest, hoperators⟩

theorem recovers {n : Nat} (h : Returns e) (hlength : e.lexemes.length ≤ n) :
    ((Nesting.upTo n).expression .default).Recovers e.lexemes e endsExpression := by
  intro ts rest hts hrest
  obtain ⟨hname, hnone⟩ := Bool.and_eq_true_iff.1 hrest
  have hstops : ∀ power, Stops power rest := by
    intro power o ho
    rw [ho] at hnone
    cases hnone
  cases n with
  | zero => exact absurd (one_le_length e) (by omega)
  | succ n =>
    refine h hlength hts ?_ hname (hstops _) (.stop (hstops _))
    cases e with
    | binary o l r => exact o.rank_default_lt_power
    | literal | reference | call | unary => trivial

/-- An operand with or without parentheses. -/
theorem grouped {n : Nat} {ts rest last : List Token} {whole : Expr}
    {needed : Bool} (h : Returns e) (hlength : (Syntax.grouped needed e.lexemes).length ≤ n + 1)
    (hts : Written (Syntax.grouped needed e.lexemes) ts)
    (hneeded : needed = false → Fits power e ∧ Stops e.power rest)
    (hrest : endsName (headKind rest) = true)
    (hoperators : Operators (.upTo n) power e rest whole last) :
    expression (.upTo n) power (ts ++ rest) whole last := by
  cases needed with
  | false => exact h hlength hts (hneeded rfl).1 hrest (hneeded rfl).2 hoperators
  | true =>
    have hshorter : e.lexemes.length ≤ n := by
      simp only [Syntax.grouped, if_true, List.length_cons, List.length_append] at hlength
      omega
    have hgrouping : (grouping (.upTo n)).Recovers
        (.mark .openParen :: (e.lexemes ++ [.mark .closeParen])) e endsName :=
      .mark fun _ => .bind (h.recovers hshorter) (fun _ _ => rfl) (.mark fun _ => .pure)
    have hoperand : (operand (.upTo n)).Recovers
        (.mark .openParen :: (e.lexemes ++ [.mark .closeParen])) e endsName := by
      refine .dispatch hgrouping fun us hus => ?_
      rw [operand, hus]
      rfl
    exact ⟨e, rest, hoperand ts rest hts hrest, hoperators⟩

theorem unary {o : UnaryOperator} (h : Returns e) : Returns (.unary o e) := by
  intro n power ts rest last whole hlength hts _ hrest hstops hoperators
  rw [Expr.lexemes, List.length_cons] at hlength
  rw [Expr.lexemes] at hts
  have hneeded : decide (e.power.rank < o.power.rank) = false →
      Fits o.power e ∧ Stops e.power rest := by
    intro hle
    have hle : o.power.rank ≤ e.power.rank := Nat.not_lt.1 (of_decide_eq_false hle)
    refine ⟨?_, hstops.mono hle⟩
    cases e with
    | binary o' l r => exact Nat.lt_of_le_of_ne hle (o'.rank_power_ne o).symm
    | literal | reference | call | unary => trivial
  have hlong := one_le_length_grouped (decide (e.power.rank < o.power.rank)) e
  cases hts with
  | @cons _ t _ us ht hus =>
    cases n with
    | zero => omega
    | succ n =>
      have hread : Reading.unary (.upTo (n + 1)) o (t :: us ++ rest) (.unary o e) rest :=
        ⟨t, us ++ rest, ⟨rfl, ht.1⟩, e, rest,
          h.grouped (by omega) hus hneeded hrest (.stop hstops), rfl, rfl⟩
      have hoperand : operand (.upTo (n + 1)) (t :: us ++ rest) (.unary o e) rest := by
        rw [operand, List.cons_append, headKind_cons, ht.1]
        cases o <;> exact hread
      exact ⟨.unary o e, rest, hoperand, hoperators⟩

theorem binary {o : BinaryOperator} {l r : Expr} (hl : Returns l) (hr : Returns r) :
    Returns (.binary o l r) := by
  intro n power ts rest last whole hlength hts hfits hrest hstops hoperators
  rw [Expr.lexemes, List.length_append, List.length_cons] at hlength
  rw [Expr.lexemes] at hts
  obtain ⟨us, _, rfl, hus, hright⟩ := hts.split
  have hlong1 := one_le_length_grouped (decide (l.power.rank < o.power.rank)) l
  have hlong2 := one_le_length_grouped (decide (r.power.rank ≤ o.power.rank)) r
  cases hright with
  | @cons _ t _ vs ht hvs =>
    cases n with
    | zero => omega
    | succ n =>
      have hoperator : BinaryOperator.ofKind? t.kind = some o :=
        BinaryOperator.ofKind?_eq_some.2 ht.1
      -- the right operand ends where an operator comes that does not bind more strongly
      have hread : (Nesting.upTo (n + 1)).expression o.power (vs ++ rest) r rest := by
        refine hr.grouped (by omega) hvs (fun hle => ?_) hrest (.stop hstops)
        have hlt : o.power.rank < r.power.rank := Nat.not_le.1 (of_decide_eq_false hle)
        exact ⟨.of_lt hlt, hstops.mono (Nat.le_of_lt hlt)⟩
      rw [List.append_assoc]
      refine hl.grouped (by omega) hus (fun hlt => ?_) ?_ (.next hoperator hfits hread hoperators)
      · have hle : o.power.rank ≤ l.power.rank := Nat.not_lt.1 (of_decide_eq_false hlt)
        refine ⟨.of_lt (Nat.lt_of_lt_of_le hfits hle), fun o' ho' => ?_⟩
        have heq : o = o' := Option.some.inj (hoperator.symm.trans ho')
        exact heq ▸ hle
      · rw [List.cons_append, headKind_cons, ht.1]
        cases o <;> rfl

end Returns

/-- Every expression that can be written is read back. -/
theorem returns {e : Expr} (he : WritableExpr e) : Returns e := by
  induction e with
  | literal v =>
    cases he with
    | literal hv =>
      refine .of_operand fun n _ =>
        .dispatch (.map ((literal_recovers hv).follows fun _ _ => rfl)) ?_
      intro ts hts
      rw [operand, hts]
      cases v with
      | boolean b => cases b <;> rfl
      | integer | real | string => rfl
  | reference name es ih =>
    cases he with
    | reference hes =>
      refine .of_operand fun n hlength => symbol_recovers_reference name fun e hmem => ?_
      refine (ih e hmem (hes e hmem)).recovers ?_
      rw [Expr.lexemes, subscriptLexemes_eq, List.length_cons] at hlength
      have h := length_le_flatMap (w := fun e : Expr =>
        .mark .openBracket :: (e.lexemes ++ [.mark .closeBracket])) hmem
      simp only [List.length_cons, List.length_append] at h
      omega
  | call name es ih =>
    cases he with
    | call hes =>
      refine .of_operand fun n hlength => symbol_recovers_call name fun e hmem => ?_
      refine (ih e hmem (hes e hmem)).recovers ?_
      rw [Expr.lexemes, listLexemes_eq, List.length_cons, List.length_cons,
        List.length_append] at hlength
      have h := length_le_separate (w := Expr.lexemes) hmem .comma
      omega
  | unary o e ih =>
    cases he with
    | unary he => exact .unary (ih he)
  | binary o l r ihl ihr =>
    cases he with
    | binary hl hr => exact .binary (ihl hl) (ihr hr)

end Reading

end PLang
