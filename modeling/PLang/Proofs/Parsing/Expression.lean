import PLang.Proofs.Parsing.Declaration

/-!
# The rules for expressions follow their readings
-/

namespace PLang

open Syntax BinaryOperator Option Reading RuleTables

/-- Expressions and statements one nesting level further down follow their readings. -/
structure NestedSimulates (d l : Nat) (nested : Nested → Parse NodeId) (N : Nesting) : Prop where
  expression : ∀ p : Parser, p.Ready d l → ∀ power,
    Simulates d l 1 p (nested (.expression power)) (N.expression power) (Builds ExprAt p)
  statement : ∀ p : Parser, p.Ready d l →
    Simulates d l 1 p (nested .statement) N.statement (Builds StatementAt p)

namespace Reading

variable {N : Nesting} {power : BindingPower} {left : Expr} {ts : List Token}

theorem operators_of_stop (h : Stops power ts) :
    Operators N power left ts = (pure left : Reading Expr) ts := by
  funext e rest
  refine propext ⟨fun hread => ?_, ?_⟩
  · cases hread with
    | stop => exact ⟨rfl, rfl⟩
    | next ho hpower => exact absurd (h _ ho) (by omega)
  · rintro ⟨rfl, rfl⟩
    exact .stop h

/-- A binary operator and its right operand. -/
def binary (N : Nesting) (o : BinaryOperator) (left : Expr) : Reading Expr := do
  let _ ← token o.kind
  let right ← N.expression o.power
  return .binary o left right

theorem operators_of_next {o : BinaryOperator} (ho : ofKind? (headKind ts) = some o)
    (hpower : power.rank < o.power.rank) :
    Operators N power left ts = (binary N o left >>= Operators N power) ts := by
  funext e rest
  refine propext ⟨fun hread => ?_, ?_⟩
  · cases hread with
    | stop hstop => exact absurd (hstop o ho) (by omega)
    | @next _ right _ o' t _ mid _ ho' _ hright hrest =>
      obtain rfl : o = o' := some.inj (ho.symm.trans ho')
      exact ⟨_, mid, ⟨t, _, ⟨rfl, ofKind?_eq_some.1 ho⟩, right, mid, hright, rfl, rfl⟩,
        hrest⟩
  · rintro ⟨_, _, ⟨t, _, ⟨rfl, hk⟩, right, mid, hright, rfl, rfl⟩, hrest⟩
    exact .next ho hpower hright hrest

end Reading

/-- The kind of the token after the current one is that of the second token, if there is one, and
that of the end of the file otherwise. -/
theorem Parser.Ready.nextKind {d l : Nat} {p : Parser} (hp : p.Ready d l) :
    ((p.stream.peek 1).kind = .openParen) = (secondKind? p.tokens = some .openParen) := by
  obtain ⟨body, last, heq, hlast⟩ := hp.closed
  obtain ⟨⟨current, rest⟩, store, tables, depth, limit⟩ := p
  cases rest with
  | nil =>
    obtain ⟨-, h⟩ : body = [] ∧ [last] = [current] := by
      simpa [List.append_eq_singleton_iff, Parser.tokens] using heq.symm
    simp_all [Parser.tokens, secondKind?, TokenStream.peek]
  | cons next rest =>
    simp [Parser.tokens, secondKind?, TokenStream.peek]

/-- A choice by the token after the current one. -/
theorem Simulates.callOr {α β : Type} {d l k : Nat} {p : Parser} {x y : Parse β} {R S : Reading α}
    {post : α → β → Parser → Prop} (hp : p.Ready d l) (hx : Simulates d l k p x R post)
    (hy : Simulates d l k p y S post) :
    Simulates d l k p (do if (← Parse.nextKind) = .openParen then x else y) (callOr R S)
      post := by
  refine .look (c := (p.stream.peek 1).kind) rfl ?_
  by_cases hk : (p.stream.peek 1).kind = .openParen
  · rw [if_pos hk]
    exact hx.congr (if_pos (hp.nextKind ▸ hk))
  · rw [if_neg hk]
    exact hy.congr (if_neg (hp.nextKind ▸ hk))

namespace Parse

variable {d l : Nat} {nested : Nested → Parse NodeId} {N : Nesting} {p : Parser}
  (hN : NestedSimulates d l nested N)

theorem literalExpr_simulates (hp : p.Ready d l) :
    Simulates d l 1 p literalExpr
      (do let v ← Reading.literal false; return .literal v) (Builds ExprAt p) := by
  refine .look (c := p.location) rfl ?_
  refine (literal_simulates hp none).bind fun v id p1 hp1 hadds => .build hp1 (.plain rfl rfl) ?_
  exact Adds.literalExpr hadds.1 (Build.added_add ..)

variable (hp : p.Ready d l)

include hN hp

theorem subscript_simulates (hk : (p.stream.current.kind == TokenKind.openBracket) = true) :
    Simulates d l 1 p (subscript nested) (Reading.subscript N) (Builds ExprAt p) := by
  refine .advance hp (eq_of_beq hk) (by decide) fun _ p1 hp1 hs1 _ => ?_
  refine (hN.expression p1 hp1 .default).bind fun e id p2 hp2 hadds => ?_
  refine .expectOr hp2 (by decide) fun _ p3 hp3 hs3 _ => .pure hp3 ?_
  rw [Builds, ← hs1, hs3]
  exact hadds

theorem reference_simulates :
    Simulates d l 1 p (reference nested) (Reading.reference N) (Builds ReferenceAt p) := by
  refine .expectOr hp (by decide) fun t p1 hp1 hs1 _ => ?_
  have hmany : Simulates d l 0 p1 (many (· == .openBracket) (subscript nested) none)
      (Reading.Many (· == .openBracket) (Reading.subscript N)) (BuildsList ExprAt p1) :=
    many_simulates exprAt_local (fun _ hp hk => subscript_simulates hN hp hk) hp1
  refine hmany.bind fun es head p2 hp2 hes => .build hp2 (.plain rfl rfl) ?_
  rw [BuildsList, hs1] at hes
  exact hes.reference (Build.added_add ..)

theorem arguments_simulates :
    Simulates d l 0 p (arguments nested) (Reading.arguments N) (BuildsList ExprAt p) := by
  refine .look (c := p.stream.current.kind) rfl (.chooseKind (fun _ => ?_) fun _ => ?_)
  · exact .pure hp (AddsList.nil _)
  · exact (some_separated_simulates exprAt_local (by decide)
      (fun p hp => hN.expression p hp .default) hp).mono (Nat.zero_le _) fun _ _ _ h => h

theorem call_simulates : Simulates d l 1 p (call nested) (Reading.call N) (Builds CallAt p) := by
  refine .expectOr hp (by decide) fun t p1 hp1 hs1 _ => ?_
  refine .expectOr hp1 (by decide) fun _ p2 hp2 hs2 _ => ?_
  refine (arguments_simulates hN hp2).bind fun es head p3 hp3 hes => ?_
  refine .expectOr hp3 (by decide) fun _ p4 hp4 hs4 _ => .build hp4 (.plain rfl rfl) ?_
  rw [BuildsList, hs2, hs1, ← hs4] at hes
  exact hes.call (Build.added_add ..)

theorem symbolExpr_simulates :
    Simulates d l 1 p (symbolExpr nested) (Reading.symbol N) (Builds ExprAt p) := by
  refine .look (c := p.location) rfl (.callOr hp ?_ ?_)
  · refine (call_simulates hN hp).bind fun c id p1 hp1 hadds => .build hp1 (.plain rfl rfl) ?_
    exact Adds.callExpr hadds (Build.added_add ..)
  · refine (reference_simulates hN hp).bind fun r id p1 hp1 hadds => .build hp1 (.plain rfl rfl) ?_
    exact Adds.referenceExpr hadds (Build.added_add ..)

theorem groupingExpr_simulates :
    Simulates d l 1 p (groupingExpr nested) (grouping N) (Builds ExprAt p) := by
  refine .expectOr hp (by decide) fun _ p1 hp1 hs1 _ => ?_
  refine (hN.expression p1 hp1 .default).bind fun e id p2 hp2 hadds => ?_
  refine .expectOr hp2 (by decide) fun _ p3 hp3 hs3 _ => .pure hp3 ?_
  rw [Builds, ← hs1, hs3]
  exact hadds

theorem unaryExpr_simulates {o : UnaryOperator} (hk : p.stream.current.kind = o.kind) :
    Simulates d l 1 p (unaryExpr nested) (unary N o) (Builds ExprAt p) := by
  refine .advance hp hk (by cases o <;> decide) fun t p1 hp1 hs1 ht => ?_
  rw [ht, UnaryOperator.unaryOperator_kind]
  refine (hN.expression p1 hp1 o.power).bind fun e id p2 hp2 hadds =>
    .build hp2 (.plain (by cases o <;> rfl) rfl) ?_
  rw [Builds, hs1] at hadds
  exact hadds.unaryExpr (Build.added_add ..)

/-- The operand that an expression starts with. -/
theorem operand_simulates {r : Rule}
    (hr : RuleTables.standardOperand p.stream.current.kind = some r) :
    Simulates d l 1 p (rule nested (type nested) r) (Reading.operand N) (Builds ExprAt p) := by
  have hhead : Reading.headKind p.tokens = p.stream.current.kind := rfl
  cases hk : p.stream.current.kind <;> rw [hk] at hr hhead <;> cases hr
  case integer | real | string | trueWord | falseWord =>
    exact (literalExpr_simulates hp).congr (by rw [Reading.operand, hhead])
  case identifier => exact (symbolExpr_simulates hN hp).congr (by rw [Reading.operand, hhead])
  case openParen => exact (groupingExpr_simulates hN hp).congr (by rw [Reading.operand, hhead])
  case dash =>
    exact (unaryExpr_simulates hN hp (o := .negate) hk).congr (by rw [Reading.operand, hhead])
  case notWord =>
    exact (unaryExpr_simulates hN hp (o := .not) hk).congr (by rw [Reading.operand, hhead])

omit hN hp in
theorem not_operand (ts : List Token)
    (h : standardOperand (headKind ts) = none) {e : Expr} {rest : List Token} :
    ¬operand N ts e rest := by
  intro hread
  unfold Reading.operand at hread
  generalize headKind ts = kind at h hread
  cases kind with
  | integer | real | string | trueWord | falseWord | identifier | openParen | dash | notWord =>
    cases h
  | _ => exact hread

theorem binaryExpr_simulates {o : BinaryOperator} {s : Store} {left : Expr} {id : NodeId}
    (hk : p.stream.current.kind = o.kind) (hleft : Adds ExprAt s left id p.store) :
    Simulates d l 1 p (binaryExpr nested id o.power) (binary N o left)
      fun e id p' => Adds ExprAt s e id p'.store := by
  refine .advance hp hk (by cases o <;> decide) fun t p1 hp1 hs1 ht => ?_
  rw [ht, binaryOperator?_eq, ofKind?_kind]
  refine (hN.expression p1 hp1 o.power).bind fun e id' p2 hp2 hadds =>
    .build hp2 (.plain (by cases o <;> rfl) rfl) ?_
  rw [Builds, hs1] at hadds
  exact hleft.binaryExpr hadds (Build.added_add ..)

omit hp

/-- A loop over operators. The expression that is there already becomes their leftmost operand. -/
theorem operatorsUpTo_simulates {power : BindingPower} (n : Nat) {s : Store} {left : Expr}
    {id : NodeId} (hp : p.Ready d l) (hn : p.remaining < n)
    (hleft : Adds ExprAt s left id p.store) :
    Simulates d l 0 p (operatorsUpTo nested power n id) (Reading.Operators N power left)
      fun e id p' => Adds ExprAt s e id p'.store := by
  induction n generalizing p left id with
  | zero => omega
  | succ n ih =>
    have habove : operatorAbove? power p = .ok ((ofKind? p.stream.current.kind).map
        BinaryOperator.power |>.filter (power.rank < ·.rank)) p := by
      rw [operatorAbove?, hp.tables, ← standardOperator_eq]
      rfl
    refine .look habove ?_
    have stops (h : Reading.Stops power p.tokens) : Simulates d l 0 p (pure id)
        (Reading.Operators N power left) fun e id p' => Adds ExprAt s e id p'.store :=
      .congr (operators_of_stop h) (.pure hp hleft)
    cases ho : ofKind? p.stream.current.kind with
    | none =>
      refine stops fun o ho' => ?_
      cases ho.symm.trans ho'
    | some o =>
      by_cases hpower : power.rank < o.power.rank
      · rw [map_some, filter_some, if_pos (decide_eq_true hpower)]
        refine .congr (operators_of_next ho hpower) ?_
        have hk : p.stream.current.kind = o.kind := ofKind?_eq_some.1 ho
        refine (binaryExpr_simulates hN hp hk hleft).used.bind fun e id p1 hp1 hread => ?_
        obtain ⟨hused, he⟩ := hread
        exact ih hp1 (by omega) he
      · rw [map_some, filter_some, if_neg (by simpa using hpower)]
        refine stops fun o' ho' => ?_
        obtain rfl : o = o' := some.inj (ho.symm.trans ho')
        omega

omit hN in
theorem expression_eq (hp : p.Ready d l) (power : BindingPower) : expression nested power p =
    (standardOperand p.stream.current.kind).elim
      (fail (·.unexpected "expected expression"))
      (fun r => rule nested (type nested) r >>= operators nested power) p := by
  have htable : p.tables.operand p.stream.current.kind =
      standardOperand p.stream.current.kind := by
    rw [hp.tables]
    rfl
  rw [← htable, expression]
  cases p.tables.operand p.stream.current.kind <;> rfl

/-- An expression. -/
theorem expression_simulates (power : BindingPower) (hp : p.Ready d l) :
    Simulates d l 1 p (expression nested power) (Reading.expression N power) (Builds ExprAt p) := by
  refine .ofRun (expression_eq hp power) ?_
  cases hr : standardOperand p.stream.current.kind with
  | none =>
    refine .fail fun _ _ => ?_
    rintro ⟨_, _, hoperand, -⟩
    exact not_operand p.tokens hr hoperand
  | some r =>
    refine (operand_simulates hN hp hr).bind fun e id p1 hp1 hadds => ?_
    exact operatorsUpTo_simulates hN (p1.remaining + 1) hp1 (Nat.lt_succ_self _) hadds

end Parse

end PLang
