import PLang.Proofs.Lexemes
import PLang.Proofs.Parsing.Program

/-!
# The rules move on

Where a rule of the parser succeeds, it has taken a token, is back at the nesting depth at which it
started and has changed no node that was there before. Where it fails, it has not gone back in the
tokens and not come up in the nesting. So a loop of the parser runs no more often than there are
tokens left, whatever they are.
-/

namespace PLang

open Syntax BinaryOperator Parse

variable {element : Parse NodeId}

namespace Parser

/-- The rules in the states in which the parser enters them. The rule of an operand is the one that
the table has for the current token; the other rules may start anywhere. -/
inductive Enters (p : Parser) : Parse NodeId → Prop
  | expression (power : BindingPower) : p.Enters (expression nested power)
  | statement : p.Enters (statement nested)
  | nested (construct : Nested) : p.Enters (nested construct)
  | operandRule {r : Rule} : p.tables.operand p.stream.current.kind = some r → p.Enters (run r)
  | statementRule {kind : TokenKind} {r : Rule} :
      p.tables.statement kind = some r → p.Enters (run r)
  | compound : p.Enters (run .compound)
  | declaration : p.Enters (run .declaration)
  | function : p.Enters (run .function)
  | type : p.Enters (run .type)
  | literal (minus : Option Token) : p.Enters (literal minus)
  | reference : p.Enters (run .reference)
  | call : p.Enters (run .call)

/-- How a rule ends that moves on. The cursor stays on one of the tokens in either case. -/
def MovesOn (p : Parser) : EStateM.Result Error Parser NodeId → Prop
  | .ok _ q => p.Onward q ∧ q.remaining < p.remaining ∧ q.depth = p.depth ∧
      p.store.size < q.store.size ∧ SameBelow p.store.size p.store q.store
  | .error _ q => p.Onward q

end Parser

variable {α β : Type} {d l n m : Nat} {p q : Parser} {x : Parse β} {R : Reading α}

/-- A rule moves on that follows a reading from its first token on, or from its second one. -/
theorem Parser.MovesOn.follow {At : Store → Nat → NodeId → α → Prop}
    {x : Parse NodeId} {p1 : Parser}
    (hp : p.Ready d l) (honward : p.Onward p1) (hAt : Local At)
    (h : Simulates d l 1 p1 x R (Builds At p)) : p.MovesOn (x p1) := by
  have hle : p1.remaining ≤ p.remaining := Nat.le_of_succ_le_succ honward.1.length_le
  unfold Simulates at h
  cases hx : x p1 with
  | error e q =>
    rw [hx] at h
    exact honward.trans h.1
  | ok id q =>
    rw [hx] at h
    obtain ⟨⟨hq, hpassed⟩, hused, a, -, hadds⟩ := h
    refine ⟨honward.trans hpassed.onward, Nat.lt_of_lt_of_le hused hle,
      hq.depth.trans hp.depth.symm, ?_, hadds.same⟩
    rw [hadds.size]
    exact Nat.lt_succ_of_le (hAt.le hadds.layout)

/-- The first token of a statement may be any one, for the rule needs another one behind it. -/
theorem Parse.Worded.movesOn {word : TokenKind} {x : Parse NodeId} {R : Reading Statement}
    (h : Worded d l word x R) (hp : p.Ready d l) : p.MovesOn (x p) := by
  obtain ⟨f, S, rfl, -, hf⟩ := h
  have hrun : (advance >>= f) p = f p.stream.current { p with stream := p.stream.advance } :=
    bind_ok rfl
  rw [hrun]
  exact .follow hp p.onward_next statementAt_local (hf p.stream.current p _ hp.next rfl)

theorem Parse.statementRule_movesOn (hp : p.Ready d l) {kind : TokenKind} {r : Rule}
    (hr : RuleTables.standardStatement kind = some r) : p.MovesOn (run r p) := by
  have hN := nested_simulates d l
  cases kind <;> cases hr
  case beginWord => exact .follow hp (.refl p) blockAt_local (compound_simulates hN hp)
  case printWord => exact (print_worded hN).movesOn hp
  case readWord => exact (read_worded hN).movesOn hp
  case ifWord => exact (condition_worded hN).movesOn hp
  case whileWord => exact (whileLoop_worded hN).movesOn hp
  case forWord => exact (forLoop_worded hN).movesOn hp
  case returnWord => exact (returnValue_worded hN).movesOn hp
  case identifier =>
    exact .follow hp (.refl p) statementAt_local (identifierStatement_simulates hN hp)

theorem Parser.Enters.movesOn {x : Parse NodeId} (hp : p.Ready d l) (hx : p.Enters x) :
    p.MovesOn (x p) := by
  have hN := nested_simulates d l
  have htype (q : Parser) (hq : q.Ready d l) : Simulates d l 1 q
    (Parse.type Parse.nested) Reading.type
      (Builds TypeAt q) := Parse.type_simulates Parse.nested hq
  have hfollow {α : Type} {At : Store → Nat → NodeId → α → Prop} {R : Reading α} {x : Parse NodeId}
      (hAt : Local At) (h : Simulates d l 1 p x R (Builds At p)) : p.MovesOn (x p) :=
    .follow hp (.refl p) hAt h
  cases hx with
  | expression power => exact hfollow exprAt_local (expression_simulates hN power hp)
  | statement => exact hfollow statementAt_local (statement_simulates hN hp)
  | nested construct =>
    cases construct with
    | expression power => exact hfollow exprAt_local (hN.expression p hp power)
    | statement => exact hfollow statementAt_local (hN.statement p hp)
  | operandRule hr =>
    rw [hp.tables] at hr
    exact hfollow exprAt_local (operand_simulates hN hp hr)
  | statementRule hr =>
    rw [hp.tables] at hr
    exact statementRule_movesOn hp hr
  | compound => exact hfollow blockAt_local (compound_simulates hN hp)
  | declaration => exact hfollow declarationAt_local (declaration_simulates htype hp)
  | function =>
    exact hfollow functionAt_local (function_simulates htype
      (fun _ hq => compound_simulates hN hq) hp)
  | type => exact hfollow typeAt_local (htype p hp)
  | literal minus => exact hfollow literalAt_local ((literal_simulates hp minus).mono .refl
      fun _ _ _ h => h.1)
  | reference => exact hfollow referenceAt_local (reference_simulates hN hp)
  | call => exact hfollow callAt_local (call_simulates hN hp)

/-! ### Loops -/

/-- An action that takes a token, if it succeeds. -/
def Advances (d l : Nat) (p : Parser) (x : Parse β) : Prop :=
  ∀ b q, x p = .ok b q → q.Ready d l ∧ q.remaining < p.remaining

theorem Simulates.advances {post : α → β → Parser → Prop} (h : Simulates d l 1 p x R post) :
    Advances d l p x := by
  intro b q hx
  unfold Simulates at h
  rw [hx] at h
  exact ⟨h.1.1, h.2.1⟩

namespace Parse

variable {more : TokenKind → Bool}

/-- Elements that take tokens run out before the tokens do. -/
theorem manyUpTo_eq
    (helement : ∀ q, q.Ready d l → more q.stream.current.kind = true → Advances d l q element)
    (list : Option NodeId) (hp : p.Ready d l) (hn : p.remaining < n) (hm : p.remaining < m) :
    manyUpTo more element n list p = manyUpTo more element m list p := by
  induction n generalizing m p list with
  | zero => omega
  | succ n ih =>
    cases m with
    | zero => omega
    | succ m =>
      have hkind : currentKind p = .ok p.stream.current.kind p := rfl
      rw [manyUpTo, manyUpTo, bind_ok hkind, bind_ok hkind]
      by_cases hmore : more p.stream.current.kind = true
      · rw [if_pos hmore, if_pos hmore]
        cases hx : element p with
        | error e q => rw [bind_error hx, bind_error hx]
        | ok node q =>
          obtain ⟨hq, hused⟩ := helement p hp hmore node q hx
          have hbuild : build (Build.appendTo list node) q =
            .ok (Build.appendTo list node q.store).1
            { q with store := (Build.appendTo list node q.store).2 } := rfl
          rw [bind_ok hx, bind_ok hx, bind_ok hbuild, bind_ok hbuild]
          refine ih _ ⟨hq.tables, hq.depth, hq.limit, hq.closed⟩ ?_ ?_
          · show q.remaining < n
            omega
          · show q.remaining < m
            omega
      · rw [if_neg hmore, if_neg hmore]

/-- The loops of the parser: the tokens at which they go on, and what they read each time. -/
inductive Loop : (TokenKind → Bool) → Parse NodeId → Prop
  | declarations : Loop (· == .varWord) (run .declaration)
  | functions : Loop (· == .identifier) (run .function)
  | statements : Loop (· != .endWord) (blockStatement nested)
  | names (wanted : String) : Loop (· == .comma) (do let _ ← advance; declaredName wanted)
  | subscripts : Loop (· == .openBracket) (subscript nested)
  | arguments : Loop (· == .comma) (do let _ ← advance; nested (.expression .default))
  | parameters : Loop (· == .semicolon) (do let _ ← advance; parameter (type nested))
  | dimensions : Loop (· == .arrayWord) dimension

/-- A separator and an element behind it. -/
theorem advances_behind {separator : TokenKind} (hp : p.Ready d l)
    (hk : (p.stream.current.kind == separator) = true) (hseparator : separator ≠ .endOfFile)
    (helement : ∀ q, q.Ready d l → Advances d l q element) :
    Advances d l p (do let _ ← advance; element) := by
  intro node q hx
  obtain ⟨hp1, htokens⟩ := hp.advance (by rwa [eq_of_beq hk])
  have hadvance : advance p = .ok p.stream.current { p with stream := p.stream.advance } := rfl
  rw [bind_ok hadvance] at hx
  obtain ⟨hq, hused⟩ := helement _ hp1 node q hx
  have hlength := congrArg List.length htokens
  simp only [Parser.tokens, List.length_cons] at hlength
  refine ⟨hq, Nat.lt_of_lt_of_le hused ?_⟩
  show p.stream.advance.rest.length ≤ p.stream.rest.length
  omega

/-- Each time around, a loop takes a token. -/
theorem Loop.advances (h : Loop more element) (hp : p.Ready d l)
    (hk : more p.stream.current.kind = true) : Advances d l p element := by
  have hN := nested_simulates d l
  have htype (q : Parser) (hq : q.Ready d l) : Simulates d l 1 q (type nested) Reading.type
      (Builds TypeAt q) := type_simulates nested hq
  cases h with
  | declarations => exact (declaration_simulates htype hp).advances
  | functions =>
    exact (function_simulates htype (fun _ hq => compound_simulates hN hq) hp).advances
  | statements => exact (blockStatement_simulates hN hp).advances
  | names wanted =>
    exact advances_behind hp hk (by decide) fun _ hq => (declaredName_simulates hq wanted).advances
  | subscripts => exact (subscript_simulates hN hp hk).advances
  | arguments =>
    exact advances_behind hp hk (by decide) fun q hq => (hN.expression q hq .default).advances
  | parameters =>
    exact advances_behind hp hk (by decide) fun _ hq => (parameter_simulates htype hq).advances
  | dimensions => exact (dimension_simulates hp hk).advances

theorem binaryExpr_advances {o : BinaryOperator} (hp : p.Ready d l) (left : NodeId)
    (hk : p.stream.current.kind = o.kind) : Advances d l p (binaryExpr nested left o.power) := by
  have h : Simulates d l 1 p (binaryExpr nested left o.power)
      (do let _ ← Reading.token o.kind; (Nesting.upTo (l - d)).expression o.power)
      fun _ _ _ => True := by
    refine .advance hp hk (by cases o <;> decide) fun t p1 hp1 _ ht => ?_
    rw [ht, binaryOperator?_eq, ofKind?_kind, ← Reading.bind_pure
      (Nesting.expression _ _)]
    exact ((nested_simulates d l).expression p1 hp1 o.power).bind fun _ _ _ hp2 _ =>
      .build hp2 (.plain (by cases o <;> rfl) rfl) trivial
  exact h.advances

/-- Operators run out before the tokens do. -/
theorem operatorsUpTo_eq {power : BindingPower} (left : NodeId) (hp : p.Ready d l)
    (hn : p.remaining < n) (hm : p.remaining < m) :
    operatorsUpTo nested power n left p = operatorsUpTo nested power m left p := by
  induction n generalizing m p left with
  | zero => omega
  | succ n ih =>
    cases m with
    | zero => omega
    | succ m =>
      have habove : operatorAbove? power p = .ok ((ofKind? p.stream.current.kind).map
          BinaryOperator.power |>.filter (power.rank < ·.rank)) p := by
        rw [operatorAbove?, hp.tables, ← standardOperator_eq]
        rfl
      rw [operatorsUpTo, operatorsUpTo, bind_ok habove, bind_ok habove]
      cases ho : ofKind? p.stream.current.kind with
      | none => rfl
      | some o =>
        by_cases hpower : power.rank < o.power.rank
        · simp only [Option.map_some, Option.filter_some, hpower, decide_true, if_true]
          cases hx : binaryExpr nested left o.power p with
          | error e q => rw [bind_error hx, bind_error hx]
          | ok node q =>
            obtain ⟨hq, hused⟩ :=
              binaryExpr_advances hp left (ofKind?_eq_some.1 ho) node q hx
            rw [bind_ok hx, bind_ok hx]
            exact ih node hq (by omega) (by omega)
        · simp only [Option.map_some, Option.filter_some, hpower, decide_false, Bool.false_eq_true,
            if_false]

/-- From every state on tokens that end the file, every rule moves on. Every loop ends by itself: it
does the same whatever number of rounds it is allowed, if there is one for each token left. -/
theorem rules_move_on (htables : p.tables = .standard)
    (hclosed : ∃ body last, p.tokens = body ++ [last] ∧ last.kind = .endOfFile) :
    (∀ x, p.Enters x → p.MovesOn (x p)) ∧
      (∀ more element, Loop more element → ∀ list n, p.remaining < n →
        manyUpTo more element n list p = many more element list p) ∧
      ∀ power left n, p.remaining < n →
        operatorsUpTo nested power n left p = operators nested power left p := by
  have hp : p.Ready p.depth p.limit := ⟨htables, rfl, rfl, hclosed⟩
  refine ⟨fun x hx => hx.movesOn hp, fun more element hloop list n hn => ?_,
    fun power left n hn => operatorsUpTo_eq left hp hn (Nat.lt_succ_self _)⟩
  exact manyUpTo_eq (fun q hq hmore => hloop.advances hq hmore) list hp hn (Nat.lt_succ_self _)

end Parse

/-- The tokens of a variable with a subscript. -/
def subscriptTokens : List Token := tokensOf "row[1]"

/-- The tokens of a variable with an unfinished subscript. -/
def unfinishedSubscript : List Token := tokensOf "row["

/-- The four tokens of the subscript are taken, and three nodes added. -/
theorem Parse.rules_move_on_subscriptTokens :
    (Parser.ofTokens unfinishedSubscript 2 .standard).MovesOn
        (run .reference (.ofTokens unfinishedSubscript 2 .standard)) ∧
      ∃ id q, run .reference (.ofTokens subscriptTokens 2 .standard) = .ok id q ∧
        (Parser.ofTokens subscriptTokens 2 .standard).MovesOn (.ok id q) ∧
        (Parser.ofTokens subscriptTokens 2 .standard).remaining = 4 ∧ q.remaining = 0 ∧
        q.depth = 0 ∧ q.store.size = 3 := by
  have hmoves (ts : List Token) : (Parser.ofTokens ts 2 .standard).MovesOn
      (run .reference (.ofTokens ts 2 .standard)) :=
    (rules_move_on (p := .ofTokens ts 2 .standard) rfl (closeTokens_closed ts)).1 _ .reference
  have hrun : (do let _ ← run .reference; let q ← get; pure (q.remaining, q.store.size) :
      Parse (Nat × Nat)).run' (.ofTokens subscriptTokens 2 .standard) = some (0, 3) := by
    decide +kernel
  delta EStateM.run' EStateM.run at hrun
  refine ⟨hmoves _, ?_⟩
  have hsubscript := hmoves subscriptTokens
  cases hx : run .reference (.ofTokens subscriptTokens 2 .standard) with
  | error e q =>
    rw [bind_error hx] at hrun
    cases hrun
  | ok id q =>
    rw [bind_ok hx] at hrun
    rw [hx] at hsubscript
    obtain ⟨hremaining, hsize⟩ := Prod.mk.inj (Option.some.inj hrun)
    exact ⟨id, q, rfl, hsubscript, by decide +kernel, hremaining, hsubscript.2.2.1, hsize⟩

end PLang
