import PLang.Proofs.InStep.Parsing
import PLang.Proofs.Parsing.Program

/-!
# Two parses in step

The rules for expressions and statements stay in step, if the actions that read what is nested in
them do, and the levels of nesting tie them together. So two parses of tokens that go together end
alike.
-/

namespace PLang

namespace Parse

open Coupling

variable {C : Coupling}

/-! ### Expressions -/

/-- Actions for what is nested that are in step. -/
def NestedInStep (C : Coupling) (nested nested' : Nested → Parse NodeId) : Prop :=
  ∀ construct, InStep C Eq (nested construct) (nested' construct)

variable [C.Lawful] {nested nested' : Nested → Parse NodeId} (hn : NestedInStep C nested nested')

section Expressions

include hn

theorem subscript_inStep : InStep C Eq (subscript nested) (subscript nested') := by
  apply advance_inStep.skip
  apply (hn _).same
  intro index
  apply (expect_inStep _).skip
  exact .pure rfl

theorem reference_inStep : InStep C Eq (reference nested) (reference nested') := by
  apply (expectFor_inStep _ _).bind
  intro name name' hname
  apply (many_inStep _ (subscript_inStep hn) none).same
  intro indices
  exact .build (Lawful.addNamed hname (.reference indices))

theorem arguments_inStep : InStep C Eq (arguments nested) (arguments nested') := by
  apply currentKind_inStep.same
  intro kind
  split
  · exact .pure rfl
  · exact (separated_inStep .comma (hn _) (hn _)).map fun _ _ h => congrArg some h

theorem call_inStep : InStep C Eq (call nested) (call nested') := by
  apply (expectFor_inStep _ _).bind
  intro name name' hname
  apply (expect_inStep _).skip
  apply (arguments_inStep hn).same
  intro list
  apply (expectFor_inStep _ _).skip
  exact .build (Lawful.addNamed hname (.call list))

theorem symbolExpr_inStep : InStep C Eq (symbolExpr nested) (symbolExpr nested') := by
  apply location_inStep.bind
  intro place place' hplace
  apply nextKind_inStep.same
  intro kind
  split
  · apply (call_inStep hn).bind
    rintro node _ rfl
    exact .build (Lawful.add hplace rfl)
  · apply (reference_inStep hn).bind
    rintro node _ rfl
    exact .build (Lawful.add hplace rfl)

theorem groupingExpr_inStep : InStep C Eq (groupingExpr nested) (groupingExpr nested') := by
  apply (expect_inStep _).skip
  apply (hn _).same
  intro node
  apply (expectFor_inStep _ _).skip
  exact .pure rfl

theorem unaryExpr_inStep : InStep C Eq (unaryExpr nested) (unaryExpr nested') := by
  apply advance_inStep.bind
  intro t t' ht
  rw [Lawful.kind_eq ht]
  apply (hn _).same
  intro operand
  exact .build (Lawful.add (.of ht) rfl)

theorem binaryExpr_inStep (left : NodeId) (power : BindingPower) :
    InStep C Eq (binaryExpr nested left power) (binaryExpr nested' left power) := by
  apply advance_inStep.bind
  intro t t' ht
  rw [Lawful.kind_eq ht]
  cases binaryOperator? t.kind with
  | none => exact fun _ _ _ => .error .misplaced ht
  | some operator =>
    apply (hn _).same
    intro right
    exact .build (Lawful.add (.of ht) rfl)

omit hn in
theorem operatorAbove?_inStep (power : BindingPower) :
    InStep C Eq (operatorAbove? power) (operatorAbove? power) := by
  intro p p' hp
  unfold operatorAbove?
  rw [hp.tables, hp.kind]
  exact .ok rfl hp

theorem operatorsUpTo_inStep (power : BindingPower) (n : Nat) (left : NodeId) :
    InStep C Eq (operatorsUpTo nested power n left) (operatorsUpTo nested' power n left) := by
  induction n generalizing left with
  | zero => exact .pure rfl
  | succ n ih =>
    apply (operatorAbove?_inStep power).same
    intro next
    cases next with
    | none => exact .pure rfl
    | some next =>
      apply (binaryExpr_inStep hn left next).same
      intro node
      exact ih node

theorem operators_inStep (power : BindingPower) (left : NodeId) :
    InStep C Eq (operators nested power left) (operators nested' power left) := by
  intro p p' hp
  unfold operators
  rw [hp.remaining]
  exact operatorsUpTo_inStep hn power _ left p p' hp

end Expressions

/-! ### Statements and programs -/

section Statements

variable {type type' : Parse NodeId} (ht : InStep C Eq type type')

include hn

theorem blockStatement_inStep : InStep C Eq (blockStatement nested) (blockStatement nested') := by
  apply currentKind_inStep.same
  intro kind
  split
  · exact .unexpected _
  · exact hn _

include ht in
theorem compound_inStep : InStep C Eq (compound nested type) (compound nested' type') := by
  apply (expect_inStep _).bind
  intro t t' htoken
  apply (declarations_inStep ht).same
  intro declared
  apply (many_inStep _ (blockStatement_inStep hn) none).bind
  rintro statements _ rfl
  apply advance_inStep.skip
  exact .build (Lawful.add htoken.place rfl)

theorem print_inStep : InStep C Eq (print nested) (print nested') := by
  apply advance_inStep.bind
  intro t t' htoken
  apply (hn _).same
  intro value
  apply (expect_inStep _).skip
  exact .build (Lawful.add (.of htoken) rfl)

theorem read_inStep : InStep C Eq (read nested) (read nested') := by
  apply advance_inStep.bind
  intro t t' htoken
  apply (reference_inStep hn).same
  intro target
  apply (expect_inStep _).skip
  exact .build (Lawful.add (.of htoken) rfl)

include ht in
theorem condition_inStep : InStep C Eq (condition nested type) (condition nested' type') := by
  apply advance_inStep.bind
  intro t t' htoken
  apply (hn _).same
  intro guard
  apply (expectFor_inStep _ _).skip
  apply (compound_inStep hn ht).same
  intro thenBody
  have hend : ∀ elseBody : Option NodeId,
      InStep C Eq
        (do
          let _ ← expectFor .endWord "expected 'end if'"
          let _ ← expectFor .ifWord "expected 'end if'"
          build (Build.condition t.location guard thenBody elseBody))
        (do
          let _ ← expectFor .endWord "expected 'end if'"
          let _ ← expectFor .ifWord "expected 'end if'"
          build (Build.condition t'.location guard thenBody elseBody)) := by
    intro elseBody
    apply (expectFor_inStep _ _).skip
    apply (expectFor_inStep _ _).bind
    intro _ _ _
    exact .build (Lawful.add (.of htoken) rfl)
  apply (accept?_inStep _).bind
  intro elseWord elseWord' h
  cases h with
  | none => exact hend none
  | some _ =>
    apply ((compound_inStep hn ht).map fun _ _ h => congrArg some h).same
    intro elseBody
    exact hend elseBody

include ht in
theorem loopBody_inStep : InStep C Eq (loopBody nested type) (loopBody nested' type') := by
  apply (compound_inStep hn ht).same
  intro body
  apply (expectFor_inStep _ _).skip
  apply (expectFor_inStep _ _).bind
  intro _ _ _
  exact .pure rfl

include ht in
theorem whileLoop_inStep : InStep C Eq (whileLoop nested type) (whileLoop nested' type') := by
  apply advance_inStep.bind
  intro t t' htoken
  apply (hn _).same
  intro guard
  apply (expectFor_inStep _ _).skip
  apply (loopBody_inStep hn ht).same
  intro body
  exact .build (Lawful.add (.of htoken) rfl)

include ht in
theorem forLoop_inStep : InStep C Eq (forLoop nested type) (forLoop nested' type') := by
  apply advance_inStep.bind
  intro t t' htoken
  apply (expectFor_inStep _ _).bind
  intro name name' hname
  apply (expectFor_inStep _ _).bind
  intro assign assign' hassign
  apply (expectFor_inStep _ _).bind
  intro lower lower' hlower
  apply (expectFor_inStep _ _).skip
  apply (expectFor_inStep _ _).bind
  intro upper upper' hupper
  apply (expectFor_inStep _ _).skip
  apply (loopBody_inStep hn ht).same
  intro body
  apply (integer_inStep hlower.token (by simp [hlower.kind])).bind
  rintro low _ rfl
  apply (integer_inStep hupper.token (by simp [hupper.kind])).same
  intro high
  exact .build (Lawful.addLoop htoken hname hassign hlower.token hupper.token low high body)

theorem returnValue_inStep : InStep C Eq (returnValue nested) (returnValue nested') := by
  apply advance_inStep.bind
  intro t t' htoken
  apply currentKind_inStep.same
  intro kind
  have hend : ∀ value : Option NodeId,
      InStep C Eq
        (expect .semicolon >>= fun _ => build (Build.returnValue t.location value))
        (expect .semicolon >>= fun _ => build (Build.returnValue t'.location value)) := by
    intro value
    apply (expect_inStep _).skip
    exact .build (Lawful.add (.of htoken) rfl)
  by_cases hk : kind = .semicolon
  · rw [if_pos hk, if_pos hk]
    exact hend none
  · rw [if_neg hk, if_neg hk]
    apply ((hn _).map fun _ _ h => congrArg some h).same
    intro value
    exact hend value

theorem identifierStatement_inStep :
    InStep C Eq (identifierStatement nested) (identifierStatement nested') := by
  apply nextKind_inStep.same
  intro kind
  split
  · apply (call_inStep hn).bind
    rintro node _ rfl
    apply (expect_inStep _).skip
    exact .pure rfl
  · apply (reference_inStep hn).bind
    rintro target _ rfl
    apply (expectFor_inStep _ _).bind
    intro assign assign' hassign
    apply (hn _).same
    intro value
    apply (expect_inStep _).skip
    exact .build (Lawful.add hassign.place rfl)

include ht in
theorem programBody_inStep : InStep C Eq (programBody nested type) (programBody nested' type') := by
  apply currentKind_inStep.same
  intro kind
  split
  · exact compound_inStep hn ht
  · exact .unexpected _

include ht in
theorem program_inStep : InStep C Eq (program nested type) (program nested' type') := by
  apply (expectFor_inStep _ _).bind
  intro name name' hname
  apply (expect_inStep _).skip
  apply (declarations_inStep ht).same
  intro declared
  apply (many_inStep _ (function_inStep ht (compound_inStep hn ht)) none).bind
  rintro functions _ rfl
  apply (programBody_inStep hn ht).same
  intro body
  apply (expectFor_inStep _ _).skip
  exact .build (Lawful.addNamed hname (.program declared functions body))

include ht in
theorem rule_inStep (r : Rule) : InStep C Eq (rule nested type r) (rule nested' type' r) := by
  cases r with
  | type => exact ht
  | scalarType => exact scalarType_inStep
  | arrayType => exact arrayType_inStep
  | literalExpr => exact literalExpr_inStep
  | reference => exact reference_inStep hn
  | call => exact call_inStep hn
  | symbolExpr => exact symbolExpr_inStep hn
  | groupingExpr => exact groupingExpr_inStep hn
  | unaryExpr => exact unaryExpr_inStep hn
  | program => exact program_inStep hn ht
  | declaration => exact declaration_inStep ht
  | function => exact function_inStep ht (compound_inStep hn ht)
  | statement => exact hn _
  | compound => exact compound_inStep hn ht
  | print => exact print_inStep hn
  | read => exact read_inStep hn
  | condition => exact condition_inStep hn ht
  | whileLoop => exact whileLoop_inStep hn ht
  | forLoop => exact forLoop_inStep hn ht
  | returnValue => exact returnValue_inStep hn
  | identifierStatement => exact identifierStatement_inStep hn

end Statements

/-! ### The levels of nesting -/

/-- The rule that a table finds for the current token, or a complaint. -/
theorem tableRule_inStep (table : RuleTables → TokenKind → Option Rule)
    {x x' : Rule → Parse NodeId} {failure failure' : Parse NodeId}
    (hx : ∀ r, InStep C Eq (x r) (x' r))
    (hf : InStep C Eq failure failure') :
    InStep C Eq
      (fun p => match table p.tables p.stream.current.kind with
        | none => failure p
        | some r => x r p)
      (fun p => match table p.tables p.stream.current.kind with
        | none => failure' p
        | some r => x' r p) := by
  intro p p' hp
  show Outcomes C Eq (match table p.tables p.stream.current.kind with
    | none => failure p
    | some r => x r p) (match table p'.tables p'.stream.current.kind with
    | none => failure' p'
    | some r => x' r p')
  rw [hp.tables, hp.kind]
  cases table p.tables p.stream.current.kind with
  | none => exact hf p p' hp
  | some r => exact hx r p p' hp

include hn

theorem typeUpTo_inStep (n : Nat) : InStep C Eq (typeUpTo nested n) (typeUpTo nested' n) := by
  induction n with
  | zero => exact .misplaced
  | succ n ih => exact tableRule_inStep RuleTables.type (fun r => rule_inStep hn ih r) .misplaced

theorem type_inStep : InStep C Eq (type nested) (type nested') := by
  intro p p' hp
  unfold type
  rw [hp.remaining]
  exact typeUpTo_inStep hn _ p p' hp

theorem expression_inStep (power : BindingPower) :
    InStep C Eq (expression nested power) (expression nested' power) := by
  apply tableRule_inStep RuleTables.operand _ (.unexpected _)
  intro r
  apply (rule_inStep hn (type_inStep hn) r).same
  intro left
  exact operators_inStep hn power left

theorem statement_inStep : InStep C Eq (statement nested) (statement nested') :=
  tableRule_inStep RuleTables.statement (fun r => rule_inStep hn (type_inStep hn) r)
    (.unexpected _)

omit hn

omit [C.Lawful] in
theorem descend_inStep : InStep C Eq descend descend :=
  fun _ _ hp => .ok rfl ⟨hp.current, hp.rest, hp.store, hp.tables, by simp [hp.depth], hp.limit,
    hp.limit'⟩

omit [C.Lawful] in
theorem leave_inStep : InStep C Eq leave leave :=
  fun _ _ hp => .ok rfl ⟨hp.current, hp.rest, hp.store, hp.tables, by simp [hp.depth], hp.limit,
    hp.limit'⟩

omit [C.Lawful] in
/-- Both runs go a level too deep, or the second may still go on. -/
theorem overstep_inStep {x' : Parse NodeId} (h : C.limit = C.limit' → x' = overstep) :
    InStep C Eq overstep x' := by
  intro p p' hp
  by_cases hl : C.limit = C.limit'
  · have hlimit : p'.limit = p.limit := by rw [hp.limit, hp.limit', hl]
    rw [h hl]
    show Outcomes C Eq (.error ((Complaint.tooDeep p.limit).about p.stream.current) _)
      (.error ((Complaint.tooDeep p'.limit).about p'.stream.current) _)
    rw [hlimit]
    exact .error (.tooDeep p.limit) hp.current
  · exact .cut (Nat.lt_of_le_of_ne C.le hl) (congrArg Cause.nestingTooDeep hp.limit)

theorem nestedUpTo_inStep {n n' : Nat} (hle : n ≤ n') (heq : C.limit = C.limit' → n = n') :
    NestedInStep C (nestedUpTo n) (nestedUpTo n') := by
  induction n generalizing n' with
  | zero =>
    intro construct
    exact overstep_inStep fun hl => by rw [← heq hl]; rfl
  | succ n ih =>
    obtain ⟨n', rfl⟩ : ∃ m, n' = m + 1 := ⟨n' - 1, by omega⟩
    have hn : NestedInStep C (nestedUpTo n) (nestedUpTo n') :=
      ih (by omega) fun hl => Nat.succ.inj (heq hl)
    intro construct
    cases construct with
    | expression power =>
      apply descend_inStep.skip
      apply (expression_inStep hn power).same
      intro node
      apply leave_inStep.skip
      exact .pure rfl
    | statement =>
      apply descend_inStep.skip
      apply (statement_inStep hn).same
      intro node
      apply leave_inStep.skip
      exact .pure rfl

theorem nested_inStep : NestedInStep C Parse.nested Parse.nested := by
  intro construct p p' hp
  unfold Parse.nested
  have hle := C.le
  apply nestedUpTo_inStep _ _ construct p p' hp
  · rw [hp.limit, hp.limit', hp.depth]
    omega
  · intro hl
    rw [hp.limit, hp.limit', hp.depth, hl]

theorem wholeProgram_inStep : InStep C Eq wholeProgram wholeProgram := by
  apply (rule_inStep nested_inStep (type_inStep nested_inStep) .program).same
  intro root
  apply (expectFor_inStep _ _).skip
  exact .pure rfl

end Parse

/-! ### Whole programs -/

/-- How two parses may end: with trees that go together, with the same complaint about tokens that
go together, or, where the second has more levels, with the complaint of the first that there are
too many. -/
inductive Coupling.Parses (C : Coupling) :
    Except Error (Store × NodeId) → Except Error (Store × NodeId) → Prop
  | ok {s s' : Store} {root : NodeId} (hs : C.store s s') :
    Parses C (.ok (s, root)) (.ok (s', root))
  | error {t t' : Token} (complaint : Complaint) (ht : C.token t t') :
    Parses C (.error (complaint.about t)) (.error (complaint.about t'))
  | cut {e : Error} {r' : Except Error (Store × NodeId)} (hlt : C.limit < C.limit')
    (he : e.cause = .nestingTooDeep C.limit) : Parses C (.error e) r'

variable {ts ts' : List Token}

theorem parseTokens_coupled {C : Coupling} [C.Lawful] (hempty : C.store .empty .empty)
    (h : List.Forall₂ C.token (closeTokens ts) (closeTokens ts')) :
    C.Parses (parseTokens ts C.limit) (parseTokens ts' C.limit') := by
  have hlike :
      (Parser.ofTokens ts C.limit .standard).Like C (.ofTokens ts' C.limit' .standard) := by
    cases h with
    | cons hcurrent hrest => exact ⟨hcurrent, hrest, hempty, rfl, rfl, rfl, rfl⟩
  have hrun := Parse.wholeProgram_inStep _ _ hlike
  generalize hr : Parse.wholeProgram (.ofTokens ts C.limit .standard) = r,
    hr' : Parse.wholeProgram (.ofTokens ts' C.limit' .standard) = r' at hrun
  cases hrun with
  | ok hroot hp =>
    rw [parseTokens_of_ok hr, parseTokens_of_ok hr', hroot]
    exact .ok hp.store
  | error complaint ht =>
    rw [parseTokens_of_error hr, parseTokens_of_error hr']
    exact .error complaint ht
  | cut hlt he =>
    rw [parseTokens_of_error hr]
    exact .cut hlt he

/-- How two parses of tokens that read the same may end: with like trees, with the same complaint,
or, where the second has more levels, with the complaint of the first that there are too many. -/
inductive Comparison.Parses (C : Comparison) :
    Except Error (Store × NodeId) → Except Error (Store × NodeId) → Prop
  | ok {s s' : Store} {root : NodeId} (hs : s.Like C.link s') :
    Parses C (.ok (s, root)) (.ok (s', root))
  | error {e e' : Error} (he : e.Like C.link e') : Parses C (.error e) (.error e')
  | cut {e : Error} {r' : Except Error (Store × NodeId)} (hlt : C.limit < C.limit')
    (he : e.cause = .nestingTooDeep C.limit) : Parses C (.error e) r'

theorem parseTokens_inStep {C : Comparison}
    (h : List.Forall₂ (Token.Like C.link) (closeTokens ts) (closeTokens ts')) :
    C.Parses (parseTokens ts C.limit) (parseTokens ts' C.limit') := by
  have hrun : C.coupling.Parses (parseTokens ts C.limit) (parseTokens ts' C.limit') :=
    parseTokens_coupled .empty h
  generalize parseTokens ts C.limit = r, parseTokens ts' C.limit' = r' at hrun
  cases hrun with
  | ok hs => exact .ok hs
  | error complaint ht => exact .error (ht.about complaint)
  | cut hlt he => exact .cut hlt he

end PLang
