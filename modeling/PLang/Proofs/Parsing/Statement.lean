import PLang.Proofs.Parsing.Expression

/-!
# The rules for statements and programs follow their readings

The rules are tied together by the nesting levels, in the parser as in the readings.
-/

namespace PLang

open Syntax Reading RuleTables

namespace Parse

/-- The block after the word `else`, if there is one. -/
def elseBody (nested : Nested → Parse NodeId) : Parse (Option NodeId) := do
  match ← accept? .elseWord with
  | some _ => some <$> compound nested (type nested)
  | none => pure none

variable {d l : Nat} {nested : Nested → Parse NodeId} {N : Nesting} {p : Parser}
  (hN : NestedSimulates d l nested N) (hp : p.Ready d l)

/-- A rule of a statement that starts with a word. It takes the first token, whatever that is, and
follows the reading of what stands behind the word. -/
def Worded (d l : Nat) (word : TokenKind) (x : Parse NodeId) (R : Reading Statement) : Prop :=
  ∃ f S, x = advance >>= f ∧ R = token word >>= S ∧ ∀ t p p1, p1.Ready d l → p1.store = p.store →
    Simulates d l 1 p1 (f t) (S t) (Builds StatementAt p)

include hp in
theorem Worded.simulates {word : TokenKind} {x : Parse NodeId} {R : Reading Statement}
    (h : Worded d l word x R) (hk : p.stream.current.kind = word)
    (hword : word ≠ .endOfFile ∧ word ≠ .varWord) :
    Simulates d l 1 p x R (Builds StatementAt p) := by
  obtain ⟨f, S, rfl, rfl, hf⟩ := h
  exact .advance hp hk hword fun t p1 hp1 hs1 _ =>
    (hf t p p1 hp1 hs1).mono (Nat.zero_le _) fun _ _ _ h => h

include hN hp

theorem blockStatement_simulates :
    Simulates d l 1 p (blockStatement nested) (Reading.blockStatement N)
      (Builds StatementAt p) := by
  refine .look (c := p.stream.current.kind) rfl ?_
  by_cases hk : p.stream.current.kind = .endOfFile
  · rw [if_pos hk]
    exact .fail fun _ _ h => h.1 hk
  · rw [if_neg hk]
    refine .congr ?_ (hN.statement p hp)
    funext s rest
    exact propext ⟨fun h => h.2, fun h => ⟨hk, h⟩⟩

theorem compound_simulates :
    Simulates d l 1 p (compound nested (type nested)) (block N) (Builds BlockAt p) := by
  refine .expectOr hp (by decide) fun t p1 hp1 hs1 _ => ?_
  have hdeclarations := declarations_simulates (fun _ hp => type_simulates nested hp) hp1
  refine hdeclarations.bind fun ds declarations p2 hp2 hds => ?_
  have hmany : Simulates d l 0 p2 (many (· != .endWord) (blockStatement nested) none)
      (Reading.Many (· != .endWord) (Reading.blockStatement N)) (BuildsList StatementAt p2) :=
    many_simulates statementAt_local (fun _ hp _ => blockStatement_simulates hN hp) hp2
  refine hmany.reads.bind fun ss statements p3 hp3 hlist => ?_
  obtain ⟨hread, hss⟩ := hlist
  have hk : p3.stream.current.kind = .endWord := by
    have hstop : (headKind p3.tokens != .endWord) = false := hread.stops
    exact bne_eq_false_iff_eq.1 hstop
  refine .advance hp3 hk (by decide) fun _ p4 hp4 hs4 _ => .build hp4 (.plain rfl rfl) ?_
  rw [BuildsList, hs1] at hds
  rw [BuildsList, ← hs4] at hss
  exact hds.compound hss (Build.added_add ..)

omit hp in
theorem print_worded : Worded d l .printWord (print nested) (Reading.print N) := by
  refine ⟨_, _, rfl, rfl, fun _ p p1 hp1 hs1 => ?_⟩
  refine (hN.expression p1 hp1 .default).bind fun e id p2 hp2 hadds => ?_
  refine .expectOr hp2 (by decide) fun _ p3 hp3 hs3 _ => .build hp3 (.plain rfl rfl) ?_
  rw [Builds, hs1, ← hs3] at hadds
  exact hadds.print (Build.added_add ..)

omit hp in
theorem read_worded : Worded d l .readWord (read nested) (Reading.read N) := by
  refine ⟨_, _, rfl, rfl, fun _ p p1 hp1 hs1 => ?_⟩
  refine (reference_simulates hN hp1).bind fun r id p2 hp2 hadds => ?_
  refine .expectOr hp2 (by decide) fun _ p3 hp3 hs3 _ => .build hp3 (.plain rfl rfl) ?_
  rw [Builds, hs1, ← hs3] at hadds
  exact hadds.read (Build.added_add ..)

theorem elseBody_simulates : Simulates d l 0 p (elseBody nested) (Reading.elseBody N)
      fun b body p' => AddsList BlockAt p.store b.toList body p'.store := by
  refine .accept (fun hk => ?_) fun _ => .pure hp (AddsList.nil _)
  refine .advance hp hk (by decide) fun _ p1 hp1 hs1 _ => ?_
  have hblock : Simulates d l 0 p1 (some <$> compound nested (type nested)) (Reading.block N)
      fun b body p' => AddsList BlockAt p.store [b] body p'.store := by
    refine ((compound_simulates hN hp1).map fun b id p' hadds => ?_).mono (Nat.zero_le _)
      fun _ _ _ h => h
    rw [← hs1]
    exact AddsList.singleton hadds
  exact hblock.mapRead fun _ _ _ h => h

omit hp in
theorem condition_worded : Worded d l .ifWord (condition nested (type nested))
    (Reading.condition N) := by
  refine ⟨_, _, rfl, rfl, fun t p p1 hp1 hs1 => ?_⟩
  refine (hN.expression p1 hp1 .default).bind fun e guard p2 hp2 he => ?_
  refine .expectOr hp2 (by decide) fun _ p3 hp3 hs3 _ => ?_
  refine (compound_simulates hN hp3).bind fun b thenBody p4 hp4 hb => ?_
  refine .ofRun (y := elseBody nested >>= fun elseBody => do
    let _ ← expectFor .endWord "expected 'end if'"
    let _ ← expectFor .ifWord "expected 'end if'"
    build (Build.condition t.location guard thenBody elseBody)) ?_ ?_
  · rw [elseBody, bind_assoc]
    exact congrFun (congrArg (accept? .elseWord >>= ·) (funext fun c => by cases c <;> rfl)) p4
  refine (elseBody_simulates hN hp4).bind fun b' elseBody p5 hp5 hb' => ?_
  refine .expectOr hp5 (by decide) fun _ p6 hp6 hs6 _ => ?_
  refine .expectOr hp6 (by decide) fun _ p7 hp7 hs7 _ => .build hp7 (.plain rfl rfl) ?_
  rw [Builds, hs1] at he
  rw [Builds, hs3] at hb
  rw [← hs6, ← hs7] at hb'
  exact he.condition hb hb' (Build.added_add ..)

theorem loopBody_simulates :
    Simulates d l 1 p (loopBody nested (type nested)) (Reading.loopBody N) (Builds BlockAt p) := by
  refine (compound_simulates hN hp).bind fun b id p1 hp1 hadds => ?_
  refine .expectOr hp1 (by decide) fun _ p2 hp2 hs2 _ => ?_
  refine .expectOr hp2 (by decide) fun _ p3 hp3 hs3 _ => .pure hp3 ?_
  rw [Builds, hs3, hs2]
  exact hadds

omit hp in
theorem whileLoop_worded : Worded d l .whileWord (whileLoop nested (type nested))
    (Reading.whileLoop N) := by
  refine ⟨_, _, rfl, rfl, fun _ p p1 hp1 hs1 => ?_⟩
  refine (hN.expression p1 hp1 .default).bind fun e guard p2 hp2 he => ?_
  refine .expectOr hp2 (by decide) fun _ p3 hp3 hs3 _ => ?_
  refine (loopBody_simulates hN hp3).bind fun b body p4 hp4 hb => .build hp4 (.plain rfl rfl) ?_
  rw [Builds, hs1] at he
  rw [Builds, hs3] at hb
  exact he.whileLoop hb (Build.added_add ..)

omit hp in
theorem forLoop_worded : Worded d l .forWord (forLoop nested (type nested))
    (Reading.forLoop N) := by
  refine ⟨_, _, rfl, rfl, fun t p p1 hp1 hs1 => ?_⟩
  refine .expectOr hp1 (by decide) fun name p2 hp2 hs2 _ => ?_
  refine .expectOr hp2 (by decide) fun sign p3 hp3 hs3 _ => ?_
  refine .expectOr hp3 (by decide) fun lower p4 hp4 hs4 _ => ?_
  refine .expectOr hp4 (by decide) fun _ p5 hp5 hs5 _ => ?_
  refine .expectOr hp5 (by decide) fun upper p6 hp6 hs6 _ => ?_
  refine .expectOr hp6 (by decide) fun _ p7 hp7 hs7 _ => ?_
  refine (loopBody_simulates hN hp7).bind fun b body p8 hp8 hb => ?_
  have hgrows : ∀ m n, Build.Grows (do
      let variableNode ← Build.name name.location name.value
      let assignNode ← Build.name sign.location sign.value
      let lowerNode ← Build.number lower.location m
      let upperNode ← Build.number upper.location n
      Build.forLoop t.location variableNode assignNode lowerNode upperNode body) := fun _ _ =>
    .bind (.add rfl rfl) fun _ => .bind (.add rfl rfl) fun _ => .bind (.add rfl rfl) fun _ =>
      .bind (.add rfl rfl) fun _ => .forLoop
  refine integer_simulates fun m => integer_simulates fun n => .build hp8 (hgrows m n _) ?_
  rw [Builds, hs7, hs6, hs5, hs4, hs3, hs2, hs1] at hb
  exact hb.forLoop t.location name.location sign.location lower.location upper.location rfl

theorem returned_simulates : Simulates d l 0 p
      (do
        if (← currentKind) = .semicolon then pure none
        else some <$> nested (.expression .default))
      (Reading.returned N) fun e value p' => AddsList ExprAt p.store e.toList value p'.store := by
  refine .look (c := p.stream.current.kind) rfl (.chooseKind (fun _ => ?_) fun _ => ?_)
  · exact .pure hp (AddsList.nil _)
  · have hvalue : Simulates d l 0 p (some <$> nested (.expression .default))
        (N.expression .default) fun e value p' => AddsList ExprAt p.store [e] value p'.store :=
      ((hN.expression p hp .default).map fun _ _ _ h => AddsList.singleton h).mono (Nat.zero_le _)
        fun _ _ _ h => h
    exact hvalue.mapRead fun _ _ _ h => h

omit hp in
theorem returnValue_worded : Worded d l .returnWord (returnValue nested)
    (Reading.returnValue N) := by
  refine ⟨_, _, rfl, rfl, fun t p p1 hp1 hs1 => ?_⟩
  refine .bindIte (f := pure none) (k := fun value => do
    let _ ← expect .semicolon
    build (Build.returnValue t.location value)) ?_
  refine (returned_simulates hN hp1).bind fun e value p2 hp2 he => ?_
  refine .expectOr hp2 (by decide) fun _ p3 hp3 hs3 _ => .build hp3 (.plain rfl rfl) ?_
  rw [hs1, ← hs3] at he
  exact he.returnValue (Build.added_add ..)

theorem identifierStatement_simulates : Simulates d l 1 p (identifierStatement nested)
      (callOr (callStatement N) (assign N)) (Builds StatementAt p) := by
  refine .callOr hp ?_ ?_
  · refine (call_simulates hN hp).bind fun c id p1 hp1 hadds => ?_
    refine .expectOr hp1 (by decide) fun _ p2 hp2 hs2 _ => .pure hp2 ?_
    rw [Builds, hs2]
    exact Adds.callStatement hadds
  · refine (reference_simulates hN hp).bind fun r target p1 hp1 hr => ?_
    refine .expectOr hp1 (by decide) fun _ p2 hp2 hs2 _ => ?_
    refine (hN.expression p2 hp2 .default).bind fun e value p3 hp3 he => ?_
    refine .expectOr hp3 (by decide) fun _ p4 hp4 hs4 _ => .build hp4 (.plain rfl rfl) ?_
    rw [Builds, hs2, ← hs4] at he
    exact Adds.assign hr he (Build.added_add ..)

/-- The statement that the table finds for the first token. -/
theorem statementRule_simulates {r : Rule} (hr : standardStatement p.stream.current.kind = some r) :
    Simulates d l 1 p (rule nested (type nested) r) (Reading.statement N)
      (Builds StatementAt p) := by
  have hhead : headKind p.tokens = p.stream.current.kind := rfl
  cases hk : p.stream.current.kind <;> rw [hk] at hr hhead <;> cases hr
  case beginWord =>
    refine .congr (by rw [Reading.statement, hhead])
      ((compound_simulates hN hp).mapRead fun _ _ _ h => ?_)
    exact Adds.blockStatement h
  case printWord =>
    exact ((print_worded hN).simulates hp hk (by decide)).congr (by rw [Reading.statement, hhead])
  case readWord =>
    exact ((read_worded hN).simulates hp hk (by decide)).congr (by rw [Reading.statement, hhead])
  case ifWord =>
    exact ((condition_worded hN).simulates hp hk (by decide)).congr
      (by rw [Reading.statement, hhead])
  case whileWord =>
    exact ((whileLoop_worded hN).simulates hp hk (by decide)).congr
      (by rw [Reading.statement, hhead])
  case forWord =>
    exact ((forLoop_worded hN).simulates hp hk (by decide)).congr (by rw [Reading.statement, hhead])
  case returnWord =>
    exact ((returnValue_worded hN).simulates hp hk (by decide)).congr
      (by rw [Reading.statement, hhead])
  case identifier =>
    exact (identifierStatement_simulates hN hp).congr (by rw [Reading.statement, hhead])

omit hN hp in
theorem not_statement (ts : List Token)
    (h : RuleTables.standardStatement (Reading.headKind ts) = none) {s : Statement}
    {rest : List Token} : ¬Reading.statement N ts s rest := by
  intro hread
  unfold Reading.statement at hread
  generalize Reading.headKind ts = kind at h hread
  cases kind with
  | beginWord | printWord | readWord | ifWord | whileWord | forWord | returnWord | identifier =>
    cases h
  | _ => exact hread

omit hN in
theorem statement_eq : statement nested p =
    (standardStatement p.stream.current.kind).elim
      (fail (·.unexpected "expected statement")) (rule nested (type nested)) p := by
  have htable : p.tables.statement p.stream.current.kind =
      standardStatement p.stream.current.kind := by
    rw [hp.tables]
    rfl
  rw [← htable, statement]
  cases p.tables.statement p.stream.current.kind <;> rfl

theorem statement_simulates :
    Simulates d l 1 p (statement nested) (Reading.statement N) (Builds StatementAt p) := by
  refine .ofRun (statement_eq hp) ?_
  cases hr : standardStatement p.stream.current.kind with
  | none => exact .fail fun _ _ => not_statement p.tokens hr
  | some r => exact statementRule_simulates hN hp hr

/-! ### Programs -/

theorem programBody_simulates :
    Simulates d l 1 p (programBody nested (type nested)) (block N) (Builds BlockAt p) := by
  refine .look (c := p.stream.current.kind) rfl ?_
  by_cases hk : p.stream.current.kind = .beginWord
  · rw [if_pos hk]
    exact compound_simulates hN hp
  · rw [if_neg hk]
    refine .fail fun _ _ => ?_
    rintro ⟨t, _, ⟨ht, hkind⟩, -⟩
    exact hk ((List.cons.inj ht).1 ▸ hkind)

theorem program_simulates :
    Simulates d l 1 p (program nested (type nested)) (Reading.program N) (Builds ProgramAt p) := by
  refine .expectOr hp (by decide) fun name p1 hp1 hs1 _ => ?_
  refine .expectOr hp1 (by decide) fun _ p2 hp2 hs2 _ => ?_
  have htype : ∀ p : Parser, p.Ready d l →
      Simulates d l 1 p (type nested) Reading.type (Builds TypeAt p) :=
    fun _ hp => type_simulates nested hp
  refine (declarations_simulates htype hp2).bind fun ds declarations p3 hp3 hds => ?_
  have hmany : Simulates d l 0 p3
      (many (· == .identifier) (function (type nested) (compound nested (type nested))) none)
      (Reading.Many (· == .identifier) (Reading.function N)) (BuildsList FunctionAt p3) :=
    many_simulates functionAt_local
      (fun _ hp _ => function_simulates htype (fun _ hp => compound_simulates hN hp) hp) hp3
  refine hmany.bind fun fs functions p4 hp4 hfs => ?_
  refine (programBody_simulates hN hp4).bind fun b body p5 hp5 hb => ?_
  refine .expectOr hp5 (by decide) fun _ p6 hp6 hs6 _ => .build hp6 (.plain rfl rfl) ?_
  rw [BuildsList, hs2, hs1] at hds
  rw [Builds, ← hs6] at hb
  exact AddsList.program (P := ⟨name.value, ds, fs, b⟩) hds hfs hb (Build.added_add ..)

end Parse

end PLang
