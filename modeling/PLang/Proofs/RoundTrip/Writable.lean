import PLang.Proofs.Grammar.Acceptance
import PLang.Proofs.ReadBack
import PLang.Proofs.RoundTrip.Program

/-!
# Round trips

What is read off the tokens of a source can be written. Main statement: the tree that is made of a
written program stands for this program, and the program that the tokens of a source spell can be
written and comes back in this way.
-/

namespace PLang

open Syntax

variable {P : Program} {limit : Nat} {ts : List Token}

/-! ### Numbers of a source -/

theorem Binary64.isNegative_negate (x : Binary64) : x.negate.isNegative = !x.isNegative := by
  cases x <;> rfl

theorem Binary64.isNegative_ofFraction (negative : Bool) (num den : Nat) :
    (Binary64.ofFraction negative num den).isNegative = negative := by
  unfold ofFraction
  dsimp only
  split <;> split <;> rfl

theorem Binary64.isNegative_ofDecimal (negative : Bool) (digits : Nat) (exponent : Int) :
    (Binary64.ofDecimal negative digits exponent).isNegative = negative := by
  unfold ofDecimal
  dsimp only
  split
  · rfl
  · split
    · rfl
    · split <;> exact isNegative_ofFraction ..

theorem Binary64.isNegative_ofUnsigned? {negative : Bool} {text : List Char} {x : Binary64}
    (h : ofUnsigned? negative text = some x) : x.isNegative = negative := by
  unfold ofUnsigned? at h
  split at h
  · rename_i y hword
    cases h
    unfold ofWord? at hword
    dsimp only at hword
    split at hword
    · exact Option.some.inj hword ▸ rfl
    · split at hword
      · exact Option.some.inj hword ▸ rfl
      · cases hword
  · obtain ⟨d, -, rfl⟩ := Option.map_eq_some_iff.1 h
    exact isNegative_ofDecimal ..

/-- A real number of a source has no sign. -/
theorem Token.Lexed.isNegative_real {t : Token} (h : t.Lexed) (hkind : t.kind = .real)
    {x : Binary64} (hx : Binary64.ofText? t.value = some x) : x.isNegative = false := by
  obtain ⟨text, rest, hsplit⟩ := h.pattern.2 hkind
  obtain ⟨⟨whole, rest1⟩, hrun, hend⟩ := Option.bind_eq_some_iff.1 hsplit
  obtain ⟨⟨end1, rest2⟩, -, heq⟩ := Option.map_eq_some_iff.1 hend
  have hwhole := splitRun?_isDigits hrun
  have htext : whole ++ end1 = t.value.toList := (Prod.mk.inj heq).1
  unfold Binary64.ofText? at hx
  rw [← htext] at hx
  cases whole with
  | nil => exact absurd rfl hwhole.1
  | cons c whole =>
    split at hx
    · rename_i hplus
      exact absurd (List.cons.inj hplus).1 (hwhole.cons_ne rfl)
    · rename_i hminus
      exact absurd (List.cons.inj hminus).1 (hwhole.cons_ne rfl)
    · exact Binary64.isNegative_ofUnsigned? hx

theorem Token.Lexed.writableInteger {t : Token} (h : t.Lexed) (hkind : t.kind = .integer) {n : Int}
    (hn : wordOfText? t.value = some n) : WritableInteger n := by
  obtain ⟨text, rest, hsplit⟩ := h.pattern.1 hkind
  rw [wordOfText?, signed?_of_isDigits (splitRun?_isDigits hsplit)] at hn
  obtain ⟨hsome, hfits⟩ := Option.filter_eq_some_iff.1 hn
  cases hsome
  simp only [fitsWord, Bool.and_eq_true, decide_eq_true_eq] at hfits
  exact ⟨Int.natCast_nonneg _, hfits.2⟩

namespace Reading

/-! ### What readings yield -/

/-- Whether all that is read off tokens of a source has a property. -/
def Yields {α : Type} (R : Reading α) (W : α → Prop) : Prop :=
  ∀ ts a rest, (∀ t ∈ ts, t.Lexed) → R ts a rest → (∀ t ∈ rest, t.Lexed) ∧ W a

namespace Yields

variable {α β : Type} {R T : Reading α} {S : α → Reading β} {V : α → Prop} {W : β → Prop}

theorem pure {a : α} (h : V a) : (Pure.pure a : Reading α).Yields V := by
  rintro ts b rest hts ⟨rfl, rfl⟩
  exact ⟨hts, h⟩

theorem bind (hR : R.Yields V) (hS : ∀ a, V a → (S a).Yields W) : (R >>= S).Yields W := by
  rintro ts b rest hts ⟨a, mid, hread, hnext⟩
  obtain ⟨hmid, ha⟩ := hR ts a mid hts hread
  exact hS a ha mid b rest hmid hnext

theorem token {kind : TokenKind} {S : Token → Reading β}
    (hS : ∀ t, t.Lexed → t.kind = kind → (S t).Yields W) : (token kind >>= S).Yields W := by
  rintro ts b rest hts ⟨t, mid, ⟨rfl, hkind⟩, hnext⟩
  exact hS t (hts t (.head _)) hkind mid b rest
    (fun u hu => hts u (.tail _ hu)) hnext

theorem one {f : Token → Option α} (h : ∀ t a, t.Lexed → f t = some a → V a) :
    (one f).Yields V := by
  rintro ts a rest hts ⟨t, rfl, ha⟩
  exact ⟨fun u hu => hts u (.tail _ hu), h t a (hts t (.head _)) ha⟩

theorem value {o : Option α} (h : ∀ a, o = some a → (S a).Yields W) :
    (Reading.value o >>= S).Yields W := by
  rintro ts b rest hts ⟨a, mid, ⟨ha, rfl⟩, hnext⟩
  exact h a ha mid b rest hts hnext

theorem many {more : TokenKind → Bool} (hR : R.Yields V) :
    (Many more R).Yields fun as => ∀ a ∈ as, V a := by
  intro ts as rest hts hread
  induction hread with
  | stop => exact ⟨hts, fun a ha => absurd ha List.not_mem_nil⟩
  | next _ ha _ ih =>
    obtain ⟨hmid, hV⟩ := hR _ _ _ hts ha
    obtain ⟨hrest, hVs⟩ := ih hmid
    exact ⟨hrest, fun b hb => (List.mem_cons.1 hb).elim (fun h => h ▸ hV) (hVs b)⟩

theorem separated {separator : TokenKind} (hR : R.Yields V) :
    (separated separator R).Yields fun as => ∀ a ∈ as.1 :: as.2, V a := by
  refine .bind hR fun a ha => .bind (.many (.token fun _ _ _ => hR)) fun as has => .pure ?_
  exact fun b hb => (List.mem_cons.1 hb).elim (fun h => h ▸ ha) (has b)

theorem choose {p : TokenKind → Bool} (hR : R.Yields V) (hT : T.Yields V) :
    (choose p R T).Yields V := by
  intro ts a rest hts hread
  unfold Reading.choose at hread
  split at hread
  · exact hR ts a rest hts hread
  · exact hT ts a rest hts hread

theorem callOr (hR : R.Yields V) (hT : T.Yields V) : (callOr R T).Yields V := by
  intro ts a rest hts hread
  unfold Reading.callOr at hread
  split at hread
  · exact hR ts a rest hts hread
  · exact hT ts a rest hts hread

end Yields

/-! ### Declarations -/

theorem type_yields : type.Yields WritableType := by
  have hdimension : dimension.Yields WritableInteger :=
    .token fun _ _ _ => .token fun _ ht hkind => .value fun _ hn => .token fun _ _ _ =>
      .pure (ht.writableInteger hkind hn)
  have hscalar : scalar.Yields (· ≠ .void) := by
    refine .one fun t s _ hs => ?_
    rintro rfl
    unfold Parse.scalarOf? at hs
    split at hs <;> cases hs
  exact .bind (.many hdimension) fun _ hds => .bind hscalar fun _ hs => .pure ⟨hs, hds⟩

theorem names_yields : names.Yields fun _ => True := by
  have hname : (do let t ← token .identifier; return t.value : Reading String).Yields
      fun _ => True := .token fun _ _ _ => .pure trivial
  exact .bind (.separated hname) fun _ _ => .pure trivial

/-- Without a minus sign in front, literals can be written in expressions too. -/
theorem literal_yields : (literal false).Yields fun v => WritableConstant v ∧
    WritableLiteral v := by
  refine .one fun t v ht hv => ?_
  unfold literalOf? at hv
  split at hv
  · rename_i hkind
    obtain ⟨n, hn, rfl⟩ := Option.map_eq_some_iff.1 hv
    have hword := ht.writableInteger hkind hn
    exact ⟨.inl hword, hword⟩
  · rename_i hkind
    obtain ⟨x, hx, rfl⟩ := Option.map_eq_some_iff.1 hv
    have hreal : WritableLiteral (.real x) := ⟨t, ht, hkind, hx⟩
    refine ⟨?_, hreal⟩
    rw [if_neg Bool.false_ne_true, WritableConstant, ht.isNegative_real hkind hx]
    exact hreal
  · cases hv
    exact ⟨trivial, trivial⟩
  · cases hv
    exact ⟨trivial, trivial⟩
  · cases hv
    exact ⟨trivial, trivial⟩
  · cases hv

theorem negated_yields : (literal true).Yields WritableConstant := by
  refine .one fun t v ht hv => ?_
  unfold literalOf? at hv
  split at hv
  · rename_i hkind
    obtain ⟨n, hn, rfl⟩ := Option.map_eq_some_iff.1 hv
    have hword := ht.writableInteger hkind hn
    have hneg : negateWord n = -n := by
      have h := negateWord_neg (n := -n) (by rwa [Int.neg_neg])
      rwa [Int.neg_neg] at h
    rw [if_pos rfl, hneg]
    exact .inr (by rwa [Int.neg_neg])
  · rename_i hkind
    obtain ⟨x, hx, rfl⟩ := Option.map_eq_some_iff.1 hv
    rw [if_pos rfl, WritableConstant, Binary64.isNegative_negate, ht.isNegative_real hkind hx,
      negate_negate]
    exact ⟨t, ht, hkind, hx⟩
  · rename_i h
    cases h
  · rename_i h
    cases h
  · rename_i h
    cases h
  · cases hv

theorem declaration_yields : declaration.Yields WritableDeclaration := by
  have hconstant : ∀ ns, (do
      let negative ← minus
      let v ← literal negative
      return .constants ns v : Reading Declaration).Yields WritableDeclaration := by
    intro ns
    have hminus : minus.Yields fun _ => True :=
      .choose (.token fun _ _ _ => .pure trivial) (.pure trivial)
    refine .bind hminus fun negative _ => ?_
    cases negative with
    | false => exact .bind literal_yields fun _ hv => .pure hv.1
    | true => exact .bind negated_yields fun _ hv => .pure hv
  have hdeclared : ∀ ns, (declared ns).Yields WritableDeclaration := fun ns =>
    .choose (.bind type_yields fun _ ht => .pure ht) (hconstant ns)
  exact .token fun _ _ _ => .bind names_yields fun ns _ => .token fun _ _ _ =>
    .bind (hdeclared ns) fun _ hd => .token fun _ _ _ => .pure hd

theorem parameters_yields : parameters.Yields fun ps => ∀ p ∈ ps, WritableType p.type := by
  have hparameter : parameter.Yields fun p => WritableType p.type :=
    .bind names_yields fun ns _ => .token fun _ _ _ => .bind type_yields fun _ ht => .pure ht
  exact .choose (.pure fun p hp => absurd hp List.not_mem_nil)
    (.bind (.separated hparameter) fun _ hps => .pure hps)

theorem returnType_yields : returnType.Yields fun _ => True :=
  .choose (.token fun _ _ _ => .one fun _ _ _ _ => trivial) (.pure trivial)

/-! ### Expressions -/

/-- Whether all that is read one nesting level further down can be written. -/
structure NestingYields (N : Nesting) : Prop where
  expression : ∀ power, (N.expression power).Yields WritableExpr
  statement : N.statement.Yields WritableStatement

section Nested

variable {N : Nesting} (hN : NestingYields N)
include hN

theorem reference_yields : (reference N).Yields fun r => ∀ e ∈ r.2, WritableExpr e := by
  have hsubscript : (subscript N).Yields WritableExpr := .token fun _ _ _ =>
    .bind (hN.expression _) fun _ he => .token fun _ _ _ => .pure he
  exact .token fun _ _ _ => .bind (.many hsubscript) fun _ hes => .pure hes

theorem call_yields : (call N).Yields fun c => ∀ e ∈ c.2, WritableExpr e := by
  have harguments : (arguments N).Yields fun es => ∀ e ∈ es, WritableExpr e :=
    .choose (.pure fun _ he => absurd he List.not_mem_nil)
      (.bind (.separated (hN.expression _)) fun _ hes => .pure hes)
  exact .token fun _ _ _ => .token fun _ _ _ => .bind harguments fun _ hes =>
    .token fun _ _ _ => .pure hes

theorem operand_yields : (operand N).Yields WritableExpr := by
  have hliteral : (do let v ← literal false; return .literal v : Reading Expr).Yields
    WritableExpr :=
    .bind literal_yields fun _ hv => .pure (.literal hv.2)
  have hsymbol : (symbol N).Yields WritableExpr :=
    .callOr (.bind (call_yields hN) fun _ hc => .pure (.call hc))
      (.bind (reference_yields hN) fun _ hr => .pure (.reference hr))
  have hgrouping : (grouping N).Yields WritableExpr := .token fun _ _ _ =>
    .bind (hN.expression _) fun _ he => .token fun _ _ _ => .pure he
  have hunary : ∀ o, (unary N o).Yields WritableExpr := fun o => .token fun _ _ _ =>
    .bind (hN.expression _) fun _ he => .pure (.unary he)
  intro ts e rest hts hread
  unfold operand at hread
  generalize headKind ts = kind at hread
  cases kind with
  | integer | real | string | trueWord | falseWord => exact hliteral ts e rest hts hread
  | identifier => exact hsymbol ts e rest hts hread
  | openParen => exact hgrouping ts e rest hts hread
  | dash => exact hunary .negate ts e rest hts hread
  | notWord => exact hunary .not ts e rest hts hread
  | _ => cases hread

theorem operators_yields {power : BindingPower} {left : Expr} (hleft : WritableExpr left) :
    (Operators N power left).Yields WritableExpr := by
  intro ts e rest hts hread
  induction hread with
  | stop => exact ⟨hts, hleft⟩
  | next _ _ hright _ ih =>
    obtain ⟨hmid, hr⟩ := hN.expression _ _ _ _ (fun u hu => hts u (.tail _ hu)) hright
    exact ih (.binary hleft hr) hmid

theorem expression_yields (power : BindingPower) : (expression N power).Yields WritableExpr :=
  .bind (operand_yields hN) fun _ hleft => operators_yields hN hleft

/-! ### Statements and programs -/

theorem block_yields : (block N).Yields WritableBlock := by
  have hstatement : (blockStatement N).Yields WritableStatement :=
    fun ts s rest hts hread => hN.statement ts s rest hts hread.2
  exact .token fun _ _ _ => .bind (.many declaration_yields) fun _ hds =>
    .bind (.many hstatement) fun _ hss => .token fun _ _ _ => .pure (.mk hds hss)

theorem elseBody_yields : (elseBody N).Yields fun b => ∀ x ∈ b, WritableBlock x :=
  .choose
    (.token fun _ _ _ => .bind (block_yields hN) fun _ hb => .pure fun x hx => by
      obtain rfl := Option.mem_some.1 hx
      exact hb)
    (.pure fun x hx => absurd hx (Option.not_mem_none x))

theorem condition_yields : (condition N).Yields WritableStatement :=
  .token fun _ _ _ => .bind (hN.expression _) fun _ he => .token fun _ _ _ =>
    .bind (block_yields hN) fun _ hb => .bind (elseBody_yields hN) fun _ hb' =>
      .token fun _ _ _ => .token fun _ _ _ => .pure (.condition he hb hb')

theorem loopBody_yields : (loopBody N).Yields WritableBlock :=
  .bind (block_yields hN) fun _ hb => .token fun _ _ _ => .token fun _ _ _ => .pure hb

theorem forLoop_yields : (forLoop N).Yields WritableStatement :=
  .token fun _ _ _ => .token fun _ _ _ => .token fun _ _ _ => .token fun _ hlower hkind =>
    .token fun _ _ _ => .token fun _ hupper hkind' => .token fun _ _ _ =>
      .bind (loopBody_yields hN) fun _ hb => .value fun _ hm => .value fun _ hn =>
        .pure (.forLoop (hlower.writableInteger hkind hm) (hupper.writableInteger hkind' hn) hb)

theorem returnValue_yields : (returnValue N).Yields WritableStatement := by
  have hreturned : (returned N).Yields fun e => ∀ x ∈ e, WritableExpr x :=
    .choose (.pure fun x hx => absurd hx (Option.not_mem_none x))
      (.bind (hN.expression _) fun _ he => .pure fun x hx => Option.mem_some.1 hx ▸ he)
  exact .token fun _ _ _ => .bind hreturned fun _ he => .token fun _ _ _ => .pure (.returnValue he)

theorem identifierStatement_yields : (callOr (callStatement N) (assign N)).Yields
    WritableStatement :=
  .callOr (.bind (call_yields hN) fun _ hc => .token fun _ _ _ => .pure (.call hc))
    (.bind (reference_yields hN) fun _ hr => .token fun _ _ _ => .bind (hN.expression _) fun _ he =>
      .token fun _ _ _ => .pure (.assign hr he))

theorem statement_yields : (statement N).Yields WritableStatement := by
  have hblock : (do let b ← block N; return .block b : Reading Statement).Yields
    WritableStatement :=
    .bind (block_yields hN) fun _ hb => .pure (.block hb)
  have hprint : (print N).Yields WritableStatement := .token fun _ _ _ =>
    .bind (hN.expression _) fun _ he => .token fun _ _ _ => .pure (.print he)
  have hread : (read N).Yields WritableStatement := .token fun _ _ _ =>
    .bind (reference_yields hN) fun _ hr => .token fun _ _ _ => .pure (.read hr)
  have hwhile : (whileLoop N).Yields WritableStatement := .token fun _ _ _ =>
    .bind (hN.expression _) fun _ he => .token fun _ _ _ => .bind (loopBody_yields hN) fun _ hb =>
      .pure (.whileLoop he hb)
  intro ts s rest hts h
  unfold statement at h
  generalize headKind ts = kind at h
  cases kind with
  | beginWord => exact hblock ts s rest hts h
  | printWord => exact hprint ts s rest hts h
  | readWord => exact hread ts s rest hts h
  | ifWord => exact condition_yields hN ts s rest hts h
  | whileWord => exact hwhile ts s rest hts h
  | forWord => exact forLoop_yields hN ts s rest hts h
  | returnWord => exact returnValue_yields hN ts s rest hts h
  | identifier => exact identifierStatement_yields hN ts s rest hts h
  | _ => cases h

theorem function_yields : (function N).Yields WritableFunction := by
  have hbody : (functionBody N).Yields fun b => ∀ x ∈ b, WritableBlock x :=
    .choose (.token fun _ _ _ => .pure fun x hx => absurd hx (Option.not_mem_none x))
      (.bind (block_yields hN) fun _ hb => .token fun _ _ _ =>
        .pure fun x hx => Option.mem_some.1 hx ▸ hb)
  exact .token fun _ _ _ => .token fun _ _ _ => .bind parameters_yields fun _ hps =>
    .token fun _ _ _ => .bind returnType_yields fun _ _ => .bind hbody fun _ hb => .pure ⟨hps, hb⟩

theorem program_yields : (program N).Yields WritableProgram :=
  .token fun _ _ _ => .token fun _ _ _ => .bind (.many declaration_yields) fun _ hds =>
    .bind (.many (function_yields hN)) fun _ hfs => .bind (block_yields hN) fun _ hb =>
      .token fun _ _ _ => .pure ⟨hds, hfs, hb⟩

end Nested

theorem nestingYields (n : Nat) : NestingYields (.upTo n) := by
  induction n with
  | zero => exact ⟨fun _ _ _ _ _ h => h.elim, fun _ _ _ _ h => h.elim⟩
  | succ n ih => exact ⟨expression_yields ih, statement_yields ih⟩

end Reading

/-! ### Round trips -/

theorem Spells.of_written {last : Token} (hP : WritableProgram P) (hts : Written P.lexemes ts)
    (hlast : last.kind = .endOfFile) (hlimit : ts.length ≤ limit) :
    Spells limit (ts ++ [last]) P := by
  have hlength : P.lexemes.length ≤ limit := by rwa [hts.length_eq]
  exact ⟨[last], Reading.program_recovers hP hlength ts [last] hts rfl, hlast⟩

/-- Tokens that spell a program are parsed, and the tree stands for the program. -/
theorem Spells.readProgram (h : Spells limit (closeTokens ts) P) :
    ∃ store root, parseTokens ts limit = .ok (store, root) ∧ store.readProgram root = some P := by
  obtain ⟨⟨store, root⟩, hparse⟩ := (parseTokens_ok_iff ts limit).2 ⟨P, h⟩
  obtain ⟨Q, hspells, hAt, hsize, -⟩ := parseTokens_layout hparse
  obtain rfl := (hspells P).1 h
  exact ⟨store, root, hparse, hAt.readProgram (by omega)⟩

/-- Whether a program comes back from every way to write it: it can be written, and its tokens and
the end of the file are parsed to a tree that stands for it, when as many nesting levels are allowed
as there are tokens. -/
def RoundTrips (P : Program) : Prop :=
  (∃ ts, Written P.lexemes ts) ∧
    ∀ ts last limit, Written P.lexemes ts → last.kind = .endOfFile → ts.length ≤ limit →
      ∃ store root, parseTokens (ts ++ [last]) limit = .ok (store, root) ∧
        store.readProgram root = some P

theorem Syntax.WritableProgram.roundTrips (hP : WritableProgram P) : RoundTrips P := by
  refine ⟨hP.exists_written, fun ts last limit hts hlast hlimit => Spells.readProgram ?_⟩
  rw [closeTokens_of_closed hlast]
  exact .of_written hP hts hlast hlimit

/-- The end of the file stands at the end of every source. -/
theorem lexed_endOfFile (span : Span) : (Token.endOfFile span).Lexed := by
  have hempty : tokenize "" = .ok [.endOfFile (Position.start.spanOf 0)] := by
    rw [tokenize, String.toList_empty, scan.eq_def]
  exact ⟨"", _, hempty, _, List.mem_singleton_self _, rfl, rfl⟩

theorem lexed_closeTokens (h : ∀ t ∈ ts, t.Lexed) : ∀ t ∈ closeTokens ts, t.Lexed := by
  cases ts with
  | nil =>
    intro t ht
    obtain rfl := List.mem_singleton.1 ht
    exact lexed_endOfFile _
  | cons first others =>
    intro t ht
    rw [closeTokens, TokenStream.ofList] at ht
    split at ht
    · exact h t ht
    · rcases List.mem_append.1 (List.cons_append ▸ ht : t ∈ first :: others ++ _) with ht | ht
      · exact h t ht
      · obtain rfl := List.mem_singleton.1 ht
        exact lexed_endOfFile _

theorem Spells.writable (h : Spells limit ts P) (hts : ∀ t ∈ ts, t.Lexed) : WritableProgram P := by
  obtain ⟨rest, hread, -⟩ := h
  exact (Reading.program_yields (Reading.nestingYields limit) ts P rest hts hread).2

/-- Writing and parsing undo each other. Every program that can be written comes back from its
tokens. And the tree that is made of the tokens of a source stands for such a program. -/
theorem roundTrips_of_writable_of_parsed :
    (∀ P, WritableProgram P → RoundTrips P) ∧
      ∀ ts limit store root, (∀ t ∈ ts, t.Lexed) → parseTokens ts limit = .ok (store, root) →
        ∃ P, store.readProgram root = some P ∧ WritableProgram P ∧ RoundTrips P := by
  refine ⟨fun P hP => hP.roundTrips, fun ts limit store root hts hparse => ?_⟩
  obtain ⟨P, hspells, hAt, hsize, -⟩ := parseTokens_layout hparse
  have hP : WritableProgram P := ((hspells P).2 rfl).writable (lexed_closeTokens hts)
  exact ⟨P, hAt.readProgram (by omega), hP, hP.roundTrips⟩

/-- A program that prints a product of operands that need parentheses. -/
def productProgram : Program :=
  ⟨"p", [], [], .mk [] [.print (.binary .multiply
    (.binary .subtract (.literal (.integer 1)) (.literal (.integer 2147483647)))
    (.unary .not (.literal (.boolean true))))]⟩

theorem roundTrips_product_and_source :
    RoundTrips productProgram ∧ ∃ store root P,
      parseTokens flatTokens flatTokens.length = .ok (store, root) ∧
        store.readProgram root = some P ∧ RoundTrips P := by
  have hinteger : ∀ n : Int, WritableInteger n → WritableExpr (.literal (.integer n)) :=
    fun n hn => .literal hn
  have hboolean : WritableLiteral (.boolean true) := trivial
  have hprint : WritableStatement (.print (.binary .multiply
      (.binary .subtract (.literal (.integer 1)) (.literal (.integer 2147483647)))
      (.unary .not (.literal (.boolean true))))) :=
    .print (.binary
      (.binary (hinteger 1 ⟨by decide, by decide⟩) (hinteger _ ⟨by decide, by decide⟩))
      (.unary (.literal hboolean)))
  have hproduct : WritableProgram productProgram := by
    refine ⟨fun d hd => absurd hd List.not_mem_nil, fun f hf => absurd hf List.not_mem_nil, ?_⟩
    refine .mk (fun d hd => absurd hd List.not_mem_nil) fun s hs => ?_
    obtain rfl := List.mem_singleton.1 hs
    exact hprint
  have hlexed : ∀ t ∈ flatTokens, t.Lexed := fun t ht =>
    Token.lexed_of_mem ht
  obtain ⟨store, root, hparse⟩ := parseTokens_flatTokens
  obtain ⟨P, hread, -, hP⟩ := roundTrips_of_writable_of_parsed.2 _ _ _ _ hlexed hparse
  exact ⟨roundTrips_of_writable_of_parsed.1 _ hproduct, store, root, P, hparse, hread, hP⟩

end PLang
