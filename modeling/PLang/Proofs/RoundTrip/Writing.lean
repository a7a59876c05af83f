import Mathlib.Data.List.Forall2
import PLang.Proofs.Lexemes
import PLang.Proofs.Syntax

/-!
# Writing programs as tokens

How a program is written with as few parentheses as possible: an operand has parentheses exactly if
its own operator does not bind strongly enough for its place. `WritableProgram` holds of the
programs that the language has a text for.
-/

namespace PLang

/-- Whether a number has a minus sign. -/
def Binary64.isNegative : Binary64 → Bool
  | .finite negative _ _ => negative
  | .infinite negative => negative
  | .nan negative => negative

namespace Syntax

/-! ### Lexemes -/

/-- What a token says, wherever it stands. The kind of a sign or a reserved word says it all. A real
number is given by its value, which can be written in many ways. -/
inductive Lexeme where
  | mark (kind : TokenKind)
  | name (text : String)
  | string (text : String)
  | integer (value : Nat)
  | real (value : Binary64)

namespace Lexeme

/-- The kind of the tokens that say it. -/
def kind : Lexeme → TokenKind
  | mark kind => kind
  | name _ => .identifier
  | string _ => .string
  | integer _ => .integer
  | real _ => .real

/-- Whether the text of a token says it. -/
def Text : Lexeme → String → Prop
  | mark _, _ => True
  | name text, value => value = text
  | string text, value => value = text
  | integer n, value => value = toString n
  | real x, value => Binary64.ofText? value = some x

/-- Whether a token says it. -/
def Says (l : Lexeme) (t : Token) : Prop := t.kind = l.kind ∧ l.Text t.value

end Lexeme

/-- Whether tokens are written as lexemes say. -/
def Written (ls : List Lexeme) (ts : List Token) : Prop := List.Forall₂ Lexeme.Says ls ts

theorem Written.split {ls ms : List Lexeme} {ts : List Token} (h : Written (ls ++ ms) ts) :
    ∃ us vs, ts = us ++ vs ∧ Written ls us ∧ Written ms vs := by
  induction ls generalizing ts with
  | nil => exact ⟨[], ts, rfl, .nil, h⟩
  | cons l ls ih =>
    cases h with
    | @cons _ t _ _ hl h =>
      obtain ⟨us, vs, rfl, hu, hv⟩ := ih h
      exact ⟨t :: us, vs, rfl, .cons hl hu, hv⟩

/-- Lexemes with parentheses around them, if they need them. -/
def grouped (needed : Bool) (ls : List Lexeme) : List Lexeme :=
  if needed then .mark .openParen :: (ls ++ [.mark .closeParen]) else ls

/-- One list, and then the others, each after a separator. -/
def separate (separator : TokenKind) : List (List Lexeme) → List Lexeme
  | [] => []
  | first :: others => first ++ others.flatMap (.mark separator :: ·)

/-! ### Types and declarations -/

/-- The word that names a scalar type. Nothing is written for the type of functions that return
nothing. -/
def scalarLexemes : ScalarType → List Lexeme
  | .integer => [.mark .integerWord]
  | .real => [.mark .realWord]
  | .boolean => [.mark .booleanWord]
  | .string => [.mark .stringWord]
  | .void => []

/-- One dimension of an array type. -/
def dimensionLexemes (size : Int) : List Lexeme :=
  [.mark .arrayWord, .integer size.toNat, .mark .ofWord]

/-- A type. -/
def DataType.lexemes (t : DataType) : List Lexeme :=
  t.dimensions.flatMap dimensionLexemes ++ scalarLexemes t.scalar

/-- A literal. -/
def literalLexeme : LiteralValue → Lexeme
  | .integer n => .integer n.toNat
  | .real x => .real x
  | .string text => .string text
  | .boolean b => .mark (if b then .trueWord else .falseWord)

/-- The value of a constant: numbers below zero have a sign. -/
def constantLexemes : LiteralValue → List Lexeme
  | .integer n => if n < 0 then [.mark .dash, .integer (-n).toNat] else [.integer n.toNat]
  | .real x => if x.isNegative then [.mark .dash, .real x.negate] else [.real x]
  | v => [literalLexeme v]

/-- Names with commas between them. -/
def Names.lexemes (ns : Names) : List Lexeme :=
  separate .comma (ns.toList.map fun name => [.name name])

/-- A declaration of variables or constants. -/
def Declaration.lexemes : Declaration → List Lexeme
  | .vars ns t =>
    .mark .varWord :: (ns.lexemes ++ .mark .colon :: (t.lexemes ++ [.mark .semicolon]))
  | .constants ns v =>
    .mark .varWord :: (ns.lexemes ++ .mark .colon :: (constantLexemes v ++ [.mark .semicolon]))

/-- A declaration of parameters. -/
def Parameter.lexemes (p : Parameter) : List Lexeme :=
  p.names.lexemes ++ .mark .colon :: p.type.lexemes

/-! ### Expressions -/

/-- How strongly an expression holds together. -/
def Expr.power : Expr → BindingPower
  | .binary o _ _ => o.power
  | .unary o _ => o.power
  | _ => .primary

mutual

/-- An expression. A left operand may bind as strongly as its operator, a right one has to bind more
strongly. -/
def Expr.lexemes : Expr → List Lexeme
  | .literal v => [literalLexeme v]
  | .reference name indices => .name name :: subscriptLexemes indices
  | .call name arguments =>
    .name name :: .mark .openParen ::
      (separate .comma (listLexemes arguments) ++ [.mark .closeParen])
  | .unary o e => .mark o.kind :: grouped (e.power.rank < o.power.rank) e.lexemes
  | .binary o e1 e2 => grouped (e1.power.rank < o.power.rank) e1.lexemes ++
      .mark o.kind :: grouped (e2.power.rank ≤ o.power.rank) e2.lexemes

/-- Subscripts with their brackets. -/
def subscriptLexemes : List Expr → List Lexeme
  | [] => []
  | e :: es => .mark .openBracket :: (e.lexemes ++ .mark .closeBracket :: subscriptLexemes es)

/-- Every expression of a list on its own. -/
def listLexemes : List Expr → List (List Lexeme)
  | [] => []
  | e :: es => e.lexemes :: listLexemes es

end

theorem subscriptLexemes_eq (es : List Expr) : subscriptLexemes es =
    es.flatMap fun e => .mark .openBracket :: (e.lexemes ++ [.mark .closeBracket]) := by
  induction es with
  | nil => rfl
  | cons e es ih => simp [subscriptLexemes, ih]

theorem listLexemes_eq (es : List Expr) : listLexemes es = es.map Expr.lexemes := by
  induction es with
  | nil => rfl
  | cons e es ih => rw [listLexemes, ih, List.map_cons]

/-! ### Statements and programs -/

mutual

/-- A statement. -/
def Statement.lexemes : Statement → List Lexeme
  | .block b => b.lexemes
  | .assign name indices e => .name name :: (subscriptLexemes indices ++
      .mark .assignment :: (e.lexemes ++ [.mark .semicolon]))
  | .print e => .mark .printWord :: (e.lexemes ++ [.mark .semicolon])
  | .read name indices => .mark .readWord :: .name name :: (subscriptLexemes indices ++
      [.mark .semicolon])
  | .condition e b b' => .mark .ifWord :: (e.lexemes ++ .mark .thenWord :: (b.lexemes ++
      (elseLexemes b' ++ [.mark .endWord, .mark .ifWord])))
  | .whileLoop e b => .mark .whileWord :: (e.lexemes ++ .mark .doWord :: (b.lexemes ++
      [.mark .endWord, .mark .doWord]))
  | .forLoop x m n b => .mark .forWord :: .name x :: .mark .assignment :: .integer m.toNat ::
      .mark .toWord :: .integer n.toNat :: .mark .doWord :: (b.lexemes ++
      [.mark .endWord, .mark .doWord])
  | .returnValue none => [.mark .returnWord, .mark .semicolon]
  | .returnValue (some e) => .mark .returnWord :: (e.lexemes ++ [.mark .semicolon])
  | .call name arguments => .name name :: .mark .openParen ::
      (separate .comma (listLexemes arguments) ++ [.mark .closeParen, .mark .semicolon])

/-- What is done if a condition fails. -/
def elseLexemes : Option Block → List Lexeme
  | none => []
  | some b => .mark .elseWord :: b.lexemes

/-- A block. -/
def Block.lexemes : Block → List Lexeme
  | .mk ds ss => .mark .beginWord :: (ds.flatMap Declaration.lexemes ++
      (statementLexemes ss ++ [.mark .endWord]))

/-- The statements of a block. -/
def statementLexemes : List Statement → List Lexeme
  | [] => []
  | s :: ss => s.lexemes ++ statementLexemes ss

end

theorem statementLexemes_eq (ss : List Statement) :
    statementLexemes ss = ss.flatMap Statement.lexemes := by
  induction ss with
  | nil => rfl
  | cons s ss ih => rw [statementLexemes, ih, List.flatMap_cons]

/-- The return type of a function, if it returns anything. -/
def resultLexemes : ScalarType → List Lexeme
  | .void => []
  | result => .mark .colon :: scalarLexemes result

/-- A function. -/
def Function.lexemes (f : Function) : List Lexeme :=
  .name f.name :: .mark .openParen :: (separate .semicolon (f.parameters.map Parameter.lexemes) ++
    .mark .closeParen :: (resultLexemes f.result ++
      f.body.elim [.mark .semicolon] fun b => b.lexemes ++ [.mark .endWord]))

/-- A program. -/
def Program.lexemes (P : Program) : List Lexeme :=
  .name P.name :: .mark .semicolon :: (P.declarations.flatMap Declaration.lexemes ++
    (P.functions.flatMap Function.lexemes ++ (P.body.lexemes ++ [.mark .endWord])))

/-! ### What can be written -/

/-- The whole numbers that an integer token can stand for. -/
def WritableInteger (n : Int) : Prop := 0 ≤ n ∧ n ≤ 0x7fffffff

/-- The literals that a token can stand for. -/
def WritableLiteral : LiteralValue → Prop
  | .integer n => WritableInteger n
  | .real x => ∃ t : Token, t.Lexed ∧ t.kind = .real ∧ Binary64.ofText? t.value = some x
  | .string _ => True
  | .boolean _ => True

/-- The constants that can be declared: literals, and numbers with a sign. -/
def WritableConstant : LiteralValue → Prop
  | .integer n => WritableInteger n ∨ WritableInteger (-n)
  | .real x => WritableLiteral (.real (if x.isNegative then x.negate else x))
  | .string _ => True
  | .boolean _ => True

/-- The types that variables can have. -/
structure WritableType (t : DataType) : Prop where
  scalar : t.scalar ≠ .void
  dimensions : ∀ n ∈ t.dimensions, WritableInteger n

/-- The declarations that can be written. -/
def WritableDeclaration : Declaration → Prop
  | .vars _ t => WritableType t
  | .constants _ v => WritableConstant v

/-- The expressions that can be written. -/
inductive WritableExpr : Expr → Prop
  | literal {v : LiteralValue} : WritableLiteral v → WritableExpr (.literal v)
  | reference {name : String} {es : List Expr} : (∀ e ∈ es, WritableExpr e) →
      WritableExpr (.reference name es)
  | call {name : String} {es : List Expr} : (∀ e ∈ es, WritableExpr e) →
    WritableExpr (.call name es)
  | unary {o : UnaryOperator} {e : Expr} : WritableExpr e → WritableExpr (.unary o e)
  | binary {o : BinaryOperator} {e1 e2 : Expr} : WritableExpr e1 → WritableExpr e2 →
      WritableExpr (.binary o e1 e2)

mutual

/-- The statements that can be written. -/
inductive WritableStatement : Statement → Prop
  | block {b : Block} : WritableBlock b → WritableStatement (.block b)
  | assign {name : String} {es : List Expr} {e : Expr} : (∀ i ∈ es, WritableExpr i) →
    WritableExpr e →
      WritableStatement (.assign name es e)
  | print {e : Expr} : WritableExpr e → WritableStatement (.print e)
  | read {name : String} {es : List Expr} : (∀ i ∈ es, WritableExpr i) →
    WritableStatement (.read name es)
  | condition {e : Expr} {b : Block} {b' : Option Block} : WritableExpr e → WritableBlock b →
      (∀ x ∈ b', WritableBlock x) → WritableStatement (.condition e b b')
  | whileLoop {e : Expr} {b : Block} : WritableExpr e → WritableBlock b →
    WritableStatement (.whileLoop e b)
  | forLoop {x : String} {m n : Int} {b : Block} : WritableInteger m → WritableInteger n →
      WritableBlock b → WritableStatement (.forLoop x m n b)
  | returnValue {e : Option Expr} : (∀ x ∈ e, WritableExpr x) → WritableStatement (.returnValue e)
  | call {name : String} {es : List Expr} : (∀ e ∈ es, WritableExpr e) →
    WritableStatement (.call name es)

/-- The blocks that can be written. -/
inductive WritableBlock : Block → Prop
  | mk {ds : List Declaration} {ss : List Statement} : (∀ d ∈ ds, WritableDeclaration d) →
      (∀ s ∈ ss, WritableStatement s) → WritableBlock (.mk ds ss)

end

/-- The functions that can be written. -/
structure WritableFunction (f : Function) : Prop where
  parameters : ∀ p ∈ f.parameters, WritableType p.type
  body : ∀ b ∈ f.body, WritableBlock b

/-- The programs that can be written. -/
structure WritableProgram (P : Program) : Prop where
  declarations : ∀ d ∈ P.declarations, WritableDeclaration d
  functions : ∀ f ∈ P.functions, WritableFunction f
  body : WritableBlock P.body

/-! ### Tokens for what can be written -/

/-- Whether there are tokens that say each of some lexemes. -/
def Sayable (ls : List Lexeme) : Prop := ∀ l ∈ ls, ∃ t : Token, l.Says t

theorem Sayable.exists_written {ls : List Lexeme} (h : Sayable ls) : ∃ ts, Written ls ts := by
  induction ls with
  | nil => exact ⟨[], .nil⟩
  | cons l ls ih =>
    obtain ⟨t, ht⟩ := h l (.head _)
    obtain ⟨ts, hts⟩ := ih fun l hl => h l (.tail _ hl)
    exact ⟨t :: ts, .cons ht hts⟩

/-- All lexemes but real numbers can be said. -/
theorem Lexeme.exists_says {l : Lexeme}
    (h : ∀ x, l = .real x → ∃ text, Binary64.ofText? text = some x) :
    ∃ t : Token, l.Says t := by
  cases l with
  | mark kind => exact ⟨⟨kind, "", ⟨.nowhere, .nowhere⟩⟩, rfl, trivial⟩
  | name text => exact ⟨⟨.identifier, text, ⟨.nowhere, .nowhere⟩⟩, rfl, rfl⟩
  | string text => exact ⟨⟨.string, text, ⟨.nowhere, .nowhere⟩⟩, rfl, rfl⟩
  | integer n => exact ⟨⟨.integer, toString n, ⟨.nowhere, .nowhere⟩⟩, rfl, rfl⟩
  | real x =>
    obtain ⟨text, htext⟩ := h x rfl
    exact ⟨⟨.real, text, ⟨.nowhere, .nowhere⟩⟩, rfl, htext⟩

section Sayable

variable {ls ms : List Lexeme}

@[simp]
theorem sayable_nil : Sayable [] := fun _ h => absurd h List.not_mem_nil

@[simp]
theorem sayable_append : Sayable (ls ++ ms) ↔ Sayable ls ∧ Sayable ms :=
  List.forall_mem_append

@[simp]
theorem sayable_cons {l : Lexeme} : Sayable (l :: ls) ↔ (∃ t : Token, l.Says t) ∧ Sayable ls :=
  List.forall_mem_cons

@[simp]
theorem exists_says_mark (kind : TokenKind) : ∃ t : Token, (Lexeme.mark kind).Says t :=
  Lexeme.exists_says nofun

@[simp]
theorem exists_says_name (text : String) : ∃ t : Token, (Lexeme.name text).Says t :=
  Lexeme.exists_says nofun

@[simp]
theorem exists_says_integer (n : Nat) : ∃ t : Token, (Lexeme.integer n).Says t :=
  Lexeme.exists_says nofun

theorem Sayable.flatMap {α : Type} {w : α → List Lexeme} {as : List α}
    (h : ∀ a ∈ as, Sayable (w a)) : Sayable (as.flatMap w) := by
  intro l hl
  obtain ⟨a, ha, hl⟩ := List.mem_flatMap.1 hl
  exact h a ha l hl

theorem Sayable.separate {separator : TokenKind} {lss : List (List Lexeme)}
    (h : ∀ ls ∈ lss, Sayable ls) : Sayable (separate separator lss) := by
  cases lss with
  | nil => exact sayable_nil
  | cons ls lss =>
    refine sayable_append.2 ⟨h ls (.head _), .flatMap fun ms hms => ?_⟩
    exact sayable_cons.2 ⟨exists_says_mark _, h ms (.tail _ hms)⟩

theorem Sayable.grouped (h : Sayable ls) (needed : Bool) : Sayable (grouped needed ls) := by
  unfold Syntax.grouped
  split
  · simpa using h
  · exact h

end Sayable

theorem exists_says_literal {v : LiteralValue} (hv : WritableLiteral v) :
    ∃ t : Token, (literalLexeme v).Says t := by
  refine Lexeme.exists_says fun x hx => ?_
  cases v with
  | real y =>
    obtain rfl := Lexeme.real.inj hx
    obtain ⟨t, -, -, ht⟩ := hv
    exact ⟨t.value, ht⟩
  | integer | string | boolean => cases hx

theorem sayable_constant {v : LiteralValue} (hv : WritableConstant v) :
    Sayable (constantLexemes v) := by
  cases v with
  | integer n =>
    rw [constantLexemes]
    split <;> simp
  | real x =>
    have hreal : ∃ t : Token,
      (literalLexeme (.real (if x.isNegative then x.negate else x))).Says t :=
      exists_says_literal hv
    rw [constantLexemes]
    split
    · rename_i hx
      rw [if_pos hx] at hreal
      exact sayable_cons.2 ⟨exists_says_mark _, sayable_cons.2 ⟨hreal, sayable_nil⟩⟩
    · rename_i hx
      rw [if_neg hx] at hreal
      exact sayable_cons.2 ⟨hreal, sayable_nil⟩
  | string text =>
    have htext : WritableLiteral (.string text) := trivial
    exact sayable_cons.2 ⟨exists_says_literal htext, sayable_nil⟩
  | boolean b =>
    have hb : WritableLiteral (.boolean b) := trivial
    exact sayable_cons.2 ⟨exists_says_literal hb, sayable_nil⟩

@[simp]
theorem sayable_scalar (s : ScalarType) : Sayable (scalarLexemes s) := by
  cases s <;> simp [scalarLexemes]

@[simp]
theorem sayable_type (t : DataType) : Sayable t.lexemes := by
  refine sayable_append.2 ⟨.flatMap fun n _ => ?_, sayable_scalar _⟩
  simp [dimensionLexemes]

@[simp]
theorem sayable_names (ns : Names) : Sayable ns.lexemes := by
  refine .separate fun ls hls => ?_
  obtain ⟨name, -, rfl⟩ := List.mem_map.1 hls
  simp

theorem sayable_declaration {d : Declaration} (hd : WritableDeclaration d) : Sayable d.lexemes := by
  cases d with
  | vars ns t => simp [Declaration.lexemes]
  | constants ns v =>
    have hv := sayable_constant hd
    simp [Declaration.lexemes, hv]

theorem sayable_expr {e : Expr} (he : WritableExpr e) : Sayable e.lexemes := by
  induction e with
  | literal v =>
    cases he with
    | literal hv => exact sayable_cons.2 ⟨exists_says_literal hv, sayable_nil⟩
  | reference name es ih =>
    cases he with
    | reference hes =>
      rw [Expr.lexemes, subscriptLexemes_eq]
      refine sayable_cons.2 ⟨exists_says_name _, .flatMap fun e hmem => ?_⟩
      simpa using ih e hmem (hes e hmem)
  | call name es ih =>
    cases he with
    | call hes =>
      rw [Expr.lexemes, listLexemes_eq]
      have hes : Sayable (separate .comma (es.map Expr.lexemes)) := by
        refine .separate fun ls hls => ?_
        obtain ⟨e, hmem, rfl⟩ := List.mem_map.1 hls
        exact ih e hmem (hes e hmem)
      simpa using hes
  | unary o e ih =>
    cases he with
    | unary he => exact sayable_cons.2 ⟨exists_says_mark _, (ih he).grouped _⟩
  | binary o l r ihl ihr =>
    cases he with
    | binary hl hr =>
      exact sayable_append.2 ⟨(ihl hl).grouped _,
        sayable_cons.2 ⟨exists_says_mark _, (ihr hr).grouped _⟩⟩

theorem sayable_subscripts {es : List Expr} (hes : ∀ e ∈ es, WritableExpr e) :
    Sayable (subscriptLexemes es) := by
  rw [subscriptLexemes_eq]
  exact .flatMap fun e he => by simpa using sayable_expr (hes e he)

theorem sayable_arguments {es : List Expr} (hes : ∀ e ∈ es, WritableExpr e) :
    Sayable (separate .comma (listLexemes es)) := by
  rw [listLexemes_eq]
  refine .separate fun ls hls => ?_
  obtain ⟨e, he, rfl⟩ := List.mem_map.1 hls
  exact sayable_expr (hes e he)

theorem sayable_statement :
    (∀ s, WritableStatement s → Sayable s.lexemes) ∧ ∀ b, WritableBlock b → Sayable b.lexemes := by
  refine Statement.induction ?ofBlock ?assign ?print ?read ?condition ?whileLoop
    ?forLoop ?returnValue
    ?call ?mk
  case ofBlock =>
    rintro b ih ⟨hb⟩
    exact ih hb
  case assign =>
    rintro name es e ⟨⟩
    rename_i hes he
    simp [Statement.lexemes, sayable_subscripts hes, sayable_expr he]
  case print =>
    rintro e ⟨⟩
    rename_i he
    simp [Statement.lexemes, sayable_expr he]
  case read =>
    rintro name es ⟨⟩
    rename_i hes
    simp [Statement.lexemes, sayable_subscripts hes]
  case condition =>
    rintro e b b' ihb ihb' ⟨⟩
    rename_i he hb hb'
    have helse : Sayable (elseLexemes b') := by
      cases b' with
      | none => exact sayable_nil
      | some b' => exact sayable_cons.2 ⟨exists_says_mark _, ihb' b' rfl (hb' b' rfl)⟩
    simp [Statement.lexemes, sayable_expr he, ihb hb, helse]
  case whileLoop =>
    rintro e b ihb ⟨⟩
    rename_i he hb
    simp [Statement.lexemes, sayable_expr he, ihb hb]
  case forLoop =>
    rintro x lower upper b ihb ⟨⟩
    rename_i hb
    simp [Statement.lexemes, ihb hb]
  case returnValue =>
    rintro (_ | e) ⟨⟩
    · simp [Statement.lexemes]
    · rename_i he
      simp [Statement.lexemes, sayable_expr (he e rfl)]
  case call =>
    rintro name es ⟨⟩
    rename_i hes
    simp [Statement.lexemes, sayable_arguments hes]
  case mk =>
    rintro ds ss ih ⟨⟩
    rename_i hds hss
    have hdeclarations : Sayable (ds.flatMap Declaration.lexemes) :=
      .flatMap fun d hd => sayable_declaration (hds d hd)
    have hstatements : Sayable (ss.flatMap Statement.lexemes) :=
      .flatMap fun s hs => ih s hs (hss s hs)
    simp [Block.lexemes, statementLexemes_eq, hdeclarations, hstatements]

theorem sayable_function {f : Function} (hf : WritableFunction f) : Sayable f.lexemes := by
  obtain ⟨name, ps, result, body⟩ := f
  have hparameters : Sayable (separate .semicolon (ps.map Parameter.lexemes)) := by
    refine .separate fun ls hls => ?_
    obtain ⟨p, -, rfl⟩ := List.mem_map.1 hls
    simp [Parameter.lexemes]
  have hresult : Sayable (resultLexemes result) := by
    cases result <;> simp [resultLexemes]
  have hbody : Sayable (body.elim [.mark .semicolon] fun b => b.lexemes ++ [.mark .endWord]) := by
    cases body with
    | none => simp
    | some b => simpa using sayable_statement.2 b (hf.body b rfl)
  simp [Function.lexemes, hparameters, hresult, hbody]

/-- A program that can be written is written with some tokens. -/
theorem WritableProgram.exists_written {P : Program} (hP : WritableProgram P) :
    ∃ ts, Written P.lexemes ts := by
  refine Sayable.exists_written ?_
  have hdeclarations : Sayable (P.declarations.flatMap Declaration.lexemes) :=
    .flatMap fun d hd => sayable_declaration (hP.declarations d hd)
  have hfunctions : Sayable (P.functions.flatMap Function.lexemes) :=
    .flatMap fun f hf => sayable_function (hP.functions f hf)
  have hbody := sayable_statement.2 P.body hP.body
  simp [Program.lexemes, hdeclarations, hfunctions, hbody]

end Syntax

end PLang
