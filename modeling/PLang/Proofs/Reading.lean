import PLang.Parser.Program
import PLang.Proofs.Syntax

/-!
# What tokens spell

A reading relates a list of tokens to what can be read off its front and to the tokens that are
left. There is one reading for every rule of the language; it says which tokens the rule takes and
which syntax they spell, without a program tree, locations or messages. Expressions and statements,
which contain each other, are read one nesting level further down, as a `Nesting` says.
-/

namespace PLang

open Syntax

variable {more : TokenKind → Bool} {rest ts : List Token}

/-- What can be read off the front of a list of tokens, and what is left of it. -/
def Reading (α : Type) : Type := List Token → α → List Token → Prop

namespace Reading

instance : Monad Reading where
  pure a := fun ts b rest => b = a ∧ rest = ts
  bind R S := fun ts b rest => ∃ a mid, R ts a mid ∧ S a mid b rest

variable {α β : Type}

variable {R : Reading α}

theorem bind_pure (R : Reading α) : R >>= pure = R := by
  funext ts a rest
  refine propext ⟨?_, fun h => ⟨a, rest, h, rfl, rfl⟩⟩
  rintro ⟨b, mid, h, rfl, rfl⟩
  exact h

/-- The kind of the first token. -/
def headKind (ts : List Token) : TokenKind := (ts.head?.map Token.kind).getD .endOfFile

@[simp]
theorem headKind_cons (t : Token) (ts : List Token) : headKind (t :: ts) = t.kind := rfl

/-- The kind of the second token, if there is one. -/
def secondKind? (ts : List Token) : Option TokenKind := ts.tail.head?.map Token.kind

/-- One token of a kind. -/
def token (kind : TokenKind) : Reading Token := fun ts t rest => ts = t :: rest ∧ t.kind = kind

/-- One token that has a value. -/
def one (f : Token → Option α) : Reading α := fun ts a rest => ∃ t, ts = t :: rest ∧ f t = some a

theorem not_one {f : Token → Option α} {t : Token} {a : α} (h : f t = none) :
    ¬one f (t :: ts) a rest := by
  rintro ⟨t', ht, hf⟩
  rw [← (List.cons.inj ht).1, h] at hf
  cases hf

theorem token_eq_one (kind : TokenKind) :
    token kind = one fun t => if t.kind = kind then some t else none := by
  funext ts t rest
  refine propext ⟨?_, ?_⟩
  · rintro ⟨rfl, hk⟩
    exact ⟨t, rfl, if_pos hk⟩
  · rintro ⟨t', rfl, hk⟩
    obtain ⟨hk, ht⟩ := Option.ite_none_right_eq_some.1 hk
    exact ⟨by rw [Option.some.inj ht], Option.some.inj ht ▸ hk⟩

/-- No tokens, where a value is there. -/
def value (o : Option α) : Reading α := fun ts a rest => o = some a ∧ rest = ts

/-- One thing or another, by the kind of the first token. -/
def choose (p : TokenKind → Bool) (R S : Reading α) : Reading α := fun ts =>
  if p (headKind ts) then R ts else S ts

/-- Elements as long as the first token is of the right kind. -/
inductive Many (more : TokenKind → Bool) (R : Reading α) : Reading (List α)
  | stop {ts : List Token} : more (headKind ts) = false → Many more R ts [] ts
  | next {ts mid rest : List Token} {a : α} {as : List α} : more (headKind ts) = true →
      R ts a mid → Many more R mid as rest → Many more R ts (a :: as) rest

theorem many_of_stop (h : more (headKind ts) = false) :
    Many more R ts = (pure [] : Reading (List α)) ts := by
  funext as rest
  refine propext ⟨fun hread => ?_, ?_⟩
  · cases hread with
    | stop => exact ⟨rfl, rfl⟩
    | next hmore => rw [h] at hmore; cases hmore
  · rintro ⟨rfl, rfl⟩
    exact .stop h

theorem many_of_next (h : more (headKind ts) = true) :
    Many more R ts =
      (do let a ← R; let as ← Many more R; return a :: as : Reading (List α)) ts := by
  funext as rest
  refine propext ⟨fun hread => ?_, ?_⟩
  · cases hread with
    | stop hstop => rw [h] at hstop; cases hstop
    | next _ hR hMany => exact ⟨_, _, hR, _, _, hMany, rfl, rfl⟩
  · rintro ⟨a, mid, hR, as, rest, hMany, rfl, rfl⟩
    exact .next h hR hMany

/-- After the last element no other one is due. -/
theorem Many.stops {as : List α} (h : Many more R ts as rest) :
    more (headKind rest) = false := by
  induction h with
  | stop hstop => exact hstop
  | next _ _ _ ih => exact ih

/-- Where an element is due, there is one. -/
theorem Many.ne_nil {as : List α} (h : Many more R ts as rest)
    (hmore : more (headKind ts) = true) : as ≠ [] := by
  rintro rfl
  cases h with
  | stop hstop => rw [hmore] at hstop; cases hstop

/-- One element and then one after each separator. -/
def separated (separator : TokenKind) (R : Reading α) : Reading (α × List α) := do
  let first ← R
  let others ← Many (· == separator) (do let _ ← token separator; R)
  return (first, others)

/-! ### Types and declarations -/

/-- A scalar type. -/
def scalar : Reading ScalarType := one fun t => Parse.scalarOf? t.kind

/-- One dimension of an array type. -/
def dimension : Reading Int := do
  let _ ← token .arrayWord
  let size ← token .integer
  let n ← value (wordOfText? size.value)
  let _ ← token .ofWord
  return n

/-- A type. -/
def type : Reading DataType := do
  let dimensions ← Many (· == .arrayWord) dimension
  let element ← scalar
  return ⟨element, dimensions⟩

/-- A type that does not start with the word `array` is a scalar one. -/
theorem type_of_scalar (h : headKind ts ≠ .arrayWord) :
    type ts = (do let s ← scalar; return .ofScalar s : Reading DataType) ts := by
  have hmany : Many (· == .arrayWord) dimension ts = (pure [] : Reading (List Int)) ts :=
    many_of_stop (beq_eq_false_iff_ne.2 h)
  funext t rest
  refine propext ⟨?_, ?_⟩
  · rintro ⟨ds, mid, hds, hs⟩
    rw [hmany] at hds
    obtain ⟨rfl, rfl⟩ := hds
    exact hs
  · exact fun hs => ⟨[], ts, hmany ▸ ⟨rfl, rfl⟩, hs⟩

/-- The value of a literal token. After a minus sign only numbers are literals. -/
def literalOf? (t : Token) (negative : Bool) : Option LiteralValue :=
  match t.kind, negative with
  | .integer, _ => (wordOfText? t.value).map fun n =>
    .integer (if negative then negateWord n else n)
  | .real, _ => (Binary64.ofText? t.value).map fun x => .real (if negative then x.negate else x)
  | .string, false => some (.string t.value)
  | .trueWord, false => some (.boolean true)
  | .falseWord, false => some (.boolean false)
  | _, _ => none

/-- A literal. -/
def literal (negative : Bool) : Reading LiteralValue := one (literalOf? · negative)

/-- A list of names. -/
def names : Reading Names := do
  let ns ← separated .comma do
    let t ← token .identifier
    return t.value
  return ⟨ns.1, ns.2⟩

/-- A minus sign, if there is one. -/
def minus : Reading Bool :=
  choose (· == .dash) (do let _ ← token .dash; return true) (return false)

/-- The type or the literal of a declaration. -/
def declared (ns : Names) : Reading Declaration :=
  choose (fun k => (RuleTables.standardType k).isSome)
    (do let t ← type; return .vars ns t)
    (do let negative ← minus; let v ← literal negative; return .constants ns v)

/-- A declaration of variables or constants. -/
def declaration : Reading Declaration := do
  let _ ← token .varWord
  let ns ← names
  let _ ← token .colon
  let d ← declared ns
  let _ ← token .semicolon
  return d

/-- All declarations that stand here. -/
def declarations : Reading (List Declaration) := Many (· == .varWord) declaration

/-- A declaration of parameters. -/
def parameter : Reading Parameter := do
  let ns ← names
  let _ ← token .colon
  let t ← type
  return ⟨ns, t⟩

/-- The parameters of a function. -/
def parameters : Reading (List Parameter) :=
  choose (· == .closeParen) (return [])
    (do let ps ← separated .semicolon parameter; return ps.1 :: ps.2)

/-- The return type of a function. -/
def returnType : Reading ScalarType :=
  choose (· == .colon) (do let _ ← token .colon; scalar) (return .void)

end Reading

/-- How expressions whose operators bind more strongly than a given power, and statements, are read
one nesting level further down. -/
structure Nesting where
  expression : BindingPower → Reading Expr
  statement : Reading Statement

namespace Reading

/-! ### Expressions -/

/-- One subscript with its brackets. -/
def subscript (N : Nesting) : Reading Expr := do
  let _ ← token .openBracket
  let e ← N.expression .default
  let _ ← token .closeBracket
  return e

/-- A variable with its subscripts. -/
def reference (N : Nesting) : Reading (String × List Expr) := do
  let name ← token .identifier
  let indices ← Many (· == .openBracket) (subscript N)
  return (name.value, indices)

/-- The arguments of a call. -/
def arguments (N : Nesting) : Reading (List Expr) :=
  choose (· == .closeParen) (return [])
    (do let es ← separated .comma (N.expression .default); return es.1 :: es.2)

/-- A call of a function. -/
def call (N : Nesting) : Reading (String × List Expr) := do
  let name ← token .identifier
  let _ ← token .openParen
  let es ← arguments N
  let _ ← token .closeParen
  return (name.value, es)

/-- One thing if a parenthesis follows the first token, else another one. -/
def callOr (R S : Reading α) : Reading α := fun ts =>
  if secondKind? ts = some .openParen then R ts else S ts

/-- A name in an expression. -/
def symbol (N : Nesting) : Reading Expr :=
  callOr (do let c ← call N; return .call c.1 c.2)
    (do let r ← reference N; return .reference r.1 r.2)

/-- An expression in parentheses. -/
def grouping (N : Nesting) : Reading Expr := do
  let _ ← token .openParen
  let e ← N.expression .default
  let _ ← token .closeParen
  return e

/-- A unary operator with its operand. -/
def unary (N : Nesting) (o : UnaryOperator) : Reading Expr := do
  let _ ← token o.kind
  let e ← N.expression o.power
  return .unary o e

/-- The operand that an expression starts with. -/
def operand (N : Nesting) : Reading Expr := fun ts =>
  match headKind ts with
  | .integer | .real | .string | .trueWord | .falseWord =>
    (do let v ← literal false; return .literal v : Reading Expr) ts
  | .identifier => symbol N ts
  | .openParen => grouping N ts
  | .dash => unary N .negate ts
  | .notWord => unary N .not ts
  | _ => fun _ _ => False

/-- Whether no operator that binds more strongly than a power comes first. -/
def Stops (power : BindingPower) (ts : List Token) : Prop :=
  ∀ o, BinaryOperator.ofKind? (headKind ts) = some o → o.power.rank ≤ power.rank

/-- What all operators that bind more strongly than a power make of an expression. -/
inductive Operators (N : Nesting) (power : BindingPower) : Expr → Reading Expr
  | stop {left : Expr} {ts : List Token} : Stops power ts → Operators N power left ts left ts
  | next {left right e : Expr} {o : BinaryOperator} {t : Token} {ts mid rest : List Token} :
      BinaryOperator.ofKind? t.kind = some o → power.rank < o.power.rank →
      N.expression o.power ts right mid → Operators N power (.binary o left right) mid e rest →
      Operators N power left (t :: ts) e rest

/-- An expression whose operators bind more strongly than a power. -/
def expression (N : Nesting) (power : BindingPower) : Reading Expr := do
  let left ← operand N
  Operators N power left

/-! ### Statements and programs -/

/-- A statement inside a block. -/
def blockStatement (N : Nesting) : Reading Statement := fun ts s rest =>
  headKind ts ≠ .endOfFile ∧ N.statement ts s rest

/-- A block. -/
def block (N : Nesting) : Reading Block := do
  let _ ← token .beginWord
  let ds ← declarations
  let ss ← Many (· != .endWord) (blockStatement N)
  let _ ← token .endWord
  return .mk ds ss

/-- A print statement. -/
def print (N : Nesting) : Reading Statement := do
  let _ ← token .printWord
  let e ← N.expression .default
  let _ ← token .semicolon
  return .print e

/-- A read statement. -/
def read (N : Nesting) : Reading Statement := do
  let _ ← token .readWord
  let r ← reference N
  let _ ← token .semicolon
  return .read r.1 r.2

/-- What is done if a condition fails. -/
def elseBody (N : Nesting) : Reading (Option Block) :=
  choose (· == .elseWord) (do let _ ← token .elseWord; let b ← block N; return some b) (return none)

/-- A conditional statement. -/
def condition (N : Nesting) : Reading Statement := do
  let _ ← token .ifWord
  let guard ← N.expression .default
  let _ ← token .thenWord
  let thenBody ← block N
  let elseBody ← elseBody N
  let _ ← token .endWord
  let _ ← token .ifWord
  return .condition guard thenBody elseBody

/-- The block of a loop. -/
def loopBody (N : Nesting) : Reading Block := do
  let b ← block N
  let _ ← token .endWord
  let _ ← token .doWord
  return b

/-- A loop with a guard. -/
def whileLoop (N : Nesting) : Reading Statement := do
  let _ ← token .whileWord
  let guard ← N.expression .default
  let _ ← token .doWord
  let b ← loopBody N
  return .whileLoop guard b

/-- A counting loop. -/
def forLoop (N : Nesting) : Reading Statement := do
  let _ ← token .forWord
  let name ← token .identifier
  let _ ← token .assignment
  let lower ← token .integer
  let _ ← token .toWord
  let upper ← token .integer
  let _ ← token .doWord
  let b ← loopBody N
  let m ← value (wordOfText? lower.value)
  let n ← value (wordOfText? upper.value)
  return .forLoop name.value m n b

/-- The end of a loop belongs to the loop. -/
theorem loopBody_bind (N : Nesting) {α : Type} (S : Block → Reading α) : (loopBody N >>= S) = (do
    let b ← block N
    let _ ← token .endWord
    let _ ← token .doWord
    S b) := by
  funext ts a rest
  refine propext ⟨?_, ?_⟩
  · rintro ⟨_, _, ⟨b, _, hb, t1, _, h1, t2, _, h2, rfl, rfl⟩, hnext⟩
    exact ⟨_, _, hb, t1, _, h1, t2, _, h2, hnext⟩
  · rintro ⟨b, _, hb, t1, _, h1, t2, _, h2, hnext⟩
    exact ⟨b, _, ⟨b, _, hb, t1, _, h1, t2, _, h2, rfl, rfl⟩, hnext⟩

/-- The bounds of a counting loop can be read where they stand. -/
theorem forLoop_eq (N : Nesting) : forLoop N = (do
    let _ ← token .forWord
    let name ← token .identifier
    let _ ← token .assignment
    let lower ← token .integer
    let m ← value (wordOfText? lower.value)
    let _ ← token .toWord
    let upper ← token .integer
    let n ← value (wordOfText? upper.value)
    let _ ← token .doWord
    let b ← block N
    let _ ← token .endWord
    let _ ← token .doWord
    return .forLoop name.value m n b : Reading Statement) := by
  funext ts s rest
  refine propext ⟨?_, ?_⟩
  · rintro ⟨t1, _, h1, name, _, h2, t3, _, h3, lower, _, h4, t5, _, h5, upper, _, h6, t7, _, h7,
      b, _, ⟨b, _, hb, t8, _, h8, t9, _, h9, rfl, rfl⟩, m, _, ⟨hm, rfl⟩, n, _, ⟨hn, rfl⟩, rfl, rfl⟩
    exact ⟨t1, _, h1, name, _, h2, t3, _, h3, lower, _, h4, m, _, ⟨hm, rfl⟩, t5, _,
      h5, upper, _, h6,
      n, _, ⟨hn, rfl⟩, t7, _, h7, b, _, hb, t8, _, h8, t9, _, h9, rfl, rfl⟩
  · rintro ⟨t1, _, h1, name, _, h2, t3, _, h3, lower, _, h4, m, _, ⟨hm, rfl⟩, t5, _,
      h5, upper, _, h6,
      n, _, ⟨hn, rfl⟩, t7, _, h7, b, _, hb, t8, _, h8, t9, _, h9, rfl, rfl⟩
    exact ⟨t1, _, h1, name, _, h2, t3, _, h3, lower, _, h4, t5, _, h5, upper, _, h6, t7, _, h7,
      b, _, ⟨b, _, hb, t8, _, h8, t9, _, h9, rfl, rfl⟩, m, _, ⟨hm, rfl⟩, n, _, ⟨hn, rfl⟩, rfl, rfl⟩

/-- The value of a return statement. -/
def returned (N : Nesting) : Reading (Option Expr) :=
  choose (· == .semicolon) (return none) (do let e ← N.expression .default; return some e)

/-- A return statement. -/
def returnValue (N : Nesting) : Reading Statement := do
  let _ ← token .returnWord
  let e ← returned N
  let _ ← token .semicolon
  return .returnValue e

/-- A call as a statement. -/
def callStatement (N : Nesting) : Reading Statement := do
  let c ← call N
  let _ ← token .semicolon
  return .call c.1 c.2

/-- An assignment. -/
def assign (N : Nesting) : Reading Statement := do
  let r ← reference N
  let _ ← token .assignment
  let e ← N.expression .default
  let _ ← token .semicolon
  return .assign r.1 r.2 e

/-- A statement. -/
def statement (N : Nesting) : Reading Statement := fun ts =>
  match headKind ts with
  | .beginWord => (do let b ← block N; return .block b : Reading Statement) ts
  | .printWord => print N ts
  | .readWord => read N ts
  | .ifWord => condition N ts
  | .whileWord => whileLoop N ts
  | .forWord => forLoop N ts
  | .returnWord => returnValue N ts
  | .identifier => callOr (callStatement N) (assign N) ts
  | _ => fun _ _ => False

/-- The body of a function, or the semicolon that stands for a missing one. -/
def functionBody (N : Nesting) : Reading (Option Block) :=
  choose (· == .semicolon) (do let _ ← token .semicolon; return none)
    (do let b ← block N; let _ ← token .endWord; return some b)

/-- A function. -/
def function (N : Nesting) : Reading Function := do
  let name ← token .identifier
  let _ ← token .openParen
  let ps ← parameters
  let _ ← token .closeParen
  let result ← returnType
  let b ← functionBody N
  return ⟨name.value, ps, result, b⟩

/-- A program. -/
def program (N : Nesting) : Reading Program := do
  let name ← token .identifier
  let _ ← token .semicolon
  let ds ← declarations
  let fs ← Many (· == .identifier) (function N)
  let b ← block N
  let _ ← token .endWord
  return ⟨name.value, ds, fs, b⟩

end Reading

/-- The readings of expressions and statements when `n` more nesting levels are allowed. -/
def Nesting.upTo : Nat → Nesting
  | 0 => ⟨fun _ _ _ _ => False, fun _ _ _ => False⟩
  | n + 1 => ⟨Reading.expression (upTo n), Reading.statement (upTo n)⟩

/-- Whether tokens spell a program and its end, when `limit` nesting levels are allowed. -/
def Spells (limit : Nat) (ts : List Token) (P : Program) : Prop :=
  ∃ rest, Reading.program (.upTo limit) ts P rest ∧ Reading.headKind rest = .endOfFile

end PLang
