import PLang.Proofs.Reading

/-!
# The grammar of the language

Which sequences of token kinds are programs, as rules with sequences, choices, optional parts and
repetitions. Expressions are flat here: the rules say nothing about how strongly operators bind.
`Derives` is what the rules allow; `Phrase.Covers` is the same for tokens whose numbers can be read.
-/

namespace PLang.Grammar

/-- The names of the rules. -/
inductive Name where
  | program
  | declaration
  | names
  | type
  | function
  | parameter
  | block
  | statement
  | reference
  | call
  | expression

/-- What a rule allows. -/
inductive Phrase where
  | oneOf (kinds : List TokenKind)
  | name (name : Name)
  | sequence (parts : List Phrase)
  | choice (alternatives : List Phrase)
  | optional (part : Phrase)
  | many (part : Phrase)

namespace Phrase

/-- One token of a kind. -/
def token (kind : TokenKind) : Phrase := oneOf [kind]

/-- One part, and then one after each separator. -/
def separated (separator : TokenKind) (part : Phrase) : Phrase :=
  sequence [part, many (sequence [token separator, part])]

end Phrase

open Phrase

/-- The kinds that name a scalar type. -/
def scalarKinds : List TokenKind := [.integerWord, .realWord, .booleanWord, .stringWord]

/-- The kinds of the literals. -/
def literalKinds : List TokenKind := [.integer, .real, .string, .trueWord, .falseWord]

/-- The kinds of the numbers. -/
def numberKinds : List TokenKind := [.integer, .real]

/-- The kinds of the operators between two operands. -/
def binaryKinds : List TokenKind :=
  [.orWord, .andWord, .less, .lessEquals, .equals, .greaterEquals, .greater, .notEquals, .plus,
   .dash, .star, .slash, .modWord]

/-- One dimension of an array type. -/
def dimension : Phrase := sequence [token .arrayWord, token .integer, token .ofWord]

/-- One subscript with its brackets. -/
def subscript : Phrase := sequence [token .openBracket, name .expression, token .closeBracket]

/-- The operands that are complete in themselves. -/
def atom : Phrase :=
  choice [sequence [token .openParen, name .expression, token .closeParen], oneOf literalKinds,
    name .reference, name .call]

/-- An assignment. -/
def assign : Phrase :=
  sequence [name .reference, token .assignment, name .expression, token .semicolon]

/-- A print statement. -/
def print : Phrase := sequence [token .printWord, name .expression, token .semicolon]

/-- A read statement. -/
def read : Phrase := sequence [token .readWord, name .reference, token .semicolon]

/-- A conditional statement. -/
def condition : Phrase :=
  sequence [token .ifWord, name .expression, token .thenWord, name .block,
    optional (sequence [token .elseWord, name .block]), token .endWord, token .ifWord]

/-- A loop with a guard. -/
def whileLoop : Phrase :=
  sequence [token .whileWord, name .expression, token .doWord, name .block, token .endWord,
    token .doWord]

/-- A counting loop. -/
def forLoop : Phrase :=
  sequence [token .forWord, token .identifier, token .assignment, token .integer, token .toWord,
    token .integer, token .doWord, name .block, token .endWord, token .doWord]

/-- A return statement. -/
def returnValue : Phrase :=
  sequence [token .returnWord, optional (name .expression), token .semicolon]

/-- A call as a statement. -/
def callStatement : Phrase := sequence [name .call, token .semicolon]

/-- The rules. -/
def rule : Name → Phrase
  | .program => sequence [token .identifier, token .semicolon, many (name .declaration),
      many (name .function), name .block, token .endWord]
  | .declaration => sequence [token .varWord, name .names, token .colon,
      -- only numbers can have a sign
      choice [name .type, oneOf literalKinds, sequence [token .dash, oneOf numberKinds]],
      token .semicolon]
  | .names => separated .comma (token .identifier)
  | .type => sequence [many dimension, oneOf scalarKinds]
  | .function => sequence [token .identifier, token .openParen,
      optional (separated .semicolon (name .parameter)), token .closeParen,
      optional (sequence [token .colon, oneOf scalarKinds]),
      choice [token .semicolon, sequence [name .block, token .endWord]]]
  | .parameter => sequence [name .names, token .colon, name .type]
  | .block => sequence [token .beginWord, many (name .declaration), many (name .statement),
      token .endWord]
  | .statement => choice [name .block, assign, print, read, condition, whileLoop, forLoop,
      returnValue, callStatement]
  | .reference => sequence [token .identifier, many subscript]
  | .call => sequence [token .identifier, token .openParen,
      optional (separated .comma (name .expression)), token .closeParen]
  | .expression => choice [
      sequence [name .expression, oneOf binaryKinds, name .expression],
      sequence [token .dash, name .expression],
      sequence [token .notWord, name .expression],
      atom]

/-- The sequences of token kinds that can be derived. -/
inductive Derives : Phrase → List TokenKind → Prop
  | oneOf {kind : TokenKind} {kinds : List TokenKind} : kind ∈ kinds → Derives (oneOf kinds) [kind]
  | name {x : Name} {w : List TokenKind} : Derives (rule x) w → Derives (name x) w
  | nil : Derives (sequence []) []
  | cons {r : Phrase} {rs : List Phrase} {v w : List TokenKind} : Derives r v →
      Derives (sequence rs) w → Derives (sequence (r :: rs)) (v ++ w)
  | choice {r : Phrase} {rs : List Phrase} {w : List TokenKind} : r ∈ rs → Derives r w →
      Derives (choice rs) w
  | none {r : Phrase} : Derives (optional r) []
  | some {r : Phrase} {w : List TokenKind} : Derives r w → Derives (optional r) w
  | stop {r : Phrase} : Derives (many r) []
  | next {r : Phrase} {v w : List TokenKind} : Derives r v → Derives (many r) w →
      Derives (many r) (v ++ w)

/-! ### Tokens that a phrase covers -/

/-- Whether the number of a token can be read, if it is a number. -/
def Readable (t : Token) : Prop :=
  (t.kind = .integer → (wordOfText? t.value).isSome) ∧
    (t.kind = .real → (Binary64.ofText? t.value).isSome)

/-- Whether tokens can be derived from a phrase and their numbers can be read. -/
def Phrase.Covers (r : Phrase) (ts : List Token) : Prop :=
  Derives r (ts.map Token.kind) ∧ ∀ t ∈ ts, Readable t

section Covers

variable {r : Phrase} {rs : List Phrase} {kinds : List TokenKind} {ts us vs : List Token}

theorem covers_oneOf : (oneOf kinds).Covers ts ↔ ∃ t, ts = [t] ∧ t.kind ∈ kinds ∧ Readable t := by
  constructor
  · rintro ⟨hderives, hread⟩
    cases h : ts.map Token.kind with
    | nil => rw [h] at hderives; cases hderives
    | cons k ks =>
      rw [h] at hderives
      cases hderives with
      | oneOf hk =>
        obtain ⟨t, rfl, rfl⟩ := List.map_eq_singleton_iff.1 h
        exact ⟨t, rfl, hk, hread t (.head _)⟩
  · rintro ⟨t, rfl, hk, hread⟩
    exact ⟨.oneOf hk, by simpa using hread⟩

theorem covers_token {kind : TokenKind} :
    (token kind).Covers ts ↔ ∃ t, ts = [t] ∧ t.kind = kind ∧ Readable t := by
  simp [token, covers_oneOf]

theorem covers_name {x : Name} : (name x).Covers ts ↔ (rule x).Covers ts := by
  refine and_congr_left' ⟨?_, .name⟩
  intro h
  cases h with
  | name h => exact h

theorem covers_nil : (sequence []).Covers ts ↔ ts = [] := by
  constructor
  · rintro ⟨hderives, -⟩
    cases h : ts.map Token.kind with
    | nil => exact List.map_eq_nil_iff.1 h
    | cons k ks => rw [h] at hderives; cases hderives
  · rintro rfl
    exact ⟨.nil, nofun⟩

/-- Covering goes part by part. -/
theorem Phrase.Covers.append (hu : r.Covers us) (hv : (sequence rs).Covers vs) :
    (sequence (r :: rs)).Covers (us ++ vs) := by
  refine ⟨?_, List.forall_mem_append.2 ⟨hu.2, hv.2⟩⟩
  rw [List.map_append]
  exact .cons hu.1 hv.1

theorem covers_cons : (sequence (r :: rs)).Covers ts ↔
    ∃ us vs, ts = us ++ vs ∧ r.Covers us ∧ (sequence rs).Covers vs := by
  constructor
  · rintro ⟨hderives, hread⟩
    generalize hw : ts.map Token.kind = w at hderives
    cases hderives with
    | cons hv hw' =>
      obtain ⟨us, vs, rfl, rfl, rfl⟩ := List.map_eq_append_iff.1 hw
      obtain ⟨hu, hv'⟩ := List.forall_mem_append.1 hread
      exact ⟨us, vs, rfl, ⟨hv, hu⟩, hw', hv'⟩
  · rintro ⟨us, vs, rfl, hu, hv⟩
    exact hu.append hv

theorem covers_last : (sequence [r]).Covers ts ↔ r.Covers ts := by
  constructor
  · intro h
    obtain ⟨us, vs, rfl, hu, hv⟩ := covers_cons.1 h
    rwa [covers_nil.1 hv, List.append_nil]
  · intro h
    rw [← List.append_nil ts]
    exact h.append (covers_nil.2 rfl)

theorem covers_choice : (choice rs).Covers ts ↔ ∃ r ∈ rs, r.Covers ts := by
  constructor
  · rintro ⟨hderives, hread⟩
    cases hderives with
    | choice hr h => exact ⟨_, hr, h, hread⟩
  · rintro ⟨r, hr, h, hread⟩
    exact ⟨.choice hr h, hread⟩

theorem covers_optional : (optional r).Covers ts ↔ ts = [] ∨ r.Covers ts := by
  constructor
  · rintro ⟨hderives, hread⟩
    generalize hw : ts.map Token.kind = w at hderives
    cases hderives with
    | none => exact .inl (List.map_eq_nil_iff.1 hw)
    | some h => exact .inr ⟨hw ▸ h, hread⟩
  · rintro (rfl | ⟨h, hread⟩)
    · exact ⟨.none, nofun⟩
    · exact ⟨.some h, hread⟩

/-- Induction over the parts of a repetition. -/
theorem Phrase.Covers.many_induction {motive : List Token → Prop} (stop : motive [])
    (next : ∀ us vs, r.Covers us → (many r).Covers vs → motive vs → motive (us ++ vs))
    (h : (many r).Covers ts) : motive ts := by
  obtain ⟨hderives, hread⟩ := h
  generalize hq : many r = q, hw : ts.map Token.kind = w at hderives
  induction hderives generalizing ts with
  | stop =>
    obtain rfl := List.map_eq_nil_iff.1 hw
    exact stop
  | next hv hvs _ ih =>
    obtain rfl := Phrase.many.inj hq
    obtain ⟨us, vs, rfl, rfl, rfl⟩ := List.map_eq_append_iff.1 hw
    obtain ⟨hu, hv'⟩ := List.forall_mem_append.1 hread
    exact next us vs ⟨hv, hu⟩ ⟨hvs, hv'⟩ (ih hv' rfl rfl)
  | _ => cases hq

end Covers

/-! ### Tokens with a value -/

variable {t : Token}

/-- Only numbers can be unreadable. -/
theorem Readable.of_contains (h : numberKinds.contains t.kind = false) :
    Readable t := by
  constructor
  · intro hkind
    simp [hkind, numberKinds] at h
  · intro hkind
    simp [hkind, numberKinds] at h

/-- Scalar types are what the scalar kinds name. -/
theorem scalarOf?_isSome (t : Token) :
    (Parse.scalarOf? t.kind).isSome ↔ t.kind ∈ scalarKinds ∧ Readable t := by
  obtain ⟨kind, value, span⟩ := t
  cases kind <;> simp [Parse.scalarOf?, scalarKinds, Readable]

theorem ofKind?_isSome (kind : TokenKind) :
    (Syntax.BinaryOperator.ofKind? kind).isSome ↔ kind ∈ binaryKinds := by
  cases kind <;> decide

/-- Literals are what the literal kinds spell, and after a sign what the number kinds spell. -/
theorem literalOf?_isSome (t : Token) (negative : Bool) :
    (Reading.literalOf? t negative).isSome ↔
      t.kind ∈ (if negative then numberKinds else literalKinds) ∧ Readable t := by
  obtain ⟨kind, value, span⟩ := t
  cases kind <;> cases negative <;>
    simp [Reading.literalOf?, numberKinds, literalKinds, Readable]

/-- Operators have no numbers. -/
theorem covers_operator (h : t.kind ∈ binaryKinds) : (oneOf binaryKinds).Covers [t] := by
  have hapart : ∀ k ∈ binaryKinds, numberKinds.contains k = false := by decide
  exact covers_oneOf.2 ⟨t, rfl, h, .of_contains (hapart t.kind h)⟩

/-- An operator between two expressions makes an expression of them. -/
theorem covers_binary {us vs : List Token} (hu : (name .expression).Covers us)
    (ht : t.kind ∈ binaryKinds) (hv : (name .expression).Covers vs) :
    (name .expression).Covers (us ++ t :: vs) := by
  have hoperator := covers_operator ht
  have hsequence := hu.append (hoperator.append (covers_last.2 hv))
  exact covers_name.2 (covers_choice.2 ⟨_, .head _, hsequence⟩)

end PLang.Grammar
