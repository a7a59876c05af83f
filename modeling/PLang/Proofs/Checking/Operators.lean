import PLang.Checker.Expression
import PLang.Proofs.Typing

/-!
# The types of operators

The type that is found for an operator is the one that the typing rules give it. So the rules give
an expression one type at most.
-/

namespace PLang

open Syntax Typing

variable {a t : ScalarType} {left right : Option ScalarType} {o : BinaryOperator}

theorem Typing.coercesTo_iff {expected : ScalarType} :
    t.coercesTo expected = true ↔ Coerces t expected := by
  simp [ScalarType.coercesTo, Coerces]

theorem Syntax.DataType.scalar?_eq_some {t : DataType} : t.scalar? = some a ↔ t = .ofScalar a := by
  obtain ⟨scalar, dimensions⟩ := t
  cases dimensions with
  | nil => simp [DataType.scalar?, DataType.ofScalar]
  | cons d ds => simp [DataType.scalar?, DataType.ofScalar]

theorem isNumeric?_iff {t : Option ScalarType} :
    isNumeric? t = true ↔ ∃ a, t = some a ∧ Numeric a := by
  cases t with
  | none => simp [isNumeric?]
  | some a => cases a <;> simp [isNumeric?, ScalarType.isNumeric, Numeric]

namespace Operator

/-- Unary operators. -/
theorem result?_unary {o : UnaryOperator} :
    (o.operator.resolve none right).result? none right = some t ↔
      ∃ a, right = some a ∧ UnaryType o a t := by
  cases o with
  | negate =>
    show (if isNumeric? right then right else none) = some t ↔ _
    constructor
    · intro h
      obtain ⟨hnumeric, rfl⟩ := Option.ite_none_right_eq_some.1 h
      obtain ⟨a, ha, hnumeric⟩ := isNumeric?_iff.1 hnumeric
      cases ha
      exact ⟨t, rfl, .negate hnumeric⟩
    · rintro ⟨a, rfl, ⟨hnumeric⟩⟩
      exact if_pos (isNumeric?_iff.2 ⟨t, rfl, hnumeric⟩)
  | not =>
    show (if right = some .boolean then right else none) = some t ↔ _
    constructor
    · intro h
      obtain ⟨hright, rfl⟩ := Option.ite_none_right_eq_some.1 h
      cases hright
      exact ⟨.boolean, rfl, .not⟩
    · rintro ⟨a, rfl, ⟨⟩⟩
      rfl

/-- The type of arithmetic on two operands. -/
def arithmetic? (left right : Option ScalarType) : Option ScalarType :=
  if isNumeric? left ∧ isNumeric? right then
    if left = some .real ∨ right = some .real then some .real else some .integer
  else none

theorem binaryType_of_arithmetic? (ho : o ∈ [.add, .subtract, .multiply, .divide])
    (h : arithmetic? left right = some t) :
    ∃ a b, left = some a ∧ right = some b ∧ BinaryType o a b t := by
  obtain ⟨⟨hleft, hright⟩, h⟩ := Option.ite_none_right_eq_some.1 h
  obtain ⟨a, rfl, ha⟩ := isNumeric?_iff.1 hleft
  obtain ⟨b, rfl, hb⟩ := isNumeric?_iff.1 hright
  refine ⟨a, b, rfl, rfl, ?_⟩
  simp only [Option.some_inj] at h
  by_cases hreal : a = .real ∨ b = .real
  · rw [if_pos hreal] at h
    cases h
    exact .reals ho ha hb hreal
  · rw [if_neg hreal] at h
    cases h
    obtain rfl := ha.resolve_right fun h => hreal (.inl h)
    obtain rfl := hb.resolve_right fun h => hreal (.inr h)
    exact .integers ho

/-- The type that is found for two operands is right. -/
theorem binaryType_of_result? (h : (o.operator.resolve left right).result? left right = some t) :
    ∃ a b, left = some a ∧ right = some b ∧ BinaryType o a b t := by
  cases o with
  | add =>
    by_cases hstrings : left = some .string ∧ right = some .string
    · obtain ⟨rfl, rfl⟩ := hstrings
      obtain rfl : ScalarType.string = t := Option.some.inj h
      exact ⟨_, _, rfl, rfl, .concat⟩
    · refine binaryType_of_arithmetic? (by decide) ?_
      simpa [resolve, result?, isArithmetic, isRelational, isLogical, hstrings,
        BinaryOperator.operator,
        arithmetic?] using h
  | subtract | multiply | divide =>
    refine binaryType_of_arithmetic? (by decide) ?_
    simpa [resolve, result?, isArithmetic, isRelational, isLogical, BinaryOperator.operator,
      arithmetic?] using h
  | modulo =>
    obtain ⟨⟨hleft, hright⟩, h⟩ := Option.ite_none_right_eq_some.1 h
    cases h
    exact ⟨_, _, hleft, hright, .modulo⟩
  | less | lessEqual | equal | greaterEqual | greater | notEqual =>
    have h' : (isNumeric? left ∧ isNumeric? right) ∧ ScalarType.boolean = t := by
      simpa [resolve, result?, isArithmetic, isRelational, isLogical,
        BinaryOperator.operator] using h
    obtain ⟨⟨hleft, hright⟩, rfl⟩ := h'
    obtain ⟨a, rfl, ha⟩ := isNumeric?_iff.1 hleft
    obtain ⟨b, rfl, hb⟩ := isNumeric?_iff.1 hright
    exact ⟨a, b, rfl, rfl, .comparison (by decide) ha hb⟩
  | and | or =>
    have h' : (left = some .boolean ∧ right = some .boolean) ∧ ScalarType.boolean = t := by
      simpa [resolve, result?, isArithmetic, isRelational, isLogical,
        BinaryOperator.operator] using h
    obtain ⟨⟨rfl, rfl⟩, rfl⟩ := h'
    exact ⟨_, _, rfl, rfl, .logic (by decide)⟩

/-- Every type of two operands is found. -/
theorem result?_of_binaryType {b : ScalarType} (h : BinaryType o a b t) :
    (o.operator.resolve (some a) (some b)).result? (some a) (some b) = some t := by
  cases h with
  | concat | modulo => rfl
  | integers ho =>
    simp only [List.mem_cons, List.not_mem_nil, or_false] at ho
    rcases ho with rfl | rfl | rfl | rfl <;> rfl
  | reals ho ha hb hreal =>
    simp only [List.mem_cons, List.not_mem_nil, or_false] at ho
    rcases ha with rfl | rfl <;> rcases hb with rfl | rfl
    · exact absurd hreal (by decide)
    all_goals rcases ho with rfl | rfl | rfl | rfl <;> rfl
  | comparison ho ha hb =>
    simp only [List.mem_cons, List.not_mem_nil, or_false] at ho
    rcases ha with rfl | rfl <;> rcases hb with rfl | rfl <;>
      rcases ho with rfl | rfl | rfl | rfl | rfl | rfl <;> rfl
  | logic ho =>
    simp only [List.mem_cons, List.not_mem_nil, or_false] at ho
    rcases ho with rfl | rfl <;> rfl

theorem result?_binary :
    (o.operator.resolve left right).result? left right = some t ↔
      ∃ a b, left = some a ∧ right = some b ∧ BinaryType o a b t := by
  refine ⟨binaryType_of_result?, ?_⟩
  rintro ⟨a, b, rfl, rfl, h⟩
  exact result?_of_binaryType h

/-- Only an addition can turn out to mean another operator. -/
theorem resolve_cases (o : Operator) (left right : Option ScalarType) :
    o.resolve left right = o ∨ o = .add ∧ o.resolve left right = .concat := by
  unfold resolve
  split
  next h => exact .inr ⟨h.1, rfl⟩
  next => exact .inl rfl

end Operator

/-! ### Types are unique -/

namespace Typing

theorem UnaryType.unique {o : UnaryOperator} {t' : ScalarType} (h : UnaryType o a t)
    (h' : UnaryType o a t') : t = t' := by
  cases h <;> cases h' <;> rfl

theorem BinaryType.unique {b t' : ScalarType} (h : BinaryType o a b t) (h' : BinaryType o a b t') :
    t = t' :=
  Option.some.inj
    ((Operator.result?_of_binaryType h).symm.trans (Operator.result?_of_binaryType h'))

/-- An expression has one type only. -/
theorem HasType.unique {Γ : Env} {e : Expr} {t t' : DataType} (h : HasType Γ e t)
    (h' : HasType Γ e t') : t = t' := by
  induction e generalizing t t' with
  | literal v =>
    cases h
    cases h'
    rfl
  | reference x es _ =>
    cases h with
    | reference hx _ _ =>
      cases h' with
      | reference hx' _ _ =>
        cases hx.symm.trans hx'
        rfl
  | call f es _ =>
    cases h with
    | call hf _ _ =>
      cases h' with
      | call hf' _ _ =>
        cases hf.symm.trans hf'
        rfl
  | unary o e ih =>
    cases h with
    | unary he ho =>
      cases h' with
      | unary he' ho' =>
        cases ih he he'
        rw [ho.unique ho']
  | binary o e1 e2 ih1 ih2 =>
    cases h with
    | binary he1 he2 ho =>
      cases h' with
      | binary he1' he2' ho' =>
        cases ih1 he1 he1'
        cases ih2 he2 he2'
        rw [ho.unique ho']

/-- Only variables are arrays. -/
theorem HasType.reference_of_array {Γ : Env} {e : Expr} {t : DataType} (h : HasType Γ e t)
    (ht : t.dimensions ≠ []) : ∃ x es, e = .reference x es := by
  cases h with
  | reference => exact ⟨_, _, rfl⟩
  | literal | call | unary | binary => exact absurd rfl ht

end Typing

end PLang
