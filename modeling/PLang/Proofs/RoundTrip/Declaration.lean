import PLang.Proofs.Grammar.Lookahead
import PLang.Proofs.RoundTrip.Writing

/-!
# Reading written declarations

A reading recovers a piece of syntax from the tokens that it is written with, if the token behind
them is one that can follow. Every way to combine readings hands this on, and so declarations are
recovered.
-/

namespace PLang

open Syntax Grammar

variable {l : Lexeme} {p : TokenKind → Bool} {v : LiteralValue}

namespace Reading

/-- The kind of the first token that is written, or of the one that follows. -/
def firstKind (ls : List Lexeme) (next : TokenKind) : TokenKind :=
  (ls.head?.map Lexeme.kind).getD next

@[simp]
theorem firstKind_nil (next : TokenKind) : firstKind [] next = next := rfl

@[simp]
theorem firstKind_cons (l : Lexeme) (ls : List Lexeme) (next : TokenKind) :
    firstKind (l :: ls) next = l.kind := rfl

@[simp]
theorem firstKind_append (ls ms : List Lexeme) (next : TokenKind) :
    firstKind (ls ++ ms) next = firstKind ls (firstKind ms next) := by
  cases ls <;> rfl

theorem firstKind_flatMap {α : Type} {w : α → List Lexeme} {as : List α} {next : TokenKind}
    (has : ∀ a ∈ as, ∀ k, p (firstKind (w a) k) = true) (hnext : p next = true) :
    p (firstKind (as.flatMap w) next) = true := by
  cases as with
  | nil => exact hnext
  | cons a as =>
    rw [List.flatMap_cons, firstKind_append]
    exact has a (.head _) _

theorem headKind_append {ls : List Lexeme} {ts : List Token} (h : Written ls ts)
    (rest : List Token) :
    headKind (ts ++ rest) = firstKind ls (headKind rest) := by
  cases h with
  | nil => rfl
  | cons h _ => exact h.1

/-- Whether a reading recovers something from what it is written with, if it is followed by a token
of certain kinds. -/
def Recovers {α : Type} (R : Reading α) (ls : List Lexeme) (a : α) (follow : TokenKind → Bool) :
    Prop :=
  ∀ ts rest, Written ls ts → follow (headKind rest) = true → R (ts ++ rest) a rest

variable {separator : TokenKind}

namespace Recovers

variable {α β : Type} {R T : Reading α} {S : α → Reading β} {ls ms : List Lexeme} {a : α} {b : β}
  {follow lead : TokenKind → Bool}

theorem follows (hR : R.Recovers ls a lead) (h : ∀ k, follow k = true → lead k = true) :
    R.Recovers ls a follow :=
  fun ts rest hts hrest => hR ts rest hts (h _ hrest)

theorem pure : (Pure.pure a : Reading α).Recovers [] a follow := by
  intro ts rest hts _
  cases hts
  exact ⟨rfl, rfl⟩

theorem bind (hR : R.Recovers ls a lead)
    (hlead : ∀ k, follow k = true → lead (firstKind ms k) = true)
    (hS : (S a).Recovers ms b follow) : (R >>= S).Recovers (ls ++ ms) b follow := by
  intro ts rest hts hrest
  obtain ⟨us, vs, rfl, hu, hv⟩ := hts.split
  have hhead : lead (headKind (vs ++ rest)) = true := by
    rw [headKind_append hv]
    exact hlead _ hrest
  refine ⟨a, vs ++ rest, ?_, hS vs rest hv hrest⟩
  rw [List.append_assoc]
  exact hR us (vs ++ rest) hu hhead

theorem map {f : α → β} (hR : R.Recovers ls a follow) :
    (do let a ← R; return f a : Reading β).Recovers ls (f a) follow :=
  fun ts rest hts hrest => ⟨a, rest, hR ts rest hts hrest, rfl, rfl⟩

theorem one {f : Token → Option α} (h : ∀ t, l.Says t → f t = some a) :
    (one f).Recovers [l] a follow := by
  intro ts rest hts _
  cases hts with
  | @cons _ t _ _ ht hts =>
    cases hts
    exact ⟨t, rfl, h t ht⟩

theorem mark {kind : TokenKind} {S : Token → Reading β} (hS : ∀ t, (S t).Recovers ms b follow) :
    (token kind >>= S).Recovers (.mark kind :: ms) b follow := by
  intro ts rest hts hrest
  cases hts with
  | @cons _ t _ us ht hts => exact ⟨t, us ++ rest, ⟨rfl, ht.1⟩, hS t us rest hts hrest⟩

theorem name {text : String} {S : Token → Reading β}
    (hS : ∀ t, t.value = text → (S t).Recovers ms b follow) :
    (token .identifier >>= S).Recovers (.name text :: ms) b follow := by
  intro ts rest hts hrest
  cases hts with
  | @cons _ t _ us ht hts => exact ⟨t, us ++ rest, ⟨rfl, ht.1⟩, hS t ht.2 us rest hts hrest⟩

/-- An integer token whose word is asked for. -/
theorem integer {n : Int} {S : Token → Int → Reading β} (hn : WritableInteger n)
    (hS : ∀ t, (S t n).Recovers ms b follow) :
    (do let t ← token .integer; let n ← value (wordOfText? t.value); S t n).Recovers
      (.integer n.toNat :: ms) b follow := by
  intro ts rest hts hrest
  cases hts with
  | @cons _ t _ us ht hts =>
    have hword : wordOfText? t.value = some n := by
      rw [ht.2, wordOfText?_toString (by have := hn.2; omega), Int.toNat_of_nonneg hn.1]
    exact ⟨t, us ++ rest, ⟨rfl, ht.1⟩, n, us ++ rest, ⟨hword, rfl⟩, hS t us rest hts hrest⟩

theorem many {more : TokenKind → Bool} {w : α → List Lexeme} {as : List α}
    (has : ∀ a ∈ as, R.Recovers (w a) a lead)
    (hfirst : ∀ a ∈ as, ∀ k, more (firstKind (w a) k) = true ∧ lead (firstKind (w a) k) = true)
    (hfollow : ∀ k, follow k = true → more k = false ∧ lead k = true) :
    (Many more R).Recovers (as.flatMap w) as follow := by
  induction as with
  | nil =>
    intro ts rest hts hrest
    cases hts
    exact .stop (hfollow _ hrest).1
  | cons a as ih =>
    intro ts rest hts hrest
    obtain ⟨us, vs, rfl, hu, hv⟩ := Written.split hts
    have hmany := ih (fun a ha => has a (.tail _ ha))
      (fun a ha => hfirst a (.tail _ ha)) vs rest hv hrest
    have hlead : lead (headKind (vs ++ rest)) = true := by
      rw [headKind_append hv]
      exact firstKind_flatMap (fun a ha k => (hfirst a (.tail _ ha) k).2)
        (hfollow _ hrest).2
    have hmore : more (headKind (us ++ vs ++ rest)) = true := by
      rw [List.append_assoc, headKind_append hu]
      exact (hfirst a (.head _) _).1
    have hread := has a (.head _) us (vs ++ rest) hu hlead
    rw [← List.append_assoc] at hread
    exact .next hmore hread hmany

theorem separated {w : α → List Lexeme} {as : List α}
    (ha : R.Recovers (w a) a lead) (has : ∀ a ∈ as, R.Recovers (w a) a lead)
    (hlead : lead separator = true)
    (hfollow : ∀ k, follow k = true → (k == separator) = false ∧ lead k = true) :
    (separated separator R).Recovers (separate separator ((a :: as).map w)) (a, as) follow := by
  have hnext : ∀ a ∈ as, (do let _ ← token separator; R : Reading α).Recovers
      (.mark separator :: w a) a lead := fun a ha => .mark fun _ => has a ha
  have hothers : (Many (· == separator) (do let _ ← token separator; R)).Recovers
      (as.flatMap fun a => .mark separator :: w a) as follow :=
    .many hnext (fun _ _ _ => ⟨beq_self_eq_true separator, hlead⟩) hfollow
  rw [List.map_cons, separate, List.flatMap_map]
  refine .bind ha ?_ (.map hothers)
  intro k hk
  exact firstKind_flatMap (fun _ _ _ => hlead) (hfollow k hk).2

/-- One alternative, where its first token is the right one. -/
theorem choose_left (hR : R.Recovers ls a follow)
    (hp : ∀ k, follow k = true → p (firstKind ls k) = true) :
    (choose p R T).Recovers ls a follow := by
  intro ts rest hts hrest
  have hhead : p (headKind (ts ++ rest)) = true := by
    rw [headKind_append hts]
    exact hp _ hrest
  rw [choose, if_pos hhead]
  exact hR ts rest hts hrest

theorem choose_right (hT : T.Recovers ls a follow)
    (hp : ∀ k, follow k = true → p (firstKind ls k) = false) :
    (choose p R T).Recovers ls a follow := by
  intro ts rest hts hrest
  have hhead : p (headKind (ts ++ rest)) = false := by
    rw [headKind_append hts]
    exact hp _ hrest
  rw [choose, if_neg (by simp [hhead])]
  exact hT ts rest hts hrest

/-- A reading that goes on as another one, by the first token, recovers what the other one
recovers. -/
theorem dispatch (hR : R.Recovers (l :: ls) a follow)
    (h : ∀ ts, headKind ts = l.kind → T ts = R ts) :
    T.Recovers (l :: ls) a follow := by
  intro ts rest hts hrest
  rw [h (ts ++ rest) (headKind_append hts rest)]
  exact hR ts rest hts hrest

theorem callOr_left (hR : R.Recovers (l :: .mark .openParen :: ls) a follow) :
    (callOr R T).Recovers (l :: .mark .openParen :: ls) a follow := by
  intro ts rest hts hrest
  have hread := hR ts rest hts hrest
  have hsecond : secondKind? (ts ++ rest) = some .openParen := by
    cases hts with
    | cons _ hts =>
      cases hts with
      | cons h _ => exact congrArg some h.1
  rw [callOr, if_pos hsecond]
  exact hread

theorem callOr_right (hT : T.Recovers (l :: ls) a follow)
    (h : ∀ k, follow k = true → firstKind ls k ≠ .openParen) :
    (callOr R T).Recovers (l :: ls) a follow := by
  intro ts rest hts hrest
  have hread := hT ts rest hts hrest
  obtain ⟨t, us, -, hus, rfl⟩ := List.forall₂_cons_left_iff.1 hts
  have hsecond : secondKind? (t :: us ++ rest) ≠ some .openParen := by
    intro hk
    refine h _ hrest ?_
    rw [← headKind_append hus]
    exact congrArg (Option.getD · .endOfFile) hk
  rw [callOr, if_neg hsecond]
  exact hread

end Recovers

/-! ### Types and declarations -/

theorem scalar_recovers {s : ScalarType} (hs : s ≠ .void) :
    scalar.Recovers (scalarLexemes s) s anything := by
  cases s with
  | void => exact absurd rfl hs
  | integer | real | boolean | string => exact .one fun t ht => congrArg Parse.scalarOf? ht.1

theorem type_recovers {t : DataType} (ht : WritableType t) :
    type.Recovers t.lexemes t anything := by
  have hdimension : ∀ n ∈ t.dimensions, dimension.Recovers (dimensionLexemes n) n anything :=
    fun n hn => .mark fun _ => .integer (ht.dimensions n hn) fun _ => .mark fun _ => .pure
  have hdimensions : (Many (· == .arrayWord) dimension).Recovers
      (t.dimensions.flatMap dimensionLexemes) t.dimensions (· != .arrayWord) :=
    .many hdimension (fun _ _ _ => ⟨rfl, rfl⟩) fun k hk => ⟨by simpa using hk, rfl⟩
  have hscalar := scalar_recovers ht.scalar
  refine .bind hdimensions ?_ (.map hscalar)
  intro k _
  have hvoid := ht.scalar
  cases hs : t.scalar with
  | void => exact absurd hs hvoid
  | integer | real | boolean | string => rfl

theorem names_recovers (ns : Names) : names.Recovers ns.lexemes ns (· != .comma) := by
  have hname : ∀ text : String, (do let t ← token .identifier; return t.value :
      Reading String).Recovers [.name text] text anything := by
    intro text
    refine .name fun t ht => ?_
    rw [ht]
    exact .pure
  have hnames : (Reading.separated .comma (do let t ← token .identifier; return t.value :
      Reading String)).Recovers ns.lexemes (ns.first, ns.others) (· != .comma) :=
    .separated (hname _) (fun text _ => hname text) rfl fun k hk => ⟨by simpa using hk, rfl⟩
  exact .map hnames

theorem literalOf?_integer {n : Nat} {t : Token} (h : (Lexeme.integer n).Says t)
    (hn : n ≤ 0x7fffffff) (negative : Bool) :
    literalOf? t negative = some (.integer (if negative then negateWord n else n)) := by
  have hkind : t.kind = .integer := h.1
  have hword : wordOfText? t.value = some (n : Int) := h.2 ▸ wordOfText?_toString hn
  simp [literalOf?, hkind, hword]

theorem literalOf?_real {x : Binary64} {t : Token} (h : (Lexeme.real x).Says t) (negative : Bool) :
    literalOf? t negative = some (.real (if negative then x.negate else x)) := by
  have hkind : t.kind = .real := h.1
  have htext : Binary64.ofText? t.value = some x := h.2
  simp [literalOf?, hkind, htext]

theorem literal_recovers (hv : WritableLiteral v) :
    (literal false).Recovers [literalLexeme v] v anything := by
  refine .one fun t ht => ?_
  cases v with
  | integer n =>
    have h := literalOf?_integer ht (by have := hv.2; omega) false
    rwa [Int.toNat_of_nonneg hv.1] at h
  | real x => exact literalOf?_real ht false
  | string text =>
    have hkind : t.kind = .string := ht.1
    have htext : t.value = text := ht.2
    simp [literalOf?, hkind, htext]
  | boolean b =>
    have hkind : t.kind = if b then .trueWord else .falseWord := ht.1
    cases b <;> simp [literalOf?, hkind]

/-- Without a sign in front, there is no minus. -/
theorem minus_recovers_false : minus.Recovers [] false (· != .dash) :=
  .choose_right .pure fun k hk => by simpa using hk

theorem minus_recovers_true : minus.Recovers [.mark .dash] true anything :=
  .choose_left (.mark fun _ => .pure) fun _ _ => rfl

theorem negate_negate (x : Binary64) : x.negate.negate = x := by
  cases x <;> simp [Binary64.negate]

theorem negateWord_neg {n : Int} (h : WritableInteger (-n)) : negateWord (-n) = n := by
  obtain ⟨h1, h2⟩ := h
  rw [negateWord, Int.neg_neg]
  exact Int.bmod_eq_of_le (by omega) (by omega)

/-- A constant without a sign. -/
theorem constant_recovers (hv : WritableLiteral v) (ns : Names) : (do
      let negative ← minus
      let v ← literal negative
      return .constants ns v : Reading Declaration).Recovers [literalLexeme v] (.constants ns v)
        anything := by
  rw [← List.nil_append [literalLexeme v]]
  refine .bind minus_recovers_false ?_ (.map (literal_recovers hv))
  intro k _
  cases v with
  | boolean b => cases b <;> rfl
  | _ => rfl

/-- A constant with a sign. -/
theorem negated_recovers (ns : Names) (h : ∀ t, l.Says t → literalOf? t true = some v) : (do
      let negative ← minus
      let v ← literal negative
      return .constants ns v : Reading Declaration).Recovers [.mark .dash, l] (.constants ns v)
        anything :=
  .bind minus_recovers_true (fun _ _ => rfl) (.map (.one h))

theorem signed_recovers (hv : WritableConstant v) (ns : Names) : (do
      let negative ← minus
      let v ← literal negative
      return .constants ns v : Reading Declaration).Recovers (constantLexemes v) (.constants ns v)
        anything := by
  cases v with
  | integer n =>
    rw [constantLexemes]
    split
    · rename_i hn
      have hneg : WritableInteger (-n) := hv.resolve_left fun h => by have := h.1; omega
      refine negated_recovers ns fun t ht => ?_
      have h := literalOf?_integer ht (by have := hneg.2; omega) true
      rwa [Int.toNat_of_nonneg hneg.1, if_pos rfl, negateWord_neg hneg] at h
    · rename_i hn
      have hpos : WritableLiteral (.integer n) := by
        rcases hv with hv | hv
        · exact hv
        · exact ⟨by omega, by have := hv.1; omega⟩
      exact constant_recovers hpos ns
  | real x =>
    rw [constantLexemes]
    split
    · refine negated_recovers ns fun t ht => ?_
      have h := literalOf?_real ht true
      rwa [if_pos rfl, negate_negate] at h
    · rename_i hx
      have hreal : WritableLiteral (.real x) := by
        rw [WritableConstant, if_neg hx] at hv
        exact hv
      exact constant_recovers hreal ns
  | string text =>
    have htext : WritableLiteral (.string text) := trivial
    exact constant_recovers htext ns
  | boolean b =>
    have hb : WritableLiteral (.boolean b) := trivial
    exact constant_recovers hb ns

theorem isSome_standardType {t : DataType} (ht : WritableType t) (k : TokenKind) :
    (RuleTables.standardType (firstKind t.lexemes k)).isSome = true := by
  obtain ⟨s, ds⟩ := t
  have hvoid : s ≠ .void := ht.scalar
  cases ds with
  | cons d ds => rfl
  | nil =>
    cases s with
    | void => exact absurd rfl hvoid
    | integer | real | boolean | string => rfl

theorem isSome_standardType_constant (v : LiteralValue) (k : TokenKind) :
    (RuleTables.standardType (firstKind (constantLexemes v) k)).isSome = false := by
  cases v with
  | integer n => rw [constantLexemes]; split <;> rfl
  | real x => rw [constantLexemes]; split <;> rfl
  | string text => rfl
  | boolean b => cases b <;> rfl

theorem declaration_recovers {d : Declaration} (hd : WritableDeclaration d) :
    declaration.Recovers d.lexemes d anything := by
  cases d with
  | vars ns t =>
    have hdeclared : (declared ns).Recovers t.lexemes (.vars ns t) anything :=
      .choose_left (.map (type_recovers hd)) fun k _ => isSome_standardType hd k
    exact .mark fun _ => .bind (names_recovers ns) (fun _ _ => rfl)
      (.mark fun _ => .bind hdeclared (fun _ _ => rfl) (.mark fun _ => .pure))
  | constants ns v =>
    have hdeclared : (declared ns).Recovers (constantLexemes v) (.constants ns v) anything :=
      .choose_right (signed_recovers hd ns) fun k _ => isSome_standardType_constant v k
    exact .mark fun _ => .bind (names_recovers ns) (fun _ _ => rfl)
      (.mark fun _ => .bind hdeclared (fun _ _ => rfl) (.mark fun _ => .pure))

theorem firstKind_declaration (d : Declaration) (k : TokenKind) :
    firstKind d.lexemes k = .varWord := by
  cases d <;> rfl

theorem declarations_recovers {ds : List Declaration} (hds : ∀ d ∈ ds, WritableDeclaration d) :
    declarations.Recovers (ds.flatMap Declaration.lexemes) ds (· != .varWord) := by
  refine .many (fun d hd => declaration_recovers (hds d hd)) (fun d _ k => ?_) fun k hk => ?_
  · rw [firstKind_declaration]
    exact ⟨rfl, rfl⟩
  · exact ⟨by simpa using hk, rfl⟩

/-- A list with separators between its members, which ends before a parenthesis and may be empty. -/
theorem Recovers.members {α : Type} {R : Reading α} {w : α → List Lexeme}
    {as : List α} {lead : TokenKind → Bool} (has : ∀ a ∈ as, R.Recovers (w a) a lead)
    (hfirst : ∀ a ∈ as, ∀ k, (firstKind (w a) k == .closeParen) = false)
    (hlead : lead separator = true) (hclose : lead .closeParen = true)
    (hseparator : separator ≠ .closeParen) :
    (choose (· == .closeParen) (return [])
      (do let ps ← Reading.separated separator R; return ps.1 :: ps.2)).Recovers
      (separate separator (as.map w)) as (· == .closeParen) := by
  cases as with
  | nil => exact .choose_left .pure fun k hk => hk
  | cons a as =>
    have hmembers : (Reading.separated separator R).Recovers (separate separator ((a :: as).map w))
        (a, as) (· == .closeParen) := by
      refine .separated (has a (.head _)) (fun b hb => has b (.tail _ hb))
        hlead fun k hk => ?_
      obtain rfl : k = .closeParen := by simpa using hk
      exact ⟨by simpa using hseparator.symm, hclose⟩
    refine .choose_right (.map hmembers) fun k hk => ?_
    rw [List.map_cons, separate, firstKind_append]
    exact hfirst a (.head _) _

theorem parameters_recovers {ps : List Parameter} (hps : ∀ p ∈ ps, WritableType p.type) :
    parameters.Recovers (separate .semicolon (ps.map Parameter.lexemes)) ps (· == .closeParen) := by
  have hparameter : ∀ p ∈ ps, parameter.Recovers p.lexemes p anything := fun p hp =>
    .bind (names_recovers p.names) (fun _ _ => rfl) (.mark fun _ => .map (type_recovers (hps p hp)))
  exact .members hparameter (fun _ _ _ => rfl) rfl rfl (by decide)

theorem returnType_recovers (result : ScalarType) :
    returnType.Recovers (resultLexemes result) result (· != .colon) := by
  cases result with
  | void => exact .choose_right .pure fun k hk => by simpa [resultLexemes] using hk
  | integer | real | boolean | string =>
    exact .choose_left (.mark fun _ => (scalar_recovers (by decide)).follows fun _ _ => rfl)
      fun _ _ => rfl

end Reading

end PLang
