import PLang.Checker.Expression
import PLang.Proofs.Syntax

/-!
# The text of a type tells the type

Array types are compared by their texts. Two types with the same text are the same, so that an array
is passed for an array exactly if their types are the same.
-/

namespace PLang

namespace Syntax

/-- The characters of a dimension in its brackets. -/
def bracketed (d : Int) : List Char := '[' :: (toString d).toList ++ [']']

theorem toList_join_dimensions (ds : List Int) :
    (String.join (ds.map fun d => "[" ++ toString d ++ "]")).toList = ds.flatMap bracketed := by
  rw [String.toList_join, List.flatMap_map]
  exact congrArg (List.flatMap · ds) (funext fun d => by simp [bracketed])

theorem isDigit_of_mem_repr {n : Nat} {c : Char} (h : c ∈ n.repr.toList) : c.isDigit = true := by
  rw [Nat.toList_repr] at h
  exact Nat.isDigit_of_mem_toDigits (by decide) (by decide) h

/-- Different numbers are written in different ways. -/
theorem eq_of_repr_eq {d e : Int} (h : d.repr = e.repr) : d = e := by
  have hdigits : ∀ {m n : Nat}, m.repr = n.repr → m = n := by
    intro m n heq
    rw [← String.toList_inj, Nat.toList_repr, Nat.toList_repr] at heq
    rw [← Nat.ofDigitChars_ten_toDigits (n := m), heq, Nat.ofDigitChars_ten_toDigits]
  have hsign : ∀ {m n : Nat}, m.repr ≠ "-" ++ n.repr := by
    intro m n heq
    have hmem : '-' ∈ m.repr.toList := by
      rw [heq, String.toList_append]
      exact .head _
    exact absurd (isDigit_of_mem_repr hmem) (by decide)
  cases d with
  | ofNat m =>
    cases e with
    | ofNat n => exact congrArg Int.ofNat (hdigits h)
    | negSucc n => exact absurd h hsign
  | negSucc m =>
    cases e with
    | ofNat n => exact absurd h.symm hsign
    | negSucc n =>
      have hsucc := hdigits ((String.append_right_inj _).1 h)
      exact congrArg Int.negSucc (Nat.succ.inj hsucc)

/-- No number is written with a closing bracket. -/
theorem closeBracket_notMem_toString (d : Int) : ']' ∉ (toString d).toList := by
  have digits : ∀ n : Nat, ']' ∉ n.repr.toList := fun n hmem =>
    absurd (isDigit_of_mem_repr hmem) (by decide)
  rw [Int.toString_eq_repr]
  cases d with
  | ofNat n => exact digits n
  | negSucc n =>
    rw [Int.repr, String.toList_append, List.mem_append]
    rintro (hmem | hmem)
    · exact absurd hmem (by decide)
    · exact digits _ hmem

/-- The first of several marks is found at one place only. -/
theorem append_cons_injective {mark : Char} {l1 l2 r1 r2 : List Char} (h1 : mark ∉ l1)
    (h2 : mark ∉ l2) (h : l1 ++ mark :: r1 = l2 ++ mark :: r2) : l1 = l2 ∧ r1 = r2 := by
  induction l1 generalizing l2 with
  | nil =>
    cases l2 with
    | nil => exact ⟨rfl, (List.cons.inj h).2⟩
    | cons c l2 => exact absurd ((List.cons.inj h).1 ▸ (.head _)) h2
  | cons c l1 ih =>
    cases l2 with
    | nil => exact absurd ((List.cons.inj h).1 ▸ (.head _)) h1
    | cons c' l2 =>
      obtain ⟨rfl, htail⟩ := List.cons.inj h
      obtain ⟨rfl, hr⟩ := ih (fun hm => h1 (.tail _ hm))
        (fun hm => h2 (.tail _ hm)) htail
      exact ⟨rfl, hr⟩

theorem flatMap_bracketed_injective {ds es : List Int}
    (h : ds.flatMap bracketed = es.flatMap bracketed) : ds = es := by
  induction ds generalizing es with
  | nil =>
    cases es with
    | nil => rfl
    | cons e es => simp [bracketed] at h
  | cons d ds ih =>
    cases es with
    | nil => simp [bracketed] at h
    | cons e es =>
      have h' : (toString d).toList ++ ']' :: ds.flatMap bracketed =
          (toString e).toList ++ ']' :: es.flatMap bracketed := by
        simpa [bracketed] using h
      obtain ⟨htext, hrest⟩ := append_cons_injective
        (closeBracket_notMem_toString d) (closeBracket_notMem_toString e) h'
      have hde : d = e := by
        rw [Int.toString_eq_repr, Int.toString_eq_repr, String.toList_inj] at htext
        exact eq_of_repr_eq htext
      rw [hde, ih hrest]

/-- The names of scalar types are different words. -/
theorem scalar_eq_of_text_eq {a b : ScalarType} (h : a.text = b.text) : a = b := by
  revert h
  cases a <;> cases b <;> decide

theorem blank_notMem_text (a : ScalarType) : ' ' ∉ a.text.toList := by
  cases a <;> decide

theorem toList_arrayTypeText (scalar : ScalarType) {ds : List Int} (h : ds ≠ []) :
    (arrayTypeText scalar ds).toList = scalar.text.toList ++ ' ' :: ds.flatMap bracketed := by
  rw [arrayTypeText, if_neg (by simpa using h), String.toList_append, String.toList_append,
    toList_join_dimensions, List.append_assoc]
  rfl

/-- Only the texts of arrays have a blank in them. -/
theorem blank_mem_arrayTypeText (scalar : ScalarType) (ds : List Int) :
    ' ' ∈ (arrayTypeText scalar ds).toList ↔ ds ≠ [] := by
  by_cases h : ds = []
  · simp [h, arrayTypeText, blank_notMem_text]
  · simp [h, toList_arrayTypeText]

/-- The text of a type tells its scalar type and its dimensions. -/
theorem arrayTypeText_injective {a b : ScalarType} {ds es : List Int}
    (h : arrayTypeText a ds = arrayTypeText b es) : a = b ∧ ds = es := by
  have hempty : ds ≠ [] ↔ es ≠ [] := by
    rw [← blank_mem_arrayTypeText a, h, blank_mem_arrayTypeText]
  by_cases hds : ds = []
  · obtain rfl : es = [] := by simpa [hds] using hempty
    subst hds
    exact ⟨scalar_eq_of_text_eq (by simpa [arrayTypeText] using h), rfl⟩
  · have hchars := congrArg String.toList h
    rw [toList_arrayTypeText a hds, toList_arrayTypeText b (hempty.1 hds)] at hchars
    obtain ⟨hscalar, hdims⟩ :=
      append_cons_injective (blank_notMem_text _) (blank_notMem_text _) hchars
    exact ⟨scalar_eq_of_text_eq (String.toList_inj.1 hscalar), flatMap_bracketed_injective hdims⟩

/-- Data types with the same text are the same. -/
theorem DataType.eq_of_text_eq {t t' : DataType} (h : t.text = t'.text) : t = t' :=
  DataType.ext (arrayTypeText_injective h).1 (arrayTypeText_injective h).2

end Syntax

/-- What is left of an array after its subscripts. -/
theorem Checker.arrayText?_eq {c : Checker} {argument : NodeId} {r : ReferenceNode}
    {symbol : Symbol}
    {scalar : ScalarType} (hargument : c.wrappedReference? argument = some r)
    (hsymbol : c.symbols.lookup r.name = some symbol) (hscalar : symbol.scalar = some scalar) :
    c.arrayText? argument =
      if (c.store.dimensions symbol.node).drop (c.store.listLength r.indices) = [] then none
      else some (arrayTypeText scalar
        ((c.store.dimensions symbol.node).drop (c.store.listLength r.indices))) := by
  simp [arrayText?, hargument, hsymbol, hscalar]

/-- Texts of types identify types. So an array that is left of a variable after some subscripts is
accepted for a parameter that is an array exactly if the scalar types are the same and the
dimensions behind the subscripts are those of the parameter. -/
theorem typeText_identifies :
    (∀ a b ds es, arrayTypeText a ds = arrayTypeText b es ↔ a = b ∧ ds = es) ∧
      ∀ (c : Checker) (argument : NodeId) (r : ReferenceNode) (symbol : Symbol)
        (scalar : ScalarType)
        (parameter : TypeNode) (first : NodeId), c.wrappedReference? argument = some r →
        c.symbols.lookup r.name = some symbol → symbol.scalar = some scalar →
        c.store.resultType? argument = none → parameter.dimensions = some first →
        c.store.numbers parameter.dimensions ≠ [] →
        parameter.text = arrayTypeText parameter.scalar (c.store.numbers parameter.dimensions) →
        (c.passes argument parameter = true ↔ scalar = parameter.scalar ∧
          (c.store.dimensions symbol.node).drop (c.store.listLength r.indices) =
            c.store.numbers parameter.dimensions) := by
  have hidentifies : ∀ a b ds es, arrayTypeText a ds = arrayTypeText b es ↔ a = b ∧ ds = es :=
    fun a b ds es => ⟨Syntax.arrayTypeText_injective, fun h => by rw [h.1, h.2]⟩
  refine ⟨hidentifies, ?_⟩
  intro c argument r symbol scalar parameter first hargument hsymbol hscalar hresult
    hfirst hne htext
  rw [Checker.passes, hfirst]
  simp only [hresult, Option.isNone_none, Bool.true_and, beq_iff_eq]
  rw [Checker.arrayText?_eq hargument hsymbol hscalar, htext, ← hfirst]
  by_cases hleft : (c.store.dimensions symbol.node).drop (c.store.listLength r.indices) = []
  · simp [hleft, Ne.symm hne]
  · simp [hleft, hidentifies]

/-- A checker of a store with an array of two dimensions, an array parameter of one dimension, and a
row of the former as an argument. -/
def rowChecker : Checker :=
  .start ⟨#[⟨.nowhere, .number 3, some 1⟩, ⟨.nowhere, .number 4, none⟩,
      ⟨.nowhere, .type ⟨.integer, some 0, "integer [3][4]"⟩, none⟩, ⟨.nowhere, .number 4, none⟩,
      ⟨.nowhere, .name "i", none⟩, ⟨.nowhere, .reference ⟨"x", some 4, none⟩, none⟩,
      ⟨.nowhere, .expression ⟨.reference, some 5, none, none⟩, none⟩]⟩
    (SymbolTable.empty.pushScope.insert "x" .var (some .integer) "integer [3][4]" "" 2) .silent
    ⟨false, 9⟩

theorem typeText_identifies_row :
    arrayTypeText .integer [-3, 4] ≠ arrayTypeText .integer [3, 4] ∧
      rowChecker.passes 6 ⟨.integer, some 3, "integer [4]"⟩ = true := by
  refine ⟨fun h => absurd ((typeText_identifies.1 ..).1 h) (by decide), ?_⟩
  refine (typeText_identifies.2 rowChecker 6 ⟨"x", some 4, none⟩
    ⟨0, "x", .var, some .integer, "integer [3][4]", "", 2⟩ .integer _ 3 ?_ ?_ ?_ ?_ ?_ ?_ ?_).2 ?_
  all_goals decide +kernel

end PLang
