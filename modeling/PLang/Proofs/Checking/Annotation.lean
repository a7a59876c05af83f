import PLang.Checker.Visit
import PLang.Proofs.Layout

/-!
# What checking writes into a tree

Checking writes the types that it finds into expressions, and turns additions of strings into
concatenations. Two stores are alike if they differ in nothing else. All that checking reads off a
tree, but for the types, is the same in stores that are alike.
-/

namespace PLang

open Syntax NodeKind Store

variable {e : ExpressionNode} {id : NodeId} {k : NodeKind}

/-- A node without what checking writes into it. -/
def NodeKind.bare : NodeKind → NodeKind
  | .expression e =>
    .expression ⟨if e.operator = .concat then .add else e.operator, e.left, e.right, none⟩
  | .reference r => .reference ⟨r.name, r.indices, none⟩
  | .call c => .call ⟨c.name, c.arguments, none⟩
  | kind => kind

/-- Whether checking writes nothing into nodes of a kind. -/
def NodeKind.isPlain : NodeKind → Bool
  | .expression _ | .reference _ | .call _ => false
  | _ => true

theorem NodeKind.eq_of_bare_eq {k' : NodeKind} (plain : k.isPlain = true) (h : k'.bare = k.bare) :
    k' = k := by
  have hk : k.bare = k := by
    cases k with
    | expression | reference | call => cases plain
    | _ => rfl
  rw [hk] at h
  cases k' with
  | expression | reference | call =>
    subst h
    cases plain
  | _ => exact h

theorem NodeKind.exists_expression_of_bare (h : k.bare = (expression e).bare) :
    ∃ e', k = .expression e' ∧ e'.left = e.left ∧ e'.right = e.right := by
  cases k with
  | expression e' =>
    simp only [bare, expression.injEq, ExpressionNode.mk.injEq] at h
    exact ⟨e', rfl, h.2.1, h.2.2.1⟩
  | _ => cases h

theorem NodeKind.exists_reference_of_bare {r : ReferenceNode}
    (h : k.bare = (reference r).bare) :
    ∃ r', k = .reference r' ∧ r'.name = r.name ∧ r'.indices = r.indices := by
  cases k with
  | reference r' =>
    simp only [bare, reference.injEq, ReferenceNode.mk.injEq] at h
    exact ⟨r', rfl, h.1, h.2.1⟩
  | _ => cases h

theorem NodeKind.exists_call_of_bare {c : CallNode} (h : k.bare = (call c).bare) :
    ∃ c', k = .call c' ∧ c'.name = c.name ∧ c'.arguments = c.arguments := by
  cases k with
  | call c' =>
    simp only [bare, call.injEq, CallNode.mk.injEq] at h
    exact ⟨c', rfl, h.1, h.2.1⟩
  | _ => cases h

/-- Two stores differ at most in what checking writes into them. -/
structure Alike (s s' : Store) : Prop where
  size : s'.size = s.size
  next : ∀ id, s'.next? id = s.next? id
  kind : ∀ id, (s'.kind? id).map bare = (s.kind? id).map bare

namespace Alike

variable {s s' s'' : Store}

theorem refl (s : Store) : Alike s s := ⟨rfl, fun _ => rfl, fun _ => rfl⟩

section

variable (h : Alike s s')

include h

theorem trans (h' : Alike s' s'') : Alike s s'' :=
  ⟨h'.size.trans h.size, fun id => (h'.next id).trans (h.next id),
    fun id => (h'.kind id).trans (h.kind id)⟩

/-- What does not depend on the notes that checking makes is the same. -/
theorem view {β : Type} {g : Store → NodeId → β} {f : Option NodeKind → β}
    (hg : ∀ t id o, t.kind? id = o → g t id = f o) (hf : ∀ k, f (some k.bare) = f (some k))
    (id : NodeId) : g s' id = g s id := by
  have hbare : ∀ o : Option NodeKind, f o = f (o.map bare) := by
    intro o
    cases o with
    | none => rfl
    | some k => exact (hf k).symm
  rw [hg s' id _ rfl, hg s id _ rfl, hbare, h.kind id, ← hbare]

theorem name?_eq (id : NodeId) : s'.name? id = s.name? id :=
  h.view (fun _ _ _ ho => by rw [name?, ho]) (fun k => by cases k <;> rfl) id

theorem number?_eq (id : NodeId) : s'.number? id = s.number? id :=
  h.view (fun _ _ _ ho => by rw [number?, ho]) (fun k => by cases k <;> rfl) id

theorem type?_eq (id : NodeId) : s'.type? id = s.type? id :=
  h.view (fun _ _ _ ho => by rw [type?, ho]) (fun k => by cases k <;> rfl) id

theorem literal?_eq (id : NodeId) : s'.literal? id = s.literal? id :=
  h.view (fun _ _ _ ho => by rw [literal?, ho]) (fun k => by cases k <;> rfl) id

theorem function?_eq (id : NodeId) : s'.function? id = s.function? id :=
  h.view (fun _ _ _ ho => by rw [function?, ho]) (fun k => by cases k <;> rfl) id

theorem siblings_eq (head : Option NodeId) : s'.siblings head = s.siblings head :=
  siblings_eq_of_next? h.size fun id _ => h.next id

theorem listLength_eq (head : Option NodeId) : s'.listLength head = s.listLength head := by
  rw [listLength, listLength, h.siblings_eq]

theorem dimensions_eq (id : NodeId) : s'.dimensions id = s.dimensions id := by
  rw [dimensions, dimensions, h.type?_eq, numbers, numbers, h.siblings_eq]
  exact congrArg (List.filterMap · _) (funext h.number?_eq)

/-- What a node can be in a store that is alike. -/
theorem kind?_cases (hk : s.kind? id = some k) :
    ∃ k', s'.kind? id = some k' ∧ k'.bare = k.bare := by
  have hmap := h.kind id
  rw [hk] at hmap
  obtain ⟨k', hk', hb⟩ := Option.map_eq_some_iff.1 hmap
  exact ⟨k', hk', hb⟩

/-- The nodes that checking does not write to are the same. -/
theorem kind?_plain (hk : s.kind? id = some k) (plain : k.isPlain = true) :
    s'.kind? id = some k := by
  obtain ⟨k', hk', hb⟩ := h.kind?_cases hk
  rw [hk', eq_of_bare_eq plain hb]

theorem kind?_expression {o : Operator} {left right : Option NodeId}
    (hk : s.kind? id = some (.expression ⟨o, left, right, none⟩)) (ho : o ≠ .concat) :
    ∃ o' result, s'.kind? id = some (.expression ⟨o', left, right, result⟩) ∧
      (o' = o ∨ o = .add ∧ o' = .concat) := by
  obtain ⟨k', hk', hb⟩ := h.kind?_cases hk
  cases k' with
  | expression e =>
    obtain ⟨o', left', right', result⟩ := e
    simp only [bare, if_neg ho, expression.injEq, ExpressionNode.mk.injEq] at hb
    obtain ⟨ho', rfl, rfl, -⟩ := hb
    refine ⟨o', result, hk', ?_⟩
    by_cases hconcat : o' = .concat
    · rw [if_pos hconcat] at ho'
      exact .inr ⟨ho'.symm, hconcat⟩
    · rw [if_neg hconcat] at ho'
      exact .inl ho'
  | _ => simp [bare] at hb

theorem kind?_reference {r : ReferenceNode} (hk : s.kind? id = some (.reference r)) :
    ∃ result, s'.kind? id = some (.reference { r with result }) := by
  obtain ⟨k', hk', hb⟩ := h.kind?_cases hk
  obtain ⟨r', rfl, hname, hindices⟩ := exists_reference_of_bare hb
  exact ⟨r'.result, by rw [hk', ← hname, ← hindices]⟩

theorem kind?_call {c : CallNode} (hk : s.kind? id = some (.call c)) :
    ∃ result, s'.kind? id = some (.call { c with result }) := by
  obtain ⟨k', hk', hb⟩ := h.kind?_cases hk
  obtain ⟨c', rfl, hname, harguments⟩ := exists_call_of_bare hb
  exact ⟨c'.result, by rw [hk', ← hname, ← harguments]⟩

end
end Alike

/-! ### Writing -/

namespace Store

variable {s : Store} {id : NodeId} {f : NodeKind → NodeKind}

theorem kind?_modifyKind (other : NodeId) :
    (s.modifyKind id f).kind? other =
      if id = other then (s.kind? other).map f else s.kind? other := by
  rw [kind?, modifyKind, node?_modify]
  split
  · rw [kind?, Option.map_map, Option.map_map]
    rfl
  · rfl

theorem kind?_modifyKind_self (h : s.kind? id = some k) :
    (s.modifyKind id f).kind? id = some (f k) := by
  rw [kind?_modifyKind, if_pos rfl, h]
  rfl

theorem kind?_modifyKind_of_ne {other : NodeId} (h : other ≠ id) :
    (s.modifyKind id f).kind? other = s.kind? other := by
  rw [kind?_modifyKind, if_neg (Ne.symm h)]

theorem modifyKind_alike (h : ∀ k, s.kind? id = some k → (f k).bare = k.bare) :
    Alike s (s.modifyKind id f) where
  size := size_modify ..
  next other := next?_modifyKind s id other f
  kind other := by
    by_cases hother : other = id
    · subst hother
      cases hk : s.kind? other with
      | none => rw [kind?_modifyKind, if_pos rfl, hk]; rfl
      | some k => rw [kind?_modifyKind_self hk]; exact congrArg some (h k hk)
    · rw [kind?_modifyKind_of_ne hother]

theorem setResult_alike (result : Option ScalarType) : Alike s (s.setResult id result) :=
  modifyKind_alike fun k _ => by cases k <;> rfl

theorem setReferenceType_alike (result : Option ScalarType) :
    Alike s (s.setReferenceType id result) :=
  modifyKind_alike fun k _ => by cases k <;> rfl

theorem setCallType_alike (result : Option ScalarType) : Alike s (s.setCallType id result) :=
  modifyKind_alike fun k _ => by cases k <;> rfl

/-- An addition can become a concatenation. -/
theorem setOperator_alike (h : s.kind? id = some (.expression e)) (ho : e.operator = .add) :
    Alike s (s.setOperator id .concat) := by
  refine modifyKind_alike fun k hk => ?_
  cases h.symm.trans hk
  simp [bare, ho]

end Store

/-- An addition, noted or not, can become a concatenation. -/
theorem Alike.setConcat {s t : Store} (h : Alike s t)
    (hk : (s.kind? id).map bare = some (expression e).bare)
    (he : e.operator = .add) : Alike s (t.setOperator id .concat) := by
  refine h.trans (modifyKind_alike fun k hkind => ?_)
  have hbare := h.kind id
  rw [hk, hkind, Option.map_some, Option.some_inj] at hbare
  cases k with
  | expression node =>
    simp only [bare, he, reduceCtorEq, if_false, expression.injEq,
      ExpressionNode.mk.injEq] at hbare
    simp [bare, hbare.1]
  | _ => rfl

end PLang
