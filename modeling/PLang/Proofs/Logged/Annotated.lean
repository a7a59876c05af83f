import PLang.Proofs.Checking.Annotation
import PLang.Proofs.Logged.Basic

/-!
# What checking may change

Checking writes types into expressions, variable references and calls, and it turns sums into
concatenations. `Annotated s s'` says that nothing else has changed. Every note that checking makes
keeps it so, provided that operators are noted for sums of strings only (`Event.Sound`).
-/

namespace PLang

variable {s s' t : Store} {id : NodeId}

/-! ### Nodes and stores -/

/-- What checking may make of a node. -/
inductive NodeKind.NotedAs : NodeKind → NodeKind → Prop
  | refl (k : NodeKind) : NotedAs k k
  | expression {o o' : Operator} {left right : Option NodeId} {type type' : Option ScalarType} :
    o' = o ∨ o = .add ∧ o' = .concat →
      NotedAs (.expression ⟨o, left, right, type⟩) (.expression ⟨o', left, right, type'⟩)
  | reference {name : String} {indices : Option NodeId} {type type' : Option ScalarType} :
    NotedAs (.reference ⟨name, indices, type⟩) (.reference ⟨name, indices, type'⟩)
  | call {name : String} {arguments : Option NodeId} {type type' : Option ScalarType} :
    NotedAs (.call ⟨name, arguments, type⟩) (.call ⟨name, arguments, type'⟩)

theorem NodeKind.NotedAs.bare {k k' : NodeKind} (h : k.NotedAs k') : k'.bare = k.bare := by
  cases h with
  | refl | reference | call => rfl
  | expression ho =>
    rcases ho with rfl | ⟨rfl, rfl⟩ <;> rfl

theorem NodeKind.NotedAs.trans {k k' k'' : NodeKind} (h : k.NotedAs k')
    (h' : k'.NotedAs k'') : k.NotedAs k'' := by
  cases h with
  | refl => exact h'
  | reference =>
    cases h' with
    | refl | reference => exact .reference
  | call =>
    cases h' with
    | refl | call => exact .call
  | expression ho =>
    cases h' with
    | refl => exact .expression ho
    | expression ho' =>
      refine .expression ?_
      rcases ho with rfl | ⟨rfl, rfl⟩
      · exact ho'
      · rcases ho' with rfl | ⟨hadd, rfl⟩
        · exact .inr ⟨rfl, rfl⟩
        · cases hadd

/-- A store differs from another one at most in what checking may change. -/
structure Annotated (s s' : Store) : Prop where
  size : s'.size = s.size
  location : ∀ id, s'.location id = s.location id
  next : ∀ id, s'.next? id = s.next? id
  kind : ∀ id k, s.kind? id = some k → ∃ k', s'.kind? id = some k' ∧ k.NotedAs k'

namespace Annotated

theorem refl (s : Store) : Annotated s s :=
  ⟨rfl, fun _ => rfl, fun _ => rfl, fun _ k hk => ⟨k, hk, .refl k⟩⟩

theorem kind?_none (h : Annotated s s') (hk : s.kind? id = none) : s'.kind? id = none := by
  have hsize : ∀ t : Store, t.kind? id = none ↔ t.size ≤ id := by
    intro t
    rw [Store.kind?, Option.map_eq_none_iff, Store.node?_eq_none_iff]
  rw [hsize] at hk ⊢
  rwa [h.size]

theorem alike (h : Annotated s s') : Alike s s' where
  size := h.size
  next := h.next
  kind id := by
    cases hk : s.kind? id with
    | none => rw [h.kind?_none hk]
    | some k =>
      obtain ⟨k', hk', hann⟩ := h.kind id k hk
      rw [hk', Option.map_some, Option.map_some, hann.bare]

theorem modifyKind (h : Annotated s t) {f : NodeKind → NodeKind}
    (hf : ∀ k k', s.kind? id = some k → k.NotedAs k' → k.NotedAs (f k')) :
    Annotated s (t.modifyKind id f) where
  size := (Store.size_modify ..).trans h.size
  location other := (Store.location_modifyKind ..).trans (h.location other)
  next other := (Store.next?_modifyKind ..).trans (h.next other)
  kind other k hk := by
    obtain ⟨k', hk', hann⟩ := h.kind other k hk
    by_cases hother : other = id
    · subst hother
      exact ⟨f k', Store.kind?_modifyKind_self hk', hf k k' hk hann⟩
    · exact ⟨k', by rw [Store.kind?_modifyKind_of_ne hother, hk'], hann⟩

end Annotated

/-! ### Sound notes -/

/-- An expression is a sum of two strings, and it is noted to be a concatenation. -/
def Concatenates (s t : Store) (id : NodeId) (operator : Operator) : Prop :=
  operator = .concat ∧ ∃ e left right, s.kind? id = some (.expression e) ∧ e.operator = .add ∧
    e.left = some left ∧ e.right = some right ∧
    t.resultType? left = some .string ∧ t.resultType? right = some .string

/-- Where the tree has come from `s` to `t`, operators are noted for sums of strings only. -/
def Event.Sound (s t : Store) : Event → Prop
  | .note (.operator id operator) => Concatenates s t id operator
  | _ => True

theorem Annotated.write (h : Annotated s t) {e : Event} (he : e.Sound s t) :
    Annotated s (e.write t) := by
  cases e with
  | visit | report => exact h
  | note n =>
    cases n with
    | result id type =>
      rw [Event.write, Note.apply, Store.setResult]
      refine h.modifyKind fun k k' _ hann => hann.trans ?_
      cases k' with
      | expression e => exact .expression (.inl rfl)
      | _ => exact .refl _
    | reference id type =>
      rw [Event.write, Note.apply, Store.setReferenceType]
      refine h.modifyKind fun k k' _ hann => hann.trans ?_
      cases k' with
      | reference r => exact .reference
      | _ => exact .refl _
    | call id type =>
      rw [Event.write, Note.apply, Store.setCallType]
      refine h.modifyKind fun k k' _ hann => hann.trans ?_
      cases k' with
      | call c => exact .call
      | _ => exact .refl _
    | operator id operator =>
      obtain ⟨rfl, e, left, right, hk, hadd, -⟩ := he
      rw [Event.write, Note.apply, Store.setOperator]
      refine h.modifyKind fun k k' hk' hann => ?_
      cases hk.symm.trans hk'
      cases hann with
      | refl => exact .expression (.inr ⟨hadd, rfl⟩)
      | expression => exact .expression (.inr ⟨hadd, rfl⟩)

/-- Every event of a log is sound where it happens. -/
def SoundLog (s : Store) : Store → List Event → Prop
  | _, [] => True
  | t, e :: log => e.Sound s t ∧ SoundLog s (e.write t) log

theorem soundLog_append {log log' : List Event} : SoundLog s t (log ++ log') ↔
    SoundLog s t log ∧ SoundLog s (log.foldl Event.write t) log' := by
  induction log generalizing t with
  | nil => simp [SoundLog]
  | cons e log ih => rw [List.cons_append, SoundLog, SoundLog, ih, and_assoc, List.foldl_cons]

theorem Annotated.writeAll (h : Annotated s t) {log : List Event} (hlog : SoundLog s t log) :
    Annotated s (log.foldl Event.write t) := by
  induction log generalizing t with
  | nil => exact h
  | cons e log ih => exact ih (h.write hlog.1) hlog.2

end PLang
