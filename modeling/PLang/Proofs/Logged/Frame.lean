import PLang.Proofs.Checking.ScopeBalance
import PLang.Proofs.Logged.Once
import PLang.Proofs.Logged.Walk
import PLang.Proofs.Rechecking.Idempotence
import PLang.Tree.Render

/-!
# Checking only annotates

A check leaves the tree as it is, apart from the types that it notes and from sums that become
concatenations, and the rendering shows neither. In a parsed program every field is written at most
once, and a sum only becomes a concatenation after both of its operands were noted to be strings.
-/

namespace PLang

variable {s s' : Store} {root : NodeId} {c : Checker}

variable {id : NodeId} {t : ScalarType}

/-! ### Rendering -/

namespace Annotated

theorem siblings (h : Annotated s s') (head : Option NodeId) :
    s'.siblings head = s.siblings head := h.alike.siblings_eq head

section

variable (h : Annotated s s') (part : Nat → NodeId → List String) (level : Nat)

include h part level

theorem renderDeclaration (location : Location) (d : DeclarationNode) :
    s'.renderDeclaration part level location d = s.renderDeclaration part level location d := by
  simp only [Store.renderDeclaration, h.siblings, h.location, h.alike.name?_eq, h.alike.type?_eq]

theorem renderFor (location : Location) (f : ForNode) :
    s'.renderFor part level location f = s.renderFor part level location f := by
  simp only [Store.renderFor, h.location]

/-- A node is shown as before. Sums and concatenations have the same symbol. -/
theorem renderWith (id : NodeId) : s'.renderWith part level id = s.renderWith part level id := by
  simp only [Store.renderWith, h.location, h.siblings, h.renderDeclaration, h.renderFor]
  cases hk : s.kind? id with
  | none => rw [h.kind?_none hk]
  | some k =>
    obtain ⟨k', hk', hann⟩ := h.kind id k hk
    rw [hk']
    cases hann with
    | refl | reference | call => rfl
    | expression ho =>
      rcases ho with rfl | ⟨rfl, rfl⟩ <;> rfl


end
theorem renderNode (h : Annotated s s') (depth : Nat) :
    s'.renderNode depth = s.renderNode depth := by
  induction depth with
  | zero => rfl
  | succ depth ih =>
    funext level id
    rw [Store.renderNode, Store.renderNode, ih, h.renderWith]

theorem render (h : Annotated s s') (id : NodeId) : s'.render id = s.render id := by
  rw [Store.render, Store.render, h.siblings, h.size, h.renderNode]

end Annotated

/-! ### Notes of a check -/

theorem Check.reached_visit (root : NodeId) (c : Checker) :
    Check.reached ((Logged.visit root).run c) = (Check.visit root).after c := by
  rw [Logged.run_visit, Check.after]
  cases Check.visit root c <;> rfl

/-- The tree after a check is the tree before it with the notes of its log. -/
theorem Logged.store_after (root : NodeId) (c : Checker) :
    ((Check.visit root).after c).store = ((Logged.visit root).log c).foldl Event.write c.store :=
  Check.reached_visit root c ▸ ((Logged.visit root).tells c).store

theorem Logged.visit_obeys (root : NodeId) (c : Checker) :
    ObeysAt c.store (c.store.schedule (c.limit - c.depth) c.function root) []
      (c.store.Inside (root, c.function)) (visitUpTo (c.limit - c.depth) root) c :=
  obeys_visitUpTo c.store _ root c.function c (.refl _) rfl

theorem Check.annotated_after (root : NodeId) (c : Checker) :
    Annotated c.store ((Check.visit root).after c).store := by
  rw [Logged.store_after]
  exact (Annotated.refl c.store).writeAll (Logged.visit_obeys root c).sound

/-- The type that is noted in a node. -/
def NodeKind.result? : NodeKind → Option ScalarType
  | expression e => e.result
  | _ => none

theorem Store.resultType?_eq (s : Store) (id : NodeId) :
    s.resultType? id = (s.kind? id).bind NodeKind.result? := by
  rw [resultType?, expression?]
  cases s.kind? id with
  | none => rfl
  | some k => cases k <;> rfl

theorem Store.resultType?_modifyKind {f : NodeKind → NodeKind} (id other : NodeId)
    (hf : ∀ k, (f k).result? = k.result?) :
    (s.modifyKind id f).resultType? other = s.resultType? other := by
  rw [resultType?_eq, resultType?_eq, kind?_modifyKind]
  split
  · rw [Option.bind_map]
    exact congrArg _ (funext hf)
  · rfl

theorem Store.resultType?_setResult {other : NodeId} {type : Option ScalarType}
    (h : (s.setResult id type).resultType? other = some t) :
    s.resultType? other = some t ∨ id = other ∧ type = some t := by
  rw [resultType?_eq, setResult, kind?_modifyKind] at h
  by_cases hid : id = other
  · rw [if_pos hid] at h
    obtain ⟨k, hk, ht⟩ := Option.bind_eq_some_iff.1 h
    obtain ⟨k, -, rfl⟩ := Option.map_eq_some_iff.1 hk
    cases k with
    | expression => exact .inr ⟨hid, ht⟩
    | _ => cases ht
  · rw [if_neg hid, ← resultType?_eq] at h
    exact .inl h

/-- A type that a node has got in an event is noted in it. -/
theorem Event.resultType?_write {e : Event} (h : (e.write s).resultType? id = some t) :
    s.resultType? id = some t ∨ e = .note (.result id (some t)) := by
  cases e with
  | visit | report => exact .inl h
  | note n =>
    cases n with
    | result other type =>
      refine (Store.resultType?_setResult h).imp_right fun hnote => ?_
      rw [hnote.1, hnote.2]
    | operator other | reference other | call other =>
      refine .inl (Eq.trans (Eq.symm ?_) h)
      exact Store.resultType?_modifyKind other id fun k => by cases k <;> rfl

/-- A type that a node has got was noted. -/
theorem mem_of_resultType? {log : List Event}
    (h : (log.foldl Event.write s).resultType? id = some t) (hs : s.resultType? id = none) :
    .note (.result id (some t)) ∈ log := by
  have hlog : s.resultType? id = some t ∨ .note (.result id (some t)) ∈ log := by
    clear hs
    induction log generalizing s with
    | nil => exact .inl h
    | cons e log ih =>
      rcases ih h with hwrite | hmem
      · rcases Event.resultType?_write hwrite with hs | rfl
        · exact .inl hs
        · exact .inr (.head _)
      · exact .inr (List.mem_cons_of_mem e hmem)
  exact hlog.resolve_left fun ht => by cases hs.symm.trans ht

/-! ### Parsed programs -/

/-- The field that an event writes. -/
def Event.place? : Event → Option (Field × NodeId)
  | note n => some n.place
  | _ => none

section

variable {ts : List Token} {limit : Nat} (h : parseTokens ts limit = .ok (s, root))

include h

theorem resultType?_of_parseTokens (id : NodeId) : s.resultType? id = none := by
  rw [Store.resultType?_eq]
  cases hk : s.kind? id with
  | none => rfl
  | some k =>
    rw [Option.bind_some, ← (unchecked_of_parseTokens h id k hk).bare]
    cases k <;> rfl

/-- In a parsed program, everything happens at most once. -/
theorem nodup_of_parseTokens (hc : c.store = s) :
    (((((Logged.visit root).log c).filterMap Event.key?)).map Key.place).Nodup := by
  obtain ⟨P, -, hprogram, -, -⟩ := parseTokens_layout h
  obtain ⟨p, htree⟩ := hprogram.subtree
  subst hc
  have hspread := htree.spread_schedule (c.limit - c.depth) c.function
  exact hspread.once.sublist ((Logged.visit_obeys root c).keys.map Key.place)

/-- In a parsed program, every field is written at most once. -/
theorem nodup_places_of_parseTokens (hc : c.store = s) :
    (((Logged.visit root).log c).filterMap Event.place?).Nodup := by
  have hplaces : Event.place? = fun e =>
      (e.key?.map Key.place).bind fun place => place.1.map (·, place.2) := by
    funext e
    cases e <;> rfl
  have honce := nodup_of_parseTokens h hc
  rw [List.map_filterMap] at honce
  rw [hplaces, ← List.filterMap_filterMap]
  refine honce.filterMap ?_
  simp only [Option.mem_def, Option.map_eq_some_iff]
  rintro ⟨field, id⟩ ⟨field', id'⟩ place ⟨_, rfl, rfl⟩ ⟨_, rfl, heq⟩
  cases heq
  rfl

/-- In a parsed program, a sum only becomes a concatenation after both operands were noted to be
strings. -/
theorem concatenates_of_parseTokens (hc : c.store = s) {before after : List Event} {o : Operator}
    (hlog : (Logged.visit root).log c = before ++ .note (.operator id o) :: after) :
    o = .concat ∧ ∃ e left right, s.kind? id = some (.expression e) ∧ e.operator = .add ∧
      e.left = some left ∧ e.right = some right ∧
      .note (.result left (some .string)) ∈ before ∧
      .note (.result right (some .string)) ∈ before := by
  subst hc
  have hsound : SoundLog c.store c.store ((Logged.visit root).log c) :=
    (Logged.visit_obeys root c).sound
  rw [hlog, soundLog_append] at hsound
  obtain ⟨ho, e, left, right, hk, hadd, hleft, hright, hstring, hstring'⟩ := hsound.2.1
  exact ⟨ho, e, left, right, hk, hadd, hleft, hright,
    mem_of_resultType? hstring (resultType?_of_parseTokens h left),
    mem_of_resultType? hstring' (resultType?_of_parseTokens h right)⟩

end

/-- Checking changes nothing in a tree but the types and operators that it notes, however it ends,
and the tree is rendered as before. In a parsed program, where the log of the check lists its notes,
every field is written at most once, and operators are noted only for sums of two nodes that were
noted to be strings. -/
theorem Check.visit_annotates :
    (∀ root c, Annotated c.store ((Check.visit root).after c).store ∧
      ∀ id, ((Check.visit root).after c).store.render id = c.store.render id) ∧
    ∀ ts limit s root, parseTokens ts limit = .ok (s, root) → ∀ c : Checker, c.store = s →
      (Logged.visit root).run = Check.visit root ∧
      ((Check.visit root).after c).store = ((Logged.visit root).log c).foldl Event.write s ∧
      (((Logged.visit root).log c).filterMap Event.place?).Nodup ∧
      ∀ before after id o, (Logged.visit root).log c = before ++ .note (.operator id o) :: after →
        o = .concat ∧ ∃ e left right, s.kind? id = some (.expression e) ∧ e.operator = .add ∧
          e.left = some left ∧ e.right = some right ∧
          .note (.result left (some .string)) ∈ before ∧
          .note (.result right (some .string)) ∈ before := by
  refine ⟨fun root c => ?_, fun ts limit s root h c hc => ?_⟩
  · have hframe := Check.annotated_after root c
    exact ⟨hframe, hframe.render⟩
  · refine ⟨Logged.run_visit root, hc ▸ Logged.store_after root c, ?_, ?_⟩
    · exact nodup_places_of_parseTokens h hc
    · exact fun before after id o hlog => concatenates_of_parseTokens h hc hlog

theorem Check.visit_annotates_concatTokens : ∃ s root c before after,
    parseTokens concatTokens 9 = .ok (s, root) ∧ c.store = s ∧
      (Logged.visit root).log c = before ++ .note (.operator 4 .concat) :: after ∧
      .note (.result 1 (some .string)) ∈ before ∧ .note (.result 3 (some .string)) ∈ before ∧
      (((Logged.visit root).log c).filterMap Event.place?).Nodup ∧
      ((Check.visit root).after c).store.render root = s.render root := by
  have hrun : ((parseTokens concatTokens 9).toOption.map fun tree =>
      (tree.1.kind? 4, decide (.note (.operator 4 .concat) ∈
        (Logged.visit tree.2).log (.start tree.1 .empty .silent ⟨false, 9⟩)))) =
      some (some (.expression ⟨.add, some 1, some 3, none⟩), true) := by
    rw [concatTokens, tokensOf_ofList]
    decide +kernel
  obtain ⟨s, root, h, hrun⟩ := exists_parse_of_map hrun
  simp only [Prod.mk.injEq, decide_eq_true_eq] at hrun
  obtain ⟨before, after, hlog⟩ := List.append_of_mem hrun.2
  obtain ⟨-, -, honce, hsums⟩ := Check.visit_annotates.2 _ _ _ _ h
    (.start s .empty .silent ⟨false, 9⟩) rfl
  obtain ⟨-, e, left, right, hk, -, hleft, hright, hstring, hstring'⟩ := hsums _ _ _ _ hlog
  obtain rfl : ⟨.add, some 1, some 3, none⟩ = e := by simpa [hrun.1] using hk
  obtain rfl : 1 = left := by simpa using hleft
  obtain rfl : 3 = right := by simpa using hright
  exact ⟨s, root, _, before, after, h, rfl, hlog, hstring, hstring', honce,
    (Check.visit_annotates.1 root _).2 root⟩

end PLang
