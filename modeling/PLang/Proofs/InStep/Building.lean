import PLang.Proofs.Building
import PLang.Proofs.Tree.Links

/-!
# Trees that differ only in where their nodes stand

Two stores are alike if they hold the same nodes under the same numbers and only the locations may
differ. How they may differ is left open: a relation `link` says which location of one source goes
with which of the other. Equality is such a relation, and then like stores are the same. Builders
that are given like stores and linked locations make like stores.
-/

namespace PLang

variable {α β : Type} {link : Location → Location → Prop}

/-- Locations that go together, or the starts of lines on which such locations stand. The missing
return type of a function stands at the start of a line, which need not be a place where a token
stands. -/
def Location.Near (link : Location → Location → Prop) (l l' : Location) : Prop :=
  link l l' ∨ ∃ a a', link a a' ∧ l = ⟨a.line, 0⟩ ∧ l' = ⟨a'.line, 0⟩

/-- Nodes that hold the same and stand at places that go together. -/
structure Node.Like (link : Location → Location → Prop) (n n' : Node) : Prop where
  kind : n'.kind = n.kind
  next : n'.next = n.next
  near : n.location.Near link n'.location
  place : n.kind.isType = false → link n.location n'.location

/-- Stores with like nodes under the same numbers. -/
def Store.Like (link : Location → Location → Prop) (s s' : Store) : Prop :=
  ∀ id, Option.Rel (Node.Like link) (s.node? id) (s'.node? id)

namespace Store.Like

variable {s s' : Store}

theorem empty : Store.Like link .empty .empty := by
  intro id
  have h : Store.empty.node? id = none := by simp [Store.node?, Store.empty]
  rw [h]
  exact .none

section

variable (h : s.Like link s')

include h

/-- A number stands for nothing in both stores, or for like nodes. -/
theorem node?_cases (id : NodeId) :
    (s.node? id = none ∧ s'.node? id = none) ∨
      ∃ n n', s.node? id = some n ∧ s'.node? id = some n' ∧ n.Like link n' := by
  have hid := h id
  generalize s.node? id = n, s'.node? id = n' at hid
  cases hid with
  | none => exact .inl ⟨rfl, rfl⟩
  | some hn => exact .inr ⟨_, _, rfl, rfl, hn⟩

theorem kind?_eq : s'.kind? = s.kind? := by
  funext id
  rcases h.node?_cases id with ⟨hs, hs'⟩ | ⟨n, n', hs, hs', hn⟩
  · simp [Store.kind?, hs, hs']
  · simp [Store.kind?, hs, hs', hn.kind]

theorem next?_eq : s'.next? = s.next? := by
  funext id
  rcases h.node?_cases id with ⟨hs, hs'⟩ | ⟨n, n', hs, hs', hn⟩
  · simp [Store.next?, hs, hs']
  · simp [Store.next?, hs, hs', hn.next]

theorem size_eq : s'.size = s.size := by
  have none_iff : ∀ id, s'.size ≤ id ↔ s.size ≤ id := by
    intro id
    rw [← Store.node?_eq_none_iff, ← Store.node?_eq_none_iff]
    rcases h.node?_cases id with ⟨hs, hs'⟩ | ⟨n, n', hs, hs', -⟩
    · simp [hs, hs']
    · simp [hs, hs']
  exact Nat.le_antisymm ((none_iff _).2 .refl) ((none_iff _).1 .refl)

/-- A node that is no type stands at places that go together. -/
theorem place {id : NodeId} {k : NodeKind} (hk : s.kind? id = some k) (hty : k.isType = false) :
    link (s.location id) (s'.location id) := by
  rcases h.node?_cases id with ⟨hs, -⟩ | ⟨n, n', hs, hs', hn⟩
  · simp [Store.kind?, hs] at hk
  · rw [Store.kind?, hs] at hk
    cases hk
    simpa [Store.location, hs, hs'] using hn.place hty

theorem siblings_eq : s'.siblings = s.siblings :=
  funext fun _ => Store.siblings_eq_of_next? h.size_eq fun id _ => congrFun h.next?_eq id

theorem number?_eq : s'.number? = s.number? := by
  funext id
  rw [Store.number?, Store.number?, h.kind?_eq]

theorem type?_eq : s'.type? = s.type? := by
  funext id
  rw [Store.type?, Store.type?, h.kind?_eq]

theorem literal?_eq : s'.literal? = s.literal? := by
  funext id
  rw [Store.literal?, Store.literal?, h.kind?_eq]

theorem declaration?_eq : s'.declaration? = s.declaration? := by
  funext id
  rw [Store.declaration?, Store.declaration?, h.kind?_eq]

theorem append (head node : NodeId) : (s.append head node).Like link (s'.append head node) := by
  intro id
  simp only [Store.append, h.siblings_eq, Store.node?_modify]
  split
  · rcases h.node?_cases id with ⟨hs, hs'⟩ | ⟨n, n', hs, hs', hn⟩
    · rw [hs, hs']
      exact .none
    · rw [hs, hs']
      exact .some ⟨hn.kind, rfl, hn.near, hn.place⟩
  · exact h id

end

/-- Where only the same location goes with a location, like stores are the same. -/
theorem eq_of_eq (h : s.Like Eq s') : s' = s := by
  have same : ∀ id, s'.node? id = s.node? id := by
    intro id
    rcases h.node?_cases id with ⟨hs, hs'⟩ | ⟨⟨l, k, next⟩, ⟨l', k', next'⟩, hs, hs', hn⟩
    · rw [hs, hs']
    · have hl : l' = l := by
        rcases hn.near with hl | ⟨a, a', rfl, hl, hl'⟩
        · exact hl.symm
        · exact hl'.trans hl.symm
      rw [hs, hs', show k' = k from hn.kind, show next' = next from hn.next, hl]
  obtain ⟨nodes⟩ := s
  obtain ⟨nodes'⟩ := s'
  congr 1
  exact Array.ext_getElem? same

end Store.Like

/-! ### Builders -/

namespace Build

variable {R : Store → Store → Prop}

/-- The same result with stores that go together. -/
def SameResult (R : Store → Store → Prop) (r r' : α × Store) : Prop :=
  r'.1 = r.1 ∧ R r.2 r'.2

/-- Builders that keep a relation between stores and return the same. -/
def InStep (R : Store → Store → Prop) (b b' : Build α) : Prop :=
  ∀ s s', R s s' → SameResult R (b s) (b' s')

theorem InStep.pure (a : α) : InStep R (pure a : Build α) (pure a) :=
  fun _ _ h => ⟨rfl, h⟩

variable {Q : Store → Store → Prop} {f f' : α → Build β} {b b' : Build α}

theorem SameResult.bind
    {s s' : Store} (hb : SameResult Q (b s) (b' s'))
    (hf : SameResult R (f (b s).1 (b s).2) (f' (b s).1 (b' s').2)) :
    SameResult R ((b >>= f) s) ((b' >>= f') s') := by
  rw [← hb.1] at hf
  show SameResult R (f (b s).1 (b s).2) (f' (b' s').1 (b' s').2)
  rwa [← hb.1]

theorem SameResult.bind_forall
    {s s' : Store} (hb : SameResult Q (b s) (b' s'))
    (hf : ∀ t t', Q t t' → SameResult R (f (b s).1 t) (f' (b s).1 t')) :
    SameResult R ((b >>= f) s) ((b' >>= f') s') :=
  hb.bind (hf _ _ hb.2)

theorem InStep.bind (hb : InStep R b b')
    (hf : ∀ a, InStep R (f a) (f' a)) : InStep R (b >>= f) (b' >>= f') := by
  intro s s' h
  exact (hb s s' h).bind (hf _ _ _ (hb s s' h).2)

/-- What is read off stores that go together is the same, if it does not hang on what may differ. -/
theorem InStep.view {f : Store → α} (hf : ∀ s s', R s s' → f s' = f s) :
    InStep R (view f) (view f) :=
  fun s s' h => ⟨hf s s' h, h⟩

variable {l l' : Location}

theorem add_inStep_of_near (kind : NodeKind) (hnear : l.Near link l')
    (hl : kind.isType = false → link l l') :
    InStep (Store.Like link) (add l kind) (add l' kind) := by
  intro s s' h
  refine ⟨h.size_eq, fun id => ?_⟩
  rw [node?_add, node?_add, h.size_eq]
  split
  · exact .some ⟨rfl, rfl, hnear, fun hty => hl hty⟩
  · exact h id

theorem add_inStep (hl : link l l') (kind : NodeKind) :
    InStep (Store.Like link) (add l kind) (add l' kind) :=
  add_inStep_of_near kind (.inl hl) fun _ => hl

theorem duplicate_inStep (id : NodeId) :
    InStep (Store.Like link) (duplicate id) (duplicate id) := by
  intro s s' h
  unfold duplicate
  rcases h.node?_cases id with ⟨hs, hs'⟩ | ⟨n, n', hs, hs', hn⟩
  · rw [hs, hs']
    exact ⟨rfl, h⟩
  · have hadd := add_inStep_of_near n.kind hn.near hn.place s s' h
    rw [← hn.kind] at hadd
    rw [hs, hs']
    simpa [hn.kind] using hadd

end Build

end PLang
