import Mathlib.Data.List.Flatten
import PLang.Proofs.Logged.Schedule
import PLang.Proofs.Rechecking.Expressions

/-!
# Everything happens at most once

In a tree, the parts of a node take stretches of nodes that do not meet. So no node is on a schedule
twice, and no field either (`Subtree.spread_schedule`).
-/

namespace PLang

open NodeKind

variable {s : Store} {lo hi root : Nat} {A B C : Set NodeId} {keys keys' : List Key}

/-- The node that something happens to, and the field that is written, if it is not visited. -/
def Key.place : Key → Option Field × NodeId
  | visit site => (none, site.1)
  | note place => (some place.1, place.2)

/-- Everything happens to nodes of a set, and to each at most once. -/
structure Spread (keys : List Key) (A : Set NodeId) : Prop where
  once : (keys.map Key.place).Nodup
  inside : ∀ key ∈ keys, key.place.2 ∈ A

namespace Spread

theorem nil : Spread [] A := ⟨.nil, by simp⟩

theorem mono (h : Spread keys A) (hA : A ⊆ B) : Spread keys B :=
  ⟨h.once, fun key hkey => hA (h.inside key hkey)⟩

theorem sublist (h : Spread keys A) (hkeys : keys'.Sublist keys) : Spread keys' A :=
  ⟨h.once.sublist (hkeys.map Key.place), fun key hkey => h.inside key (hkeys.subset hkey)⟩

theorem perm (h : Spread keys A) (hkeys : keys.Perm keys') : Spread keys' A :=
  ⟨(hkeys.map Key.place).nodup_iff.1 h.once, fun key hkey => h.inside key (hkeys.mem_iff.2 hkey)⟩

theorem append (h : Spread keys A) (h' : Spread keys' B) (hapart : Disjoint A B) :
    Spread (keys ++ keys') (A ∪ B) := by
  constructor
  · rw [List.map_append, List.nodup_append']
    refine ⟨h.once, h'.once, fun place hplace hplace' => ?_⟩
    obtain ⟨key, hkey, rfl⟩ := List.mem_map.1 hplace
    obtain ⟨key', hkey', heq⟩ := List.mem_map.1 hplace'
    exact Set.disjoint_left.1 hapart (h.inside key hkey) (heq ▸ h'.inside key' hkey')
  · intro key hkey
    rcases List.mem_append.1 hkey with hkey | hkey
    · exact .inl (h.inside key hkey)
    · exact .inr (h'.inside key hkey)

end Spread

/-! ### Rows and parts -/

section

variable {g : NodeId → List Key}
  (hg : ∀ (lo root : Nat) (k : NodeKind), Subtree s lo root k → Spread (g root) (Set.Icc lo root))

include hg

theorem Row.spread {slot : Slot} {fits : NodeKind → Bool} {head : Option NodeId}
    (h : Row s lo hi slot fits head) (n : Nat) :
    Spread ((s.chain n head).flatMap g) (Set.Ico lo hi) := by
  induction n generalizing lo head with
  | zero => exact .nil
  | succ n ih =>
    cases h with
    | nil => exact .nil
    | @cons _ _ root _ _ _ k htree hfits hnext _ hrow =>
      have hle := htree.le
      have hle' := hrow.le
      have hapart : Disjoint (Set.Icc lo root) (Set.Ico (root + 1) hi) :=
        Set.disjoint_left.2 fun id hid hid' => Nat.not_lt.2 hid'.1 (Nat.lt_succ_of_le hid.2)
      have hsplit : Set.Icc lo root ∪ Set.Ico (root + 1) hi ⊆ Set.Ico lo hi := by
        intro id hid
        simp only [Set.mem_union, Set.mem_Icc, Set.mem_Ico] at hid ⊢
        omega
      rw [Store.chain, hnext, List.flatMap_cons]
      exact ((hg lo root k htree).append (ih hrow) hapart).mono hsplit

theorem spread_parts {parts : List Part} {As : List (Set NodeId)}
    (h : List.Forall₂ (fun part => PartIn s lo hi part.fits part.node) parts As)
    (hapart : As.Pairwise Disjoint) :
    Spread ((parts.flatMap fun part => s.row part.node).flatMap g)
      (Set.Ico lo hi ∩ {id | ∃ A ∈ As, id ∈ A}) := by
  induction h with
  | nil => exact .nil
  | @cons part A parts As hpart _ ih =>
    have hsubset := hpart.subset
    obtain ⟨lo', hi', slot, rfl, -, -, hrow⟩ := hpart
    rw [List.pairwise_cons] at hapart
    have hapart' : Disjoint (Set.Ico lo' hi') (Set.Ico lo hi ∩ {id | ∃ A ∈ As, id ∈ A}) :=
      Set.disjoint_left.2 fun id hid hid' => by
        obtain ⟨-, A, hA, hid'⟩ := hid'
        exact Set.disjoint_left.1 (hapart.1 A hA) hid hid'
    rw [List.flatMap_cons, List.flatMap_append]
    refine ((hrow.spread hg _).append (ih hapart.2) hapart').mono ?_
    intro id hid
    rcases hid with hid | ⟨hinside, A, hA, hid⟩
    · exact ⟨hsubset hid, _, .head _, hid⟩
    · exact ⟨hinside, A, .tail _ hA, hid⟩

end

theorem Store.mem_row_self (hs : 0 < s.size) (id : NodeId) : id ∈ s.row (some id) := by
  obtain ⟨n, hn⟩ := Nat.exists_eq_succ_of_ne_zero
    (Nat.ne_of_gt (Nat.mul_pos (Nat.succ_pos (s.size + 1)) hs))
  rw [Store.row, hn, Store.chain]
  exact .head _

/-- Checking comes to parts only, one after another. -/
theorem Store.inside_sublist (hs : 0 < s.size) (k : NodeKind) :
    (s.inside k).Sublist (k.parts.flatMap fun part => s.row part.node) := by
  have hone : ∀ id : NodeId, [id].Sublist (s.row (some id)) :=
    fun id => List.singleton_sublist.2 (mem_row_self hs id)
  have hoptional : ∀ id : Option NodeId, id.toList.Sublist (s.row id) := by
    intro id
    cases id with
    | none => exact List.nil_sublist _
    | some id => exact hone id
  cases k with
  | program p => simpa [inside, parts] using hone p.body
  | expression e =>
    simpa [inside, parts] using (hoptional e.left).append (hoptional e.right)
  | compound | reference | call => simp [inside, parts]
  | print id | read id => simpa [inside, parts] using hone id
  | assign target value =>
    simpa [inside, parts] using (hone target).append (hone value)
  | condition c =>
    simpa [inside, parts] using
      (hone c.guard).append ((hone c.thenBody).append (hoptional c.elseBody))
  | whileLoop guardNode body =>
    simpa [inside, parts] using (hone guardNode).append (hone body)
  | returnValue value => simpa [inside, parts] using hoptional value
  | forLoop f =>
    have hparts := (hone f.declaration).append (hone f.body)
    have hheader := List.nil_sublist (s.row (some f.variableNode) ++
      (s.row (some f.assignNode) ++ (s.row (some f.lowerNode) ++ s.row (some f.upperNode))))
    simpa [inside, parts, ForNode.headerParts] using hheader.append hparts
  | function f =>
    by_cases hbody : f.body.isSome = true
    · simp [inside, parts, hbody]
    · simp [inside, hbody]
  | declaration | type | literal | name | number | epsilon => exact List.nil_sublist _

/-! ### Schedules -/

/-- What happens to a node itself, before and after what happens to its parts. -/
theorem spread_own (k : NodeKind) (f : Option NodeId) (id : NodeId) :
    Spread (.visit (id, f) :: (k.opening id ++ k.closing id)) {id} := by
  cases k <;> constructor <;> simp [opening, closing, Key.place]

theorem Subtree.spread_inside {k : NodeKind} {g : NodeId → List Key} (h : Subtree s lo root k)
    (hg : ∀ (lo root : Nat) (k : NodeKind), Subtree s lo root k →
      Spread (g root) (Set.Icc lo root)) :
    Spread ((s.inside k).flatMap g) (Set.Ico lo root) := by
  cases htype : k.isType with
  | true =>
    cases k with
    | type => exact .nil
    | _ => cases htype
  | false =>
    obtain ⟨As, hAs, hapart⟩ := h.partsIn htype
    have hs : 0 < s.size := Nat.zero_lt_of_lt (Store.lt_size_of_kind? h.kind?)
    have hparts := (spread_parts hg hAs hapart).mono Set.inter_subset_left
    exact hparts.sublist ((Store.inside_sublist hs k).flatMap g)

/-- In a tree, everything happens at most once. -/
theorem Subtree.spread_schedule {k : NodeKind} (h : Subtree s lo root k) (n : Nat)
    (f : Option NodeId) : Spread (s.schedule n f root) (Set.Icc lo root) := by
  induction n generalizing lo root k f with
  | zero => exact .nil
  | succ n ih =>
    have hparts := h.spread_inside fun lo root' k' htree => ih htree (k.around root f)
    have hapart : Disjoint {root} (Set.Ico lo root) := by simp
    have hroot : {root} ∪ Set.Ico lo root ⊆ Set.Icc lo root := by
      rw [Set.union_subset_iff, Set.singleton_subset_iff]
      exact ⟨⟨h.le, Nat.le_refl root⟩, Set.Ico_subset_Icc_self⟩
    refine (((spread_own k f root).append hparts hapart).mono hroot).perm ?_
    rw [Store.schedule, h.kind?, Option.map_some, Option.getD_some, List.cons_append,
      List.append_assoc, List.append_assoc]
    exact (List.perm_append_comm.append_left _).cons _

end PLang
