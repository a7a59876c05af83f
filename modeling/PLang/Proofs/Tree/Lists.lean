import Mathlib.Data.List.Lattice
import Mathlib.Data.List.Nodup
import Mathlib.Data.List.Perm.Subperm
import PLang.Tree.Build

/-!
# Lists of nodes

A list of nodes is kept in the links between them. `Store.IsList` says what its members are, without
going through `Store.siblings`, which follows the links for as many steps as there are nodes. A list
has no node twice, so these steps are enough, and `Build.appendTo` adds to the end of it.
-/

namespace PLang

open Build List Option

variable {n : Nat} {node : Node}

/-- What a node holds and where it stands, without its link. -/
def Node.content (node : Node) : Location × NodeKind := (node.location, node.kind)

/-- The members of a list: the nodes from the first one on, each one followed by the next, up to one
that is followed by none. -/
inductive Store.IsList (s : Store) : Option NodeId → List NodeId → Prop
  | nil : IsList s none []
  | cons {id : NodeId} {node : Node} {ids : List NodeId} (found : s.node? id = some node)
    (rest : IsList s node.next ids) : IsList s (some id) (id :: ids)

theorem Store.lt_size_of_node? {s : Store} {id : NodeId} (h : s.node? id = some node) :
    id < s.size := by
  refine Nat.lt_of_not_le fun hle => ?_
  rw [(s.node?_eq_none_iff id).2 hle] at h
  cases h

namespace Store.IsList

variable {s s' : Store} {head : Option NodeId} {id last : NodeId} {ids ids' : List NodeId}

theorem unique (h : s.IsList head ids) (h' : s.IsList head ids') : ids = ids' := by
  induction h generalizing ids' with
  | nil =>
    cases h'
    rfl
  | cons found _ ih =>
    cases h' with
    | cons found' rest' =>
      cases found.symm.trans found'
      rw [ih rest']

/-- From any member on, there is a list again. -/
theorem drop {front : List NodeId} (h : s.IsList head (front ++ id :: ids)) :
    s.IsList (some id) (id :: ids) := by
  induction front generalizing head with
  | nil =>
    cases h with
    | cons found rest => exact .cons found rest
  | cons first front ih =>
    cases h with
    | cons _ rest => exact ih rest

section

variable (h : s.IsList head ids)

include h

theorem nodup : ids.Nodup := by
  induction h with
  | nil => exact .nil
  | @cons id node ids found rest ih =>
    refine nodup_cons.2 ⟨fun hid => ?_, ih⟩
    -- the list from the second place of a node on would be the whole list
    obtain ⟨front, behind, rfl⟩ := append_of_mem hid
    have hlength := congrArg length ((cons found rest).unique rest.drop)
    simp only [length_cons, length_append] at hlength
    omega

theorem lt_size (hid : id ∈ ids) : id < s.size := by
  obtain ⟨front, behind, rfl⟩ := append_of_mem hid
  cases h.drop with
  | cons found _ => exact lt_size_of_node? found

/-- A list has at most as many members as there are nodes. -/
theorem length_le : ids.length ≤ s.size := by
  have hsub : ids ⊆ range s.size := fun id hid => mem_range.2 (h.lt_size hid)
  have hle := (subperm_of_subset h.nodup hsub).length_le
  rwa [length_range] at hle

theorem chain_eq (hn : ids.length ≤ n) : s.chain n head = ids := by
  induction h generalizing n with
  | nil => exact chain_none s n
  | cons found _ ih =>
    obtain ⟨n, rfl⟩ : ∃ m, n = m + 1 := Nat.exists_eq_succ_of_ne_zero (by
      rw [length_cons] at hn
      omega)
    rw [chain, next?, found, bind_some, ih (Nat.le_of_succ_le_succ hn)]

theorem siblings_eq : s.siblings head = ids := h.chain_eq h.length_le

/-- A list stays as long as the links of its nodes do. -/
theorem keep (same : ∀ id ∈ ids, (s'.node? id).map Node.next = (s.node? id).map Node.next) :
    s'.IsList head ids := by
  induction h with
  | nil => exact .nil
  | @cons id node ids found _ ih =>
    have hlink := same id (.head _)
    rw [found, map_some] at hlink
    obtain ⟨node', found', hnext⟩ := map_eq_some_iff.1 hlink
    refine .cons found' (hnext ▸ ih fun other hother => ?_)
    exact same other (.tail _ hother)

/-- A list comes to the end of another one when the last member of that one links to it. -/
theorem link {more : List NodeId} (hlast : ids.getLast? = some last)
    (hmore : s.IsList (some id) more) (hid : last ∉ more) :
    (s.modify last fun node => { node with next := some id }).IsList head (ids ++ more) := by
  have hkept : ∀ other, last ≠ other →
      (s.modify last fun node => { node with next := some id }).node? other = s.node? other :=
    fun other hne => by rw [node?_modify, if_neg hne]
  have hmore' : (s.modify last fun node => { node with next := some id }).IsList (some id) more :=
    hmore.keep fun other hother => by rw [hkept other fun heq => hid (heq ▸ hother)]
  have hnodup := h.nodup
  induction h with
  | nil => cases hlast
  | @cons first old ids found rest ih =>
    obtain ⟨hfirst, hnodup⟩ := nodup_cons.1 hnodup
    cases ids with
    | nil =>
      cases hlast
      have hlinked : (s.modify first fun node => { node with next := some id }).node? first =
          some { old with next := some id } := by
        rw [node?_modify, if_pos rfl, found, map_some]
      exact .cons hlinked hmore'
    | cons second ids =>
      rw [getLast?_cons_cons] at hlast
      have hne' : last ≠ first := fun heq => hfirst (heq ▸ mem_of_getLast? hlast)
      exact .cons ((hkept first hne').trans found) (ih hlast hnodup)

/-- The last member of a list is followed by none. -/
theorem next?_getLast (hlast : ids.getLast? = some last) :
    ∃ node, s.node? last = some node ∧ node.next = none := by
  induction h with
  | nil => cases hlast
  | @cons first node ids found rest ih =>
    cases ids with
    | nil =>
      cases hlast
      cases hnext : node.next with
      | none => exact ⟨node, found, hnext⟩
      | some second => rw [hnext] at rest; cases rest
    | cons second ids => exact ih (by rwa [getLast?_cons_cons] at hlast)

end

/-- Appending to a list changes the link of its last member. -/
theorem append_eq (h : s.IsList (some id) ids) (hlast : ids.getLast? = some last) (node : NodeId) :
    s.append id node = s.modify last fun n => { n with next := some node } := by
  rw [append, h.siblings_eq, getLastD_eq_getLast?, hlast, getD_some]

/-- Appending a node that is followed by none: it comes to the end of the list, what nodes hold
stays, and so do the links of all nodes but the last one of the list. -/
theorem appendTo (h : s.IsList head ids) (hid : id ∉ ids) (hnode : s.node? id = some node)
    (hnone : node.next = none) :
    (appendTo head id s).2.IsList (some (appendTo head id s).1) (ids ++ [id]) ∧
      (appendTo head id s).2.size = s.size ∧
      (∀ other ∉ ids, (appendTo head id s).2.node? other = s.node? other) ∧
      ∀ other, ((appendTo head id s).2.node? other).map Node.content =
        (s.node? other).map Node.content := by
  cases h with
  | nil =>
    have hrest : s.IsList node.next [] := hnone ▸ .nil
    exact ⟨.cons hnode hrest, rfl, fun _ _ => rfl, fun _ => rfl⟩
  | @cons first old ids found rest =>
    have hlist : s.IsList (some first) (first :: ids) := .cons found rest
    obtain ⟨last, hlast⟩ : ∃ last, (first :: ids).getLast? = some last :=
      ⟨_, getLast?_eq_some_getLast (cons_ne_nil first ids)⟩
    have hstore : (appendTo (some first) id s).2 =
        s.modify last fun node => { node with next := some id } := hlist.append_eq hlast id
    have hone : s.IsList (some id) [id] := .cons hnode (hnone ▸ .nil)
    have hfree : last ∉ [id] := fun h =>
      hid (mem_singleton.1 h ▸ mem_of_getLast? hlast)
    rw [hstore]
    refine ⟨hlist.link hlast hone hfree, size_modify .., fun other hother => ?_,
      fun other => ?_⟩
    · have hne : last ≠ other := fun heq => hother (heq ▸ mem_of_getLast? hlast)
      rw [node?_modify, if_neg hne]
    · rw [node?_modify]
      split
      · rw [Option.map_map]
        rfl
      · rfl

end Store.IsList

/-! ### Links are lists -/

namespace Store

variable {s s' : Store} {head : Option NodeId} {last : NodeId}

/-- A chain comes to its end where it comes to a node that is followed by none. -/
theorem exists_isList_of_mem_chain (hnode : s.node? last = some node) (hnone : node.next = none)
    (h : last ∈ s.chain n head) : ∃ ids, s.IsList head ids ∧ ids.getLast? = some last := by
  induction n generalizing head with
  | zero => cases h
  | succ n ih =>
    cases head with
    | none => cases h
    | some id =>
      rw [chain, mem_cons] at h
      by_cases heq : last = id
      · subst heq
        exact ⟨[last], .cons hnode (hnone ▸ .nil), rfl⟩
      · obtain ⟨ids, hids, hlast⟩ := ih (h.resolve_left heq)
        cases hfound : s.node? id with
        | none =>
          rw [next?, hfound] at hids
          cases hids
          cases hlast
        | some first =>
          rw [next?, hfound] at hids
          refine ⟨id :: ids, .cons hfound hids, ?_⟩
          rw [getLast?_cons, hlast, getD_some]

/-- Nodes that are appended one after another. -/
theorem isList_foldlM {ids before : List NodeId} (hlist : s.IsList head before)
    (hunlinked : ∀ id ∈ ids, ∃ node, s.node? id = some node ∧ node.next = none)
    (hnodup : (before ++ ids).Nodup) :
    ∃ list s', (ids.foldlM (fun list id => some <$> appendTo list id) head : Build _) s =
      (list, s') ∧ s'.IsList list (before ++ ids) := by
  induction ids generalizing s head before with
  | nil => exact ⟨head, s, rfl, by rwa [append_nil]⟩
  | cons id ids ih =>
    obtain ⟨node, hnode, hnone⟩ := hunlinked id (.head _)
    rw [append_cons] at hnodup ⊢
    have hid : id ∉ before := fun hmem =>
      (nodup_append'.1 (nodup_append'.1 hnodup).1).2.2 hmem (.head _)
    obtain ⟨hlist', -, hkept, -⟩ := hlist.appendTo hid hnode hnone
    refine ih hlist' (fun other hother => ?_) hnodup
    obtain ⟨node', hnode', hnone'⟩ := hunlinked other (.tail _ hother)
    refine ⟨node', (hkept other fun hmem => ?_).trans hnode', hnone'⟩
    exact (nodup_append'.1 hnodup).2.2 (mem_append_left _ hmem) hother

/-- The links between nodes are lists. Appending a list to another one makes every list that ends
where that one ends go on with it, leaves all others as they are and changes nothing else. Appending
nodes one by one makes the list of them. A copy of a node is a new node without a successor, and
leaves all nodes and so all lists as they are. -/
theorem links_are_lists (s : Store) :
    (∀ head node last hs ns, s.IsList (some head) hs → s.IsList (some node) ns →
      hs.getLast? = some last → last ∉ ns → ∃ s', Build.append head node s = (head, s') ∧
        s'.siblings (some head) = s.siblings (some head) ++ s.siblings (some node) ∧
        s'.listLength (some head) = s.listLength (some head) + s.listLength (some node) ∧
        (∀ other ids, s.IsList (some other) ids → ids.getLast? = some last →
          s'.IsList (some other) (ids ++ ns)) ∧
        (∀ other, (∀ ids, s.IsList (some other) ids → ids.getLast? ≠ some last) →
          ∀ n, s'.chain n (some other) = s.chain n (some other)) ∧
        s'.size = s.size ∧ ∀ id, (s'.node? id).map Node.content = (s.node? id).map Node.content) ∧
      (∀ ids : List NodeId, ids.Nodup →
        (∀ id ∈ ids, ∃ node, s.node? id = some node ∧ node.next = none) →
        ∃ list s', (ids.foldlM (fun list id => some <$> Build.appendTo list id) none : Build _) s =
          (list, s') ∧ s'.siblings list = ids) ∧
      ∀ id node, s.node? id = some node → ∃ s', Build.duplicate id s = (s.size, s') ∧
        s'.size = s.size + 1 ∧ s'.node? s.size = some ⟨node.location, node.kind, none⟩ ∧
        (∀ other < s.size, s'.node? other = s.node? other) ∧
        ∀ head n, (∀ other ∈ s.chain n head, other < s.size) → s'.chain n head =
          s.chain n head := by
  refine ⟨?_, ?_, ?_⟩
  · intro head node last hs ns hhead hnode hlast hfree
    obtain ⟨tail, htail, hnone⟩ := hhead.next?_getLast hlast
    have hstore := hhead.append_eq hlast node
    have hlinked : (s.append head node).IsList (some head) (hs ++ ns) :=
      hstore ▸ hhead.link hlast hnode hfree
    have hsiblings : (s.append head node).siblings (some head) =
        s.siblings (some head) ++ s.siblings (some node) := by
      rw [hlinked.siblings_eq, hhead.siblings_eq, hnode.siblings_eq]
    refine ⟨s.append head node, rfl, hsiblings, ?_, fun other ids hids hend => ?_,
      fun other hother n => ?_, ?_, fun id => ?_⟩
    · rw [listLength, hsiblings, List.length_append]
      rfl
    · exact hstore ▸ hids.link hend hnode hfree
    · refine chain_eq_of_next? fun id hid => ?_
      have hne : last ≠ id := by
        rintro rfl
        obtain ⟨ids, hids, hend⟩ := exists_isList_of_mem_chain htail hnone hid
        exact hother ids hids hend
      rw [next?, next?, hstore, node?_modify, if_neg hne]
    · rw [hstore, size_modify]
    · rw [hstore, node?_modify]
      split
      · rw [Option.map_map]
        rfl
      · rfl
  · intro ids hnodup hunlinked
    obtain ⟨list, s', hrun, hlist⟩ := isList_foldlM (s := s) .nil hunlinked hnodup
    exact ⟨list, s', hrun, hlist.siblings_eq⟩
  · intro id node hnode
    have hrun : Build.duplicate id s = Build.add node.location node.kind s := by
      rw [Build.duplicate, hnode]
    have hold : ∀ other < s.size, (Build.add node.location node.kind s).2.node? other =
        s.node? other := fun other hother => by rw [Build.node?_add, if_neg (Nat.ne_of_lt hother)]
    refine ⟨(Build.add node.location node.kind s).2, hrun, Build.size_add .., ?_, hold,
      fun head n hinside => ?_⟩
    · rw [Build.node?_add, if_pos rfl]
    · exact chain_eq_of_next? fun other hother =>
        by rw [next?, next?, hold other (hinside other hother)]

/-- Two lists, of two nodes and of one node. -/
def twoLists : Store :=
  ⟨#[⟨.nowhere, .name "a", some 1⟩, ⟨.nowhere, .name "b", none⟩, ⟨.nowhere, .name "c", none⟩]⟩

theorem links_are_lists_twoLists :
    (∃ s', Build.append 0 2 twoLists = (0, s') ∧ s'.siblings (some 0) = [0, 1, 2] ∧
        s'.IsList (some 1) [1, 2]) ∧
      ∃ s', Build.duplicate 0 twoLists = (3, s') ∧ s'.siblings (some 0) = [0, 1] := by
  have hsecond : twoLists.IsList (some 1) [1] := .cons rfl .nil
  have hfirst : twoLists.IsList (some 0) [0, 1] := .cons rfl hsecond
  have hthird : twoLists.IsList (some 2) [2] := .cons rfl .nil
  obtain ⟨happend, -, hduplicate⟩ := links_are_lists twoLists
  obtain ⟨s', hrun, hsiblings, -, hends, -⟩ :=
    happend 0 2 1 [0, 1] [2] hfirst hthird rfl (by decide)
  rw [hfirst.siblings_eq, hthird.siblings_eq] at hsiblings
  obtain ⟨s2, hcopy, hsize, -, -, hchains⟩ := hduplicate 0 _ rfl
  refine ⟨⟨s', hrun, hsiblings, hends 1 [1] hsecond rfl⟩, s2, hcopy, ?_⟩
  rw [siblings, hsize, hchains (some 0) _ (by decide)]
  rfl

end Store

end PLang
