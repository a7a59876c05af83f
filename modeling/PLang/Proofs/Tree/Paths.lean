import Mathlib.Data.Fintype.Card
import PLang.Proofs.Tree.Shape

/-!
# Paths to nodes

There is exactly one path of links from the root of a tree to each of its nodes, apart from the
dimensions of formal parameters.
-/

namespace PLang

open List NodeKind Option

variable {s : Store}

variable {first id other owner : NodeId} {head : Option NodeId} {lo n root : Nat} {path : List Link}
  {slot : Slot}

/-! ### Links out of a node -/

/-- The nodes in the slots of a node. -/
theorem NodeKind.slot?_eq_some {k : NodeKind} {child : NodeId} :
    k.slot? slot = some child ↔ ∃ part ∈ k.parts, part.slot = slot ∧ part.node = some child := by
  have hnodup := k.nodup_slots
  unfold slot?
  generalize k.parts = parts at hnodup ⊢
  induction parts with
  | nil => simp
  | cons first parts ih =>
    rw [map_cons, nodup_cons] at hnodup
    by_cases hslot : first.slot = slot
    · subst hslot
      rw [find?_cons_of_pos (by simp)]
      refine ⟨fun h => ⟨first, .head _, rfl, h⟩, ?_⟩
      rintro ⟨part, hpart, hslot, hnode⟩
      rcases mem_cons.1 hpart with rfl | hpart
      · exact hnode
      · exact absurd (mem_map.2 ⟨part, hpart, hslot⟩) hnodup.1
    · rw [find?_cons_of_neg (by simpa using hslot)]
      refine (ih hnodup.2).trans ⟨fun ⟨part, hpart, h⟩ => ⟨part, .tail _ hpart, h⟩, ?_⟩
      rintro ⟨part, hpart, hpslot, hnode⟩
      rcases mem_cons.1 hpart with rfl | hpart
      · exact absurd hpslot hslot
      · exact ⟨part, hpart, hpslot, hnode⟩

/-- A list with a member has a first node. -/
theorem Store.exists_head_of_mem (h : id ∈ s.chain n head) : ∃ first, head = some first := by
  cases head with
  | none =>
    rw [chain_none] at h
    cases h
  | some first => exact ⟨first, rfl⟩

namespace StoreOk

/-- The members of a part are of the kind that the part asks for. -/
theorem exists_kind (h : StoreOk s) {k : NodeKind} (hk : s.kind? owner = some k) (part : Part)
    (hpart : part ∈ k.parts) (hid : id ∈ s.siblings part.node) :
    ∃ k', s.kind? id = some k' ∧ part.fits k' = true := by
  obtain ⟨first, hnode⟩ := Store.exists_head_of_mem hid
  rw [hnode] at hid
  exact (h.parts owner k hk part hpart first hnode).2.members id hid

/-- What follows a member of a list belongs to the list. -/
theorem mem_chain_next (h : StoreOk s) {first id other : Nat} (hid : id ∈ s.chain n (some first))
    (hother : s.next? id = some other) (hlt : other < first + n) :
    other ∈ s.chain n (some first) := by
  induction n generalizing first with
  | zero => cases hid
  | succ n ih =>
    rw [Store.chain] at hid ⊢
    refine .tail _ ?_
    rcases List.mem_cons.1 hid with rfl | hid
    · have hgt : id < other := (h.next id other hother).1
      rw [hother]
      cases n with
      | zero => omega
      | succ n => exact .head _
    · obtain ⟨second, hnext⟩ := Store.exists_head_of_mem hid
      have hgt : first < second := (h.next first second hnext).1
      rw [hnext] at hid ⊢
      exact ih hid (by omega)

theorem mem_siblings_self (h : 0 < s.size) : first ∈ s.siblings (some first) := by
  rw [Store.siblings]
  obtain ⟨n, hn⟩ := Nat.exists_eq_succ_of_ne_zero (Nat.ne_of_gt h)
  rw [hn]
  exact .head _

section

variable (h : StoreOk s)

include h

theorem mem_siblings_next (hid : id ∈ s.siblings head) (hother : s.next? id = some other) :
    other ∈ s.siblings head := by
  obtain ⟨first, rfl⟩ := Store.exists_head_of_mem hid
  have hlt := (h.next id other hother).2
  exact h.mem_chain_next hid hother (Nat.lt_of_lt_of_le hlt (Nat.le_add_left _ _))

theorem chain_eq_chain {m first : Nat} (hfirst : first < s.size) (hn : s.size ≤ first + n)
    (hm : s.size ≤ first + m) : s.chain n (some first) = s.chain m (some first) := by
  induction n generalizing m first with
  | zero => omega
  | succ n ih =>
    obtain ⟨m, rfl⟩ : ∃ m', m = m' + 1 := ⟨m - 1, by omega⟩
    rw [Store.chain, Store.chain]
    cases hnext : s.next? first with
    | none => rw [Store.chain_none, Store.chain_none]
    | some second =>
      obtain ⟨hgt, hlt⟩ : first < second ∧ second < s.size := h.next first second hnext
      exact congrArg (first :: ·) (ih hlt (by omega) (by omega))

/-- A list is its first node and the list that follows. -/
theorem siblings_cons {id : Nat} (hid : id < s.size) :
    s.siblings (some id) = id :: s.siblings (s.next? id) := by
  obtain ⟨n, hn⟩ : ∃ n, s.size = n + 1 := ⟨s.size - 1, by omega⟩
  rw [Store.siblings, Store.siblings, hn, Store.chain]
  cases hnext : s.next? id with
  | none => rw [Store.chain_none, Store.chain_none]
  | some other =>
    obtain ⟨hgt, hlt⟩ : id < other ∧ other < s.size := h.next id other hnext
    exact congrArg (id :: ·) (h.chain_eq_chain hlt (by omega) (by omega))

/-- A list has no node twice. -/
theorem nodup_siblings (head : Option NodeId) : (s.siblings head).Nodup := by
  have hsorted : ∀ n head, (∀ id ∈ s.chain n head, ∀ first, head = some first → first ≤ id) ∧
      (s.chain n head).Pairwise (· < ·) := by
    intro n
    induction n with
    | zero => exact fun head => ⟨nofun, .nil⟩
    | succ n ih =>
      intro head
      cases head with
      | none => exact ⟨nofun, .nil⟩
      | some first =>
        obtain ⟨hle, hpairs⟩ := ih (s.next? first)
        have hlt : ∀ id ∈ s.chain n (s.next? first), first < id := by
          intro id hid
          obtain ⟨second, hnext⟩ := Store.exists_head_of_mem hid
          exact Nat.lt_of_lt_of_le (h.next first second hnext).1 (hle id hid second hnext)
        refine ⟨?_, pairwise_cons.2 ⟨hlt, hpairs⟩⟩
        rintro id hid _ ⟨⟩
        rcases mem_cons.1 hid with rfl | hid
        · exact .refl
        · exact Nat.le_of_lt (hlt id hid)
  exact (hsorted s.size head).2.imp Nat.ne_of_lt

/-- A dimension is a whole number. -/
theorem exists_number_of_holds (hid : s.Holds owner id) : ∃ n, s.kind? id = some (.number n) := by
  obtain ⟨type, htype, hmem⟩ := hid
  obtain ⟨k, hk, hfits⟩ :=
    h.exists_kind htype ⟨.dimensions, type.dimensions, isNumber⟩ (.head _) hmem
  cases k with
  | number n => exact ⟨n, hk⟩
  | _ => cases hfits

/-- From a dimension, the only link leads to the following one. -/
theorem follow?_of_holds {link : Link} (hid : s.Holds owner id)
    (hother : s.follow? id link = some other) :
    link = .next ∧ id < other ∧ s.Holds owner other := by
  cases link with
  | slot slot =>
    obtain ⟨n, hn⟩ := h.exists_number_of_holds hid
    rw [Store.follow?, hn] at hother
    cases hother
  | next =>
    obtain ⟨type, htype, hmem⟩ := hid
    exact ⟨rfl, (h.next id other hother).1, type, htype, h.mem_siblings_next hmem hother⟩

theorem holds_walk? (hid : s.Holds owner id) (hother : s.walk? id path = some other) :
    s.Holds owner other ∧ (path ≠ [] → id < other) := by
  induction path generalizing id with
  | nil => exact ⟨some.inj hother ▸ hid, fun h => absurd rfl h⟩
  | cons link path ih =>
    obtain ⟨mid, hmid, hrest⟩ := bind_eq_some_iff.1 hother
    obtain ⟨-, hlt, hholds⟩ := h.follow?_of_holds hid hmid
    obtain ⟨hother', hlt'⟩ := ih hholds hrest
    refine ⟨hother', fun _ => ?_⟩
    cases path with
    | nil => exact some.inj hrest ▸ hlt
    | cons _ _ => exact Nat.lt_trans hlt (hlt' nofun)

/-- Two ways along the dimensions of a type are the same. -/
theorem walk?_unique_of_holds {path' : List Link} (hid : s.Holds owner id)
    (hpath : s.walk? id path = some other) (hpath' : s.walk? id path' = some other) :
    path = path' := by
  induction path generalizing id path' with
  | nil =>
    cases hpath
    by_contra hne
    exact Nat.lt_irrefl _ ((h.holds_walk? hid hpath').2 (Ne.symm hne))
  | cons link path ih =>
    cases path' with
    | nil =>
      cases hpath'
      exact absurd ((h.holds_walk? hid hpath).2 nofun) (Nat.lt_irrefl _)
    | cons link' path' =>
      obtain ⟨mid, hmid, hrest⟩ := bind_eq_some_iff.1 hpath
      obtain ⟨mid', hmid', hrest'⟩ := bind_eq_some_iff.1 hpath'
      obtain ⟨rfl, -, hholds⟩ := h.follow?_of_holds hid hmid
      obtain ⟨rfl, -, -⟩ := h.follow?_of_holds hid hmid'
      cases hmid.symm.trans hmid'
      rw [ih hholds hrest hrest']


end
end StoreOk

/-! ### One path to every node -/

/-- Copies of the types of formal parameters. -/
def Store.Copied (s : Store) (id : NodeId) : Prop :=
  ∃ (original : Nat) (d : DeclarationNode) (type : TypeNode), original < id ∧
    s.kind? id = some (.type type) ∧ s.kind? original = some (.type type) ∧
    s.kind? (original + 1) = some (.declaration d) ∧ d.kind = .parameter ∧ d.type = original

/-- The node to which a path leads that does not enter copies. -/
def Store.Leads (s : Store) : NodeId → List Link → NodeId → Prop
  | id, [], other => other = id
  | id, link :: path, other => (s.Copied id → link = .next) ∧
      ∃ child, s.follow? id link = some child ∧ s.Leads child path other

/-- Paths that do not start with the step to the following node. -/
def Down (path : List Link) : Prop := path.head? ≠ some .next

/-- Some paths lead to every node of a stretch once, and to no other nodes. -/
structure Covers {α : Type} (lo hi : Nat) (leads : α → NodeId → Prop) : Prop where
  inside : ∀ path (id : Nat), leads path id → lo ≤ id ∧ id < hi
  unique : ∀ id : Nat, lo ≤ id → id < hi → ∃! path, leads path id

/-- Two stretches side by side. -/
theorem Covers.append {α β γ : Type} {mid hi : Nat} {first : α → NodeId → Prop}
    {second : β → NodeId → Prop} {both : γ → NodeId → Prop} (f : α → γ) (g : β → γ) (hlo : lo ≤ mid)
    (hhi : mid ≤ hi) (hfirst : Covers lo mid first) (hsecond : Covers mid hi second)
    (hboth : ∀ path id, both path id ↔
      (∃ a, path = f a ∧ first a id) ∨ ∃ b, path = g b ∧ second b id) : Covers lo hi both where
  inside path id h := by
    rcases (hboth path id).1 h with ⟨a, -, ha⟩ | ⟨b, -, hb⟩
    · have := hfirst.inside a id ha
      omega
    · have := hsecond.inside b id hb
      omega
  unique id h1 h2 := by
    by_cases hmid : id < mid
    · obtain ⟨a, ha, hunique⟩ := hfirst.unique id h1 hmid
      refine ⟨f a, (hboth _ _).2 (.inl ⟨a, rfl, ha⟩), fun path hpath => ?_⟩
      rcases (hboth path id).1 hpath with ⟨a', rfl, ha'⟩ | ⟨b, -, hb⟩
      · rw [hunique a' ha']
      · exact absurd (hsecond.inside b id hb).1 (Nat.not_le.2 hmid)
    · obtain ⟨b, hb, hunique⟩ := hsecond.unique id (Nat.not_lt.1 hmid) h2
      refine ⟨g b, (hboth _ _).2 (.inr ⟨b, rfl, hb⟩), fun path hpath => ?_⟩
      rcases (hboth path id).1 hpath with ⟨a, -, ha⟩ | ⟨b', rfl, hb'⟩
      · exact absurd (hfirst.inside a id ha).2 hmid
      · rw [hunique b' hb']

theorem Covers.empty {α : Type} {leads : α → NodeId → Prop} (h : ∀ path id, ¬leads path id) :
    Covers lo lo leads where
  inside path id hpath := absurd hpath (h path id)
  unique _ h1 h2 := absurd h2 (Nat.not_lt.2 h1)

theorem Covers.single (root : Nat) : Covers root (root + 1) fun (_ : Unit) id => id = root where
  inside _ _ h := by
    subst h
    omega
  unique id h1 h2 := ⟨(), Nat.le_antisymm (Nat.le_of_lt_succ h2) h1, fun _ _ => rfl⟩

/-- A row of numbers holds nothing else. -/
theorem Row.exists_number {hi : Nat} (h : Row s lo hi slot isNumber head) (id : Nat)
    (hlo : lo ≤ id) (hhi : id < hi) : ∃ n, s.kind? id = some (.number n) := by
  induction hn : hi - lo using Nat.strongRecOn generalizing lo head with
  | ind n ih =>
    cases h with
    | nil => omega
    | @cons _ _ root _ _ head k htree hfits _ _ hrow =>
      have hle := htree.le
      obtain ⟨m, rfl⟩ : ∃ m, k = .number m := by
        cases k with
        | number m => exact ⟨m, rfl⟩
        | _ => cases hfits
      by_cases hroot : root < id
      · exact ih _ (by omega) hrow hroot rfl
      · cases htree with
        | node hkind _ hperm htiling =>
          obtain rfl := perm_nil.1 hperm
          cases htiling
          obtain rfl := Nat.le_antisymm (Nat.not_lt.1 hroot) hlo
          exact ⟨m, hkind⟩

/-- A type whose dimensions stand right before it is no copy. -/
theorem Tiling.not_copied (hs : StoreOk s) {type : TypeNode} {parts : List Part}
    (hkind : s.kind? root = some (.type type)) (hperm : parts.Perm (NodeKind.type type).parts)
    (htiling : Tiling s lo root parts) (hfirst : type.dimensions = some first) :
    ¬s.Copied root := by
  obtain rfl := List.perm_singleton.1 hperm
  rintro ⟨original, d, type', hlt, hkind', horiginal, -⟩
  rw [hkind, Option.some_inj, NodeKind.type.injEq] at hkind'
  subst hkind'
  -- the dimensions come before the original, which therefore stands among them
  have hbefore : first < original := (hs.parts _ _ horiginal ⟨.dimensions, type.dimensions, _⟩
    (.head _) first hfirst).2.lt
  cases htiling with
  | cons hrow hnil =>
    cases hnil
    have hafter := (hfirst ▸ hrow).head_lt.1
    obtain ⟨n, hn⟩ := hrow.exists_number original (Nat.le_trans hafter (Nat.le_of_lt hbefore)) hlt
    rw [horiginal] at hn
    cases hn

/-- The paths down from a node lead to the node and into its parts. -/
theorem Tiling.leads_iff (hs : StoreOk s) {k : NodeKind} {parts : List Part}
    (hkind : s.kind? root = some k) (hperm : parts.Perm k.parts) (htiling : Tiling s lo root parts)
    (path : List Link) (id : NodeId) : Down path ∧ s.Leads root path id ↔
      (∃ inner : Slot × List Link, path = .slot inner.1 :: inner.2 ∧ ∃ part ∈ parts,
        part.slot = inner.1 ∧ ∃ first, part.node = some first ∧ s.Leads first inner.2 id) ∨
      ∃ _ : Unit, path = [] ∧ id = root := by
  rcases path with _ | ⟨slot | _, path⟩
  · simp [Down, Store.Leads]
  · have hcopied : ∀ child, k.slot? slot = some child → ¬s.Copied root := by
      rintro child hchild ⟨original, d, type, hlt, hkind', h⟩
      cases hkind.symm.trans hkind'
      obtain ⟨part, hpart, -, hnode⟩ := slot?_eq_some.1 hchild
      obtain rfl := mem_singleton.1 hpart
      exact htiling.not_copied hs hkind hperm hnode ⟨original, d, type, hlt, hkind', h⟩
    have hfollow : s.follow? root (.slot slot) = k.slot? slot := by
      rw [Store.follow?, hkind, Option.bind_some]
    rw [Store.Leads, hfollow]
    constructor
    · rintro ⟨-, -, child, hchild, hleads⟩
      obtain ⟨part, hpart, hslot, hnode⟩ := slot?_eq_some.1 hchild
      exact .inl ⟨(slot, path), rfl, part, hperm.mem_iff.2 hpart, hslot, child, hnode, hleads⟩
    · rintro (⟨inner, heq, part, hpart, hslot, child, hnode, hleads⟩ | ⟨_, heq, -⟩)
      · cases heq
        have hchild := slot?_eq_some.2 ⟨part, hperm.mem_iff.1 hpart, hslot, hnode⟩
        exact ⟨nofun, fun h => absurd h (hcopied child hchild), child, hchild, hleads⟩
      · cases heq
  · simp [Down]

/-- The paths from a member of a list lead down from it or on to the members that follow. -/
theorem Store.leads_iff_of_next (hnext : s.next? root = head) (path : List Link) (id : NodeId) :
    (∃ first, some root = some first ∧ s.Leads first path id) ↔
      (∃ down, path = down ∧ Down down ∧ s.Leads root down id) ∨
      ∃ rest, path = .next :: rest ∧ ∃ first, head = some first ∧ s.Leads first rest id := by
  constructor
  · rintro ⟨first, hfirst, hleads⟩
    cases hfirst
    rcases path with _ | ⟨slot | _, path⟩
    · exact .inl ⟨[], rfl, nofun, hleads⟩
    · exact .inl ⟨_, rfl, nofun, hleads⟩
    · obtain ⟨-, child, hchild, hleads⟩ := hleads
      exact .inr ⟨path, rfl, child, hnext.symm.trans hchild, hleads⟩
  · rintro (⟨_, rfl, -, hleads⟩ | ⟨path, rfl, child, hchild, hleads⟩)
    · exact ⟨root, rfl, hleads⟩
    · exact ⟨root, rfl, fun _ => rfl, child, hnext.trans hchild, hleads⟩

/-- Without entering copies there is one path to every node. -/
theorem covers_of_shape (hs : StoreOk s) :
    (∀ {lo root k}, Subtree s lo root k →
      Covers lo (root + 1) fun path id => Down path ∧ s.Leads root path id) ∧
      (∀ {lo hi slot fits head}, Row s lo hi slot fits head →
        Covers lo hi fun path id => ∃ first, head = some first ∧ s.Leads first path id) ∧
      ∀ {lo hi parts}, Tiling s lo hi parts →
        Covers lo hi fun (path : Slot × List Link) id => ∃ part ∈ parts, part.slot = path.1 ∧
          ∃ first, part.node = some first ∧ s.Leads first path.2 id := by
  refine Subtree.induction ?node ?copy ?empty ?cons ?nil ?append
  case node =>
    intro lo root k parts hkind _ hperm htiling ih
    exact ih.append (fun path => .slot path.1 :: path.2) (fun _ => []) htiling.le (Nat.le_succ _)
      (.single root) (htiling.leads_iff hs hkind hperm)
  case copy =>
    intro root original type d hkind horiginal hd hparameter htype hlt
    have hcopied : s.Copied root :=
      ⟨original, d, type, hlt, hkind, horiginal, hd, hparameter, htype⟩
    have hnone : Covers root root fun (_ : Empty) _ => False := .empty nofun
    refine hnone.append nofun (fun _ => []) .refl (Nat.le_succ _) (.single root)
      fun path id => ?_
    rcases path with _ | ⟨link, path⟩
    · simp [Down, Store.Leads]
    · simp only [Down, Store.Leads]
      grind
  case empty => exact fun _ _ _ => .empty (by simp)
  case cons =>
    intro lo hi root slot fits head k htree _ hnext _ hrow ihtree ihrow
    exact ihtree.append (fun path => path) (fun path => .next :: path) (Nat.le_succ_of_le htree.le)
      hrow.le ihrow (Store.leads_iff_of_next hnext)
  case nil => exact fun _ => .empty (by simp)
  case append =>
    intro lo mid hi part parts hrow htiling ihrow ihtiling
    refine ihrow.append (fun path => (part.slot, path)) (fun path => path) hrow.le
      htiling.le ihtiling
      fun path id => ?_
    constructor
    · rintro ⟨part', hpart, hslot, h⟩
      rcases mem_cons.1 hpart with rfl | hpart
      · exact .inl ⟨path.2, Prod.ext hslot.symm rfl, h⟩
      · exact .inr ⟨path, rfl, part', hpart, hslot, h⟩
    · rintro (⟨path, rfl, h⟩ | ⟨_, rfl, part', hpart, h⟩)
      · exact ⟨part, .head _, rfl, h⟩
      · exact ⟨part', .tail _ hpart, h⟩

/-! ### All paths -/

namespace Store

/-- A node that leads anywhere belongs to the store. -/
theorem lt_size_of_follow? {link : Link} (h : s.follow? id link = some other) : id < s.size := by
  cases link with
  | slot slot =>
    obtain ⟨k, hk, -⟩ := bind_eq_some_iff.1 h
    exact lt_size_of_kind? hk
  | next =>
    obtain ⟨node, hnode, -⟩ := bind_eq_some_iff.1 h
    refine Nat.lt_of_not_le fun hle => ?_
    rw [(node?_eq_none_iff s id).2 hle] at hnode
    cases hnode

theorem Leads.walk? (h : s.Leads id path other) : s.walk? id path = some other := by
  induction path generalizing id with
  | nil => exact congrArg some (Eq.symm h)
  | cons link path ih =>
    obtain ⟨-, child, hchild, hleads⟩ := h
    exact bind_eq_some_iff.2 ⟨child, hchild, ih hleads⟩

theorem Leads.append {mid : NodeId} {more : List Link} (h : s.Leads id path mid)
    (hmore : s.Leads mid more other) : s.Leads id (path ++ more) other := by
  induction path generalizing id with
  | nil =>
    obtain rfl : mid = id := h
    exact hmore
  | cons link path ih =>
    obtain ⟨hcopied, child, hchild, hleads⟩ := h
    exact ⟨hcopied, child, hchild, ih hleads⟩

/-- The members of a list can be reached from the first one. -/
theorem exists_walk_of_mem_chain (h : id ∈ s.chain n (some first)) :
    ∃ path, s.walk? first path = some id ∧ ∀ link ∈ path, link = .next := by
  induction n generalizing first with
  | zero => cases h
  | succ n ih =>
    rw [chain] at h
    rcases mem_cons.1 h with rfl | h
    · exact ⟨[], rfl, forall_mem_nil _⟩
    · obtain ⟨second, hnext⟩ := exists_head_of_mem h
      rw [hnext] at h
      obtain ⟨path, hpath, hlinks⟩ := ih h
      refine ⟨.next :: path, bind_eq_some_iff.2 ⟨second, hnext, hpath⟩, ?_⟩
      exact fun link hlink => (mem_cons.1 hlink).elim (fun h => h) (hlinks link)

theorem Leads.of_next (h : s.walk? id path = some other) (hlinks : ∀ link ∈ path, link = .next) :
    s.Leads id path other := by
  induction path generalizing id with
  | nil => exact (some.inj h).symm
  | cons link path ih =>
    obtain ⟨child, hchild, hwalk⟩ := bind_eq_some_iff.1 h
    exact ⟨fun _ => hlinks link (.head _), child, hchild,
      ih hwalk fun link hlink => hlinks link (.tail _ hlink)⟩

end Store

namespace StoreOk

open Store

/-- A path that goes on from a copied type goes on along its dimensions. -/
theorem holds_of_copied (h : StoreOk s) (howner : s.Copied owner)
    (hother : s.walk? owner (.slot slot :: path) = some other) :
    slot = .dimensions ∧ s.Holds owner other ∧ s.FormalDimension other := by
  obtain ⟨original, d, type, -, hkind, horiginal, hd, hparameter, htype⟩ := howner
  obtain ⟨first, hfirst, hwalk⟩ := bind_eq_some_iff.1 hother
  rw [follow?, hkind, bind_some, slot?_eq_some] at hfirst
  obtain ⟨part, hpart, rfl, hnode⟩ := hfirst
  obtain rfl := mem_singleton.1 hpart
  have hmem : first ∈ s.siblings type.dimensions := by
    dsimp only at hnode
    rw [hnode]
    exact mem_siblings_self (Nat.zero_lt_of_lt (lt_size_of_kind? hkind))
  obtain ⟨hholds, -⟩ := h.holds_walk? ⟨type, horiginal, hmem⟩ hwalk
  exact ⟨rfl, (h.holds_walk? ⟨type, hkind, hmem⟩ hwalk).1, _, d, hd, hparameter, htype ▸ hholds⟩

/-- Every path either enters no copy, or goes through the dimensions of one. -/
theorem leads_or_through (h : StoreOk s) (hpath : s.walk? id path = some other) :
    s.Leads id path other ∨
      ∃ owner, s.Holds owner other ∧ s.FormalDimension other ∧ s.Through id owner path := by
  induction path generalizing id with
  | nil => exact .inl (some.inj hpath).symm
  | cons link path ih =>
    obtain ⟨child, hchild, hrest⟩ := bind_eq_some_iff.1 hpath
    by_cases hcopied : s.Copied id → link = .next
    · rcases ih hrest with hleads | ⟨owner, hholds, hformal, before, after, rfl, hbefore⟩
      · exact .inl ⟨hcopied, child, hchild, hleads⟩
      · exact .inr ⟨owner, hholds, hformal, link :: before, after, rfl,
          bind_eq_some_iff.2 ⟨child, hchild, hbefore⟩⟩
    · obtain ⟨hid, hlink⟩ := Classical.not_imp.1 hcopied
      cases link with
      | next => exact absurd rfl hlink
      | slot slot =>
        obtain ⟨rfl, hholds, hformal⟩ := h.holds_of_copied hid hpath
        exact .inr ⟨id, hholds, hformal, [], path, rfl, rfl⟩

/-- Where a dimension is held, there is a type that holds it and is no copy. -/
theorem exists_holds_not_copied (hid : s.Holds owner id) :
    ∃ owner', s.Holds owner' id ∧ ¬s.Copied owner' := by
  induction owner using Nat.strongRecOn with
  | ind owner ih =>
    by_cases hcopied : s.Copied owner
    · obtain ⟨type, htype, hmem⟩ := hid
      obtain ⟨original, d, type', hlt, htype', horiginal, -⟩ := hcopied
      obtain rfl : type' = type := by simpa using htype'.symm.trans htype
      exact ih original hlt ⟨type', horiginal, hmem⟩
    · exact ⟨owner, hid, hcopied⟩

end StoreOk

/-- The paths from a node to all others. There is one path to every node, but one for every type
that holds it to the dimensions of formal parameters. No path goes in circles. -/
structure PathsOk (s : Store) (root : NodeId) : Prop where
  unique : ∀ id < s.size, ¬s.FormalDimension id → ∃! path, s.walk? root path = some id
  shared : ∀ id, s.FormalDimension id → ∀ owner, s.Holds owner id →
    ∃! path, s.walk? root path = some id ∧ s.Through root owner path
  held : ∀ id, s.FormalDimension id → ∀ path, s.walk? root path = some id →
    ∃ owner, s.Holds owner id ∧ s.Through root owner path
  finite : ∀ id path other, s.walk? id path = some other → path.length ≤ s.size

section Paths

open Store

variable {root : Nat} {k : NodeKind}

/-- The first dimension of a type that holds any. -/
theorem Store.Holds.exists_first (h : s.Holds owner id) :
    ∃ first, s.follow? owner (.slot .dimensions) = some first ∧ s.Holds owner first ∧
      ∃ path, s.walk? first path = some id ∧ ∀ link ∈ path, link = .next := by
  obtain ⟨type, htype, hmem⟩ := h
  obtain ⟨first, hdims⟩ := exists_head_of_mem hmem
  rw [hdims] at hmem
  have hself : first ∈ s.siblings (some first) :=
    StoreOk.mem_siblings_self (Nat.zero_lt_of_lt (lt_size_of_kind? htype))
  refine ⟨first, ?_, ⟨type, htype, hdims ▸ hself⟩, exists_walk_of_mem_chain hmem⟩
  rw [follow?, htype, bind_some, ← hdims]
  rfl

theorem exists_leads (hs : StoreOk s) (htree : Subtree s 0 root k)
    (hsize : s.size = root + 1) {id : Nat}
    (hid : id < s.size) : ∃! path, Down path ∧ s.Leads root path id :=
  ((covers_of_shape hs).1 htree).unique id (Nat.zero_le _) (hsize ▸ hid)

theorem down_of_walk? (hnext : s.next? root = none) (h : s.walk? root path = some id) :
    Down path := by
  rcases path with _ | ⟨_ | _, path⟩
  · nofun
  · nofun
  · rw [walk?, follow?, hnext] at h
    cases h

theorem exists_unique_path (hs : StoreOk s) (htree : Subtree s 0 root k) (hsize : s.size = root + 1)
    (hnext : s.next? root = none) (hid : id < s.size) (hformal : ¬s.FormalDimension id) :
    ∃! path, s.walk? root path = some id := by
  obtain ⟨path, ⟨-, hleads⟩, hunique⟩ := exists_leads hs htree hsize hid
  refine ⟨path, hleads.walk?, fun other hother => hunique other ⟨down_of_walk? hnext hother, ?_⟩⟩
  rcases hs.leads_or_through hother with hleads | ⟨_, _, hformal', _⟩
  · exact hleads
  · exact absurd hformal' hformal

theorem not_formalDimension_of_holds (hs : StoreOk s) (h : s.Holds owner id) :
    ¬s.FormalDimension owner := by
  rintro ⟨_, d, -, -, howner⟩
  obtain ⟨n, hn⟩ := hs.exists_number_of_holds howner
  obtain ⟨type, htype, -⟩ := h
  rw [hn] at htype
  cases htype

theorem exists_unique_through (hs : StoreOk s) (hholds : s.Holds owner id)
    (howner : ∃! path, s.walk? root path = some owner) :
    ∃! path, s.walk? root path = some id ∧ s.Through root owner path := by
  obtain ⟨before, hbefore, hunique⟩ := howner
  obtain ⟨first, hfirst, hholds', after, hafter, -⟩ := hholds.exists_first
  refine ⟨before ++ .slot .dimensions :: after, ⟨?_, before, after, rfl, hbefore⟩, ?_⟩
  · rw [walk?_append, hbefore, bind_some, walk?, hfirst, bind_some, hafter]
  · rintro _ ⟨hwalk, before', after', rfl, hbefore'⟩
    obtain rfl := hunique before' hbefore'
    rw [walk?_append, hbefore, bind_some, walk?, hfirst, bind_some] at hwalk
    rw [hs.walk?_unique_of_holds hholds' hwalk hafter]

/-- A path that enters no copy goes through the dimensions of a type that is none. -/
theorem through_of_leads (hs : StoreOk s) (htree : Subtree s 0 root k) (hsize : s.size = root + 1)
    (hnext : s.next? root = none) (howner : s.Holds owner id) (hpath : s.Leads root path id) :
    ∃ owner, s.Holds owner id ∧ s.Through root owner path := by
  obtain ⟨owner, hholds, hcopied⟩ := StoreOk.exists_holds_not_copied howner
  obtain ⟨type, htype, hmem⟩ := hholds
  obtain ⟨first, hfirst, -, after, hafter, hlinks⟩ := Holds.exists_first ⟨type, htype, hmem⟩
  obtain ⟨before, ⟨-, hbefore⟩, -⟩ := exists_leads hs htree hsize (lt_size_of_kind? htype)
  have hleads : s.Leads root (before ++ .slot .dimensions :: after) id :=
    hbefore.append ⟨fun h => absurd h hcopied, first, hfirst, .of_next hafter hlinks⟩
  obtain ⟨n, hn⟩ := hs.exists_number_of_holds ⟨type, htype, hmem⟩
  have hunique := (exists_leads hs htree hsize (lt_size_of_kind? hn)).unique
    ⟨down_of_walk? hnext hpath.walk?, hpath⟩ ⟨down_of_walk? hnext hleads.walk?, hleads⟩
  exact ⟨owner, ⟨type, htype, hmem⟩, before, _, hunique, hbefore.walk?⟩

/-- No path leads back to where it started. -/
theorem eq_nil_of_walk?_self (hs : StoreOk s)
    (hunique : ∀ id < s.size, ¬s.FormalDimension id → ∃! path, s.walk? root path = some id)
    (hpath : s.walk? id path = some id) : path = [] := by
  by_cases hformal : s.FormalDimension id
  · obtain ⟨_, d, -, -, hholds⟩ := hformal
    exact hs.walk?_unique_of_holds hholds hpath rfl
  · rcases path with _ | ⟨link, path⟩
    · rfl
    · obtain ⟨other, hother, -⟩ := bind_eq_some_iff.1 hpath
      obtain ⟨before, hbefore, hbefore'⟩ := hunique id (lt_size_of_follow? hother) hformal
      have heq := hbefore' (before ++ link :: path) (by
        dsimp only
        rw [walk?_append, hbefore, bind_some, hpath])
      simp at heq

/-- A path that does not go in circles is short. -/
theorem length_le_of_walk? (hcycle : ∀ id path, s.walk? id path = some id → path = [])
    (hpath : s.walk? id path = some other) : path.length ≤ s.size := by
  -- the nodes on the way are different from each other
  have hnodes : ∀ i : Fin path.length, ∃ node : Fin s.size, s.walk? id (path.take i) =
    some node.val := by
    intro i
    rw [← take_append_drop i path, walk?_append] at hpath
    obtain ⟨node, hnode, hrest⟩ := bind_eq_some_iff.1 hpath
    rw [drop_eq_getElem_cons i.isLt] at hrest
    obtain ⟨next, hnext, -⟩ := bind_eq_some_iff.1 hrest
    exact ⟨⟨node, lt_size_of_follow? hnext⟩, hnode⟩
  choose node hnode using hnodes
  have hne : ∀ i j : Fin path.length, i < j → node i ≠ node j := by
    intro i j hij heq
    have hj := hnode j
    rw [← take_append_drop i (path.take j), take_take, Nat.min_eq_left (Nat.le_of_lt hij),
      walk?_append, hnode i, bind_some, ← heq] at hj
    have hlength := congrArg length (hcycle _ _ hj)
    rw [length_drop, length_take, length_nil] at hlength
    omega
  have hinj : Function.Injective node := by
    intro i j heq
    rcases Nat.lt_trichotomy i j with hlt | hij | hgt
    · exact absurd heq (hne i j hlt)
    · exact Fin.ext hij
    · exact absurd heq.symm (hne j i hgt)
  simpa using Fintype.card_le_of_injective node hinj

theorem pathsOk_of_subtree (hs : StoreOk s) (htree : Subtree s 0 root k) (hsize : s.size = root + 1)
    (hnext : s.next? root = none) : PathsOk s root := by
  have hunique : ∀ id < s.size, ¬s.FormalDimension id → ∃! path, s.walk? root path = some id :=
    fun id hid hformal => exists_unique_path hs htree hsize hnext hid hformal
  refine ⟨hunique, ?_, ?_, ?_⟩
  · intro id _ owner hholds
    obtain ⟨type, htype, hmem⟩ := hholds
    exact exists_unique_through hs ⟨type, htype, hmem⟩ (hunique owner (lt_size_of_kind? htype)
      (not_formalDimension_of_holds hs ⟨type, htype, hmem⟩))
  · rintro id ⟨_, d, -, -, hholds⟩ path hpath
    rcases hs.leads_or_through hpath with hleads | ⟨owner, hholds, -, hthrough⟩
    · exact through_of_leads hs htree hsize hnext hholds hleads
    · exact ⟨owner, hholds, hthrough⟩
  · intro id path other hpath
    exact length_le_of_walk? (fun _ _ => eq_nil_of_walk?_self hs hunique) hpath

end Paths

end PLang
