import PLang.Proofs.Tree.Paths

/-!
# The nodes under a node

A node lies under another one if it stands in a part of it, or in a part of a part, and so on. In a
tree these are the nodes of its stretch (`Subtree.under`, `Store.Under.between`): every node of the
stretch but the root is in the tree of a part (`Subtree.exists_standsIn`), and what stands in a part
is such a tree (`Subtree.standsIn`). A node stands in a part of one other node only
(`PathsOk.parent_unique`).
-/

namespace PLang

variable {s : Store} {lo hi lo' root id : Nat} {k : NodeKind} {slot : Slot}
  {fits : NodeKind → Bool} {head : Option NodeId} {part : Part}

/-- A node is in the tree of another one. -/
inductive Store.Under (s : Store) : NodeId → NodeId → Prop
  | self (id : NodeId) : Under s id id
  | part {top child id : NodeId} {k : NodeKind} {part : Part} : s.kind? top = some k →
      part ∈ k.parts → child ∈ s.siblings part.node → Under s child id → Under s top id

/-- A tree stands in a part, inside of a stretch. -/
structure StandsIn (s : Store) (lo hi : Nat) (part : Part) (lo' root : Nat) (k : NodeKind) :
    Prop where
  tree : Subtree s lo' root k
  fits : part.fits k = true
  le : lo ≤ lo'
  lt : root < hi
  listed : ∀ n, hi - lo ≤ n → root ∈ s.chain n part.node
  alone : part.slot.isList = false → part.node = some root

theorem StandsIn.mono {lo1 hi1 : Nat} (h : StandsIn s lo hi part lo' root k) (hlo : lo1 ≤ lo)
    (hhi : hi ≤ hi1) : StandsIn s lo1 hi1 part lo' root k where
  tree := h.tree
  fits := h.fits
  le := Nat.le_trans hlo h.le
  lt := Nat.lt_of_lt_of_le h.lt hhi
  listed n hn := h.listed n (by omega)
  alone := h.alone

/-! ### Rows -/

/-- The first tree of a row. -/
theorem Row.standsIn_head (htree : Subtree s lo root k) (hfits : fits k = true)
    (hnext : Row s (root + 1) hi slot fits head) :
    StandsIn s lo hi ⟨slot, some root, fits⟩ lo root k where
  tree := htree
  fits := hfits
  le := Nat.le_refl lo
  lt := hnext.le
  listed n hn := by
    have hle := htree.le
    have hle' := hnext.le
    obtain ⟨n, rfl⟩ : ∃ m, n = m + 1 := ⟨n - 1, by omega⟩
    rw [Store.chain]
    exact .head _
  alone _ := rfl

/-- The trees that follow in a row. -/
theorem StandsIn.cons {first : Nat} (h : StandsIn s (first + 1) hi ⟨slot, head, fits⟩ lo' root k)
    (hfirst : lo ≤ first) (hnext : s.next? first = head) (halone : slot.isList = false →
      head = none) :
    StandsIn s lo hi ⟨slot, some first, fits⟩ lo' root k where
  tree := h.tree
  fits := h.fits
  le := by
    have hle := h.le
    omega
  lt := h.lt
  listed n hn := by
    have hle := h.le
    have hle' := h.tree.le
    have hlt := h.lt
    obtain ⟨n, rfl⟩ : ∃ m, n = m + 1 := ⟨n - 1, by omega⟩
    rw [Store.chain, hnext]
    exact .tail _ (h.listed n (by omega))
  alone hlist := by
    have hnone : head = some root := h.alone hlist
    rw [halone hlist] at hnone
    cases hnone

theorem Row.exists_standsIn (h : Row s lo hi slot fits head) (hlo : lo ≤ id) (hhi : id < hi) :
    ∃ lo' root k, StandsIn s lo hi ⟨slot, head, fits⟩ lo' root k ∧ lo' ≤ id ∧ id ≤ root := by
  obtain ⟨n, hn⟩ : ∃ n, hi - lo ≤ n := ⟨_, .refl⟩
  induction n generalizing lo head with
  | zero => omega
  | succ n ih =>
    cases h with
    | nil => omega
    | @cons _ _ root _ _ _ k htree hfits hnext halone hrow =>
      by_cases hroot : id ≤ root
      · exact ⟨lo, root, k, Row.standsIn_head htree hfits hrow, hlo, hroot⟩
      · have hle := htree.le
        obtain ⟨lo', root', k', hstands, hmem⟩ := ih hrow (by omega) (by omega)
        exact ⟨lo', root', k', hstands.cons hle hnext halone, hmem⟩

variable {n : Nat}

theorem Row.standsIn (h : Row s lo hi slot fits head) (hroot : root ∈ s.chain n head) :
    ∃ lo' k, StandsIn s lo hi ⟨slot, head, fits⟩ lo' root k := by
  induction n generalizing lo head with
  | zero => cases hroot
  | succ n ih =>
    cases h with
    | nil => cases hroot
    | @cons _ _ first _ _ _ k htree hfits hnext halone hrow =>
      rw [Store.chain, hnext] at hroot
      rcases List.mem_cons.1 hroot with rfl | hroot
      · exact ⟨lo, k, Row.standsIn_head htree hfits hrow⟩
      · obtain ⟨lo', k', hstands⟩ := ih hrow hroot
        exact ⟨lo', k', hstands.cons htree.le hnext halone⟩

/-! ### Parts -/

theorem Tiling.exists_standsIn {parts : List Part} (h : Tiling s lo hi parts) (hlo : lo ≤ id)
    (hhi : id < hi) :
    ∃ part ∈ parts, ∃ lo' root k, StandsIn s lo hi part lo' root k ∧ lo' ≤ id ∧ id ≤ root := by
  induction parts generalizing lo with
  | nil =>
    cases h
    omega
  | cons part parts ih =>
    cases h with
    | @cons _ mid _ _ _ hrow htiling =>
      by_cases hmid : id < mid
      · obtain ⟨lo', root, k, hstands, hmem⟩ := hrow.exists_standsIn hlo hmid
        exact ⟨part, .head _, lo', root, k, hstands.mono (Nat.le_refl lo) htiling.le, hmem⟩
      · obtain ⟨part', hpart, lo', root, k, hstands, hmem⟩ := ih htiling (Nat.le_of_not_lt hmid)
        exact ⟨part', .tail _ hpart, lo', root, k,
          hstands.mono hrow.le (Nat.le_refl hi), hmem⟩

theorem Tiling.standsIn {parts : List Part} (h : Tiling s lo hi parts) (hpart : part ∈ parts)
    (hroot : root ∈ s.chain n part.node) : ∃ lo' k, StandsIn s lo hi part lo' root k := by
  induction parts generalizing lo with
  | nil => cases hpart
  | cons first parts ih =>
    cases h with
    | cons hrow htiling =>
      rcases List.mem_cons.1 hpart with rfl | hpart
      · obtain ⟨lo', k, hstands⟩ := hrow.standsIn hroot
        exact ⟨lo', k, hstands.mono (Nat.le_refl lo) htiling.le⟩
      · obtain ⟨lo', k, hstands⟩ := ih htiling hpart
        exact ⟨lo', k, hstands.mono hrow.le (Nat.le_refl hi)⟩

/-- Every node of a tree but the root is in the tree of a part. -/
theorem Subtree.exists_standsIn (h : Subtree s lo root k) (hlo : lo ≤ id) (hlt : id < root) :
    ∃ part ∈ k.parts, ∃ lo' child k', StandsIn s lo root part lo' child k' ∧ lo' ≤ id ∧
      id ≤ child := by
  cases h with
  | copy => omega
  | node _ _ hperm htiling =>
    obtain ⟨part, hpart, hstands⟩ := htiling.exists_standsIn hlo hlt
    exact ⟨part, hperm.mem_iff.1 hpart, hstands⟩

/-- What stands in a part of a node is the root of a tree. The dimensions of copied types stand
elsewhere. -/
theorem Subtree.standsIn (h : Subtree s lo root k) (hk : k.isType = false) (hpart : part ∈ k.parts)
    (hid : id ∈ s.chain n part.node) : ∃ lo' k', StandsIn s lo root part lo' id k' := by
  cases h with
  | copy => cases hk
  | node _ _ hperm htiling => exact htiling.standsIn (hperm.mem_iff.2 hpart) hid

/-! ### Stretches -/

/-- All nodes of a tree are under its root. -/
theorem Subtree.under (h : Subtree s lo root k) (hlo : lo ≤ id) (hle : id ≤ root) :
    s.Under root id := by
  induction root using Nat.strongRecOn generalizing lo k with
  | ind root ih =>
    rcases Nat.lt_or_eq_of_le hle with hlt | rfl
    · obtain ⟨part, hpart, lo', child, k', hstands, hlo', hle'⟩ := h.exists_standsIn hlo hlt
      have hsize := Store.lt_size_of_kind? h.kind?
      have hchild : child ∈ s.siblings part.node := hstands.listed s.size (by omega)
      exact .part h.kind? hpart hchild (ih child hstands.lt hstands.tree hlo' hle')
    · exact .self id

/-- Under a whole number there is nothing else. -/
theorem Store.Under.eq_of_number (h : s.Under root id) {n : Int}
    (hroot : s.kind? root = some (.number n)) : id = root := by
  cases h with
  | self => rfl
  | part hk hpart =>
    cases hroot.symm.trans hk
    cases hpart

/-- The nodes under the root of a tree are in its stretch, unless they are dimensions. -/
theorem Store.Under.between (hs : StoreOk s) (hid : s.Under root id) (h : Subtree s lo root k)
    (hnumber : ∀ n, s.kind? id ≠ some (.number n)) : lo ≤ id ∧ id ≤ root := by
  induction hid generalizing lo k with
  | self => exact ⟨h.le, .refl⟩
  | @part top child id k1 part hk hpart hchild hid ih =>
    obtain rfl := Option.some.inj (h.kind?.symm.trans hk)
    cases htype : k.isType with
    | false =>
      obtain ⟨lo', k', hstands⟩ := h.standsIn htype hpart hchild
      have hmem := ih hstands.tree hnumber
      exact ⟨Nat.le_trans hstands.le hmem.1, Nat.le_trans hmem.2 (Nat.le_of_lt hstands.lt)⟩
    | true =>
      cases k with
      | type t =>
        obtain rfl := List.mem_singleton.1 hpart
        obtain ⟨n, hn⟩ := hs.exists_number_of_holds ⟨t, hk, hchild⟩
        rw [← hid.eq_of_number hn] at hn
        exact absurd hn (hnumber n)
      | _ => cases htype

/-! ### Parents -/

/-- Where the last slot is, before steps to following nodes, two paths are cut at the same place. -/
theorem eq_of_append_slot {before before' path path' : List Link} {slot' : Slot}
    (hpath : ∀ link ∈ path, link = .next) (hpath' : ∀ link ∈ path', link = .next)
    (h : before ++ .slot slot :: path = before' ++ .slot slot' :: path') : before = before' := by
  have hnot : ∀ {path : List Link} {slot : Slot}, (∀ link ∈ path, link = .next) →
      .slot slot ∉ path := fun hpath hmem => by cases hpath _ hmem
  rcases List.append_eq_append_iff.1 h with ⟨more, rfl, hmore⟩ | ⟨more, rfl, hmore⟩
  · cases more with
    | nil => simp
    | cons link more =>
      rw [List.cons_append, List.cons.injEq] at hmore
      exact absurd (hmore.2 ▸ List.mem_append_right more (.head _)) (hnot hpath)
  · cases more with
    | nil => simp
    | cons link more =>
      rw [List.cons_append, List.cons.injEq] at hmore
      exact absurd (hmore.2 ▸ List.mem_append_right more (.head _)) (hnot hpath')

theorem StoreOk.not_formalDimension (hs : StoreOk s)
    (hnumber : ∀ n, s.kind? id ≠ some (.number n)) :
    ¬s.FormalDimension id := by
  intro hformal
  obtain ⟨_, d, -, -, hholds⟩ := hformal
  obtain ⟨n, hn⟩ := hs.exists_number_of_holds hholds
  exact hnumber n hn

/-- A path to what stands in a part leads through the node that has the part. -/
theorem exists_walk_through (hs : StoreOk s) (hpaths : PathsOk s root) {top : NodeId}
    (hk : s.kind? top = some k) (hpart : part ∈ k.parts) (hid : id ∈ s.chain n part.node) :
    ∃ before path slot, s.walk? root before = some top ∧
      s.walk? root (before ++ .slot slot :: path) = some id ∧ ∀ link ∈ path, link = .next := by
  have hformal : ¬s.FormalDimension top := by
    refine hs.not_formalDimension fun n hn => ?_
    cases hn.symm.trans hk
    cases hpart
  obtain ⟨before, hbefore, -⟩ := hpaths.unique top (Store.lt_size_of_kind? hk) hformal
  obtain ⟨first, hnode⟩ := Store.exists_head_of_mem hid
  rw [hnode] at hid
  obtain ⟨path, hpath, hlinks⟩ := Store.exists_walk_of_mem_chain hid
  have hslot : k.slot? part.slot = some first :=
    NodeKind.slot?_eq_some.2 ⟨part, hpart, rfl, hnode⟩
  refine ⟨before, path, part.slot, hbefore, ?_, hlinks⟩
  rw [Store.walk?_append, hbefore, Option.bind_some, Store.walk?, Store.follow?, hk,
    Option.bind_some, hslot, Option.bind_some, hpath]

/-- A node stands in a part of one other node only, unless it is a dimension. -/
theorem PathsOk.parent_unique (hpaths : PathsOk s root) (hs : StoreOk s) {top top' : NodeId}
    {k' : NodeKind} {part' : Part} {n' : Nat} (hk : s.kind? top = some k) (hpart : part ∈ k.parts)
    (hid : id ∈ s.chain n part.node) (hk' : s.kind? top' = some k') (hpart' : part' ∈ k'.parts)
    (hid' : id ∈ s.chain n' part'.node) (hsize : id < s.size)
    (hnumber : ∀ n, s.kind? id ≠ some (.number n)) : top = top' := by
  obtain ⟨before, path, slot, hbefore, hwalk, hpath⟩ := exists_walk_through hs hpaths hk hpart hid
  obtain ⟨before', path', slot', hbefore', hwalk', hpath'⟩ :=
    exists_walk_through hs hpaths hk' hpart' hid'
  have hsame := (hpaths.unique id hsize (hs.not_formalDimension hnumber)).unique hwalk hwalk'
  rw [eq_of_append_slot hpath hpath' hsame, hbefore'] at hbefore
  exact (Option.some.inj hbefore).symm

end PLang
