import PLang.Proofs.Logged.Covered

/-!
# Blocks in another order

`Store.reorder` links the statements of a block in another order. The nodes stay where they are,
with all that they hold: only the block leads to another first statement, and the statements are
followed by others. A `Relinking` is what checks can tell of this: two trees that differ in what
some blocks start with and in what follows some nodes, which stand in no part of any other node.
-/

namespace PLang

open List Option Store

variable {s : Store} {block id : NodeId} {order : List NodeId} {k : NodeKind}

/-! ### Another order -/

/-- A block that starts with another statement. Other nodes stay as they are. -/
def NodeKind.withStatements (first : Option NodeId) : NodeKind → NodeKind
  | compound b => compound { b with statements := first }
  | k => k

namespace Store

/-- A store is what its nodes hold, what follows them and where they stand. -/
theorem eq_of_views {t : Store} (hkind : ∀ id, t.kind? id = s.kind? id)
    (hnext : ∀ id, t.next? id = s.next? id) (hlocation : ∀ id, t.location id = s.location id) :
    t = s := by
  obtain ⟨nodes⟩ := s
  obtain ⟨nodes'⟩ := t
  refine congrArg mk (Array.ext_getElem? fun id => ?_)
  have hk : (nodes'[id]?).map Node.kind = (nodes[id]?).map Node.kind := hkind id
  have hn : (nodes'[id]?).bind Node.next = (nodes[id]?).bind Node.next := hnext id
  have hl : ((nodes'[id]?).map Node.location).getD .nowhere =
      ((nodes[id]?).map Node.location).getD .nowhere := hlocation id
  cases hnode : nodes[id]? with
  | none =>
    rw [hnode] at hk
    exact map_eq_none_iff.1 hk
  | some node =>
    rw [hnode] at hk hn hl
    obtain ⟨node', hnode', hkind'⟩ := map_eq_some_iff.1 hk
    rw [hnode'] at hn hl ⊢
    obtain ⟨location, kind, next⟩ := node
    obtain ⟨location', kind', next'⟩ := node'
    obtain rfl : location' = location := hl
    obtain rfl : kind' = kind := hkind'
    obtain rfl : next' = next := hn
    rfl

/-- The tree in which the statements of a block are linked in the given order. -/
def reorder (s : Store) (block : NodeId) (order : List NodeId) : Store :=
  ⟨s.nodes.mapIdx fun id node => { node with
    kind := if id = block then node.kind.withStatements order.head? else node.kind
    next := if id ∈ order then order[order.idxOf id + 1]? else node.next }⟩

theorem node?_reorder (id : NodeId) :
    (s.reorder block order).node? id = (s.node? id).map fun node => { node with
      kind := if id = block then node.kind.withStatements order.head? else node.kind
      next := if id ∈ order then order[order.idxOf id + 1]? else node.next } := by
  simp only [reorder, node?, Array.getElem?_mapIdx]

@[simp]
theorem size_reorder : (s.reorder block order).size = s.size := by
  simp [reorder, size]

theorem location_reorder (id : NodeId) : (s.reorder block order).location id = s.location id := by
  rw [location, node?_reorder, Option.map_map]
  rfl

theorem kind?_reorder_of_ne (h : id ≠ block) : (s.reorder block order).kind? id = s.kind? id := by
  rw [kind?, node?_reorder, Option.map_map]
  simp only [Function.comp_def, if_neg h]
  rfl

theorem kind?_reorder_self :
    (s.reorder block order).kind? block =
      (s.kind? block).map (NodeKind.withStatements order.head?) := by
  rw [kind?, node?_reorder, Option.map_map, kind?, Option.map_map]
  simp only [Function.comp_def, if_pos]

theorem kind?_reorder_block {b : CompoundNode} (h : s.kind? block = some (.compound b)) :
    (s.reorder block order).kind? block =
      some (.compound { b with statements := order.head? }) := by
  rw [kind?_reorder_self, h]
  rfl

theorem next?_reorder_of_notMem (h : id ∉ order) :
    (s.reorder block order).next? id = s.next? id := by
  rw [next?, node?_reorder, next?]
  simp only [if_neg h]
  cases s.node? id <;> rfl

theorem next?_reorder_of_mem (h : id ∈ order) (hid : id < s.size) :
    (s.reorder block order).next? id = order[order.idxOf id + 1]? := by
  obtain ⟨node, hnode⟩ := ne_none_iff_exists'.1 fun hnone =>
    Nat.not_le.2 hid ((s.node?_eq_none_iff id).1 hnone)
  rw [next?, node?_reorder, hnode]
  simp only [if_pos h, map_some, bind_some]

section

variable (hnodup : order.Nodup) (hlt : ∀ id ∈ order, id < s.size)

include hnodup hlt

/-- From each statement on, the rest of the order follows. -/
theorem chain_reorder (n : Nat) (before after : List NodeId) (h : order = before ++ after) :
    (s.reorder block order).chain n after.head? = after.take n := by
  induction n generalizing before after with
  | zero => rw [take_zero]; rfl
  | succ n ih =>
    cases after with
    | nil => rfl
    | cons id after =>
      have hmem : id ∈ order := h ▸ mem_append_right before (.head _)
      have hnot : id ∉ before := by
        rw [h] at hnodup
        exact fun hid => (nodup_append'.1 hnodup).2.2 hid (.head _)
      have hidx : order.idxOf id = before.length := by
        rw [h, idxOf_append_of_notMem hnot, idxOf_cons_self, Nat.add_zero]
      have hnext : (s.reorder block order).next? id = after.head? := by
        rw [next?_reorder_of_mem hmem (hlt id hmem), hidx, h,
          getElem?_append_right (Nat.le_add_right _ 1), Nat.add_sub_cancel_left, getElem?_cons_succ,
          head?_eq_getElem?]
      rw [head?_cons, chain, hnext, take_succ_cons,
        ih (before ++ [id]) after (by rw [h, append_assoc]; rfl)]

theorem chain_reorder_head? {n : Nat} (hn : s.size ≤ n) :
    (s.reorder block order).chain n order.head? = order := by
  rw [chain_reorder hnodup hlt _ [] order rfl, take_eq_self_iff]
  have hsubset : order ⊆ range s.size := fun id hid => mem_range.2 (hlt id hid)
  have hlength := (hnodup.subperm hsubset).length_le
  rw [length_range] at hlength
  exact Nat.le_trans hlength hn

/-- The statements of the block are those of the order. -/
theorem siblings_reorder : (s.reorder block order).siblings order.head? = order :=
  chain_reorder_head? hnodup hlt (Nat.le_of_eq size_reorder.symm)

theorem row_reorder : (s.reorder block order).row order.head? = order := by
  rw [row, size_reorder]
  exact chain_reorder_head? hnodup hlt (Nat.le_mul_of_pos_left _ (Nat.succ_pos _))


end
end Store

/-! ### Two trees -/

/-- Two trees that differ in what some blocks start with and in what follows some nodes. These stand
in no part of other nodes than the blocks. -/
structure Relinking (s : Store) where
  other : Store
  blocks : Set NodeId
  moved : Set NodeId
  store : StoreOk s
  size : other.size = s.size
  compound : ∀ id ∈ blocks, ∃ b b', s.kind? id = some (.compound b) ∧ other.kind? id =
    some (.compound b')
  kind : ∀ id ∉ blocks, other.kind? id = s.kind? id
  next : ∀ id ∉ moved, other.next? id = s.next? id
  apart : ∀ id ∉ blocks, ∀ k, s.kind? id = some k → ∀ part ∈ k.parts,
    ∀ child ∈ s.siblings part.node, child ∉ moved

variable {head : Option NodeId}

namespace Relinking

/-- The same tree, linked in the same way. -/
def refl (hs : StoreOk s) : Relinking s where
  other := s
  blocks := ∅
  moved := ∅
  store := hs
  size := rfl
  compound := fun _ hid => hid.elim
  kind := fun _ _ => rfl
  next := fun _ _ => rfl
  apart := fun _ _ _ _ _ _ child _ => Set.notMem_empty child

variable (R : Relinking s)

theorem notMem_blocks (hk : s.kind? id = some k) (hcompound : k.isCompound = false) :
    id ∉ R.blocks := by
  intro hid
  obtain ⟨b, b', hb, -⟩ := R.compound id hid
  cases hb.symm.trans hk
  cases hcompound

/-- What does not hang on the parts of blocks is the same in both trees. -/
theorem view {β : Type} {g : Store → NodeId → β} {f : Option NodeKind → β}
    (hg : ∀ t id o, t.kind? id = o → g t id = f o)
    (hf : ∀ b b', f (some (.compound b)) = f (some (.compound b'))) (id : NodeId) :
    g R.other id = g s id := by
  by_cases hid : id ∈ R.blocks
  · obtain ⟨b, b', hb, hb'⟩ := R.compound id hid
    rw [hg _ _ _ hb, hg _ _ _ hb', hf]
  · rw [hg _ _ _ (R.kind id hid), hg _ _ _ rfl]

theorem name?_eq (id : NodeId) : R.other.name? id = s.name? id :=
  R.view (fun _ _ _ ho => by rw [name?, ho]) (fun _ _ => rfl) id

theorem number?_eq (id : NodeId) : R.other.number? id = s.number? id :=
  R.view (fun _ _ _ ho => by rw [number?, ho]) (fun _ _ => rfl) id

theorem type?_eq (id : NodeId) : R.other.type? id = s.type? id :=
  R.view (fun _ _ _ ho => by rw [type?, ho]) (fun _ _ => rfl) id

theorem literal?_eq (id : NodeId) : R.other.literal? id = s.literal? id :=
  R.view (fun _ _ _ ho => by rw [literal?, ho]) (fun _ _ => rfl) id

theorem function?_eq (id : NodeId) : R.other.function? id = s.function? id :=
  R.view (fun _ _ _ ho => by rw [function?, ho]) (fun _ _ => rfl) id

theorem siblings_eq (h : ∀ id ∈ s.siblings head, id ∉ R.moved) :
    R.other.siblings head = s.siblings head :=
  siblings_eq_of_next? R.size fun id hid => R.next id (h id hid)

theorem dimensions_eq (id : NodeId) : R.other.dimensions id = s.dimensions id := by
  rw [dimensions, dimensions, R.type?_eq, numbers, numbers,
    funext R.number?_eq]
  cases htype : s.type? id with
  | none => simp
  | some type =>
    have hkind := type?_eq_some.1 htype
    rw [bind_some, R.siblings_eq]
    exact R.apart id (R.notMem_blocks hkind rfl) _ hkind ⟨.dimensions, type.dimensions, _⟩
      (.head _)

end Relinking

theorem StoreOk.row_eq (hs : StoreOk s) (hk : s.kind? id = some k) {part : Part}
    (hpart : part ∈ k.parts) : s.row part.node = s.siblings part.node := by
  cases hnode : part.node with
  | none => rw [row, chain_none, siblings_none]
  | some first =>
    have hle : s.size ≤ (s.size + 2) * s.size := Nat.le_mul_of_pos_left _ (Nat.succ_pos _)
    exact hs.chain_eq_chain (hs.parts id k hk part hpart first hnode).1 (by omega) (by omega)

theorem Alike.row_eq {t : Store} (h : Alike s t) (head : Option NodeId) :
    t.row head = s.row head := by
  rw [row, h.size, chain_eq_of_next? fun id _ => h.next id, row]

/-! ### Trees with notes -/

/-- Two trees with notes in them. The nodes of a set have the same notes. -/
structure Relinking.Linked (R : Relinking s) (agreed : Set NodeId) (t t' : Store) : Prop where
  alike : Alike s t
  alike' : Alike R.other t'
  location : ∀ id, t'.location id = t.location id
  kind : ∀ id ∈ agreed, id ∉ R.blocks → t'.kind? id = t.kind? id

namespace Relinking.Linked

variable {R : Relinking s} {agreed : Set NodeId} {t t' : Store} (h : R.Linked agreed t t')

include h

theorem size_eq : t'.size = t.size := by
  rw [h.alike'.size, h.alike.size, R.size]

theorem next?_eq (hid : id ∉ R.moved) : t'.next? id = t.next? id := by
  rw [h.alike'.next, h.alike.next, R.next id hid]

theorem siblings_eq (hhead : ∀ id ∈ s.siblings head, id ∉ R.moved) :
    t'.siblings head = t.siblings head := by
  rw [h.alike'.siblings_eq, h.alike.siblings_eq, R.siblings_eq hhead]

theorem name?_eq (id : NodeId) : t'.name? id = t.name? id := by
  rw [h.alike'.name?_eq, h.alike.name?_eq, R.name?_eq]

theorem type?_eq (id : NodeId) : t'.type? id = t.type? id := by
  rw [h.alike'.type?_eq, h.alike.type?_eq, R.type?_eq]

theorem literal?_eq (id : NodeId) : t'.literal? id = t.literal? id := by
  rw [h.alike'.literal?_eq, h.alike.literal?_eq, R.literal?_eq]

theorem function?_eq (id : NodeId) : t'.function? id = t.function? id := by
  rw [h.alike'.function?_eq, h.alike.function?_eq, R.function?_eq]

theorem dimensions_eq (id : NodeId) : t'.dimensions id = t.dimensions id := by
  rw [h.alike'.dimensions_eq, h.alike.dimensions_eq, R.dimensions_eq]

/-- Notes are read off the nodes of the set. -/
theorem view {β : Type} {g : Store → NodeId → β} {f : Option NodeKind → β}
    (hg : ∀ t id o, t.kind? id = o → g t id = f o)
    (hf : ∀ b b', f (some (.compound b)) = f (some (.compound b'))) (hid : id ∈ agreed) :
    g t' id = g t id := by
  by_cases hblock : id ∈ R.blocks
  · obtain ⟨b, b', hb, hb'⟩ := R.compound id hblock
    rw [hg _ _ _ (h.alike.kind?_plain hb rfl), hg _ _ _ (h.alike'.kind?_plain hb' rfl), hf]
  · rw [hg _ _ _ (h.kind id hid hblock), hg _ _ _ rfl]

theorem expression?_eq (hid : id ∈ agreed) : t'.expression? id = t.expression? id :=
  h.view (fun _ _ _ ho => by rw [expression?, ho]) (fun _ _ => rfl) hid

theorem reference?_eq (hid : id ∈ agreed) : t'.reference? id = t.reference? id :=
  h.view (fun _ _ _ ho => by rw [reference?, ho]) (fun _ _ => rfl) hid

theorem call?_eq (hid : id ∈ agreed) : t'.call? id = t.call? id :=
  h.view (fun _ _ _ ho => by rw [call?, ho]) (fun _ _ => rfl) hid

theorem resultType?_eq (hid : id ∈ agreed) : t'.resultType? id = t.resultType? id := by
  rw [resultType?, resultType?, h.expression?_eq hid]

end Relinking.Linked

end PLang
