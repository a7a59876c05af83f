import PLang.Proofs.Tree.Links

/-!
# The shape of trees

A tree takes a stretch of consecutive nodes, the last of which is its root. The parts of the root
take the nodes before it, one after another. `Subtree s lo root k` says that the nodes from `lo` to
`root` are such a tree, whose root holds `k`. The one exception are copies of the types of formal
parameters, which share the dimensions of the type that they were made from. From the shape alone it
follows that the store is in order, and that there is one path to every node but to the dimensions
that are shared.
-/

namespace PLang

variable {fits : NodeKind → Bool} {hi lo root : Nat} {slot : Slot}

mutual

/-- The nodes from `lo` to `root` are a tree. -/
inductive Subtree (s : Store) : Nat → Nat → NodeKind → Prop
  | node {lo root : Nat} {k : NodeKind} {parts : List Part} : s.kind? root = some k →
      k.isComplete = true → parts.Perm k.parts → Tiling s lo root parts → Subtree s lo root k
  | copy {root original : Nat} {type : TypeNode} {d : DeclarationNode} :
      s.kind? root = some (.type type) → s.kind? original = some (.type type) →
      s.kind? (original + 1) = some (.declaration d) → d.kind = .parameter → d.type = original →
      original < root → Subtree s root root (.type type)

/-- The nodes from `lo` up to `hi` are the trees of the list that a slot holds. -/
inductive Row (s : Store) : Nat → Nat → Slot → (NodeKind → Bool) → Option NodeId → Prop
  | nil {lo : Nat} {slot : Slot} {fits : NodeKind → Bool} : Row s lo lo slot fits none
  | cons {lo hi root : Nat} {slot : Slot} {fits : NodeKind → Bool} {head : Option NodeId}
      {k : NodeKind} : Subtree s lo root k → fits k = true → s.next? root = head →
      (slot.isList = false → head = none) → Row s (root + 1) hi slot fits head →
      Row s lo hi slot fits (some root)

/-- The nodes from `lo` up to `hi` are the trees in some slots. -/
inductive Tiling (s : Store) : Nat → Nat → List Part → Prop
  | nil {lo : Nat} : Tiling s lo lo []
  | cons {lo mid hi : Nat} {part : Part} {parts : List Part} :
      Row s lo mid part.slot part.fits part.node → Tiling s mid hi parts →
      Tiling s lo hi (part :: parts)

end

variable {s : Store}

/-- Induction over trees, rows of trees and tilings together. -/
theorem Subtree.induction {tree : Nat → Nat → NodeKind → Prop}
    {row : Nat → Nat → Slot → (NodeKind → Bool) → Option NodeId → Prop}
    {tiling : Nat → Nat → List Part → Prop}
    (node : ∀ lo root k parts, s.kind? root = some k → k.isComplete = true → parts.Perm k.parts →
      Tiling s lo root parts → tiling lo root parts → tree lo root k)
    (copy : ∀ root original type d, s.kind? root = some (.type type) →
      s.kind? original = some (.type type) → s.kind? (original + 1) = some (.declaration d) →
      d.kind = .parameter → d.type = original → original < root → tree root root (.type type))
    (empty : ∀ lo slot fits, row lo lo slot fits none)
    (cons : ∀ lo hi root slot fits head k, Subtree s lo root k → fits k = true →
      s.next? root = head → (slot.isList = false → head = none) →
      Row s (root + 1) hi slot fits head → tree lo root k → row (root + 1) hi slot fits head →
      row lo hi slot fits (some root))
    (nil : ∀ lo, tiling lo lo [])
    (append : ∀ lo mid hi part parts, Row s lo mid part.slot part.fits part.node →
      Tiling s mid hi parts → row lo mid part.slot part.fits part.node → tiling mid hi parts →
      tiling lo hi (part :: parts)) :
    (∀ {lo root k}, Subtree s lo root k → tree lo root k) ∧
      (∀ {lo hi slot fits head}, Row s lo hi slot fits head → row lo hi slot fits head) ∧
      ∀ {lo hi parts}, Tiling s lo hi parts → tiling lo hi parts := by
  refine ⟨fun h => ?_, fun h => ?_, fun h => ?_⟩
  · exact @Subtree.rec s (fun lo root k _ => tree lo root k)
      (fun lo hi slot fits head _ => row lo hi slot fits head)
        (fun lo hi parts _ => tiling lo hi parts)
      (node _ _ _ _) (copy _ _ _ _) (empty _ _ _) (cons _ _ _ _ _ _ _) (nil _) (append _ _ _ _ _)
      _ _ _ h
  · exact @Row.rec s (fun lo root k _ => tree lo root k)
      (fun lo hi slot fits head _ => row lo hi slot fits head)
        (fun lo hi parts _ => tiling lo hi parts)
      (node _ _ _ _) (copy _ _ _ _) (empty _ _ _) (cons _ _ _ _ _ _ _) (nil _) (append _ _ _ _ _)
      _ _ _ _ _ h
  · exact @Tiling.rec s (fun lo root k _ => tree lo root k)
      (fun lo hi slot fits head _ => row lo hi slot fits head)
        (fun lo hi parts _ => tiling lo hi parts)
      (node _ _ _ _) (copy _ _ _ _) (empty _ _ _) (cons _ _ _ _ _ _ _) (nil _) (append _ _ _ _ _)
      _ _ _ h

/-! ### Stretches -/

theorem subtree_le_row_le_tiling_le :
    (∀ {lo root k}, Subtree s lo root k → lo ≤ root) ∧
      (∀ {lo hi slot fits head}, Row s lo hi slot fits head → lo ≤ hi) ∧
      ∀ {lo hi parts}, Tiling s lo hi parts → lo ≤ hi := by
  refine Subtree.induction ?node ?copy ?empty ?cons ?nil ?append
  case node => exact fun _ _ _ _ _ _ _ _ h => h
  case copy => exact fun root _ _ _ _ _ _ _ _ _ => Nat.le_refl root
  case empty => exact fun lo _ _ => Nat.le_refl lo
  case cons =>
    intro lo hi root slot fits head k _ _ _ _ _ htree hrow
    omega
  case nil => exact fun lo => Nat.le_refl lo
  case append => exact fun _ _ _ _ _ _ _ hrow htiling => Nat.le_trans hrow htiling

theorem Subtree.le {k : NodeKind} (h : Subtree s lo root k) : lo ≤ root :=
  subtree_le_row_le_tiling_le.1 h

variable {head : Option NodeId}

theorem Row.le (h : Row s lo hi slot fits head) : lo ≤ hi :=
  subtree_le_row_le_tiling_le.2.1 h

theorem Tiling.le {parts : List Part} (h : Tiling s lo hi parts) : lo ≤ hi :=
  subtree_le_row_le_tiling_le.2.2 h

theorem Subtree.kind? {k : NodeKind} (h : Subtree s lo root k) : s.kind? root = some k := by
  cases h with
  | node hkind => exact hkind
  | copy hkind => exact hkind

/-- Every node of a stretch is the root of a tree in it. -/
theorem exists_subtree :
    (∀ {lo root k}, Subtree s lo root k → ∀ id, lo ≤ id → id ≤ root → ∃ lo' k',
      Subtree s lo' id k') ∧
      (∀ {lo hi slot fits head}, Row s lo hi slot fits head →
        ∀ id, lo ≤ id → id < hi → ∃ lo' k', Subtree s lo' id k') ∧
      ∀ {lo hi parts}, Tiling s lo hi parts →
        ∀ id, lo ≤ id → id < hi → ∃ lo' k', Subtree s lo' id k' := by
  refine Subtree.induction ?node ?copy ?empty ?cons ?nil ?append
  case node =>
    intro lo root k parts hkind hcomplete hperm htiling ih id hlo hroot
    rcases Nat.lt_or_eq_of_le hroot with hlt | rfl
    · exact ih id hlo hlt
    · exact ⟨lo, k, .node hkind hcomplete hperm htiling⟩
  case copy =>
    intro root original type d hkind horiginal hd hparameter htype hlt id hlo hroot
    obtain rfl : id = root := Nat.le_antisymm hroot hlo
    exact ⟨id, _, .copy hkind horiginal hd hparameter htype hlt⟩
  case empty => exact fun lo _ _ id hlo hhi => absurd hhi (by omega)
  case cons =>
    intro lo hi root slot fits head k _ _ _ _ _ htree hrow id hlo hhi
    by_cases hroot : id ≤ root
    · exact htree id hlo hroot
    · exact hrow id (by omega) hhi
  case nil => exact fun lo id hlo hhi => absurd hhi (by omega)
  case append =>
    intro lo mid hi part parts _ _ hrow htiling id hlo hhi
    by_cases hmid : id < mid
    · exact hrow id hlo hmid
    · exact htiling id (by omega) hhi

theorem Row.head_lt (h : Row s lo hi slot fits (some root)) : lo ≤ root ∧ root < hi := by
  cases h with
  | cons htree _ _ _ hrow => exact ⟨htree.le, hrow.le⟩

/-- Inside of a stretch, nodes are followed by newer ones of the stretch. -/
theorem next_lt :
    (∀ {lo root k}, Subtree s lo root k → ∀ id other : Nat, lo ≤ id → id < root →
      s.next? id = some other → id < other ∧ other < root) ∧
      (∀ {lo hi slot fits head}, Row s lo hi slot fits head → ∀ id other : Nat, lo ≤ id → id < hi →
        s.next? id = some other → id < other ∧ other < hi) ∧
      ∀ {lo hi parts}, Tiling s lo hi parts → ∀ id other : Nat, lo ≤ id → id < hi →
        s.next? id = some other → id < other ∧ other < hi := by
  refine Subtree.induction ?node ?copy ?empty ?cons ?nil ?append
  case node => exact fun _ _ _ _ _ _ _ _ ih => ih
  case copy => exact fun _ _ _ _ _ _ _ _ _ _ _ _ hlo hhi => absurd hhi (by omega)
  case empty => exact fun _ _ _ _ _ hlo hhi => absurd hhi (by omega)
  case cons =>
    intro lo hi root slot fits head k _ _ hnext _ hrow ihtree ihrow id other hlo hhi hother
    have hle := hrow.le
    rcases Nat.lt_trichotomy id root with hlt | rfl | hgt
    · have h := ihtree id other hlo hlt hother
      omega
    · rw [hother] at hnext
      subst hnext
      exact hrow.head_lt
    · exact ihrow id other (by omega) hhi hother
  case nil => exact fun _ _ _ hlo hhi => absurd hhi (by omega)
  case append =>
    intro lo mid hi part parts _ htiling ihrow ihtiling id other hlo hhi hother
    have hle := htiling.le
    by_cases hmid : id < mid
    · have h := ihrow id other hlo hmid hother
      omega
    · exact ihtiling id other (by omega) hhi hother

/-! ### Parts -/

theorem Row.members (h : Row s lo hi slot fits head) (n : Nat) :
    ∀ member ∈ s.chain n head, ∃ k, s.kind? member = some k ∧ fits k = true := by
  induction n generalizing lo head with
  | zero => exact fun _ hmember => absurd hmember List.not_mem_nil
  | succ n ih =>
    cases h with
    | nil => exact fun _ hmember => absurd hmember List.not_mem_nil
    | cons htree hfits hnext _ hrow =>
      intro member hmember
      rw [Store.chain, hnext] at hmember
      rcases List.mem_cons.1 hmember with rfl | hmember
      · exact ⟨_, htree.kind?, hfits⟩
      · exact ih hrow member hmember

theorem Tiling.row {parts : List Part} (h : Tiling s lo hi parts) {part : Part}
    (hpart : part ∈ parts) : ∃ lo' hi', Row s lo' hi' part.slot part.fits part.node ∧ hi' ≤ hi := by
  induction parts generalizing lo with
  | nil => cases hpart
  | cons first parts ih =>
    cases h with
    | cons hrow htiling =>
      rcases List.mem_cons.1 hpart with rfl | hpart
      · exact ⟨_, _, hrow, htiling.le⟩
      · exact ih htiling hpart

/-- The parts of a node are as they should be, if all nodes are roots of trees. A copied type has
the parts of an older one. -/
theorem partOk_of_subtrees (hall : ∀ id < s.size, ∃ lo k, Subtree s lo id k) (id : NodeId)
    (k : NodeKind) (hkind : s.kind? id = some k) (part : Part) (hpart : part ∈ k.parts)
    (child : NodeId) (hchild : part.node = some child) : PartOk s id part child := by
  induction id using Nat.strongRecOn with
  | ind id ih =>
    obtain ⟨lo, k', htree⟩ := hall id (Store.lt_size_of_kind? hkind)
    obtain rfl : k' = k := Option.some.inj (htree.kind?.symm.trans hkind)
    cases htree with
    | node _ _ hperm htiling =>
      obtain ⟨lo', hi', hrow, hle⟩ := htiling.row (hperm.mem_iff.2 hpart)
      rw [hchild] at hrow
      refine ⟨Nat.lt_of_lt_of_le hrow.head_lt.2 hle, hrow.members _, fun hsingle => ?_⟩
      cases hrow with
      | cons _ _ hnext halone _ => rw [hnext, halone hsingle]
    | copy _ horiginal _ _ _ hlt =>
      obtain ⟨hlt', hmembers, halone⟩ := ih _ hlt horiginal
      exact ⟨Nat.lt_trans hlt' hlt, hmembers, halone⟩

end PLang
