import PLang.Proofs.Logged.Covered
import PLang.Proofs.Tree.WellFormed

/-!
# In whose body a node is checked

A check goes down from a node to its parts and keeps to the function that it is in, until it comes
to another function. So the nodes under the body of a function are checked in that function, and
those under the body of the program in none.
-/

namespace PLang

variable {s : Store} {lo root id : Nat} {k k' : NodeKind} {part : Part}
  {f g : Option NodeId} {n : Nat}

/-! ### Schedules and parts -/

namespace Store

theorem visit_mem_schedule {site : Site} : .visit site ∈ s.schedule (n + 1) f root ↔
    site = (root, f) ∨ ∃ k, s.kind? root = some k ∧ ∃ child ∈ s.inside k,
      .visit site ∈ s.schedule n (k.around root f) child := by
  rw [schedule, List.mem_cons, Key.visit.injEq]
  refine or_congr_right ?_
  cases s.kind? root with
  | none => simp
  | some k => cases k <;> simp [NodeKind.opening, NodeKind.closing]

/-- The nodes on a schedule are the first one and such that stand in others. -/
theorem eq_or_exists_of_mem_schedule (h : .visit (id, g) ∈ s.schedule n f root) :
    id = root ∨ ∃ top k, s.kind? top = some k ∧ id ∈ s.inside k := by
  induction n generalizing f root with
  | zero => cases h
  | succ n ih =>
    rcases visit_mem_schedule.1 h with hself | ⟨k, hk, child, hchild, h⟩
    · exact .inl (congrArg Prod.fst hself)
    · rcases ih h with rfl | hparent
      · exact .inr ⟨root, k, hk, hchild⟩
      · exact .inr hparent

theorem eq_of_inside_eq_nil (hk : s.kind? root = some k) (hnone : s.inside k = [])
    (h : .visit (id, g) ∈ s.schedule n f root) : id = root := by
  cases n with
  | zero => cases h
  | succ n =>
    rcases visit_mem_schedule.1 h with hself | ⟨k', hk', child, hchild, -⟩
    · exact congrArg Prod.fst hself
    · cases hk.symm.trans hk'
      rw [hnone] at hchild
      cases hchild

theorem exists_part_of_mem_inside (hs : 0 < s.size) (h : id ∈ s.inside k) :
    ∃ part ∈ k.parts, id ∈ s.row part.node :=
  List.mem_flatMap.1 ((inside_sublist hs k).subset h)

theorem obliged_subset_inside (h : id ∈ s.obliged k) : id ∈ s.inside k := by
  cases k with
  | condition c => exact .tail _ h
  | whileLoop guardNode body => exact .tail _ h
  | program | compound | forLoop | function => exact h
  | _ => cases h

/-- What checking comes to is on the schedule. -/
theorem Inside.mem_schedule {site site' : Site} (h : s.Inside site site') :
    ∃ n, .visit site' ∈ s.schedule n site.2 site.1 := by
  induction h with
  | self site => exact ⟨1, visit_mem_schedule.2 (.inl rfl)⟩
  | part hk hchild _ ih =>
    obtain ⟨n, hn⟩ := ih
    exact ⟨n + 1, visit_mem_schedule.2 (.inr ⟨_, hk, _, obliged_subset_inside hchild, hn⟩)⟩

theorem Inside.trans {site site' site'' : Site} (h : s.Inside site site')
    (h' : s.Inside site' site'') : s.Inside site site'' := by
  induction h with
  | self => exact h'
  | part hk hchild _ ih => exact .part hk hchild (ih h')

end Store

/-- What checking comes to is the root of a tree in a part. -/
theorem Subtree.standsIn_inside (h : Subtree s lo root k) (hid : id ∈ s.inside k) :
    ∃ part ∈ k.parts, ∃ lo' k', StandsIn s lo root part lo' id k' := by
  have hsize := Store.lt_size_of_kind? h.kind?
  obtain ⟨part, hpart, hrow⟩ := Store.exists_part_of_mem_inside (Nat.zero_lt_of_lt hsize) hid
  cases htype : k.isType with
  | false => exact ⟨part, hpart, h.standsIn htype hpart hrow⟩
  | true =>
    cases k with
    | type => cases hid
    | _ => cases htype

/-! ### Bodies -/

/-- The kinds of nodes that there are in bodies. -/
def NodeKind.isLocal : NodeKind → Bool
  | program _ | function _ => false
  | _ => true

theorem Operator.isLocal_of_fitsLeft {o : Operator} (h : o.fitsLeft k = true) :
    k.isLocal = true := by
  cases k with
  | program | function => cases o <;> cases h
  | _ => rfl

/-- There are no programs in programs, and functions are parts of programs only. -/
theorem NodeKind.isLocal_of_fits (hpart : part ∈ k.parts) (hfits : part.fits k' = true) :
    k'.isLocal = true ∨ ∃ p, k = .program p ∧ part = ⟨.functions, p.functions, isFunction⟩ := by
  cases k with
  | expression e =>
    simp only [parts, List.mem_cons, List.not_mem_nil, or_false] at hpart
    rcases hpart with rfl | rfl
    · exact .inl (Operator.isLocal_of_fitsLeft hfits)
    · exact .inl (Operator.isLocal_of_fitsLeft (o := .add) hfits)
  | program p =>
    simp only [parts, List.mem_cons, List.not_mem_nil, or_false] at hpart
    rcases hpart with rfl | rfl | rfl
    · cases k' with
      | program | function => cases hfits
      | _ => exact .inl rfl
    · exact .inr ⟨p, rfl, rfl⟩
    · cases k' with
      | program | function => cases hfits
      | _ => exact .inl rfl
  | literal | name | number | epsilon => cases hpart
  | _ =>
    simp only [parts, ForNode.headerParts, List.cons_append, List.nil_append, List.mem_cons,
      List.not_mem_nil, or_false] at hpart
    cases k' with
    | program | function => rcases hpart with rfl | rfl | rfl | rfl | rfl | rfl <;> cases hfits
    | _ => exact .inl rfl

/-- In a body, a check stays in the function. -/
theorem Subtree.function_of_isLocal (h : Subtree s lo root k) (hk : k.isLocal = true)
    (hid : .visit (id, g) ∈ s.schedule n f root) : g = f := by
  induction n generalizing lo root k with
  | zero => cases hid
  | succ n ih =>
    rcases Store.visit_mem_schedule.1 hid with hself | ⟨k', hk', child, hchild, hid⟩
    · exact congrArg Prod.snd hself
    · cases h.kind?.symm.trans hk'
      obtain ⟨part, hpart, lo', k', hstands⟩ := h.standsIn_inside hchild
      have haround : k.around root f = f := by
        cases k with
        | function => cases hk
        | _ => rfl
      rw [haround] at hid
      rcases NodeKind.isLocal_of_fits hpart hstands.fits with hlocal | ⟨p, rfl, -⟩
      · exact ih hstands.tree hlocal hid
      · cases hk

/-- The nodes in the body of a function or a program are checked in that function, or in none. -/
theorem Subtree.inside_of_under (hs : StoreOk s) (h : Subtree s lo root k) (hk : k.isLocal = true)
    (hunder : s.Under root id) (hid : s.Covered id) (f : Option NodeId) :
    s.Inside (root, f) (id, f) := by
  have hnumber : ∀ n, s.kind? id ≠ some (.number n) := by
    intro n hn
    exact NodeKind.not_covered_of_isQuiet (k := .number n) rfl hn hid
  obtain ⟨hlo, hle⟩ := hunder.between hs h hnumber
  obtain ⟨g, hg⟩ := h.inside_of_covered hlo hle hid f
  obtain ⟨n, hn⟩ := hg.mem_schedule
  rwa [h.function_of_isLocal hk hn] at hg

/-- What a check in a part of a body visits is under that part. -/
theorem Subtree.under_of_mem_schedule (h : Subtree s lo root k)
    (hid : .visit (id, g) ∈ s.schedule n f root) : s.Under root id := by
  have hbetween := (h.spread_schedule n f).inside _ hid
  exact h.under hbetween.1 hbetween.2

section

variable {value : Option NodeId} (hk : s.kind? id = some (.returnValue value))

include hk

/-- In a declaration or a type, there is no return statement. -/
theorem not_return_of_inside_eq_nil {root : NodeId} (hroot : s.kind? root = some k)
    (hnone : s.inside k = []) (hid : .visit (id, g) ∈ s.schedule n f root) :
    k = .returnValue value := by
  obtain rfl := Store.eq_of_inside_eq_nil hroot hnone hid
  exact Option.some.inj (hroot.symm.trans hk)

/-- A return statement that is checked in a function is in its body. -/
theorem Subtree.return_in_function {function : FunctionNode}
    (h : Subtree s lo root (.function function)) (hid : .visit (id, g) ∈ s.schedule n f root) :
    g = some root ∧ ∃ body, function.body = some body ∧ s.Under body id := by
  cases n with
  | zero => cases hid
  | succ n =>
    rcases Store.visit_mem_schedule.1 hid with hself | ⟨k', hk', child, hchild, hid⟩
    · cases hself
      cases hk.symm.trans h.kind?
    · cases h.kind?.symm.trans hk'
      obtain ⟨part, hpart, lo', k', hstands⟩ := h.standsIn_inside hchild
      have hnone : s.inside k' = [] → k' = .returnValue value := fun hnone =>
        not_return_of_inside_eq_nil hk hstands.tree.kind? hnone hid
      have hfits := hstands.fits
      simp only [NodeKind.parts, List.mem_cons, List.not_mem_nil, or_false] at hpart
      rcases hpart with rfl | rfl | rfl | rfl
      · cases k' with
        | declaration => cases hnone rfl
        | _ => cases hfits
      · cases k' with
        | type => cases hnone rfl
        | _ => cases hfits
      · cases k' with
        | type => cases hnone rfl
        | _ => cases hfits
      · cases k' with
        | compound b =>
          exact ⟨hstands.tree.function_of_isLocal rfl hid, child, hstands.alone rfl,
            hstands.tree.under_of_mem_schedule hid⟩
        | _ => cases hfits

/-- A return statement that is checked outside of all functions is in the body of the program, and
all others are in the bodies of the functions in which they are checked. -/
theorem Subtree.return_in_program {p : ProgramNode} (h : Subtree s lo root (.program p))
    (hid : .visit (id, g) ∈ s.schedule n none root) :
    g = none ∧ s.Under p.body id ∨ ∃ function node body, g = some function ∧
      s.kind? function = some (.function node) ∧ node.body = some body ∧ s.Under body id := by
  cases n with
  | zero => cases hid
  | succ n =>
    rcases Store.visit_mem_schedule.1 hid with hself | ⟨k', hk', child, hchild, hid⟩
    · cases hself
      cases hk.symm.trans h.kind?
    · cases h.kind?.symm.trans hk'
      obtain ⟨part, hpart, lo', k', hstands⟩ := h.standsIn_inside hchild
      have hfits := hstands.fits
      simp only [NodeKind.parts, List.mem_cons, List.not_mem_nil, or_false] at hpart
      rcases hpart with rfl | rfl | rfl
      · cases k' with
        | declaration => cases not_return_of_inside_eq_nil hk hstands.tree.kind? rfl hid
        | _ => cases hfits
      · cases k' with
        | function node =>
          obtain ⟨hg, body, hbody, hunder⟩ := hstands.tree.return_in_function hk hid
          exact .inr ⟨child, node, body, hg, hstands.tree.kind?, hbody, hunder⟩
        | _ => cases hfits
      · cases k' with
        | compound b =>
          obtain rfl : p.body = child := Option.some.inj (hstands.alone rfl)
          exact .inl ⟨hstands.tree.function_of_isLocal rfl hid,
            hstands.tree.under_of_mem_schedule hid⟩
        | _ => cases hfits

end

/-- The formal parameters of a function without a body are not visited. -/
theorem WellFormed.not_announced (hw : WellFormed s root) {d : DeclarationNode}
    (hk : s.kind? id = some (.declaration d)) (hid : .visit (id, g) ∈ s.schedule n f root) :
    ¬s.Announced id := by
  intro hannounced
  obtain ⟨function, node, hfunction, hbody, hmem⟩ := hannounced
  rcases Store.eq_or_exists_of_mem_schedule hid with rfl | ⟨top, k, hk', hinside⟩
  · obtain ⟨p, hp⟩ := hw.program
    cases hp.symm.trans hk
  · have hsize := Store.lt_size_of_kind? hk
    obtain ⟨part, hpart, hrow⟩ := Store.exists_part_of_mem_inside (Nat.zero_lt_of_lt hsize) hinside
    have hnumber : ∀ n, s.kind? id ≠ some (.number n) := fun n hn => by cases hk.symm.trans hn
    obtain rfl := hw.paths.parent_unique hw.store hk' hpart hrow hfunction (.head _) hmem
      hsize hnumber
    cases hk'.symm.trans hfunction
    simp [Store.inside, hbody] at hinside

end PLang
