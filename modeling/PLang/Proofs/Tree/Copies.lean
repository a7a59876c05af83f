import Mathlib.Data.List.Forall2
import PLang.Proofs.Tree.Lists

/-!
# Copies of types

A function gets a list with one type for every parameter: the type of each declaration of parameters
is copied as often as the declaration has names. The copies are new nodes, and no other node
changes.
-/

namespace PLang

open List Store

/-- Two stores have the same first `n` nodes. -/
def SameBelow (n : Nat) (s s' : Store) : Prop := ∀ i, i < n → s'.node? i = s.node? i

variable {ids : List NodeId}

namespace SameBelow

variable {i m n : Nat} {s s' s'' : Store}

theorem refl (n : Nat) (s : Store) : SameBelow n s s := fun _ _ => rfl

theorem trans (h : SameBelow n s s') (h' : SameBelow n s' s'') : SameBelow n s s'' :=
  fun i hi => (h' i hi).trans (h i hi)

theorem mono (h : SameBelow n s s') (hm : m ≤ n) : SameBelow m s s' :=
  fun i hi => h i (Nat.lt_of_lt_of_le hi hm)

theorem kind? (h : SameBelow n s s') (hi : i < n) : s'.kind? i = s.kind? i := by
  rw [Store.kind?, Store.kind?, h i hi]

theorem next? (h : SameBelow n s s') (hi : i < n) : s'.next? i = s.next? i := by
  rw [Store.next?, Store.next?, h i hi]

theorem isList {head : Option NodeId} (h : SameBelow s.size s s')
    (hlist : s.IsList head ids) : s'.IsList head ids :=
  hlist.keep fun id hid => by rw [h id (hlist.lt_size hid)]

/-- A node that is added leaves the nodes before it as they are. -/
theorem add (location : Location) (kind : NodeKind) (s : Store) :
    SameBelow s.size s (Build.add location kind s).2 :=
  fun i hi => by rw [Build.node?_add, if_neg (Nat.ne_of_lt hi)]

end SameBelow

/-- A node of a store holds what a node of another store holds, at the same place in the source. -/
def IsCopy (s₀ s : Store) (id original : NodeId) : Prop :=
  ∃ node, s₀.node? original = some node ∧ (s.node? id).map Node.content = some node.content

theorem IsCopy.kind? {s₀ s : Store} {id original : NodeId} (h : IsCopy s₀ s id original) :
    s.kind? id = s₀.kind? original := by
  obtain ⟨node, hnode, hcontent⟩ := h
  obtain ⟨copy, hcopy, heq⟩ := Option.map_eq_some_iff.1 hcontent
  rw [Store.kind?, hcopy, Store.kind?, hnode]
  exact congrArg some (Prod.mk.inj heq).2

/-- The types that nodes hold are those that their copies hold. -/
theorem filterMap_type?_copies {s₀ s : Store} {originals : List NodeId}
    (h : List.Forall₂ (IsCopy s₀ s) ids originals) :
    ids.filterMap s.type? = originals.filterMap s₀.type? := by
  induction h with
  | nil => rfl
  | @cons id original _ _ hcopy _ ih =>
    have htype : s.type? id = s₀.type? original := by rw [type?, hcopy.kind?, type?]
    rw [filterMap_cons, filterMap_cons, htype, ih]

/-- A declaration of some names, with the node of their type. -/
def Store.Declares (s : Store) (id : NodeId) (group : Nat × NodeId) : Prop :=
  ∃ d names type, s.declaration? id = some d ∧ s.IsList (some d.names) names ∧
    names.length = group.1 ∧ d.type = group.2 ∧ s.type? group.2 = some type

/-- The type of every name, in order. -/
def signature (groups : List (Nat × NodeId)) : List NodeId :=
  groups.flatMap fun group => replicate group.1 group.2

/-- Copies of nodes have been added from a number on, and nothing else, and they make a list. -/
structure Copied (s₀ : Store) (start : Nat) (types : List NodeId) (list : Option NodeId)
    (s : Store) : Prop where
  fresh : s₀.size ≤ start
  size : s.size = start + types.length
  same : SameBelow s₀.size s₀ s
  listed : s.IsList list (range' start types.length)
  members : List.Forall₂ (IsCopy s₀ s) (range' start types.length) types

variable {groups : List (Nat × NodeId)}

namespace Copied

open Build

variable {s₀ s : Store} {start : Nat} {types : List NodeId} {list : Option NodeId} {type : NodeId}
  {node : Node}

/-- Copies stay when more is added. -/
theorem later {s' : Store} (h : Copied s₀ start types list s) (more : SameBelow s.size s s') :
    List.Forall₂ (IsCopy s₀ s') (range' start types.length) types := by
  refine h.members.imp fun id original hcopy => ?_
  obtain ⟨node, hnode, hcontent⟩ := hcopy
  obtain ⟨old, hfound, -⟩ := Option.map_eq_some_iff.1 hcontent
  exact ⟨node, hnode, by rw [more id (lt_size_of_node? hfound), hcontent]⟩

/-- One copy more. -/
theorem copy (h : Copied s₀ start types list s) (hnode : s₀.node? type = some node) :
    Copied s₀ start (types ++ [type])
      (some (appendTo list (duplicate type s).1 (duplicate type s).2).1)
      (appendTo list (duplicate type s).1 (duplicate type s).2).2 := by
  have hrun : duplicate type s = add node.location node.kind s := by
    rw [duplicate, h.same type (lt_size_of_node? hnode), hnode]
  rw [hrun, fst_add]
  have hold := SameBelow.add node.location node.kind s
  have hsize := size_add node.location node.kind s
  have hnew : (add node.location node.kind s).2.node? s.size =
      some ⟨node.location, node.kind, none⟩ := by rw [node?_add, if_pos rfl]
  generalize (add node.location node.kind s).2 = s₁ at hold hsize hnew
  have hfresh : s.size ∉ range' start types.length := fun hid =>
    Nat.lt_irrefl _ (h.listed.lt_size hid)
  obtain ⟨hlist, hsize', hkept, hcontent⟩ :=
    (hold.isList h.listed).appendTo hfresh hnew rfl
  have hle := h.size
  have hstart := h.fresh
  have hrange : range' start (types ++ [type]).length =
      range' start types.length ++ [s.size] := by
    rw [length_append, length_singleton, range'_1_concat, h.size]
  refine ⟨hstart, ?_, fun i hi => ?_, ?_, ?_⟩
  · rw [hsize', hsize, h.size, length_append]
    rfl
  · have hold' : i ∉ range' start types.length := fun hmem =>
      Nat.not_le_of_lt (Nat.lt_of_lt_of_le hi hstart) (mem_range'_1.1 hmem).1
    rw [hkept i hold', hold i (by omega), h.same i hi]
  · rwa [hrange]
  · rw [hrange]
    refine rel_append ((h.later hold).imp fun id original hcopy => ?_)
      (.cons ⟨node, hnode, by rw [hcontent, hnew]; rfl⟩ .nil)
    obtain ⟨old, hfound, hcontent'⟩ := hcopy
    exact ⟨old, hfound, (hcontent id).trans hcontent'⟩

/-- A type is copied a number of times. -/
theorem replicate (h : Copied s₀ start types list s) (hnode : s₀.node? type = some node) (n : Nat) :
    Copied s₀ start (types ++ replicate n type) (copies type n list s).1
      (copies type n list s).2 := by
  induction n generalizing list s types with
  | zero => rwa [replicate_zero, append_nil]
  | succ n ih =>
    rw [replicate_succ, append_cons]
    exact ih (h.copy hnode)

/-- The type of every declaration is copied once for each of its names. -/
theorem parameterTypes
    (hgroups : List.Forall₂ s₀.Declares ids groups) (h : Copied s₀ start types list s) :
    Copied s₀ start (types ++ signature groups)
      (parameterTypes (ids.filterMap s₀.declaration?) list s).1
      (parameterTypes (ids.filterMap s₀.declaration?) list s).2 := by
  induction hgroups generalizing list s types with
  | nil => rwa [signature, flatMap_nil, append_nil]
  | @cons id group ids groups hdeclares _ ih =>
    obtain ⟨d, names, type, hd, hnames, hcount, htype, hkind⟩ := hdeclares
    have hlength : s.listLength (some d.names) = group.1 := by
      rw [listLength, (h.same.isList hnames).siblings_eq, hcount]
    have hrun : parameterTypes (d :: ids.filterMap s₀.declaration?) list s =
        parameterTypes (ids.filterMap s₀.declaration?) (copies group.2 group.1 list s).1
          (copies group.2 group.1 list s).2 := by
      rw [← hlength, ← htype]
      rfl
    obtain ⟨node, hnode, -⟩ := Option.map_eq_some_iff.1 (type?_eq_some.1 hkind)
    rw [filterMap_cons_some hd, hrun, signature, flatMap_cons, ← append_assoc]
    exact ih (h.replicate hnode group.1)

end Copied

/-- A function whose return type is there is added after the copies of the types of its
parameters. -/
theorem Build.exists_copied_function {s₀ s : Store} {parameters : Option NodeId}
    (hlist : s₀.IsList parameters ids)
    (hgroups : List.Forall₂ s₀.Declares ids groups) (hsame : SameBelow s₀.size s₀ s)
    (hle : s₀.size ≤ s.size) (location : Location) (name : String) (type : NodeId)
    (body : Option NodeId) :
    ∃ types s₁, Copied s₀ s.size (signature groups) types s₁ ∧
      function location name parameters (some type) body s = add location (.function
        ⟨name, ((s.type? type).map TypeNode.scalar).getD .void, type, parameters, types,
          "(" ++ ", ".intercalate
            (((signature groups).filterMap s₀.type?).map TypeNode.text) ++ ")",
          body⟩) s₁ := by
  have hnone : Copied s₀ s.size [] none s := ⟨hle, rfl, hsame, .nil, .nil⟩
  have hcopied := hnone.parameterTypes hgroups
  have hdeclared : ids.filterMap s.declaration? = ids.filterMap s₀.declaration? :=
    filterMap_congr fun id hid => by
      rw [declaration?, hsame.kind? (hlist.lt_size hid), declaration?]
  have hrun : function location name parameters (some type) body s =
      (fun run : Option NodeId × Store => add location (.function
        ⟨name, ((s.type? type).map TypeNode.scalar).getD .void, type, parameters, run.1,
          "(" ++ ", ".intercalate (((run.2.siblings run.1).filterMap run.2.type?).map
            TypeNode.text) ++ ")", body⟩) run.2)
        (parameterTypes ((s.siblings parameters).filterMap s.declaration?) none s) := rfl
  rw [(hsame.isList hlist).siblings_eq, hdeclared] at hrun
  generalize parameterTypes (ids.filterMap s₀.declaration?) none s = run at hcopied hrun
  obtain ⟨types, s₁⟩ := run
  dsimp only at hcopied hrun
  rw [hcopied.listed.siblings_eq, filterMap_type?_copies hcopied.members] at hrun
  exact ⟨types, s₁, hcopied, hrun⟩

end PLang
