import PLang.Proofs.InStep.Program
import PLang.Proofs.Renaming.Names
import PLang.Proofs.Tree.WellFormed

/-!
# Parsing renamed tokens

The parser of renamed tokens makes the tree of the tokens, renamed, and complains about the same
tokens. While a tree is built, a renaming keeps the nodes of assignment signs. A sign is added
before its loop, and types of parameters are copied before it is known that they are types, so the
nodes that are kept are known exactly only when the tree is complete.
-/

namespace PLang

open Build List Store

variable {ρ : String → String} {kept kept' : NodeId → Bool} {s s' : Store}
  {pending pending' : Option NodeId} {l : Location} {k : NodeKind}

/-- Counting loops. -/
def NodeKind.isForLoop : NodeKind → Bool
  | .forLoop _ => true
  | _ => false

namespace Store

/-- Some declaration has a node for its type that is no type. This happens in no parsed tree. -/
def Untyped (s : Store) : Prop :=
  ∃ id d k, s.kind? id = some (.declaration d) ∧ s.kind? d.type = some k ∧ k.isType = false

/-- The nodes that a renaming keeps are the assignment signs of counting loops, and one whose loop
is still to come. -/
structure Keeps (s : Store) (pending : Option NodeId) (kept : NodeId → Bool) : Prop where
  lt : ∀ id, kept id = true → id < s.size
  sign : ∀ id, s.isSign id = true → kept id = true
  waiting : ∀ id, pending = some id → kept id = true
  only : ∀ id, kept id = true → s.isSign id = true ∨ pending = some id ∨ s.Untyped

/-- A store and the renamed one. -/
def Renames (ρ : String → String) (pending : Option NodeId) (s s' : Store) : Prop :=
  ∃ kept, s' = s.renameBut ρ kept ∧ s.Keeps pending kept

/-! ### Adding nodes -/

theorem kind?_add (id : NodeId) :
    (add l k s).2.kind? id = if id = s.size then some k else s.kind? id := by
  rw [kind?, node?_add]
  split <;> rfl

variable {id : NodeId}

theorem kind?_add_of_some {k' : NodeKind} (h : s.kind? id = some k') :
    (add l k s).2.kind? id = some k' := by
  rw [kind?_add, if_neg (Nat.ne_of_lt (lt_size_of_kind? h)), h]

theorem Untyped.add (h : s.Untyped) : (add l k s).2.Untyped := by
  obtain ⟨id, d, k', hd, hk', htype⟩ := h
  exact ⟨id, d, k', kind?_add_of_some hd, kind?_add_of_some hk', htype⟩

theorem isSign_add_iff :
    (add l k s).2.isSign id = true ↔
      s.isSign id = true ∨ ∃ f, k = .forLoop f ∧ f.assignNode = id := by
  rw [isSign_iff, isSign_iff]
  constructor
  · rintro ⟨loop, f, hkind, hid⟩
    rw [kind?_add] at hkind
    split at hkind
    · exact .inr ⟨f, Option.some.inj hkind, hid⟩
    · exact .inl ⟨loop, f, hkind, hid⟩
  · rintro (⟨loop, f, hkind, hid⟩ | ⟨f, rfl, hid⟩)
    · exact ⟨loop, f, kind?_add_of_some hkind, hid⟩
    · exact ⟨s.size, f, by rw [kind?_add, if_pos rfl], hid⟩

theorem add_renameBut (hkept : ∀ id < s.size, kept' id = kept id) :
    (add l (if kept' s.size then k else k.rename ρ) (s.renameBut ρ kept)).2 =
      (add l k s).2.renameBut ρ kept' := by
  have hnode : ∀ id,
      (add l (if kept' s.size then k else k.rename ρ) (s.renameBut ρ kept)).2.node? id =
        ((add l k s).2.renameBut ρ kept').node? id := by
    intro id
    rw [node?_add, node?_renameBut, node?_renameBut, node?_add, size_renameBut]
    by_cases hid : id = s.size
    · subst hid
      rw [if_pos rfl, if_pos rfl]
      cases kept' s.size <;> rfl
    · rw [if_neg hid, if_neg hid]
      rcases Nat.lt_or_ge id s.size with hlt | hge
      · rw [hkept id hlt]
      · rw [(s.node?_eq_none_iff id).2 hge]
        rfl
  exact congrArg mk (Array.ext_getElem? hnode)

namespace Keeps

/-- A node that is renamed. A loop that is added takes the sign that has waited for it. -/
theorem add (h : s.Keeps pending kept)
    (hloop : ∀ f, k = .forLoop f → kept f.assignNode = true)
    (hpending : ∀ id, pending = some id → pending' = some id ∨
      ∃ f, k = .forLoop f ∧ f.assignNode = id)
    (hpending' : ∀ id, pending' = some id → kept id = true) :
    (add l k s).2.Keeps pending' kept where
  lt id hid := by
    rw [size_add]
    exact Nat.lt_succ_of_lt (h.lt id hid)
  sign id hid := by
    rcases isSign_add_iff.1 hid with hsign | ⟨f, hf, rfl⟩
    · exact h.sign id hsign
    · exact hloop f hf
  waiting := hpending'
  only id hid := by
    rcases h.only id hid with hsign | hwaiting | huntyped
    · exact .inl (isSign_add_iff.2 (.inl hsign))
    · rcases hpending id hwaiting with hwaiting | hloop
      · exact .inr (.inl hwaiting)
      · exact .inl (isSign_add_iff.2 (.inr hloop))
    · exact .inr (.inr huntyped.add)

/-- A node that is kept, as a sign whose loop is still to come or because types are not in order. -/
theorem addKept (h : s.Keeps none kept) (hloop : ∀ f, k = .forLoop f → kept f.assignNode = true)
    (hnew : pending' = some s.size ∨ pending' = none ∧ s.Untyped) :
    (Build.add l k s).2.Keeps pending' fun id => kept id || id == s.size where
  lt id hid := by
    rw [size_add]
    rcases Bool.or_eq_true_iff.1 hid with hid | hid
    · exact Nat.lt_succ_of_lt (h.lt id hid)
    · rw [eq_of_beq hid]
      exact Nat.lt_succ_self _
  sign id hid := by
    rcases isSign_add_iff.1 hid with hsign | ⟨f, hf, rfl⟩
    · exact Bool.or_eq_true_iff.2 (.inl (h.sign id hsign))
    · exact Bool.or_eq_true_iff.2 (.inl (hloop f hf))
  waiting id hid := by
    rcases hnew with hnew | ⟨hnew, -⟩
    · obtain rfl : s.size = id := Option.some.inj (hnew.symm.trans hid)
      simp
    · rw [hnew] at hid
      cases hid
  only id hid := by
    rcases Bool.or_eq_true_iff.1 hid with hid | hid
    · rcases h.only id hid with hsign | hwaiting | huntyped
      · exact .inl (isSign_add_iff.2 (.inl hsign))
      · cases hwaiting
      · exact .inr (.inr huntyped.add)
    · rw [eq_of_beq hid]
      exact .inr (hnew.imp_right fun hnew => hnew.2.add)

end Keeps

namespace Renames

theorem empty : Renames ρ none .empty .empty := by
  refine ⟨fun _ => false, rfl, fun id hid => (by cases hid), fun id hid => ?_,
    fun id hid => (by cases hid), fun id hid => (by cases hid)⟩
  obtain ⟨loop, f, hkind, -⟩ := isSign_iff.1 hid
  exact absurd (lt_size_of_kind? hkind) (Nat.not_lt_zero _)

theorem append (h : s.Renames ρ pending s') (head node : NodeId) :
    (s.append head node).Renames ρ pending (s'.append head node) := by
  obtain ⟨kept, rfl, hkeeps⟩ := h
  have hkind : (s.append head node).kind? = s.kind? := funext fun id => kind?_setNext id
  have hsign : (s.append head node).isSign = s.isSign := by
    funext id
    rw [Bool.eq_iff_iff, isSign_iff, isSign_iff, hkind]
  have huntyped : (s.append head node).Untyped ↔ s.Untyped := by rw [Untyped, Untyped, hkind]
  refine ⟨kept, append_renameBut head node, ?_, ?_, hkeeps.waiting, ?_⟩
  · rw [append, size_modify]
    exact hkeeps.lt
  · rw [hsign]
    exact hkeeps.sign
  · rw [hsign, huntyped]
    exact hkeeps.only

/-- A node that is renamed. -/
theorem addRenamed (h : s.Renames ρ pending s')
    (hloop : ∀ f, k = .forLoop f → s.isSign f.assignNode = true ∨ pending = some f.assignNode)
    (hpending : ∀ id, pending = some id → pending' = some id ∨
      ∃ f, k = .forLoop f ∧ f.assignNode = id)
    (hpending' : ∀ id, pending' = some id → pending = some id) :
    Build.SameResult (Renames ρ pending') (add l k s) (add l (k.rename ρ) s') := by
  obtain ⟨kept, rfl, hkeeps⟩ := h
  have hnew : kept s.size = false :=
    Bool.eq_false_iff.2 fun hsize => Nat.lt_irrefl _ (hkeeps.lt _ hsize)
  have hadd := add_renameBut (l := l) (k := k) (ρ := ρ) (s := s) fun id (_ : id < s.size) =>
    Eq.refl (kept id)
  rw [hnew] at hadd
  refine ⟨size_renameBut, kept, hadd, hkeeps.add (fun f hf => ?_) hpending fun id hid => ?_⟩
  · exact (hloop f hf).elim (hkeeps.sign _) (hkeeps.waiting _)
  · exact hkeeps.waiting id (hpending' id hid)

theorem add (h : s.Renames ρ pending s') (hk : k.isForLoop = false) :
    Build.SameResult (Renames ρ pending) (add l k s) (add l (k.rename ρ) s') := by
  refine h.addRenamed (fun f hf => ?_) (fun _ hid => .inl hid) fun _ hid => hid
  rw [hf] at hk
  cases hk

theorem add_bind {R : Store → Store → Prop} {f f' : NodeId → Build NodeId}
    (h : s.Renames ρ pending s') (hk : k.isForLoop = false)
    (hf : ∀ t t', t.Renames ρ pending t' → Build.SameResult R (f s.size t) (f' s.size t')) :
    Build.SameResult R ((Build.add l k >>= f) s) ((Build.add l (k.rename ρ) >>= f') s') :=
  (h.add hk).bind_forall hf

/-- A node that is kept. -/
theorem addKept (h : s.Renames ρ none s')
    (hloop : ∀ f, k = .forLoop f → s.isSign f.assignNode = true)
    (hnew : pending' = some s.size ∨ pending' = none ∧ s.Untyped) :
    Build.SameResult (Renames ρ pending') (Build.add l k s) (Build.add l k s') := by
  obtain ⟨kept, rfl, hkeeps⟩ := h
  have hsame : ∀ id < s.size, (kept id || id == s.size) = kept id := by
    intro id hlt
    rw [beq_false_of_ne (Nat.ne_of_lt hlt), Bool.or_false]
  have hadd := add_renameBut (l := l) (k := k) (ρ := ρ) hsame
  rw [beq_self_eq_true, Bool.or_true] at hadd
  exact ⟨size_renameBut, _, hadd, hkeeps.addKept (fun f hf => hkeeps.sign _ (hloop f hf)) hnew⟩

/-- A copy of a declaration's type. If it is no type, no more is asked of the kept nodes. -/
theorem duplicate {d : DeclarationNode} (h : s.Renames ρ none s')
    (hd : s.kind? id = some (.declaration d)) :
    Build.SameResult (Renames ρ none) (duplicate d.type s) (duplicate d.type s') := by
  have hrenames := h
  obtain ⟨kept, hs', -⟩ := hrenames
  have hnode' : s'.node? d.type = _ := hs' ▸ node?_renameBut d.type
  unfold Build.duplicate
  cases hnode : s.node? d.type with
  | none =>
    rw [hnode', hnode]
    exact ⟨rfl, h⟩
  | some n =>
    have hkind : s.kind? d.type = some n.kind := by rw [kind?, hnode]; rfl
    have hloop : ∀ f, n.kind = .forLoop f → s.isSign f.assignNode = true :=
      fun f hf => isSign_iff.2 ⟨d.type, f, hkind.trans (congrArg some hf), rfl⟩
    have hrenamed := h.addRenamed (l := n.location) (fun f hf => .inl (hloop f hf))
      (fun _ hid => .inl hid) fun _ hid => hid
    rw [hnode', hnode]
    cases hkept : kept d.type with
    | false => exact hrenamed
    | true =>
      cases htype : n.kind.isType with
      | true =>
        have hsame : n.kind.rename ρ = n.kind := by
          cases hn : n.kind <;> rw [hn] at htype <;> first | rfl | cases htype
        rw [hsame] at hrenamed
        exact hrenamed
      | false => exact h.addKept hloop (.inr ⟨rfl, id, d, n.kind, hd, hkind, htype⟩)

/-- A counting loop with its header. Its sign waits for the loop. -/
theorem loopWithHeader (h : s.Renames ρ none s') (t name assign lower upper : Token)
    (hname : name.kind = .identifier) (hassign : assign.kind ≠ .identifier) (low high : Int)
    (body : NodeId) :
    Build.SameResult (Renames ρ none)
      (Build.loopWithHeader t name assign lower upper low high body s)
      (Build.loopWithHeader (t.rename ρ) (name.rename ρ) (assign.rename ρ) (lower.rename ρ)
        (upper.rename ρ) low high body s') := by
  rw [Build.loopWithHeader_eq, Build.loopWithHeader_eq, Token.value_rename hname,
    Token.rename_of_ne hassign]
  simp only [Token.location_rename]
  refine h.add_bind rfl fun s1 s1' h1 => ?_
  have hsign := h1.addKept (l := assign.location) (k := .name assign.value)
    (fun f hf => by cases hf) (.inl rfl)
  refine hsign.bind_forall fun s2 s2' h2 => ?_
  refine h2.add_bind rfl fun s3 s3' h3 => ?_
  refine h3.add_bind rfl fun s4 s4' h4 => ?_
  refine h4.add_bind rfl fun s5 s5' h5 => ?_
  refine h5.add_bind rfl fun s6 s6' h6 => ?_
  refine h6.add_bind rfl fun s7 s7' h7 => ?_
  refine h7.addRenamed (fun f hf => .inr ?_) (fun id hid => .inr ?_) fun id hid => by cases hid
  · rw [← NodeKind.forLoop.inj hf]
    rfl
  · exact ⟨_, rfl, Option.some.inj hid⟩

end Renames

end Store

/-! ### The parser -/

theorem NodeKind.rename_of_isNameless (h : k.isNameless = true) : k.rename ρ = k := by
  cases k <;> first | rfl | cases h

theorem NodeKind.Naming.rename {kind : String → NodeKind} (h : NodeKind.Naming kind) (x : String) :
    (kind x).rename ρ = kind (ρ x) := by
  cases h <;> rfl

/-- A run on tokens and a run on the renamed tokens. -/
def Coupling.renamed (ρ : String → String) (ts : List Token) (limit : Nat) : Coupling where
  token t t' := t ∈ ts ∧ t' = t.rename ρ
  store := Store.Renames ρ none
  limit := limit
  limit' := limit
  le := Nat.le_refl limit

variable {ts : List Token} {limit : Nat}

theorem eq_of_place {l l' : Location} (h : (Coupling.renamed ρ ts limit).Place l l') : l' = l := by
  cases h with
  | of ht => rw [ht.2, Token.location_rename]

instance : (Coupling.renamed ρ ts limit).Lawful where
  kind_eq h := by rw [h.2, Token.kind_rename]
  value_eq h hkind := by rw [h.2, Token.rename_of_ne hkind]
  siblings_eq := by
    rintro s _ ⟨kept, rfl, -⟩
    exact siblings_renameBut
  number?_eq := by
    rintro s _ ⟨kept, rfl, -⟩
    exact number?_renameBut
  type?_eq := by
    rintro s _ ⟨kept, rfl, -⟩
    exact type?_renameBut
  literal?_eq := by
    rintro s _ ⟨kept, rfl, -⟩
    exact literal?_renameBut
  declaration?_eq := by
    rintro s _ ⟨kept, rfl, -⟩
    exact declaration?_renameBut
  append head node h := h.append head node
  add {l l' kind} hl hkind s s' h := by
    have hadd := h.add (l := l) (k := kind) (by cases kind <;> first | rfl | cases hkind)
    rw [NodeKind.rename_of_isNameless hkind] at hadd
    rw [eq_of_place hl]
    exact hadd
  addVoid hl s s' h := by
    rw [eq_of_place hl]
    exact h.add rfl
  duplicate h hd := h.duplicate hd
  addNamed {t t' kind} ht hkind s s' h := by
    obtain ⟨⟨-, rfl⟩, hidentifier⟩ := ht
    have hadd := h.add (l := t.location) (k := kind t.value) (by cases hkind <;> rfl)
    rw [hkind.rename] at hadd
    rw [Token.value_rename hidentifier, Token.location_rename]
    exact hadd
  addLoop ht hname hassign hlower hupper low high body s s' h := by
    rw [ht.2, hname.token.2, hassign.token.2, hlower.2, hupper.2]
    exact h.loopWithHeader _ _ _ _ _ hname.kind (by simp [hassign.kind]) low high body

/-! ### Whole programs -/

/-- A parsed tree tells which nodes were kept. -/
theorem Store.Renames.eq_rename (h : s.Renames ρ none s') (hs : StoreOk s) : s' = s.rename ρ := by
  obtain ⟨kept, rfl, hkeeps⟩ := h
  have htyped : ¬s.Untyped := by
    rintro ⟨id, d, k, hd, hk, htype⟩
    obtain ⟨-, hpart⟩ := hs.parts id _ hd ⟨.type, some d.type, NodeKind.isType⟩
      (by simp [NodeKind.parts]) d.type rfl
    have hself : d.type ∈ s.siblings (some d.type) :=
      StoreOk.mem_siblings_self (Nat.zero_lt_of_lt (lt_size_of_kind? hd))
    obtain ⟨k', hk', hfits⟩ := hpart.members d.type hself
    cases hk.symm.trans hk'
    exact absurd hfits (Bool.eq_false_iff.1 htype)
  have hkept : kept = s.isSign := by
    funext id
    rw [Bool.eq_iff_iff]
    refine ⟨fun hid => ?_, hkeeps.sign id⟩
    rcases hkeeps.only id hid with hsign | hpending | huntyped
    · exact hsign
    · cases hpending
    · exact absurd huntyped htyped
  rw [hkept, rename]

theorem closeTokens_rename (ts : List Token) :
    closeTokens (ts.map (Token.rename ρ)) = (closeTokens ts).map (Token.rename ρ) := by
  cases ts with
  | nil => rfl
  | cons first rest =>
    have hlast : ((first.rename ρ) :: rest.map (Token.rename ρ)).getLastD (first.rename ρ) =
        ((first :: rest).getLastD first).rename ρ := by
      rw [getLastD_eq_getLast?, ← map_cons, getLast?_map, Option.getD_map,
        getLastD_eq_getLast?]
    unfold closeTokens TokenStream.ofList
    rw [map_cons]
    dsimp only
    rw [hlast, Token.kind_rename, Token.span_rename]
    split
    · rfl
    · rw [map_cons, map_append]
      rfl

/-- How the parses of tokens and of the renamed tokens end: with a tree and the renamed tree, or
with the same complaint about a token and the renamed token. -/
inductive ParsesRenamed (ρ : String → String) (ts : List Token) :
    Except Error (Store × NodeId) → Except Error (Store × NodeId) → Prop
  | ok (s : Store) (root : NodeId) : ParsesRenamed ρ ts (.ok (s, root)) (.ok (s.rename ρ, root))
  | error (complaint : Complaint) {t : Token} (ht : t ∈ ts) :
    ParsesRenamed ρ ts (.error (complaint.about t)) (.error (complaint.about (t.rename ρ)))

theorem parseTokens_rename (ρ : String → String) (ts : List Token) (limit : Nat) :
    ParsesRenamed ρ (closeTokens ts) (parseTokens ts limit)
      (parseTokens (ts.map (Token.rename ρ)) limit) := by
  have htokens : List.Forall₂ (Coupling.renamed ρ (closeTokens ts) limit).token (closeTokens ts)
      (closeTokens (ts.map (Token.rename ρ))) := by
    rw [closeTokens_rename, forall₂_map_right_iff, forall₂_same]
    exact fun t ht => ⟨ht, rfl⟩
  have hrun : (Coupling.renamed ρ (closeTokens ts) limit).Parses (parseTokens ts limit)
      (parseTokens (ts.map (Token.rename ρ)) limit) := parseTokens_coupled .empty htokens
  generalize hr : parseTokens ts limit = r, parseTokens (ts.map (Token.rename ρ)) limit = r' at hrun
  cases hrun with
  | ok hs =>
    rw [hs.eq_rename (wellFormed_of_parseTokens hr).store]
    exact .ok _ _
  | error complaint ht =>
    obtain ⟨ht, rfl⟩ := ht
    exact .error complaint ht
  | cut hlt => exact absurd hlt (Nat.lt_irrefl _)

end PLang
