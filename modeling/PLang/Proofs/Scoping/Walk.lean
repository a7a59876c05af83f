import PLang.Proofs.Scoping.Declaring

/-!
# The walk keeps to lexical scoping

Every node is visited in its context, and after the visit what it declares is declared: one lemma
for every kind of node, and the walk by induction on the number of levels that are left.
-/

namespace PLang

open Context Check List NodeKind Store

variable {s : Store} {root id : NodeId} {watch : Moment → Check Unit} {c : Checker} {Γ Γ' : Context}
  {k : NodeKind} {part : Part} {visit plain : NodeId → Check Nat}

/-- A check of a node in a context: it declares what the node declares, and complains about what is
redeclared below the node. -/
def Treats (s : Store) (id : NodeId) (Γ : Context) (watched plain : Check Nat) : Prop :=
  ∀ c, Does s c Γ (s.declared (Γ.length - 1) id) (s.SiteBelow id Γ) watched plain

/-- A way to check all nodes in their contexts. -/
def Visits (s : Store) (root : NodeId) (visit plain : NodeId → Check Nat) : Prop :=
  ∀ id Γ k, s.InContext root id Γ → s.kind? id = some k → k.Suits Γ →
    Treats s id Γ (visit id) (plain id)

/-! ### Parts -/

theorem siteIn_iff_siteFrom {first : NodeId} (hpart : part ∈ k.parts)
    (hnode : part.node = some first)
    (hopened : s.opened id Γ k part.slot = some Γ') (site : NodeId) :
    s.SiteIn id Γ k part.slot site ↔ s.SiteFrom first Γ' site := by
  have hfirst := slot?_eq_some.2 ⟨part, hpart, rfl, hnode⟩
  constructor
  · rintro ⟨child, Γ1, hchild, hΓ1, hsite⟩
    cases hfirst.symm.trans hchild
    cases hopened.symm.trans hΓ1
    exact hsite
  · exact fun hsite => ⟨first, Γ', hfirst, hopened, hsite⟩

theorem not_siteIn_of_none (part : Part) (hpart : part ∈ k.parts) (hnode : part.node = none)
    (site : NodeId) : ¬s.SiteIn id Γ k part.slot site := by
  rintro ⟨child, Γ1, hchild, -⟩
  obtain ⟨part', hpart', hslot, hnode'⟩ := slot?_eq_some.1 hchild
  obtain rfl := inj_on_of_nodup_map k.nodup_slots hpart' hpart hslot
  rw [hnode] at hnode'
  cases hnode'

theorem not_siteIn_of_opened (slot : Slot) (h : s.opened id Γ k slot = none) (site : NodeId) :
    ¬s.SiteIn id Γ k slot site := by
  rintro ⟨child, Γ1, -, hΓ1, -⟩
  rw [h] at hΓ1
  cases hΓ1

/-- Blocks declare nothing for the construct around them. -/
theorem declaredList_blocks (hs : StoreOk s) (hkind : s.kind? id = some k) (hpart : part ∈ k.parts)
    (hfits : part.fits = isCompound) (level : Nat) : s.declaredList level part.node = [] := by
  cases hnode : part.node with
  | none => rw [declaredList, siblings_none, flatMap_nil]
  | some first =>
    obtain ⟨-, hok⟩ := hs.parts id k hkind part hpart first hnode
    refine flatMap_eq_nil_iff.2 fun member hmember => ?_
    obtain ⟨k', hk', hcompound⟩ := hok.members member hmember
    rw [hfits] at hcompound
    refine declared_eq_nil hk' ?_ level
    cases k' with
    | compound => rfl
    | _ => cases hcompound

/-- Values are visited without declaring anything. -/
theorem Visits.quiet (hs : StoreOk s) (hV : Visits s root visit plain) (hvalue : s.InValues id)
    (hid : s.InContext root id Γ) : Quiet s Γ (visit id) (plain id) := by
  intro c
  obtain ⟨k, hk, hk'⟩ := hvalue.exists_kind
  exact (hV id Γ k hid hk (suits_of_isValue hk') c).congr (hvalue.declared_eq_nil _) fun site =>
    iff_of_false (fun ⟨_, _, hsite⟩ => hvalue.not_siteOn hs hsite) not_false

theorem not_siteIn_values (hs : StoreOk s) (hkind : s.kind? id = some k) (part : Part)
    (hpart : part ∈ k.parts) (hfits : ∀ k', part.fits k' = true → k'.isValue = true)
    (site : NodeId) :
    ¬s.SiteIn id Γ k part.slot site := by
  rintro ⟨child, Γ1, hchild, -, path, hsite⟩
  obtain ⟨part', hpart', hslot, hnode⟩ := slot?_eq_some.1 hchild
  obtain rfl := inj_on_of_nodup_map k.nodup_slots hpart' hpart hslot
  exact (Store.InValues.of_part hs hkind hpart hnode hfits).not_siteOn hs hsite

section Parts

variable (hs : StoreOk s) (hV : Visits s root visit plain) (hid : s.InContext root id Γ)
  (hkind : s.kind? id = some k) (part : Part) (hpart : part ∈ k.parts)
  (hopened : s.opened id Γ k part.slot = some Γ')

include hs hV hid hkind hpart hopened

/-- The list in a slot. -/
theorem Visits.list (hpaths : PathsOk s root)
    (hsuits : ∀ k', part.fits k' = true → ∀ Γ1 : Context, Γ1.length = Γ'.length → k'.Suits Γ1)
    (c : Checker) :
    Does s c Γ' (s.declaredList (Γ'.length - 1) part.node) (s.SiteIn id Γ k part.slot)
      (list visit .reportAll part.node) (list plain .reportAll part.node) := by
  cases hnode : part.node with
  | none =>
    rw [declaredList, siblings_none]
    refine .look rfl ?_
    rw [listUpTo_none, listUpTo_none]
    exact (Does.pure 0).congr rfl fun site =>
      iff_of_false not_false (not_siteIn_of_none part hpart hnode site)
  | some first =>
    obtain ⟨hsize, hok⟩ := hs.parts id k hkind part hpart first hnode
    have hfirst : s.InContext root first Γ' :=
      hid.slot hkind (slot?_eq_some.2 ⟨part, hpart, rfl, hnode⟩) hopened
    refine (Does.list hs (s.declared (Γ'.length - 1))
      (fun before member =>
        s.SiteBelow member (Γ'.declare (before.flatMap (s.declared (Γ'.length - 1)))))
      ?_ ?_ ?_ c).congr rfl fun site => ?_
    · rintro _ ⟨⟩
      exact hsize
    · intro before member after hmember c
      have hsibling : member ∈ s.siblings (some first) := by
        rw [hmember]
        exact mem_append_right _ (.head _)
      obtain ⟨k', hk', hfits⟩ := hok.members member hsibling
      have hvisit := hV member _ k' (hfirst.member hs hsize hmember) hk'
        (hsuits k' hfits _ (length_declare ..)) c
      rwa [length_declare] at hvisit
    · intro before member after before' member' after' site hmember hmember' hsite hsite'
      exact hsite.length_eq hs hpaths hfirst hsize hmember hmember' hsite'
    · rw [siteIn_iff_siteFrom hpart hnode hopened, siteFrom_iff_exists_member hs hsize]

variable {child : NodeId}

/-- The node in a slot that holds no list. -/
theorem Visits.single (hslot : part.slot.isList = false)
    (hsuits : ∀ k', part.fits k' = true → k'.Suits Γ') (hnode : part.node = some child)
    (c : Checker) :
    Does s c Γ' (s.declaredList (Γ'.length - 1) (some child))
      (s.SiteIn id Γ k part.slot) (visit child)
      (plain child) := by
  obtain ⟨hsize, hok⟩ := hs.parts id k hkind part hpart child hnode
  have hchild : s.InContext root child Γ' :=
    hid.slot hkind (slot?_eq_some.2 ⟨part, hpart, rfl, hnode⟩) hopened
  have halone : s.siblings (some child) = [child] := by
    rw [hs.siblings_cons hsize, hok.alone hslot, siblings_none]
  obtain ⟨k', hk', hfits⟩ := hok.members child (halone ▸ (.head _))
  refine (hV child Γ' k' hchild hk' (hsuits k' hfits) c).congr ?_ fun site => ?_
  · rw [declaredList, halone, flatMap_singleton]
  · rw [siteIn_iff_siteFrom hpart hnode hopened, siteFrom_iff, hok.alone hslot]
    simp

/-- A node in a slot that may be empty. -/
theorem Visits.optional (hslot : part.slot.isList = false)
    (hsuits : ∀ k', part.fits k' = true → k'.Suits Γ') (c : Checker) :
    Does s c Γ' (s.declaredList (Γ'.length - 1) part.node) (s.SiteIn id Γ k part.slot)
      (optional visit part.node) (optional plain part.node) := by
  cases hnode : part.node with
  | none =>
    rw [declaredList, siblings_none]
    exact (Does.pure 0).congr rfl fun site =>
      iff_of_false not_false (not_siteIn_of_none part hpart hnode site)
  | some child => exact hV.single hs hid hkind part hpart hopened hslot hsuits hnode c

/-- A block in a slot that may be empty. -/
theorem Visits.optionalBlock (hslot : part.slot.isList = false) (hfits : part.fits = isCompound)
    (c : Checker) :
    Does s c Γ' [] (s.SiteIn id Γ k part.slot) (Check.optional visit part.node)
      (Check.optional plain part.node) := by
  have hsuits : ∀ k', part.fits k' = true → k'.Suits Γ' := fun k' hk' =>
    suits_of_isCompound (hfits ▸ hk')
  exact (hV.optional hs hid hkind part hpart hopened hslot hsuits c).congr
    (declaredList_blocks hs hkind hpart hfits _) fun _ => Iff.rfl

/-- A block in a slot. -/
theorem Visits.block (hslot : part.slot.isList = false) (hfits : part.fits = isCompound)
    (hnode : part.node = some child) (c : Checker) :
    Does s c Γ' [] (s.SiteIn id Γ k part.slot) (visit child) (plain child) := by
  have hblock := hV.optionalBlock hs hid hkind part hpart hopened hslot hfits c
  rwa [hnode] at hblock

/-- The values in a slot. -/
theorem Visits.values (hfits : ∀ k', part.fits k' = true → k'.isValue = true) :
    ∀ member ∈ s.siblings part.node, Quiet s Γ' (visit member) (plain member) := by
  intro member hmember
  obtain ⟨first, hnode⟩ := exists_head_of_mem hmember
  rw [hnode] at hmember
  obtain ⟨hsize, hok⟩ := hs.parts id k hkind part hpart first hnode
  have hvalues : ∀ member ∈ s.siblings (some first), s.InValues member := fun member hmember =>
    ⟨some first, hmember, fun other hother =>
      (hok.members other hother).imp fun k' hk' => ⟨hk'.1, hfits k' hk'.2⟩⟩
  have hfirst : s.InContext root first Γ' :=
    hid.slot hkind (slot?_eq_some.2 ⟨part, hpart, rfl, hnode⟩) hopened
  obtain ⟨before, after, hsplit⟩ := append_of_mem hmember
  have hcontext := hfirst.member hs hsize hsplit
  have hnil : before.flatMap (s.declared (Γ'.length - 1)) = [] :=
    flatMap_eq_nil_iff.2 fun other hother =>
      (hvalues other (hsplit ▸ mem_append_left _ hother)).declared_eq_nil _
  rw [hnil, declare_nil] at hcontext
  exact hV.quiet hs (hvalues member hmember) hcontext

theorem Visits.value (hfits : ∀ k', part.fits k' = true → k'.isValue = true)
    (hnode : part.node = some child) : Quiet s Γ' (visit child) (plain child) := by
  refine hV.values hs hid hkind part hpart hopened hfits child ?_
  rw [hnode]
  exact StoreOk.mem_siblings_self (Nat.zero_lt_of_lt (lt_size_of_kind? hkind))

end Parts

/-! ### Expressions and simple statements -/

theorem not_siteBelow_of_values (hs : StoreOk s) (hkind : s.kind? id = some k)
    (hk : k.isDeclaring = false)
    (hparts : ∀ part ∈ k.parts, ∀ k', part.fits k' = true → k'.isValue = true) (site : NodeId) :
    ¬s.SiteBelow id Γ site := by
  rw [siteBelow_iff_siteIn hkind hk]
  rintro ⟨part, hpart, hsite⟩
  exact not_siteIn_values hs hkind part hpart (hparts part hpart) site hsite

/-- A node whose parts are values. -/
theorem Quiet.treats {x y : Check Nat} (h : Quiet s Γ x y) (hs : StoreOk s)
    (hkind : s.kind? id = some k)
    (hk : k.isDeclaring = false)
    (hparts : ∀ part ∈ k.parts, ∀ k', part.fits k' = true → k'.isValue = true) :
    Treats s id Γ x y :=
  fun c => (h c).congr (declared_eq_nil hkind hk _).symm fun site =>
    iff_of_false not_false (not_siteBelow_of_values hs hkind hk hparts site)

/-- A node that is not checked. -/
theorem treats_nothing (hkind : s.kind? id = some k) (hk : k.isDeclaring = false)
    (hparts : ∀ part ∈ k.parts, s.opened id Γ k part.slot = none) : Treats s id Γ (pure 0)
    (pure 0) := by
  intro c
  refine (Does.pure 0).congr (declared_eq_nil hkind hk _).symm fun site => iff_of_false not_false ?_
  rw [siteBelow_iff_siteIn hkind hk]
  rintro ⟨part, hpart, hsite⟩
  exact not_siteIn_of_opened _ (hparts part hpart) site hsite

theorem treats_declaration (hs : StoreOk s) (hwatch : Agrees s root watch) {d : DeclarationNode}
    (hkind : s.kind? id = some (.declaration d)) (hsuits : (NodeKind.declaration d).Suits Γ) :
    Treats s id Γ (Check.Watched.declaration watch d) (declaration d) := by
  obtain ⟨hΓ, hd⟩ := hsuits
  cases Γ with
  | nil => exact absurd rfl hΓ
  | cons here outer =>
    intro c
    refine (does_declaration hs hwatch hkind hd).congr rfl fun site => ?_
    have hnone : ∀ slot, s.opened id (here :: outer) (.declaration d) slot = none →
        ¬s.SiteIn id (here :: outer) (.declaration d) slot site :=
      fun slot hslot => not_siteIn_of_opened slot hslot site
    rw [siteBelow_iff hkind]
    simp [parts, hnone .names rfl, hnone .type rfl, hnone .literal rfl]

namespace Visits

open NodeKind

variable (hs : StoreOk s) (hV : Visits s root visit plain) (hid : s.InContext root id Γ)

include hs hV hid

theorem expression {e e' : ExpressionNode} (hkind : s.kind? id = some (.expression e))
    (hbare : (expression e').bare = (expression e).bare) :
    Treats s id Γ (expression visit id e') (expression plain id e') := by
  have hleft : e'.left = e.left := congrArg (·.slot? .left) hbare
  have hright : e'.right = e.right := congrArg (·.slot? .right) hbare
  refine Quiet.treats (Quiet.expression hkind hbare ?_ ?_) hs hkind rfl ?_
  · intro child hchild
    exact hV.value hs hid hkind ⟨.left, e.left, _⟩ (.head _) rfl
      (fun _ => isValue_of_fitsLeft) (hleft ▸ hchild)
  · intro child hchild
    exact hV.value hs hid hkind ⟨.right, e.right, _⟩ (.tail _ (.head _)) rfl
      (fun _ => isValue_of_isExpression) (hright ▸ hchild)
  · exact fun part hpart k' => isValue_of_fits rfl hpart

theorem reference {r r' : ReferenceNode} (hkind : s.kind? id = some (.reference r))
    (hbare : (reference r').bare = (reference r).bare) :
    Treats s id Γ (reference visit id r') (reference plain id r') := by
  have hindices : r'.indices = r.indices := congrArg (·.slot? .indices) hbare
  refine Quiet.treats (Quiet.reference hs ?_) hs hkind rfl
    (fun part hpart k' => isValue_of_fits rfl hpart)
  rw [hindices]
  exact hV.values hs hid hkind ⟨.indices, r.indices, _⟩ (.head _) rfl
    fun _ => isValue_of_isExpression

theorem call {r r' : CallNode} (hkind : s.kind? id = some (.call r))
    (hbare : (call r').bare = (call r).bare) :
    Treats s id Γ (call visit id r') (call plain id r') := by
  have harguments : r'.arguments = r.arguments := congrArg (·.slot? .arguments) hbare
  refine Quiet.treats (Quiet.call hs ?_) hs hkind rfl
    (fun part hpart k' => isValue_of_fits rfl hpart)
  rw [harguments]
  exact hV.values hs hid hkind ⟨.arguments, r.arguments, _⟩ (.head _) rfl
    fun _ => isValue_of_isExpression

theorem print {value : NodeId} (hkind : s.kind? id = some (.print value)) :
    Treats s id Γ (print visit value) (print plain value) := by
  refine Quiet.treats (Quiet.print ?_) hs hkind rfl (fun part hpart k' hfits => ?_)
  · exact hV.value hs hid hkind ⟨.value, some value, _⟩ (.head _) rfl
      (fun _ => isValue_of_isExpression) rfl
  · obtain rfl := mem_singleton.1 hpart
    exact isValue_of_isExpression hfits

theorem assign {target value : NodeId} (hkind : s.kind? id = some (.assign target value)) :
    Treats s id Γ (assign visit id target value) (assign plain id target value) := by
  refine Quiet.treats (Quiet.assign ?_ ?_) hs hkind rfl (fun part hpart k' hfits => ?_)
  · exact hV.value hs hid hkind ⟨.target, some target, _⟩ (.head _) rfl
      (fun _ => isValue_of_isReference) rfl
  · exact hV.value hs hid hkind ⟨.value, some value, _⟩ (.tail _ (.head _)) rfl
      (fun _ => isValue_of_isExpression) rfl
  · rcases mem_pair.1 hpart with rfl | rfl
    · exact isValue_of_isReference hfits
    · exact isValue_of_isExpression hfits

theorem read {target : NodeId} (hkind : s.kind? id = some (.read target)) :
    Treats s id Γ (read visit target) (read plain target) := by
  refine Quiet.treats (Quiet.read ?_) hs hkind rfl (fun part hpart k' hfits => ?_)
  · exact hV.value hs hid hkind ⟨.target, some target, _⟩ (.head _) rfl
      (fun _ => isValue_of_isReference) rfl
  · obtain rfl := mem_singleton.1 hpart
    exact isValue_of_isReference hfits

theorem returnValue {value : Option NodeId} (hkind : s.kind? id = some (.returnValue value)) :
    Treats s id Γ (returnValue visit id value) (returnValue plain id value) := by
  refine Quiet.treats (Quiet.returnValue fun child hchild => ?_) hs hkind rfl
    (fun part hpart k' hfits => ?_)
  · exact hV.value hs hid hkind ⟨.value, value, _⟩ (.head _) rfl
      (fun _ => isValue_of_isExpression) hchild
  · obtain rfl := mem_singleton.1 hpart
    exact isValue_of_isExpression hfits

/-! ### Statements with blocks -/

theorem condition (hpaths : PathsOk s root) {n : ConditionNode}
    (hkind : s.kind? id = some (.condition n)) :
    Treats s id Γ (condition visit n) (condition plain n) := by
  have hguard := hV.value hs hid hkind ⟨.guard, some n.guard, isExpression⟩ (by simp [parts]) rfl
    (fun _ => isValue_of_isExpression) rfl
  have hthen := hV.block hs hid hkind ⟨.thenBody, some n.thenBody, isCompound⟩
    (by simp [parts]) rfl rfl
    rfl rfl
  have helse := hV.optionalBlock hs hid hkind ⟨.elseBody, n.elseBody, isCompound⟩
    (by simp [parts]) rfl rfl
    rfl
  intro c
  refine ((hguard.guard c).add₃ (fun c1 => by simpa only [declare_nil] using hthen c1)
    (fun c2 => by simpa only [append_nil, declare_nil] using helse c2) (fun _ h => h.elim) ?_).congr
    (declared_eq_nil hkind rfl _).symm fun site => ?_
  · rintro site (h | h) h'
    · exact h
    · cases h.slot_eq hs hpaths hid hkind h'
  · have hnone : ¬s.SiteIn id Γ _ .guard site := not_siteIn_values hs hkind ⟨.guard, some n.guard,
      isExpression⟩ (by simp [parts]) (fun _ => isValue_of_isExpression) site
    rw [siteBelow_iff_siteIn hkind rfl]
    simp [parts, hnone]

theorem whileLoop {guard body : NodeId} (hkind : s.kind? id = some (.whileLoop guard body)) :
    Treats s id Γ (whileLoop visit guard body) (whileLoop plain guard body) := by
  have hguard := hV.value hs hid hkind ⟨.guard, some guard, isExpression⟩ (by simp [parts]) rfl
    (fun _ => isValue_of_isExpression) rfl
  have hbody := hV.block hs hid hkind ⟨.body, some body, isCompound⟩ (by simp [parts])
    rfl rfl rfl rfl
  intro c
  refine ((hguard.guard c).add (fun c1 => by simpa only [declare_nil] using hbody c1)
    (fun _ h => h.elim)).congr (declared_eq_nil hkind rfl _).symm fun site => ?_
  have hnone : ¬s.SiteIn id Γ _ .guard site := not_siteIn_values hs hkind ⟨.guard, some guard,
    isExpression⟩ (by simp [parts]) (fun _ => isValue_of_isExpression) site
  rw [siteBelow_iff_siteIn hkind rfl]
  simp [parts, hnone]

/-! ### Nodes that open scopes -/

section

variable (hpaths : PathsOk s root) (hwatch : Agrees s root watch)

include hpaths hwatch

theorem compound {b : CompoundNode} (hkind : s.kind? id = some (.compound b)) :
    Treats s id Γ (Check.Watched.compound watch visit b) (compound plain b) := by
  have hdeclarations := hV.list hs hid hkind ⟨.declarations, b.declarations,
    declares [.var, .constant]⟩
    (by simp [parts]) rfl hpaths fun k' hk' Γ1 hΓ1 => suits_of_declares hk' (by decide)
      (by simp [hΓ1])
  have hstatements := hV.list hs hid hkind ⟨.statements, b.statements, isStatement⟩
    (by simp [parts]) rfl hpaths fun k' hk' Γ1 _ => suits_of_isStatement hk'
  intro c
  refine (Does.inScope hwatch ((hdeclarations _).add hstatements fun site h h' => ?_)).congr
    (declared_eq_nil hkind rfl _).symm fun site => ?_
  · cases h.slot_eq hs hpaths hid hkind h'
  · rw [siteBelow_iff_siteIn hkind rfl]
    simp [parts]

theorem forLoop {f : ForNode} (hkind : s.kind? id = some (.forLoop f)) :
    Treats s id Γ (Check.Watched.forLoop watch visit id f) (forLoop plain id f) := by
  have hdeclaration := hV.single hs hid hkind ⟨.declaration, some f.declaration,
    declares [.loopVar]⟩
    (by simp [parts, ForNode.headerParts]) rfl rfl
    (fun k' hk' => suits_of_declares hk' (by decide) (by simp)) rfl
  have hbody := hV.block hs hid hkind ⟨.body, some f.body, isCompound⟩ (by simp [parts])
    rfl rfl rfl rfl
  have hdisjoint : ∀ site, False ∨ s.SiteIn id Γ (.forLoop f) .declaration site →
      ¬s.SiteIn id Γ (.forLoop f) .body site := by
    rintro site (h | h) h'
    · exact h
    · cases h.slot_eq hs hpaths hid hkind h'
  intro c
  refine (Does.inScope (a := [] ++ s.declaredList Γ.length (some f.declaration) ++ [])
    (S := fun site => (False ∨ s.SiteIn id Γ (.forLoop f) .declaration site) ∨
      s.SiteIn id Γ (.forLoop f) .body site) hwatch ?_).congr
    (declared_eq_nil hkind rfl _).symm fun site => ?_
  · -- bounds in the wrong order are reported, and the loop is checked all the same
    dsimp only
    split
    · exact (Does.report id rfl).add₃ hdeclaration hbody (fun _ h => h.elim) hdisjoint
    · exact (Does.pure 0).add₃ hdeclaration hbody (fun _ h => h.elim) hdisjoint
  · have hnone : ∀ slot, s.opened id Γ (.forLoop f) slot = none →
      ¬s.SiteIn id Γ (.forLoop f) slot site :=
      fun slot hslot => not_siteIn_of_opened slot hslot site
    rw [siteBelow_iff_siteIn hkind rfl]
    simp [parts, ForNode.headerParts, hnone .variableNode rfl, hnone .assignNode rfl,
      hnone .lowerNode rfl, hnone .upperNode rfl]

/-- A function, which stands in a program. -/
theorem function {f : FunctionNode} (hkind : s.kind? id = some (.function f)) (hΓ : Γ.length = 1) :
    Treats s id Γ (Check.Watched.function watch visit id f) (Check.function plain id f) := by
  obtain ⟨here, rfl⟩ := length_eq_one_iff.1 hΓ
  intro c
  have hname : ∀ c, Does s c [here] (s.declared 0 id) (s.Redeclares id [here])
      (Check.Watched.declareFunction watch id f) (declareFunction id f) :=
    fun c => does_declareFunction hwatch hkind
  have hnone : ∀ slot site, s.opened id [here] (.function f) slot = none →
      ¬s.SiteIn id [here] (.function f) slot site :=
    fun slot site hslot => not_siteIn_of_opened slot hslot site
  rw [Check.Watched.function, Check.function]
  cases hbody : f.body with
  | none =>
    -- without a body, the parameters are not visited either
    have hempty : ∀ site, ¬s.SiteIn id [here] (.function f) .body site :=
      not_siteIn_of_none ⟨.body, f.body, isCompound⟩ (by simp [parts]) hbody
    have hopened : s.opened id [here] (.function f) .parameters = none := by
      rw [opened, hbody]
      rfl
    refine ((hname c).bind (fun m c1 => .pure m) fun _ _ h => h).congr (append_nil _) fun site => ?_
    rw [siteBelow_iff hkind]
    simp [parts, hempty, hnone .parameters _ hopened, hnone .parameterTypes _ rfl,
      hnone .resultType _ rfl]
  | some body =>
    have hopened : s.opened id [here] (.function f) .parameters =
        some ([] :: Context.declare [here] (s.declared 0 id)) := by
      rw [opened, hbody]
      rfl
    have hparameters := hV.list hs hid hkind ⟨.parameters, f.parameters, declares [.parameter]⟩
      (by simp [parts]) hopened hpaths
      fun k' hk' Γ1 hΓ1 => suits_of_declares hk' (by decide) (by simp [hΓ1])
    have hstatements := hV.list hs hid hkind ⟨.body, f.body, isCompound⟩
      (by simp [parts]) rfl hpaths
      fun k' hk' Γ1 _ => suits_of_isCompound hk'
    -- parameters and body stand in a scope of their own, around which the function is declared
    have hinside := fun c1 : Checker => Does.within (c := c1) id (Does.inScope hwatch
      ((hparameters _).add hstatements fun site h h' => nomatch h.slot_eq hs hpaths hid hkind h'))
    rw [hbody] at hinside
    refine ((hname c).bind (fun m c1 => (hinside c1).plus m) ?_).congr (append_nil _) fun site => ?_
    · rintro site hsite (h | h)
      · exact h.not_redeclares hs hpaths hid hkind hsite
      · exact h.not_redeclares hs hpaths hid hkind hsite
    · rw [siteBelow_iff hkind]
      simp [parts, hnone .parameterTypes _ rfl, hnone .resultType _ rfl]

/-- A program, which stands in nothing. -/
theorem program {p : ProgramNode} (hkind : s.kind? id = some (.program p)) (hΓ : Γ.length = 0) :
    Treats s id Γ (Check.Watched.program watch visit id p) (program plain id p) := by
  obtain rfl := length_eq_zero_iff.1 hΓ
  have hdeclarations := hV.list hs hid hkind ⟨.declarations, p.declarations,
    declares [.var, .constant]⟩
    (by simp [parts]) rfl hpaths fun k' hk' Γ1 hΓ1 => suits_of_declares hk' (by decide)
      (by simp [hΓ1])
  have hfunctions := hV.list hs hid hkind ⟨.functions, p.functions, isFunction⟩
    (by simp [parts]) rfl
    hpaths fun k' hk' Γ1 hΓ1 => suits_of_isFunction hk' (by simp [hΓ1])
  have hbody := hV.block hs hid hkind ⟨.body, some p.body, isCompound⟩ (by simp [parts])
    rfl rfl rfl rfl
  intro c
  refine (Does.inScope hwatch (Does.declare hwatch (p.symbol 0 id) rfl (absurd rfl) not_mem_nil rfl
    fun c => (hdeclarations c).add₃ hfunctions hbody (fun site h h' => ?_) ?_)).congr
    (declared_eq_nil hkind rfl _).symm fun site => ?_
  · cases h.slot_eq hs hpaths hid hkind h'
  · rintro site (h | h) h' <;> cases h.slot_eq hs hpaths hid hkind h'
  · rw [siteBelow_iff_siteIn hkind rfl]
    simp [parts, or_assoc]

end

/-! ### The walk -/

section

variable (hpaths : PathsOk s root) (hwatch : Agrees s root watch) (hkind : s.kind? id = some k)
  (hsuits : k.Suits Γ)

include hpaths hwatch hkind hsuits

/-- One case for every kind of node that nothing is written into. -/
theorem plainKind (hplain : k.isPlain = true) :
    Treats s id Γ (Check.Watched.kind watch visit id k) (kind plain id k) := by
  cases k with
  | expression | reference | call => cases hplain
  | program => exact hV.program hs hid hpaths hwatch hkind hsuits
  | declaration => exact treats_declaration hs hwatch hkind hsuits
  | compound => exact hV.compound hs hid hpaths hwatch hkind
  | print => exact hV.print hs hid hkind
  | assign => exact hV.assign hs hid hkind
  | read => exact hV.read hs hid hkind
  | condition => exact hV.condition hs hid hpaths hkind
  | whileLoop => exact hV.whileLoop hs hid hkind
  | returnValue => exact hV.returnValue hs hid hkind
  | forLoop => exact hV.forLoop hs hid hpaths hwatch hkind
  | function => exact hV.function hs hid hpaths hwatch hkind hsuits
  | type => exact treats_nothing hkind rfl fun part hpart => rfl
  | literal | name | number | epsilon => exact treats_nothing hkind rfl (forall_mem_nil _)

/-- A node, into which something may have been written. -/
theorem kind {k' : NodeKind} (hbare : k'.bare = k.bare) :
    Treats s id Γ (Check.Watched.kind watch visit id k') (kind plain id k') := by
  cases hplain : k.isPlain with
  | true =>
    obtain rfl := eq_of_bare_eq hplain hbare
    exact hV.plainKind hs hid hpaths hwatch hkind hsuits hplain
  | false =>
    cases k with
    | expression e =>
      cases k' with
      | expression e' => exact hV.expression hs hid hkind hbare
      | _ => cases hbare
    | reference r =>
      cases k' with
      | reference r' => exact hV.reference hs hid hkind hbare
      | _ => cases hbare
    | call r =>
      cases k' with
      | call r' => exact hV.call hs hid hkind hbare
      | _ => cases hbare
    | _ => cases hplain

theorem node : Treats s id Γ (Check.Watched.node watch visit id) (node plain id) := by
  intro c hc
  obtain ⟨k', hk', hbare⟩ := hc.noted.alike.kind?_cases hkind
  refine Does.look rfl ?_ hc
  dsimp only
  rw [hk']
  exact hV.kind hs hid hpaths hwatch hkind hsuits hbare c


end
end Visits

/-- The walk visits all nodes in their contexts. -/
theorem visits_visitUpTo (hs : StoreOk s) (hpaths : PathsOk s root) (hwatch : Agrees s root watch)
    (n : Nat) : Visits s root (Check.Watched.visitUpTo watch n) (visitUpTo n) := by
  induction n with
  | zero =>
    intro id Γ k hid _ _ c hc
    refine ⟨bind_of_ok (hwatch.visit id Γ c hid hc), [], ?_⟩
    rw [declare_nil]
    exact ⟨hc.ok, hc.noted, hc.shows⟩
  | succ n ih =>
    intro id Γ k hid hkind hsuits c hc
    obtain ⟨heq, hends⟩ := Does.deeper (ih.node hs hid hpaths hwatch hkind hsuits _) hc
    exact ⟨(bind_of_ok (hwatch.visit id Γ c hid hc)).trans heq, hends⟩

end PLang
