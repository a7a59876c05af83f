import PLang.Proofs.Scoping.Static

/-!
# Places of redeclarations

The places at which a tree redeclares names, sorted by the parts of the tree in which they are. What
is in no context declares nothing: inside of expressions there are no such places. Different parts
have different places.
-/

namespace PLang

open Context List NodeKind Option

variable {s : Store} {root id child site : NodeId} {Γ Γ' : Context} {k : NodeKind}

variable {after before : List NodeId} {link : Link} {path path' : List Link}

namespace Store

/-- A path from a node leads to a redeclaration. -/
def SiteOn (s : Store) (id : NodeId) (Γ : Context) (path : List Link) (site : NodeId) : Prop :=
  ∃ other Γ', s.along id Γ path = some (other, Γ') ∧ s.Redeclares other Γ' site

/-- A node or its parts redeclare something. -/
def SiteBelow (s : Store) (id : NodeId) (Γ : Context) (site : NodeId) : Prop :=
  ∃ path, Down path ∧ s.SiteOn id Γ path site

/-- A node, the nodes that follow it, or their parts redeclare something. -/
def SiteFrom (s : Store) (id : NodeId) (Γ : Context) (site : NodeId) : Prop :=
  ∃ path, s.SiteOn id Γ path site

/-! ### Contexts along paths -/

theorem along_cons :
    s.along id Γ (link :: path) =
      (s.follow? id link).bind fun child => (s.entered id Γ link).bind fun Γ =>
        s.along child Γ path :=
  rfl

theorem along_append {more : List Link} :
    s.along id Γ (path ++ more) = (s.along id Γ path).bind fun (id, Γ) => s.along id Γ more := by
  induction path generalizing id Γ with
  | nil => rfl
  | cons link path ih =>
    rw [cons_append, along_cons, along_cons, bind_assoc]
    refine congrArg _ (funext fun child => ?_)
    rw [bind_assoc]
    exact congrArg _ (funext fun Γ => ih)

theorem walk?_of_along {other : NodeId} (h : s.along id Γ path = some (other, Γ')) :
    s.walk? id path = some other := by
  induction path generalizing id Γ with
  | nil =>
    cases h
    rfl
  | cons link path ih =>
    obtain ⟨child, hchild, h⟩ := bind_eq_some_iff.1 h
    obtain ⟨Γ1, -, h⟩ := bind_eq_some_iff.1 h
    exact bind_eq_some_iff.2 ⟨child, hchild, ih h⟩

theorem InContext.step (h : s.InContext root id Γ) (hchild : s.follow? id link = some child)
    (hentered : s.entered id Γ link = some Γ') : s.InContext root child Γ' := by
  obtain ⟨path, hpath⟩ := h
  refine ⟨path ++ [link], ?_⟩
  rw [along_append, hpath, bind_some]
  dsimp only
  rw [along_cons, hchild, bind_some, hentered, bind_some, along]

theorem InContext.slot {slot : Slot} (h : s.InContext root id Γ) (hkind : s.kind? id = some k)
    (hchild : k.slot? slot = some child) (hopened : s.opened id Γ k slot = some Γ') :
    s.InContext root child Γ' := by
  have hfollow : s.follow? id (.slot slot) = some child := by rw [follow?, hkind, bind_some, hchild]
  refine h.step hfollow ?_
  rw [entered, hkind, bind_some, hopened]

/-! ### The parts of a node -/

/-- The nodes in a slot, or their parts, redeclare something. -/
def SiteIn (s : Store) (id : NodeId) (Γ : Context) (k : NodeKind) (slot : Slot)
    (site : NodeId) : Prop :=
  ∃ child Γ', k.slot? slot = some child ∧ s.opened id Γ k slot = some Γ' ∧ s.SiteFrom child Γ' site

theorem siteIn_iff {slot : Slot} (hkind : s.kind? id = some k) :
    s.SiteIn id Γ k slot site ↔ ∃ path, s.SiteOn id Γ (.slot slot :: path) site := by
  have hfollow : s.follow? id (.slot slot) = k.slot? slot := by rw [follow?, hkind, bind_some]
  have hentered : s.entered id Γ (.slot slot) = s.opened id Γ k slot := by
    rw [entered, hkind, bind_some]
  constructor
  · rintro ⟨child, Γ', hchild, hΓ', path, other, Γ1, halong, hsite⟩
    refine ⟨path, other, Γ1, ?_, hsite⟩
    rw [along_cons, hfollow, hchild, bind_some, hentered, hΓ', bind_some, halong]
  · rintro ⟨path, other, Γ1, halong, hsite⟩
    rw [along_cons, hfollow, hentered] at halong
    obtain ⟨child, hchild, halong⟩ := bind_eq_some_iff.1 halong
    obtain ⟨Γ', hΓ', halong⟩ := bind_eq_some_iff.1 halong
    exact ⟨child, Γ', hchild, hΓ', path, other, Γ1, halong, hsite⟩

/-- The places below a node are its own and those in its slots. -/
theorem siteBelow_iff (hkind : s.kind? id = some k) : s.SiteBelow id Γ site ↔
    s.Redeclares id Γ site ∨ ∃ part ∈ k.parts, s.SiteIn id Γ k part.slot site := by
  constructor
  · rintro ⟨_ | ⟨slot | _, path⟩, hdown, hsite⟩
    · obtain ⟨other, Γ1, halong, hsite⟩ := hsite
      cases halong
      exact .inl hsite
    · have hin := (siteIn_iff hkind).2 ⟨path, hsite⟩
      obtain ⟨child, Γ', hchild, h⟩ := hin
      obtain ⟨part, hpart, rfl, hnode⟩ := slot?_eq_some.1 hchild
      exact .inr ⟨part, hpart, child, Γ', hchild, h⟩
    · exact absurd rfl hdown
  · rintro (hsite | ⟨part, hpart, hin⟩)
    · exact ⟨[], nofun, id, Γ, rfl, hsite⟩
    · obtain ⟨path, hsite⟩ := (siteIn_iff hkind).1 hin
      exact ⟨.slot part.slot :: path, nofun, hsite⟩

/-! ### Lists -/

theorem siteFrom_iff : s.SiteFrom id Γ site ↔ s.SiteBelow id Γ site ∨
    ∃ child, s.next? id = some child ∧
      s.SiteFrom child (Γ.declare (s.declared (Γ.length - 1) id)) site := by
  constructor
  · rintro ⟨_ | ⟨slot | _, path⟩, other, Γ1, halong, hsite⟩
    · exact .inl ⟨[], nofun, other, Γ1, halong, hsite⟩
    · exact .inl ⟨.slot slot :: path, nofun, other, Γ1, halong, hsite⟩
    · obtain ⟨child, hchild, halong⟩ := bind_eq_some_iff.1 halong
      exact .inr ⟨child, hchild, path, other, Γ1, halong, hsite⟩
  · rintro (⟨path, -, hsite⟩ | ⟨child, hchild, path, other, Γ1, halong, hsite⟩)
    · exact ⟨path, hsite⟩
    · refine ⟨.next :: path, other, Γ1, ?_, hsite⟩
      rw [along_cons, follow?, hchild]
      exact halong

/-- A member of a list is the first one or a member of the rest. -/
theorem exists_member_cons {first : NodeId} {rest : List NodeId} {P : List NodeId → NodeId → Prop} :
    (∃ before member after, first :: rest = before ++ member :: after ∧ P before member) ↔
      P [] first ∨ ∃ before member after, rest = before ++ member :: after ∧
        P (first :: before) member := by
  constructor
  · rintro ⟨_ | ⟨other, before⟩, member, after, hmember, h⟩
    · obtain ⟨rfl, -⟩ := cons_eq_cons.1 hmember
      exact .inl h
    · obtain ⟨rfl, hrest⟩ := cons_eq_cons.1 hmember
      exact .inr ⟨before, member, after, hrest, h⟩
  · rintro (h | ⟨before, member, after, rfl, h⟩)
    · exact ⟨[], first, rest, rfl, h⟩
    · exact ⟨first :: before, member, after, rfl, h⟩

/-- The places in a list are those in its members, each in the context that the ones before it
leave. -/
theorem siteFrom_iff_exists_member (hs : StoreOk s) (hid : id < s.size) :
    s.SiteFrom id Γ site ↔ ∃ before member after, s.siblings (some id) = before ++ member :: after ∧
      s.SiteBelow member (Γ.declare (before.flatMap (s.declared (Γ.length - 1)))) site := by
  induction hn : s.size - id using Nat.strongRecOn generalizing id Γ with
  | ind n ih =>
    rw [siteFrom_iff, hs.siblings_cons hid, exists_member_cons, flatMap_nil, declare_nil]
    refine or_congr_right ?_
    cases hchild : s.next? id with
    | none => simp [siblings_none]
    | some child =>
      obtain ⟨hgt, hlt⟩ := hs.next id child hchild
      have hless : s.size - child < n := hn ▸ Nat.sub_lt_sub_left hid hgt
      simp only [flatMap_cons, ← declare_declare, some_inj, exists_eq_left']
      rw [ih _ hless hlt rfl, length_declare]

/-- The way along a list to one of its members. -/
theorem along_member (hs : StoreOk s) (hid : id < s.size) {member : NodeId}
    (hmember : s.siblings (some id) = before ++ member :: after) :
    s.along id Γ (replicate before.length .next) =
      some (member, Γ.declare (before.flatMap (s.declared (Γ.length - 1)))) := by
  induction before generalizing id Γ with
  | nil =>
    rw [hs.siblings_cons hid] at hmember
    obtain ⟨rfl, -⟩ := cons_eq_cons.1 hmember
    rw [flatMap_nil, declare_nil]
    rfl
  | cons first before ih =>
    rw [hs.siblings_cons hid] at hmember
    obtain ⟨rfl, hrest⟩ := cons_eq_cons.1 hmember
    cases hchild : s.next? id with
    | none =>
      rw [hchild, siblings_none] at hrest
      simp at hrest
    | some child =>
      rw [hchild] at hrest
      rw [length_cons, replicate_succ, along_cons, follow?, hchild, bind_some, entered,
        bind_some, ih (hs.next id child hchild).2 hrest, declare_declare,
        length_declare, flatMap_cons]

/-- The members of a list in a context. -/
theorem InContext.member (hs : StoreOk s) (h : s.InContext root id Γ) (hid : id < s.size)
    {member : NodeId} (hmember : s.siblings (some id) = before ++ member :: after) :
    s.InContext root member (Γ.declare (before.flatMap (s.declared (Γ.length - 1)))) := by
  obtain ⟨path, hpath⟩ := h
  refine ⟨path ++ replicate before.length .next, ?_⟩
  rw [along_append, hpath, bind_some]
  exact along_member hs hid hmember

/-! ### Different parts, different places -/

/-- What follows a slot decides where it stands, if there is no slot behind it. -/
theorem eq_of_append_slot {more more' : List Link} {slot : Slot}
    (hmore : ∀ link ∈ more, link = .next) (hmore' : ∀ link ∈ more', link = .next)
    (h : path ++ .slot slot :: more = path' ++ .slot slot :: more') : path = path' := by
  rcases append_eq_append_iff.1 h with ⟨between, hpath, hbehind⟩ | ⟨between, hpath, hbehind⟩
  · cases between with
    | nil => rw [hpath, append_nil]
    | cons link between =>
      rw [cons_append, cons_eq_cons] at hbehind
      cases hmore (.slot slot) (hbehind.2 ▸ by simp)
  · cases between with
    | nil => rw [hpath, append_nil]
    | cons link between =>
      rw [cons_append, cons_eq_cons] at hbehind
      cases hmore' (.slot slot) (hbehind.2 ▸ by simp)

/-- A redeclaration stands at a name of a declaration or at a function. -/
theorem Redeclares.cases (hs : StoreOk s) (h : s.Redeclares id Γ site) :
    (site = id ∧ ∃ f, s.kind? site = some (.function f)) ∨
      (∃ text, s.kind? site = some (.name text)) ∧
        ∃ more, s.walk? id (.slot .names :: more) = some site ∧ ∀ link ∈ more, link = .next := by
  unfold Redeclares at h
  split at h
  next d hd =>
    obtain ⟨before, after, hsite, -⟩ := h
    have hmem : site ∈ s.siblings (some d.names) := hsite ▸ by simp
    obtain ⟨-, hpart⟩ := hs.parts id _ hd ⟨.names, some d.names, isName⟩ (.head _)
      d.names rfl
    obtain ⟨k, hk, hfits⟩ := hpart.members site hmem
    obtain ⟨more, hmore, hlinks⟩ := exists_walk_of_mem_chain hmem
    refine .inr ⟨?_, more, ?_, hlinks⟩
    · cases k with
      | name text => exact ⟨text, hk⟩
      | _ => cases hfits
    · rw [walk?, follow?, hd]
      exact hmore
  next f hf =>
    obtain ⟨rfl, -⟩ := h
    exact .inl ⟨rfl, f, hf⟩
  next => exact h.elim

section

variable (hs : StoreOk s) (hpaths : PathsOk s root) (hid : s.InContext root id Γ)

include hs hpaths hid

/-- One path leads to a redeclaration. -/
theorem SiteOn.unique (h : s.SiteOn id Γ path site) (h' : s.SiteOn id Γ path' site) :
    path = path' := by
  obtain ⟨start, hstart⟩ := hid
  obtain ⟨other, Γ1, halong, hsite⟩ := h
  obtain ⟨other', Γ1', halong', hsite'⟩ := h'
  have hwalk : ∀ more, s.walk? root (start ++ (path ++ more)) = s.walk? other more := fun more => by
    rw [walk?_append, walk?_of_along hstart, bind_some, walk?_append, walk?_of_along halong,
      bind_some]
  have hwalk' : ∀ more, s.walk? root (start ++ (path' ++ more)) = s.walk? other' more :=
    fun more => by
    rw [walk?_append, walk?_of_along hstart, bind_some, walk?_append, walk?_of_along halong',
      bind_some]
  have hunique : ∀ k, s.kind? site = some k → (∀ n, k ≠ .number n) → ∀ more more',
      s.walk? other more = some site → s.walk? other' more' = some site →
      path ++ more = path' ++ more' := by
    intro k hk hnumber more more' hmore hmore'
    have hformal : ¬s.FormalDimension site := by
      rintro ⟨_, d, -, -, hholds⟩
      obtain ⟨n, hn⟩ := hs.exists_number_of_holds hholds
      exact hnumber n (some.inj (hk.symm.trans hn))
    exact append_cancel_left ((hpaths.unique site (lt_size_of_kind? hk) hformal).unique
      ((hwalk more).trans hmore) ((hwalk' more').trans hmore'))
  rcases Redeclares.cases hs hsite with ⟨rfl, f, hf⟩ | ⟨⟨text, htext⟩, more, hmore, hlinks⟩
  · rcases Redeclares.cases hs hsite' with ⟨rfl, -⟩ | ⟨⟨text, htext⟩, -⟩
    · simpa using hunique _ hf nofun [] [] rfl rfl
    · rw [hf] at htext
      cases htext
  · rcases Redeclares.cases hs hsite' with ⟨rfl, f, hf⟩ | ⟨-, more', hmore', hlinks'⟩
    · rw [hf] at htext
      cases htext
    · exact eq_of_append_slot hlinks hlinks' (hunique _ htext nofun _ _ hmore hmore')

/-- A place is in one slot only. -/
theorem SiteIn.slot_eq (hkind : s.kind? id = some k) {slot slot' : Slot}
    (h : s.SiteIn id Γ k slot site) (h' : s.SiteIn id Γ k slot' site) : slot = slot' := by
  obtain ⟨path, hsite⟩ := (siteIn_iff hkind).1 h
  obtain ⟨path', hsite'⟩ := (siteIn_iff hkind).1 h'
  cases hsite.unique hs hpaths hid hsite'
  rfl

/-- What a node redeclares itself is not redeclared by its parts. -/
theorem SiteIn.not_redeclares (hkind : s.kind? id = some k) {slot : Slot}
    (h : s.SiteIn id Γ k slot site) : ¬s.Redeclares id Γ site := by
  intro hsite
  obtain ⟨path, hin⟩ := (siteIn_iff hkind).1 h
  have hself : s.SiteOn id Γ [] site := ⟨id, Γ, rfl, hsite⟩
  cases hin.unique hs hpaths hid hself


end
theorem length_eq_of_replicate_next {n n' : Nat} (hdown : Down path) (hdown' : Down path')
    (h : replicate n .next ++ path = replicate n' .next ++ path') : n = n' := by
  induction n generalizing n' with
  | zero =>
    cases n' with
    | zero => rfl
    | succ n' => exact absurd (congrArg head? h) hdown
  | succ n ih =>
    cases n' with
    | zero => exact absurd (congrArg head? h.symm) hdown'
    | succ n' =>
      rw [replicate_succ, replicate_succ, cons_append, cons_append,
        cons_eq_cons] at h
      rw [ih h.2]

/-- A place is in one member of a list only. -/
theorem SiteBelow.length_eq (hs : StoreOk s) (hpaths : PathsOk s root) (hid : s.InContext root id Γ)
    (hsize : id < s.size) {before' after' : List NodeId} {member member' : NodeId}
    (hmember : s.siblings (some id) = before ++ member :: after)
    (hmember' : s.siblings (some id) = before' ++ member' :: after')
    (h : s.SiteBelow member (Γ.declare (before.flatMap (s.declared (Γ.length - 1)))) site)
    (h' : s.SiteBelow member' (Γ.declare (before'.flatMap (s.declared (Γ.length - 1)))) site) :
    before.length = before'.length := by
  have hon : ∀ {before after : List NodeId} {member : NodeId} {path : List Link},
      s.siblings (some id) = before ++ member :: after →
      s.SiteOn member (Γ.declare (before.flatMap (s.declared (Γ.length - 1)))) path site →
      s.SiteOn id Γ (replicate before.length .next ++ path) site := by
    rintro before after member path hmember ⟨other, Γ1, halong, hsite⟩
    refine ⟨other, Γ1, ?_, hsite⟩
    rw [along_append, along_member hs hsize hmember, bind_some]
    exact halong
  obtain ⟨path, hdown, hsite⟩ := h
  obtain ⟨path', hdown', hsite'⟩ := h'
  exact length_eq_of_replicate_next hdown hdown'
    ((hon hmember hsite).unique hs hpaths hid (hon hmember' hsite'))

end Store

/-! ### Where nodes stand -/

namespace NodeKind

/-- The contexts in which a node can stand: a program in none, a function in the program only, and a
declaration in some construct. -/
def Suits : NodeKind → Context → Prop
  | .program _, Γ => Γ.length = 0
  | .function _, Γ => Γ.length = 1
  | .declaration d, Γ => Γ.length ≠ 0 ∧ d.kind ≠ .program ∧ d.kind ≠ .function
  | _, _ => True

theorem suits_of_declares {kinds : List SymbolKind} (h : k.declares kinds = true)
    (hkinds : .program ∉ kinds ∧ .function ∉ kinds) (hΓ : Γ.length ≠ 0) : k.Suits Γ := by
  cases k with
  | declaration d =>
    have hmem : d.kind ∈ kinds := by simpa [declares] using h
    exact ⟨hΓ, fun h => hkinds.1 (h ▸ hmem), fun h => hkinds.2 (h ▸ hmem)⟩
  | _ => cases h

theorem suits_of_isFunction (h : k.isFunction = true) (hΓ : Γ.length = 1) : k.Suits Γ := by
  cases k with
  | function f => exact hΓ
  | _ => cases h

theorem suits_of_isStatement (h : k.isStatement = true) : k.Suits Γ := by
  cases k with
  | program | function | declaration => cases h
  | _ => trivial

theorem suits_of_isCompound (h : k.isCompound = true) : k.Suits Γ := by
  cases k with
  | compound => trivial
  | _ => cases h

/-- Nodes that have a value, and their parts. -/
def isValue : NodeKind → Bool
  | expression _ | reference _ | call _ | literal _ => true
  | _ => false

theorem isDeclaring_of_isValue (h : k.isValue = true) : k.isDeclaring = false := by
  cases k with
  | declaration | function => cases h
  | _ => rfl

theorem suits_of_isValue (h : k.isValue = true) : k.Suits Γ := by
  cases k with
  | program | function | declaration => cases h
  | _ => trivial

theorem isValue_of_isExpression (h : k.isExpression = true) : k.isValue = true := by
  cases k with
  | expression => rfl
  | _ => cases h

theorem isValue_of_isReference (h : k.isReference = true) : k.isValue = true := by
  cases k with
  | reference => rfl
  | _ => cases h

theorem isValue_of_fitsLeft {operator : Operator} (h : operator.fitsLeft k = true) :
    k.isValue = true := by
  cases operator with
  | constant | reference | call =>
    cases k with
    | literal | reference | call => rfl
    | _ => cases h
  | _ => exact isValue_of_isExpression h

/-- The parts of values are values. -/
theorem isValue_of_fits {k' : NodeKind} {part : Part} (hk : k.isValue = true)
    (hpart : part ∈ k.parts)
    (hfits : part.fits k' = true) : k'.isValue = true := by
  cases k with
  | expression e =>
    rcases mem_pair.1 hpart with rfl | rfl
    · exact isValue_of_fitsLeft hfits
    · exact isValue_of_isExpression hfits
  | reference | call =>
    obtain rfl := mem_singleton.1 hpart
    exact isValue_of_isExpression hfits
  | literal => cases hpart
  | _ => cases hk

end NodeKind

section

variable (hkind : s.kind? id = some k) (hk : k.isDeclaring = false)

include hkind hk

theorem Store.declared_eq_nil (level : Nat) : s.declared level id = [] := by
  rw [declared, hkind]
  cases k with
  | declaration | function => cases hk
  | _ => rfl

theorem Store.not_redeclares : ¬s.Redeclares id Γ site := by
  rw [Redeclares, hkind]
  cases k with
  | declaration | function => cases hk
  | _ => exact not_false

/-- The places below a node that declares nothing are those in its slots. -/
theorem Store.siteBelow_iff_siteIn :
    s.SiteBelow id Γ site ↔ ∃ part ∈ k.parts, s.SiteIn id Γ k part.slot site := by
  rw [siteBelow_iff hkind]
  exact or_iff_right (not_redeclares hkind hk)

end

/-- A node in a list of values. -/
def Store.InValues (s : Store) (id : NodeId) : Prop :=
  ∃ head, id ∈ s.siblings head ∧ ∀ member ∈ s.siblings head, ∃ k, s.kind? member = some k ∧
    k.isValue = true

namespace Store.InValues

theorem exists_kind (h : s.InValues id) : ∃ k, s.kind? id = some k ∧ k.isValue = true := by
  obtain ⟨head, hmem, hall⟩ := h
  exact hall id hmem

theorem of_part (hs : StoreOk s) (hkind : s.kind? id = some k) {part : Part}
    (hpart : part ∈ k.parts)
    (hchild : part.node = some child) (hfits : ∀ k', part.fits k' = true → k'.isValue = true) :
    s.InValues child := by
  obtain ⟨-, hok⟩ := hs.parts id k hkind part hpart child hchild
  refine ⟨some child, StoreOk.mem_siblings_self (Nat.zero_lt_of_lt (lt_size_of_kind? hkind)), ?_⟩
  intro member hmember
  obtain ⟨k', hk', hfits'⟩ := hok.members member hmember
  exact ⟨k', hk', hfits k' hfits'⟩

/-- Links lead from values to values. -/
theorem follow? (hs : StoreOk s) (h : s.InValues id) (hchild : s.follow? id link = some child) :
    s.InValues child := by
  cases link with
  | next =>
    obtain ⟨head, hmem, hall⟩ := h
    exact ⟨head, hs.mem_siblings_next hmem hchild, hall⟩
  | slot slot =>
    obtain ⟨k, hk, hvalue⟩ := h.exists_kind
    rw [Store.follow?, hk, bind_some, slot?_eq_some] at hchild
    obtain ⟨part, hpart, -, hnode⟩ := hchild
    exact of_part hs hk hpart hnode fun k' hfits => isValue_of_fits hvalue hpart hfits

theorem declared_eq_nil (h : s.InValues id) (level : Nat) : s.declared level id = [] := by
  obtain ⟨k, hk, hvalue⟩ := h.exists_kind
  exact Store.declared_eq_nil hk (isDeclaring_of_isValue hvalue) level

/-- Values redeclare nothing. -/
theorem not_siteOn (hs : StoreOk s) (h : s.InValues id) : ¬s.SiteOn id Γ path site := by
  induction path generalizing id Γ with
  | nil =>
    rintro ⟨other, Γ', halong, hsite⟩
    cases halong
    obtain ⟨k, hk, hvalue⟩ := h.exists_kind
    exact not_redeclares hk (isDeclaring_of_isValue hvalue) hsite
  | cons link path ih =>
    rintro ⟨other, Γ', halong, hsite⟩
    obtain ⟨child, hchild, halong⟩ := bind_eq_some_iff.1 halong
    obtain ⟨Γ1, -, halong⟩ := bind_eq_some_iff.1 halong
    exact ih (h.follow? hs hchild) ⟨other, Γ', halong, hsite⟩

end Store.InValues

end PLang
