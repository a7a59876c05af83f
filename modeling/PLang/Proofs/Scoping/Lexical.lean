import PLang.Proofs.Scoping.Walk
import PLang.Proofs.Tree.WellFormed

/-!
# Programs are lexically scoped

Checking a parsed program resolves names by lexical scoping on the tree, whether there are errors or
not. Names are declared once in a construct, loop variables are not hidden, and every declaration
that breaks these rules is reported, once.
-/

namespace PLang

open Context

variable {s : Store} {root id : NodeId} {Γ Γ' : Context}

/-! ### Contexts of nodes -/

/-- Paths stay in the store. -/
theorem StoreOk.lt_size_of_walk? (hs : StoreOk s) {path : List Link} {other : NodeId}
    (hid : id < s.size)
    (h : s.walk? id path = some other) : other < s.size := by
  induction path generalizing id with
  | nil =>
    cases h
    exact hid
  | cons link path ih =>
    obtain ⟨child, hchild, h⟩ := Option.bind_eq_some_iff.1 h
    refine ih ?_ h
    cases link with
    | slot slot =>
      obtain ⟨k, hk, hslot⟩ := Option.bind_eq_some_iff.1 hchild
      obtain ⟨part, hpart, -, hnode⟩ := NodeKind.slot?_eq_some.1 hslot
      exact (hs.parts id k hk part hpart child hnode).1
    | next => exact (hs.next id child hchild).2

/-- The dimensions of types are in no context. -/
theorem Store.InContext.not_formalDimension (hpaths : PathsOk s root) (h : s.InContext root id Γ) :
    ¬s.FormalDimension id := by
  intro hformal
  obtain ⟨path, hpath⟩ := h
  -- a path to a dimension goes through a type, and the parts of types are not visited
  obtain ⟨owner, ⟨type, htype, -⟩, before, after, rfl, hbefore⟩ :=
    hpaths.held id hformal path (walk?_of_along hpath)
  rw [along_append] at hpath
  obtain ⟨⟨other, Γ1⟩, halong, hpath⟩ := Option.bind_eq_some_iff.1 hpath
  cases hbefore.symm.trans (walk?_of_along halong)
  obtain ⟨child, -, hpath⟩ := Option.bind_eq_some_iff.1 hpath
  obtain ⟨Γ2, hentered, -⟩ := Option.bind_eq_some_iff.1 hpath
  rw [entered, htype] at hentered
  cases hentered

/-- A node is in one context only. -/
theorem Store.InContext.unique (hs : StoreOk s) (hpaths : PathsOk s root) (hroot : root < s.size)
    (h : s.InContext root id Γ) (h' : s.InContext root id Γ') : Γ' = Γ := by
  have hformal := h.not_formalDimension hpaths
  obtain ⟨path, hpath⟩ := h
  obtain ⟨path', hpath'⟩ := h'
  have hsize := hs.lt_size_of_walk? hroot (walk?_of_along hpath)
  obtain rfl := (hpaths.unique id hsize hformal).unique (walk?_of_along hpath')
    (walk?_of_along hpath)
  rw [hpath] at hpath'
  cases hpath'
  rfl

/-- The places below the root are all places at which names are redeclared. -/
theorem siteBelow_root_iff (hnext : s.next? root = none) (site : NodeId) :
    s.SiteBelow root [] site ↔ ∃ id Γ, s.InContext root id Γ ∧ s.Redeclares id Γ site := by
  constructor
  · rintro ⟨path, -, id, Γ, halong, hsite⟩
    exact ⟨id, Γ, ⟨path, halong⟩, hsite⟩
  · rintro ⟨id, Γ, ⟨path, halong⟩, hsite⟩
    refine ⟨path, ?_, id, Γ, halong, hsite⟩
    cases path with
    | nil => exact nofun
    | cons link path =>
      cases link with
      | slot => exact nofun
      | next =>
        rw [Store.along_cons, Store.follow?, hnext] at halong
        cases halong

/-! ### Walks from the root -/

theorem stands_start (s : Store) (diagnostics : Diagnostics) (options : CheckOptions) :
    Stands s [] (.start s .empty diagnostics options) :=
  ⟨trivial, ⟨.refl s, fun _ => rfl⟩, .nil⟩

/-- A program is checked in the empty context. -/
theorem does_root {watch : Moment → Check Unit} (h : WellFormed s root)
    (hwatch : Agrees s root watch)
    (n : Nat) (c : Checker) :
    Does s c [] (s.declared 0 root) (s.SiteBelow root []) (Check.Watched.visitUpTo watch n root)
      (Check.visitUpTo n root) := by
  obtain ⟨p, hp⟩ := h.program
  exact visits_visitUpTo h.store h.paths hwatch n root [] _ ⟨[], rfl⟩ hp rfl c

/-- What holds whenever the symbol table shows a context holds throughout. -/
theorem throughout_of_stands {P : Moment → Checker → Prop} (h : WellFormed s root)
    (hvisit : ∀ id Γ c, s.InContext root id Γ → Stands s Γ c → P (.visit id) c)
    (hchange : ∀ Γ c, Stands s Γ c → P .change c) (diagnostics : Diagnostics)
    (options : CheckOptions) :
    Check.Throughout P root (.start s .empty diagnostics options) := by
  intro e
  have hwatch : Agrees s root (Check.assert P e) :=
    ⟨fun id Γ c hid hc => if_pos (hvisit id Γ c hid hc), fun Γ c hc => if_pos (hchange Γ c hc)⟩
  exact (does_root h hwatch _ _ (stands_start s diagnostics options)).1

/-! ### Parsed programs -/

/-- Names are resolved by lexical scoping. When the check of a node begins, the level is that of the
innermost construct around the node, and names stand for what they stand for in the node's
context. -/
def Lexical (s : Store) (root : NodeId) : Moment → Checker → Prop
  | .visit id, c => ∃ Γ, (∀ Γ', s.InContext root id Γ' ↔ Γ' = Γ) ∧ c.symbols.level? = Γ.level? ∧
      ∀ x, c.symbols.lookup x = Γ.resolve x
  | .change, _ => True

/-- Parsed programs are lexically scoped. -/
theorem throughout_lexical {ts : List Token} {limit : Nat} {store : Store} {root : NodeId}
    (h : parseTokens ts limit = .ok (store, root)) (diagnostics : Diagnostics)
    (options : CheckOptions) :
    Check.Throughout (Lexical store root) root (.start store .empty diagnostics options) := by
  obtain ⟨P, -, hprogram, hsize, hnext⟩ := parseTokens_layout h
  have hok := hprogram.wellFormed hsize hnext
  refine throughout_of_stands hok (fun id Γ c hid hc => ?_) (fun _ _ _ => trivial)
    diagnostics options
  have hroot : root < store.size := hsize ▸ Nat.lt_succ_self root
  have hunique : ∀ Γ', store.InContext root id Γ' ↔ Γ' = Γ := by
    intro Γ'
    constructor
    · exact hid.unique hok.store hok.paths hroot
    · rintro rfl
      exact hid
  exact ⟨Γ, hunique, hc.shows.level?, fun x => hc.shows.lookup x⟩

/-- A program with a function of its own name, and a loop that declares its variable again. -/
def redeclaringTokens : List Token :=
  tokensOf ("p; var i: integer; p(); begin for i := 1 to 2 do begin var i: real; print i; end " ++
    "end do end end")

/-- What is printed in the loop is its variable, not the variable of the program. -/
theorem throughout_lexical_redeclaringTokens : ∃ store root id Γ,
    parseTokens redeclaringTokens 9 = .ok (store, root) ∧ store.InContext root id Γ ∧
      Γ.level? = some 3 ∧ (Γ.resolve "i").map Symbol.kind = some .loopVar ∧
      Check.Throughout (Lexical store root) root (.start store .empty .silent ⟨false, 99⟩) := by
  have hprinted : ((parseTokens redeclaringTokens 9).toOption.map fun tree =>
      (tree.1.along tree.2 []
        ([.body, .statements, .body, .statements, .value, .left].map .slot)).map
        fun place => (place.2.level?, (place.2.resolve "i").map Symbol.kind)) =
      some (some (some 3, some .loopVar)) := by
    rw [redeclaringTokens, ← String.ofList_append, tokensOf_ofList]
    decide +kernel
  obtain ⟨store, root, h, hprinted⟩ := exists_parse_of_map hprinted
  obtain ⟨⟨id, Γ⟩, halong, hΓ⟩ := Option.map_eq_some_iff.1 hprinted
  obtain ⟨hlevel, hresolve⟩ := Prod.mk.inj hΓ
  exact ⟨store, root, id, Γ, h, ⟨_, halong⟩, hlevel, hresolve,
    throughout_lexical h .silent ⟨false, 99⟩⟩

/-- While a parsed program is checked, no scope has two symbols of one name and no loop variable is
hidden. If the check does not fail, all redeclarations have been reported, once each. -/
theorem redeclarations_reported {ts : List Token} {limit : Nat} {store : Store} {root : NodeId}
    (h : parseTokens ts limit = .ok (store, root)) (diagnostics : Diagnostics)
    (options : CheckOptions) :
    Check.Throughout (fun _ c => c.symbols.NoClash) root (.start store .empty diagnostics options) ∧
      ∀ n c, Check.visit root (.start store .empty diagnostics options) = .ok n c →
        ∃ sites : List NodeId, sites.Nodup ∧
          (∀ site, site ∈ sites ↔ ∃ id Γ, store.InContext root id Γ ∧ store.Redeclares id Γ site) ∧
          c.diagnostics.redeclarations =
            diagnostics.redeclarations ++ sites.map store.redeclaration := by
  obtain ⟨P, -, hprogram, hsize, hnext⟩ := parseTokens_layout h
  have hok := hprogram.wellFormed hsize hnext
  constructor
  · exact throughout_of_stands hok (fun _ _ _ _ hc => hc.shows.noClash hc.ok)
      (fun _ _ hc => hc.shows.noClash hc.ok) diagnostics options
  · intro n c hrun
    have hwatch : Agrees store root fun _ => pure () := ⟨fun _ _ _ _ _ => rfl, fun _ _ _ => rfl⟩
    have hends : Ends store _ [] _ _ (Check.visit root (.start store .empty diagnostics options)) :=
      (does_root hok hwatch _ _ (stands_start store diagnostics options)).2
    rw [hrun] at hends
    exact hends.2.congr (siteBelow_root_iff hnext)

theorem redeclarations_reported_redeclaringTokens : ∃ store root n c,
    parseTokens redeclaringTokens 9 = .ok (store, root) ∧
      Check.visit root (.start store .empty .silent ⟨false, 99⟩) = .ok n c ∧
      Check.Throughout (fun _ c => c.symbols.NoClash) root
        (.start store .empty .silent ⟨false, 99⟩) ∧
      ∃ sites : List NodeId, sites.Nodup ∧ sites.length = 2 ∧
        (∀ site, site ∈ sites ↔ ∃ id Γ, store.InContext root id Γ ∧ store.Redeclares id Γ site) ∧
        c.diagnostics.redeclarations = sites.map store.redeclaration := by
  have hrun : ((parseTokens redeclaringTokens 9).toOption.map fun tree =>
      let c := Checker.start tree.1 .empty .silent ⟨false, 99⟩
      ((Check.ending (Check.visit tree.2 c)).toOption,
        ((Check.visit tree.2).after c).diagnostics.redeclarations.length)) =
      some (some 2, 2) := by
    rw [redeclaringTokens, ← String.ofList_append, tokensOf_ofList]
    decide +kernel
  obtain ⟨store, root, h, hrun⟩ := exists_parse_of_map hrun
  obtain ⟨hcount, hlength⟩ := Prod.mk.inj hrun
  obtain ⟨c, hok⟩ := Check.exists_ok_of_ending hcount
  obtain ⟨hclash, hreported⟩ := redeclarations_reported h .silent ⟨false, 99⟩
  obtain ⟨sites, hnodup, hsites, herrors⟩ := hreported 2 c hok
  have hsilent : c.diagnostics.redeclarations = sites.map store.redeclaration := herrors
  rw [Check.after_of_ok hok, hsilent, List.length_map] at hlength
  exact ⟨store, root, 2, c, h, hok, hclash, sites, hnodup, hlength, hsites, hsilent⟩

end PLang
