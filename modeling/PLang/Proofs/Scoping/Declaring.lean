import PLang.Proofs.Scoping.Steps

/-!
# Checks that open scopes and declare names

What such checks do in a context. A name is declared or complained about, and the checks of a list
go on one after another, each in the context that the ones before it leave.
-/

namespace PLang

open Context

variable {s : Store} {root : NodeId} {watch : Moment → Check Unit} {c : Checker} {Γ : Context}
  {a : List Symbol} {S : NodeId → Prop} {x y : Check Nat}

variable {d : DeclarationNode} {here : List Symbol} {id : NodeId} {outer : Context}

/-- A watch that lets a walk go on as long as it keeps to lexical scoping. -/
structure Agrees (s : Store) (root : NodeId) (watch : Moment → Check Unit) : Prop where
  visit : ∀ id Γ c, s.InContext root id Γ → Stands s Γ c → watch (.visit id) c = .ok () c
  change : ∀ Γ c, Stands s Γ c → watch .change c = .ok () c

/-! ### Scopes -/

namespace Stands

theorem pushScope (h : Stands s Γ c) : Stands s ([] :: Γ) c.pushScope :=
  ⟨⟨nofun, h.ok⟩, h.noted, h.shows.pushScope⟩

theorem popScope (h : Stands s (here :: Γ) c) : Stands s Γ c.popScope :=
  ⟨h.ok.2, h.noted, h.shows.popScope⟩

end Stands

/-- A check that starts and ends elsewhere, with the same context and the same reports. -/
theorem Ends.endIn {c1 : Checker} {leave : Checker → Checker} {r : EStateM.Result Error Checker Nat}
    (h : Ends s c1 Γ a S r) (hstands : ∀ {Γ c'}, Stands s Γ c' → Stands s Γ (leave c'))
    (hfinds : ∀ c', Finds s c1 c' S → Finds s c (leave c') S) :
    Ends s c Γ a S (Check.endIn leave r) := by
  cases r with
  | ok n c' => exact ⟨hstands h.1, hfinds c' h.2⟩
  | error e c' =>
    obtain ⟨symbols, hc'⟩ := h
    exact ⟨symbols, hstands hc'⟩

namespace Does

theorem inScope (hwatch : Agrees s root watch) (h : Does s c.pushScope ([] :: Γ) a S x y) :
    Does s c Γ [] S (Check.Watched.inScope watch x) (Check.inScope y) := by
  intro hc
  obtain ⟨heq, hends⟩ := h hc.pushScope
  rw [Check.Watched.inScope, Check.inScope, Check.bind_of_ok (hwatch.change _ _ hc.pushScope), heq]
  cases hy : y c.pushScope with
  | ok n c' =>
    rw [hy] at hends
    obtain ⟨hstands, hfinds⟩ := hends
    refine ⟨Check.bind_of_ok (hwatch.change _ _ hstands.popScope), ?_, hfinds⟩
    rw [declare_nil]
    exact hstands.popScope
  | error e c' =>
    rw [hy] at hends
    obtain ⟨symbols, hstands⟩ := hends
    refine ⟨Check.bind_of_ok (hwatch.change _ _ hstands.popScope), [], ?_⟩
    rw [declare_nil]
    exact hstands.popScope

theorem within (id : NodeId) (h : Does s { c with function := some id } Γ a S x y) :
    Does s c Γ a S (Check.within id x) (Check.within id y) := by
  intro hc
  obtain ⟨heq, hends⟩ := h ⟨hc.ok, hc.noted, hc.shows⟩
  rw [Check.within_eq, Check.within_eq]
  exact ⟨congrArg _ heq, hends.endIn (fun h => ⟨h.ok, h.noted, h.shows⟩) fun _ h => h⟩

theorem deeper (h : Does s { c with depth := c.depth + 1 } Γ a S x y) :
    Does s c Γ a S (Check.deeper x) (Check.deeper y) := by
  intro hc
  obtain ⟨heq, hends⟩ := h ⟨hc.ok, hc.noted, hc.shows⟩
  rw [Check.deeper_eq, Check.deeper_eq]
  exact ⟨congrArg _ heq, hends.endIn (fun h => ⟨h.ok, h.noted, h.shows⟩) fun _ h => h⟩

end Does

/-! ### Declarations -/

theorem Stands.declare {symbol : Symbol} (h : Stands s (here :: outer) c)
    (hlevel : symbol.level = outer.length)
    (hkind : outer ≠ [] → symbol.kind ≠ .program ∧ symbol.kind ≠ .function)
    (hfresh : symbol.name ∉ here.map Symbol.name) (haccepts : accepts outer symbol = true) :
    Stands s ((here ++ [symbol]) :: outer)
      { c with
        symbols := c.symbols.insert symbol.name symbol.kind symbol.scalar
          symbol.typeText symbol.detail
          symbol.node } := by
  obtain ⟨level, name, kind, scalar, typeText, detail, node⟩ := symbol
  subst hlevel
  refine ⟨h.ok.declare fun other hother => ?_, h.noted, h.shows.insert hfresh haccepts⟩
  obtain rfl := List.mem_singleton.1 hother
  exact ⟨rfl, hkind⟩

section

variable (hwatch : Agrees s root watch) (symbol : Symbol) (hlevel : symbol.level = outer.length)
  (hkind : outer ≠ [] → symbol.kind ≠ .program ∧ symbol.kind ≠ .function)

include hwatch symbol hlevel hkind

/-- Declaring a name. -/
theorem Does.declare (hfresh : symbol.name ∉ here.map Symbol.name)
    (haccepts : accepts outer symbol = true)
    (h : ∀ c, Does s c ((here ++ [symbol]) :: outer) a S x y) :
    Does s c (here :: outer) (symbol :: a) S
      (do
        Check.Watched.declare watch symbol.name symbol.kind symbol.scalar
          symbol.typeText symbol.detail
          symbol.node
        x)
      (do
        Check.declare symbol.name symbol.kind symbol.scalar symbol.typeText
          symbol.detail symbol.node
        y) := by
  intro hc
  have hstands := hc.declare hlevel hkind hfresh haccepts
  obtain ⟨heq, hends⟩ := h _ hstands
  have hdeclare : ∀ more, Context.declare ((here ++ [symbol]) :: outer) more =
      Context.declare (here :: outer) (symbol :: more) := fun more => by
    rw [Context.declare, Context.declare, List.append_assoc, List.singleton_append]
  constructor
  · show ((Check.declare _ _ _ _ _ _ >>= fun _ => watch .change) >>= fun _ => x) c = _
    rw [bind_assoc]
    exact (Check.bind_of_ok (hwatch.change _ _ hstands)).trans heq
  · show Ends s c _ _ _ (y _)
    generalize y _ = result at hends ⊢
    cases result with
    | ok n c' => exact ⟨hdeclare a ▸ hends.1, hends.2⟩
    | error e c' =>
      obtain ⟨symbols, hsymbols⟩ := hends
      exact ⟨symbol :: symbols, hdeclare symbols ▸ hsymbols⟩

/-- Declaring a name, or complaining about it. -/
theorem does_declare {site : NodeId} {clash : Bool} (hname : s.called site = symbol.name)
    (hclash : Stands s (here :: outer) c →
      (clash = true ↔ symbol.name ∈ here.map Symbol.name ∨ accepts outer symbol = false)) :
    Does s c (here :: outer) [symbol]
      (fun id => id = site ∧ (symbol.name ∈ here.map Symbol.name ∨ accepts outer symbol = false))
      (if clash = true then Check.report (.redeclared symbol.name) site
        else do
          Check.Watched.declare watch symbol.name symbol.kind symbol.scalar
            symbol.typeText symbol.detail
            symbol.node
          pure 0)
      (if clash = true then Check.report (.redeclared symbol.name) site
        else do
          Check.declare symbol.name symbol.kind symbol.scalar symbol.typeText
            symbol.detail symbol.node
          pure 0) := by
  intro hc
  by_cases h : clash = true
  · -- the name is reported and not declared
    rw [if_pos h, if_pos h]
    have hnot := (hclash hc).1 h
    refine ⟨rfl, ⟨?_, hc.noted, hc.shows.skip hnot⟩, [site], List.nodup_singleton _,
      fun id => ?_, ?_⟩
    · refine hc.ok.declare fun other hother => ?_
      obtain rfl := List.mem_singleton.1 hother
      exact ⟨hlevel, hkind⟩
    · exact List.mem_singleton.trans (and_iff_left hnot).symm
    · show (c.diagnostics.report _).redeclarations = _
      rw [redeclarations_report, List.map_singleton, Store.redeclaration, hname, hc.noted.location]
      rfl
  · rw [if_neg h, if_neg h]
    obtain ⟨hfresh, haccepts⟩ := not_or.1 (mt (hclash hc).2 h)
    refine Does.congr (Does.declare hwatch symbol hlevel hkind hfresh
      (Bool.eq_true_of_not_eq_false haccepts) fun c => .pure 0) rfl (fun id => ?_) hc
    exact iff_of_false not_false fun hid => mt (hclash hc).2 h hid.2


end
theorem Store.called_of_name {text : String} (h : s.kind? id = some (.name text)) :
    s.called id = text ∧ s.name? id = some text := by
  rw [Store.called, Store.name?, h]
  exact ⟨rfl, rfl⟩

theorem accepts_eq_false_iff {symbol : Symbol}
    (hkind : symbol.kind ≠ .program ∧ symbol.kind ≠ .function) :
    accepts outer symbol = false ↔ loops outer symbol.name = true := by
  simp [accepts, hkind]

/-- One name of a declaration. -/
theorem does_declareName (hwatch : Agrees s root watch) {type : TypeNode} {text : String}
    (hid : s.kind? id = some (.name text)) (hkind : d.kind ≠ .program ∧ d.kind ≠ .function) :
    Does s c (here :: outer) [s.nameSymbol outer.length d type id]
      (fun site => site = id ∧
        (s.called id ∈ here.map Symbol.name ∨ loops outer (s.called id) = true))
      (Check.Watched.declareName watch d type (s.detail d) id)
      (Check.declareName d type (s.detail d) id) := by
  obtain ⟨hcalled, hname⟩ := Store.called_of_name hid
  have hrejects : accepts outer (s.nameSymbol outer.length d type id) = false ↔
      loops outer (s.called id) = true := accepts_eq_false_iff hkind
  intro hc
  have hstored : (c.store.name? id).getD "" = s.called id := by
    rw [hc.noted.alike.name?_eq, hname, hcalled]
    rfl
  refine Does.look rfl (Does.look rfl ?_) hc
  dsimp only
  rw [hstored]
  refine (does_declare hwatch (s.nameSymbol outer.length d type id) rfl (fun _ => hkind) rfl
    fun hc => ?_).congr rfl fun site => and_congr_right fun _ => or_congr_right hrejects
  rw [hrejects, Check.clashes, hc.shows.lookup, hc.shows.level?]
  exact resolve_clashes_iff hc.ok

/-- The name of a function. -/
theorem does_declareFunction (hwatch : Agrees s root watch) {f : FunctionNode}
    (hid : s.kind? id = some (.function f)) :
    Does s c [here] (s.declared 0 id) (s.Redeclares id [here])
      (Check.Watched.declareFunction watch id f)
      (Check.declareFunction id f) := by
  have hcalled : s.called id = f.name := by rw [Store.called, hid]
  refine .look rfl ?_
  dsimp only
  refine (does_declare hwatch (f.symbol 0 id) rfl (absurd rfl) hcalled fun hc => ?_).congr ?_
    fun site => ?_
  · rw [hc.shows.lookup, hc.shows.level?, resolve_here_iff hc.ok]
    simp [accepts, FunctionNode.symbol]
  · rw [Store.declared, hid]
  · rw [Store.Redeclares, hid]
    simp [accepts, FunctionNode.symbol]

/-! ### Lists -/

variable {visit plain : NodeId → Check Nat}

/-- A list of checks of which each goes on where the one before it has ended. -/
theorem Does.listUpTo (hs : StoreOk s) {all : List NodeId}
    (symbols : NodeId → List Symbol) (sites : List NodeId → NodeId → NodeId → Prop)
    (helem : ∀ before id after, all = before ++ id :: after → ∀ c,
      Does s c (Γ.declare (before.flatMap symbols)) (symbols id) (sites before id)
        (visit id) (plain id))
    (hdisjoint : ∀ before id after before' id' after' site, all = before ++ id :: after →
      all = before' ++ id' :: after' → sites before id site → sites before' id' site →
      before.length = before'.length)
    {n : Nat} {current : Option NodeId} (before : List NodeId) {rest : List NodeId}
    (hrest : s.siblings current = rest) (hall : all = before ++ rest)
    (hcurrent : ∀ id, current = some id → id < s.size) (hn : rest.length ≤ n) (c : Checker) :
    Does s c (Γ.declare (before.flatMap symbols)) (rest.flatMap symbols)
      (fun site => ∃ mid id after, rest = mid ++ id :: after ∧ sites (before ++ mid) id site)
      (Check.listUpTo visit .reportAll n current) (Check.listUpTo plain .reportAll n current) := by
  induction rest generalizing n current before c with
  | nil =>
    cases current with
    | none =>
      rw [Check.listUpTo_none, Check.listUpTo_none]
      exact (Does.pure 0).congr rfl fun site => by simp
    | some id =>
      rw [hs.siblings_cons (hcurrent id rfl)] at hrest
      cases hrest
  | cons id rest ih =>
    cases current with
    | none =>
      rw [Store.siblings_none] at hrest
      cases hrest
    | some current =>
      rw [hs.siblings_cons (hcurrent current rfl)] at hrest
      obtain ⟨rfl, hbehind⟩ := List.cons_eq_cons.1 hrest
      obtain ⟨n, rfl⟩ : ∃ m, n = m + 1 := ⟨n - 1, by simp at hn; omega⟩
      refine Does.congr (Does.bind (T := fun site => ∃ mid id after, rest = mid ++ id :: after ∧
        sites (before ++ [current] ++ mid) id site) (helem before current rest hall c)
        (fun m c1 => ?_) ?_) rfl fun site => ?_
      · -- nothing stops the list, and the rest is checked in the context that this member leaves
        rw [if_neg (by simp), if_neg (by simp), declare_declare]
        intro hc1
        have hnext : ∀ id, s.next? current = some id → id < s.size := fun id hid =>
          (hs.next _ id hid).2
        have hlength : rest.length ≤ n := by simpa using hn
        have hmore := ih (before ++ [current]) hbehind (by rw [hall, List.append_assoc]; rfl) hnext
          hlength c1
        rw [List.flatMap_append, List.flatMap_singleton] at hmore
        refine Does.look rfl ?_ hc1
        dsimp only
        rw [hc1.noted.alike.next]
        exact hmore.plus m
      · rintro site hsite ⟨mid, id, after, hmid, hsite'⟩
        have hlength := hdisjoint before current rest (before ++ [current] ++ mid) id
          after site hall
          (by rw [hall, hmid, List.append_assoc, List.append_assoc]; rfl) hsite hsite'
        simp at hlength
      · rw [Store.exists_member_cons, List.append_nil]
        simp only [List.append_assoc, List.singleton_append]

theorem Store.length_chain_le (s : Store) (n : Nat) (head : Option NodeId) :
    (s.chain n head).length ≤ n := by
  induction n generalizing head with
  | zero => exact Nat.le_refl 0
  | succ n ih =>
    cases head with
    | none => exact Nat.zero_le _
    | some id => exact Nat.succ_le_succ (ih _)

theorem Does.list (hs : StoreOk s) {head : Option NodeId}
    (symbols : NodeId → List Symbol) (sites : List NodeId → NodeId → NodeId → Prop)
    (hhead : ∀ id, head = some id → id < s.size)
    (helem : ∀ before id after, s.siblings head = before ++ id :: after → ∀ c,
      Does s c (Γ.declare (before.flatMap symbols)) (symbols id) (sites before id)
        (visit id) (plain id))
    (hdisjoint : ∀ before id after before' id' after' site, s.siblings head =
      before ++ id :: after →
      s.siblings head = before' ++ id' :: after' → sites before id site → sites before' id' site →
      before.length = before'.length) (c : Checker) :
    Does s c Γ ((s.siblings head).flatMap symbols)
      (fun site => ∃ before id after, s.siblings head = before ++ id :: after ∧
        sites before id site)
      (Check.list visit .reportAll head) (Check.list plain .reportAll head) := by
  intro hc
  -- a list has no more members than the store has nodes
  have hlength : (s.siblings head).length ≤ (c.store.size + 2) * c.store.size := by
    have hle : (s.siblings head).length ≤ s.size := s.length_chain_le s.size head
    rw [hc.noted.alike.size]
    exact Nat.le_trans hle (Nat.le_mul_of_pos_left _ (Nat.succ_pos _))
  have hlist := Does.listUpTo hs symbols sites helem hdisjoint [] rfl rfl hhead hlength c
  rw [List.flatMap_nil, declare_nil] at hlist
  exact Does.look rfl hlist hc

/-- Where a member stands in a list without repetitions. -/
theorem length_eq_of_nodup {all before before' after after' : List NodeId} (hall : all.Nodup)
    (h : all = before ++ id :: after) (h' : all = before' ++ id :: after') :
    before.length = before'.length := by
  have hindex : ∀ {before after : List NodeId}, all = before ++ id :: after →
      all.idxOf id = before.length := by
    intro before after h
    have hnot : id ∉ before := fun hmem =>
      (List.nodup_append'.1 (h ▸ hall)).2.2 hmem (.head _)
    rw [h, List.idxOf_append_of_notMem hnot, List.idxOf_cons_self, Nat.add_zero]
  exact (hindex h).symm.trans (hindex h')

/-- The type of a declaration. -/
theorem StoreOk.exists_type (hs : StoreOk s) (hid : s.kind? id = some (.declaration d)) :
    ∃ type, s.type? d.type = some type := by
  obtain ⟨hsize, hpart⟩ := hs.parts id _ hid ⟨.type, some d.type, NodeKind.isType⟩
    (.tail _ (.head _)) d.type rfl
  obtain ⟨k, hk, hfits⟩ :=
    hpart.members d.type (StoreOk.mem_siblings_self (Nat.zero_lt_of_lt hsize))
  cases k with
  | type node => exact ⟨node, Store.type?_eq_some.2 hk⟩
  | _ => cases hfits

/-- The names in a declaration. -/
theorem StoreOk.exists_name (hs : StoreOk s) {name : NodeId}
    (hid : s.kind? id = some (.declaration d)) (hname : name ∈ s.siblings (some d.names)) :
    ∃ text, s.kind? name = some (.name text) := by
  obtain ⟨-, hpart⟩ := hs.parts id _ hid ⟨.names, some d.names, NodeKind.isName⟩ (.head _)
    d.names rfl
  obtain ⟨k, hk, hfits⟩ := hpart.members name hname
  cases k with
  | name text => exact ⟨text, hk⟩
  | _ => cases hfits

/-- The names of a declaration, which are declared one after another. -/
theorem does_names (hs : StoreOk s) (hwatch : Agrees s root watch) {type : TypeNode}
    (hid : s.kind? id = some (.declaration d)) (htype : s.type? d.type = some type)
    (hkind : d.kind ≠ .program ∧ d.kind ≠ .function) (c : Checker) :
    Does s c (here :: outer) (s.declared outer.length id) (s.Redeclares id (here :: outer))
      (Check.list (Check.Watched.declareName watch d type (s.detail d)) .reportAll (some d.names))
      (Check.list (Check.declareName d type (s.detail d)) .reportAll (some d.names)) := by
  have hsize : ∀ name, some d.names = some name → name < s.size := by
    rintro _ ⟨⟩
    exact (hs.parts id _ hid ⟨.names, some d.names, NodeKind.isName⟩ (.head _) d.names rfl).1
  refine Does.congr (Does.list hs (fun name => [s.nameSymbol outer.length d type name])
    (fun before name site => site = name ∧ (s.called name ∈
      (here ++ before.map (s.nameSymbol outer.length d type)).map Symbol.name ∨
      loops outer (s.called name) = true)) hsize ?_ ?_ c) ?_ ?_
  · intro before name after hmember c
    have hname : name ∈ s.siblings (some d.names) := by
      rw [hmember]
      exact List.mem_append_right _ (.head _)
    obtain ⟨text, htext⟩ := hs.exists_name hid hname
    rw [declare, ← List.map_eq_flatMap]
    exact does_declareName hwatch htext hkind
  · rintro before name after before' name' after' site hmember hmember' ⟨rfl, -⟩ ⟨rfl, -⟩
    exact length_eq_of_nodup (hs.nodup_siblings _) hmember hmember'
  · rw [← List.map_eq_flatMap, Store.declared, hid]
    dsimp only
    rw [htype]
  · intro site
    have hnames : ∀ before : List NodeId,
        (here ++ before.map (s.nameSymbol outer.length d type)).map Symbol.name =
          here.map Symbol.name ++ before.map s.called := by
      intro before
      rw [List.map_append, List.map_map]
      rfl
    simp only [Store.Redeclares, hid, hnames]
    constructor
    · rintro ⟨before, name, after, hmember, rfl, h⟩
      exact ⟨before, after, hmember, h⟩
    · rintro ⟨before, after, hmember, h⟩
      exact ⟨before, site, after, hmember, rfl, h⟩

/-- A declaration. -/
theorem does_declaration (hs : StoreOk s) (hwatch : Agrees s root watch)
    (hid : s.kind? id = some (.declaration d)) (hkind : d.kind ≠ .program ∧ d.kind ≠ .function) :
    Does s c (here :: outer) (s.declared outer.length id) (s.Redeclares id (here :: outer))
      (Check.Watched.declaration watch d) (Check.declaration d) := by
  obtain ⟨type, htype⟩ := hs.exists_type hid
  intro hc
  have htype' : c.store.type? d.type = some type := by rw [hc.noted.alike.type?_eq, htype]
  have hdetail : ((d.literal.bind c.store.literal?).map LiteralNode.text).getD "" = s.detail d := by
    rw [Store.detail, funext hc.noted.alike.literal?_eq]
  refine Does.look rfl ?_ hc
  dsimp only
  rw [htype']
  refine .look rfl ?_
  dsimp only
  rw [hdetail]
  refine (Does.add (does_names hs hwatch hid htype hkind c) (fun c1 => quiet_positive d c1)
    (fun _ _ h => h)).congr (List.append_nil _) ?_
  exact fun site => or_iff_left fun h => h

end PLang
