import PLang.Proofs.Scoping.Static

/-!
# Symbol tables and contexts

The open scopes of a symbol table show a context: every scope holds the symbols of its construct
that count. Then names are looked up as they are resolved, a name that is declared twice is noticed,
and no scope has two symbols of one name.
-/

namespace PLang

open Context List Option PLang.Symbol

/-- Scopes hold the symbols of the constructs of a context that count. -/
inductive ScopesShow (t : SymbolTable) : List (List SymbolId) → Context → Prop
  | nil : ScopesShow t [] []
  | cons {ids : List SymbolId} {scopes : List (List SymbolId)} {symbols : List Symbol}
    {outer : Context}
      (shown : List Symbol) : ids.map t.symbol? = shown.map some →
      (shown.map name).Nodup →
      (∀ symbol, symbol ∈ shown ↔
        firstNamed symbols symbol.name = some symbol ∧ accepts outer symbol = true) →
      ScopesShow t scopes outer → ScopesShow t (ids :: scopes) (symbols :: outer)

/-- The open scopes of a symbol table show a context. -/
def SymbolTable.Shows (t : SymbolTable) (Γ : Context) : Prop := ScopesShow t t.scopes Γ

variable {t : SymbolTable} {scopes : List (List SymbolId)} {ids : List SymbolId}
  {here : List Symbol}
  {outer Γ : Context} {shown : List Symbol} {symbol : Symbol} {x : String}

/-! ### Looking up -/

theorem length_eq_of_shows (h : ScopesShow t scopes Γ) : scopes.length = Γ.length := by
  induction h with
  | nil => rfl
  | cons _ _ _ _ _ ih => rw [length_cons, length_cons, ih]

theorem SymbolTable.Shows.level? (h : t.Shows Γ) : t.level? = Γ.level? := by
  unfold SymbolTable.Shows at h
  rw [SymbolTable.level?]
  generalize t.scopes = scopes at h
  cases h with
  | nil => rfl
  | cons _ _ _ _ houter => exact congrArg some (length_eq_of_shows houter)

variable {id : SymbolId}

theorem exists_symbol_of_mem_scope (h : ids.map t.symbol? = shown.map some)
    (hid : id ∈ ids) : ∃ symbol ∈ shown, t.symbol? id = some symbol := by
  have hmem : t.symbol? id ∈ ids.map t.symbol? := mem_map_of_mem hid
  rw [h] at hmem
  obtain ⟨symbol, hsymbol, heq⟩ := mem_map.1 hmem
  exact ⟨symbol, hsymbol, heq.symm⟩

/-- The newest symbol of a name in a scope. -/
theorem find?_ids (h : ids.map t.symbol? = shown.map some) :
    (ids.find? (t.hasName x)).bind t.symbol? = firstNamed shown x := by
  induction ids generalizing shown with
  | nil =>
    obtain rfl := map_eq_nil_iff.1 h.symm
    rfl
  | cons id ids ih =>
    cases shown with
    | nil => cases h
    | cons symbol shown =>
      rw [map_cons, map_cons, cons_eq_cons] at h
      have hname : t.hasName x id = (symbol.name == x) := by rw [SymbolTable.hasName, h.1, any_some]
      rw [firstNamed, find?_cons, find?_cons, hname]
      cases hx : symbol.name == x with
      | true => exact h.1
      | false => exact ih h.2

/-- The symbol that a scope has for a name. -/
theorem firstNamed_shown (h : ∀ symbol, symbol ∈ shown ↔
      firstNamed here symbol.name = some symbol ∧ accepts outer symbol = true) :
    firstNamed shown x = (firstNamed here x).filter (accepts outer) := by
  cases hx : firstNamed shown x with
  | some symbol =>
    obtain ⟨rfl, hmem⟩ := name_of_firstNamed hx
    obtain ⟨hfirst, haccepts⟩ := (h symbol).1 hmem
    rw [hfirst, filter_some, if_pos haccepts]
  | none =>
    refine (filter_eq_none_iff.2 fun symbol hfirst haccepts => ?_).symm
    obtain ⟨rfl, -⟩ := name_of_firstNamed hfirst
    exact firstNamed_eq_none.1 hx (mem_map_of_mem ((h symbol).2 ⟨hfirst, haccepts⟩))

/-- Names are looked up as they are resolved. -/
theorem ScopesShow.lookup (h : ScopesShow t scopes Γ) :
    (scopes.flatten.find? (t.hasName x)).bind t.symbol? = resolve Γ x := by
  induction h with
  | nil => rfl
  | @cons ids scopes symbols outer shown hids _ hshown _ ih =>
    have hhere := (find?_ids (x := x) hids).trans (firstNamed_shown hshown)
    rw [flatten_cons, find?_append, resolve, ← hhere]
    cases hid : ids.find? (t.hasName x) with
    | none => exact ih
    | some id =>
      obtain ⟨symbol, -, hsymbol⟩ := exists_symbol_of_mem_scope hids (mem_of_find?_eq_some hid)
      rw [some_or, bind_some, hsymbol, some_or]

theorem SymbolTable.Shows.lookup (h : t.Shows Γ) (x : String) : t.lookup x = resolve Γ x :=
  ScopesShow.lookup h

/-! ### Opening, closing and declaring -/

/-- New symbols leave the scopes alone. -/
theorem ScopesShow.keep {t' : SymbolTable} (h : ScopesShow t scopes Γ)
    (hkeep : ∀ id symbol, t.symbol? id = some symbol → t'.symbol? id = some symbol) :
    ScopesShow t' scopes Γ := by
  induction h with
  | nil => exact .nil
  | @cons ids scopes symbols outer shown hids hnodup hshown _ ih =>
    refine .cons shown ?_ hnodup hshown ih
    rw [← hids]
    refine map_congr_left fun id hid => ?_
    obtain ⟨symbol, -, hsymbol⟩ := exists_symbol_of_mem_scope hids hid
    rw [hsymbol, hkeep id symbol hsymbol]

theorem SymbolTable.Shows.pushScope (h : t.Shows Γ) : t.pushScope.Shows ([] :: Γ) :=
  .cons [] rfl .nil (by simp [firstNamed]) (ScopesShow.keep h fun _ _ hsymbol => hsymbol)

theorem SymbolTable.Shows.popScope (h : t.Shows (here :: Γ)) : t.popScope.Shows Γ := by
  have htail : ScopesShow t t.scopes.tail Γ := by
    unfold SymbolTable.Shows at h
    generalize t.scopes = scopes at h
    cases h with
    | cons _ _ _ _ houter => exact houter
  exact htail.keep fun _ _ hsymbol => hsymbol

theorem firstNamed_concat (here : List Symbol) (symbol : Symbol) (x : String) :
    firstNamed (here ++ [symbol]) x =
      (firstNamed here x).or (if symbol.name == x then some symbol else none) := by
  rw [firstNamed_append]
  congr 1
  cases hx : symbol.name == x <;> simp [firstNamed, hx]

/-- A symbol that does not count changes nothing. -/
theorem SymbolTable.Shows.skip (h : t.Shows (here :: outer))
    (hsymbol : symbol.name ∈ here.map name ∨ accepts outer symbol = false) :
    t.Shows ((here ++ [symbol]) :: outer) := by
  unfold SymbolTable.Shows at *
  generalize t.scopes = scopes at h
  cases h with
  | cons shown hids hnodup hshown houter =>
    refine .cons shown hids hnodup (fun other => (hshown other).trans ?_) houter
    rw [firstNamed_concat]
    cases hfirst : firstNamed here other.name with
    | some first => rw [some_or]
    | none =>
      rw [none_or]
      refine iff_of_false nofun ?_
      rintro ⟨hother, haccepts⟩
      split at hother
      next hname =>
        cases hother
        rcases hsymbol with hmem | hreject
        · exact firstNamed_eq_none.1 hfirst hmem
        · rw [hreject] at haccepts
          cases haccepts
      next => cases hother

/-- What counts after a symbol that counts. -/
theorem firstNamed_concat_iff (hfresh : symbol.name ∉ here.map name)
    (haccepts : accepts outer symbol = true) (other : Symbol) :
    firstNamed (here ++ [symbol]) other.name = some other ∧ accepts outer other = true ↔
      other = symbol ∨ firstNamed here other.name = some other ∧ accepts outer other = true := by
  rw [firstNamed_concat]
  cases hfirst : firstNamed here other.name with
  | some first =>
    rw [some_or, or_iff_right]
    rintro rfl
    obtain ⟨hname, hmem⟩ := name_of_firstNamed hfirst
    exact hfresh (mem_map.2 ⟨first, hmem, hname⟩)
  | none =>
    rw [none_or]
    constructor
    · rintro ⟨hother, -⟩
      split at hother
      next => exact .inl (some.inj hother).symm
      next => cases hother
    · rintro (rfl | ⟨hnone, -⟩)
      · exact ⟨by simp, haccepts⟩
      · cases hnone

namespace SymbolTable

variable {kind : SymbolKind} {scalar : Option ScalarType} {typeText detail : String} {node : NodeId}

theorem symbol?_insert_of_some (h : t.symbol? id = some symbol) :
    (t.insert x kind scalar typeText detail node).symbol? id = some symbol := by
  rw [symbol?_insert_of_lt, h]
  by_contra hlt
  rw [symbol?_eq_none (Nat.le_of_not_lt hlt)] at h
  cases h

theorem symbol?_insert_self : (t.insert x kind scalar typeText detail node).symbol? t.nextId =
    some ⟨t.level?.getD 0, x, kind, scalar, typeText, detail, node⟩ := by
  simp [symbol?, insert, nextId]

theorem scopes_insert (h : t.scopes = ids :: scopes) :
    (t.insert x kind scalar typeText detail node).scopes = (t.nextId :: ids) :: scopes := by
  rw [insert, h]

/-- A symbol that counts is inserted. -/
theorem Shows.insert (h : t.Shows (here :: outer)) (hfresh : x ∉ here.map name)
    (haccepts : accepts outer ⟨outer.length, x, kind, scalar, typeText, detail, node⟩ = true) :
    (t.insert x kind scalar typeText detail node).Shows
      ((here ++ [⟨outer.length, x, kind, scalar, typeText, detail, node⟩]) :: outer) := by
  have hlevel : t.level?.getD 0 = outer.length := by
    rw [h.level?]
    rfl
  -- the symbols that are there stay, so the scopes around show what they showed
  have hall : ScopesShow (t.insert x kind scalar typeText detail node) t.scopes (here :: outer) :=
    ScopesShow.keep h fun id symbol hsymbol => symbol?_insert_of_some hsymbol
  unfold Shows
  cases hscopes : t.scopes with
  | nil =>
    rw [hscopes] at hall
    cases hall
  | cons ids scopes =>
    rw [scopes_insert hscopes]
    rw [hscopes] at hall
    cases hall with
    | cons shown hids hnodup hshown houter =>
      have hnotin : x ∉ shown.map name := by
        intro hmem
        obtain ⟨symbol, hsymbol, rfl⟩ := mem_map.1 hmem
        obtain ⟨-, hhere⟩ := name_of_firstNamed ((hshown symbol).1 hsymbol).1
        exact hfresh (mem_map_of_mem hhere)
      refine .cons (⟨outer.length, x, kind, scalar, typeText, detail, node⟩ :: shown) ?_
        (nodup_cons.2 ⟨hnotin, hnodup⟩) (fun other => ?_) houter
      · rw [map_cons, symbol?_insert_self, hlevel, hids, map_cons]
      · rw [mem_cons, hshown other]
        exact (firstNamed_concat_iff hfresh haccepts other).symm

end SymbolTable

/-! ### No name twice -/

/-- No scope has two symbols of one name, and the names of loop variables in open scopes stand for
them: no symbol of that name comes after them. -/
structure SymbolTable.NoClash (t : SymbolTable) : Prop where
  distinct : ∀ scope ∈ t.scopes, (scope.map fun id => (t.symbol? id).map name).Nodup
  unhidden : t.live.Pairwise fun newer older => ∀ loop, t.symbol? older = some loop →
    loop.kind = .loopVar → ∀ symbol, t.symbol? newer = some symbol → symbol.name ≠ loop.name
  found : ∀ id ∈ t.live, ∀ loop, t.symbol? id = some loop → loop.kind = .loopVar →
    t.lookup loop.name = some loop

theorem ScopesShow.distinct (h : ScopesShow t scopes Γ) :
    ∀ scope ∈ scopes, (scope.map fun id => (t.symbol? id).map Symbol.name).Nodup := by
  induction h with
  | nil => nofun
  | @cons ids scopes symbols outer shown hids hnodup _ _ ih =>
    intro scope hscope
    rcases List.mem_cons.1 hscope with rfl | hscope
    · have hnames : scope.map (fun id => (t.symbol? id).map Symbol.name) =
          (shown.map Symbol.name).map some := by
        rw [← Function.comp_def (Option.map Symbol.name) t.symbol?, ← List.map_map,
          hids, List.map_map,
          List.map_map]
        rfl
      rw [hnames]
      exact hnodup.map (Option.some_injective _)
    · exact ih scope hscope

/-- The loop variables in open scopes are those that protect their names. -/
theorem ScopesShow.loops_of_mem (h : ScopesShow t scopes Γ) (hid : id ∈ scopes.flatten)
    (hsymbol : t.symbol? id = some symbol) (hkind : symbol.kind = .loopVar) :
    loops Γ symbol.name = true := by
  induction h with
  | nil => cases hid
  | @cons ids scopes symbols outer shown hids _ hshown _ ih =>
    rw [loops_cons, Bool.or_eq_true]
    rcases mem_append.1 hid with hid | hid
    · obtain ⟨symbol', hmem, hsymbol'⟩ := exists_symbol_of_mem_scope hids hid
      obtain rfl := some.inj (hsymbol'.symm.trans hsymbol)
      left
      rw [((hshown symbol').1 hmem).1, any_some, hkind]
      rfl
    · exact .inr (ih hid)

theorem ScopesShow.unhidden (h : ScopesShow t scopes Γ) (hΓ : Ok Γ) :
    scopes.flatten.Pairwise fun newer older => ∀ loop, t.symbol? older = some loop →
      loop.kind = .loopVar → ∀ symbol, t.symbol? newer = some symbol →
      symbol.name ≠ loop.name := by
  induction h with
  | nil => exact .nil
  | @cons ids scopes symbols outer shown hids hnodup hshown houter ih =>
    rw [flatten_cons, pairwise_append]
    refine ⟨?_, ih hΓ.2, ?_⟩
    · have hdistinct := (ScopesShow.cons shown hids hnodup hshown houter).distinct ids (.head _)
      refine (pairwise_map.1 hdistinct).imp fun hne loop hloop _ symbol hsymbol hname => ?_
      exact hne (by rw [hloop, hsymbol, map_some, map_some, hname])
    · -- a symbol inside of a loop counts only if it has another name
      intro newer hnewer older holder loop hloop hkind symbol hsymbol hname
      obtain ⟨symbol', hmem, hsymbol'⟩ := exists_symbol_of_mem_scope hids hnewer
      obtain rfl := some.inj (hsymbol'.symm.trans hsymbol)
      obtain ⟨hfirst, haccepts⟩ := (hshown symbol').1 hmem
      have hloops : loops outer symbol'.name = true := hname ▸
        houter.loops_of_mem holder hloop hkind
      have hne : outer ≠ [] := by
        rintro rfl
        cases hloops
      have hkinds := (hΓ.1 symbol' (name_of_firstNamed hfirst).2).2 hne
      simp [accepts, hkinds, hloops] at haccepts

theorem SymbolTable.Shows.noClash (h : t.Shows Γ) (hΓ : Ok Γ) : t.NoClash := by
  refine ⟨ScopesShow.distinct h, ScopesShow.unhidden h hΓ, fun id hid loop hloop hkind => ?_⟩
  obtain ⟨newer, older, hlive⟩ := append_of_mem hid
  have hpairs := ScopesShow.unhidden h hΓ
  rw [← SymbolTable.live, hlive, pairwise_append] at hpairs
  have hnewer : newer.find? (t.hasName loop.name) = none := by
    refine find?_eq_none.2 fun other hother hname => ?_
    obtain ⟨symbol, hsymbol, hname⟩ := (any_eq_true _ _).1 hname
    exact hpairs.2.2 other hother id (.head _) loop hloop hkind symbol hsymbol
      (by simpa using hname)
  have hid : t.hasName loop.name id = true := by simp [SymbolTable.hasName, hloop]
  rw [SymbolTable.lookup, SymbolTable.lookupId, hlive, List.find?_append, hnewer, Option.none_or,
    find?_cons_of_pos hid, bind_some, hloop]

end PLang
