import PLang.Proofs.Rechecking.Runs

/-!
# Symbol tables are stacks of scopes

Whatever is called on a symbol table, its open scopes are those of a stack on which a scope is a
list of symbols (`Holds`, step by step). The numbers that stand for the symbols grow from the
outermost scope to the innermost one and from the oldest symbol to the newest one (`Stacked`). So
the newest symbol of a name and the one in the innermost scope are the same.
-/

namespace PLang

open List SymbolTable

namespace SymbolTable

variable {t : SymbolTable} {id : SymbolId} {name : String}

/-- What can be done with a symbol table. -/
inductive Call
  | push
  | pop
  | clear
  | insert (name : String) (kind : SymbolKind) (scalar : Option ScalarType)
    (typeText detail : String)
      (node : NodeId)
deriving DecidableEq

/-- The table after one call. A scope can be closed where none is open, and a symbol can be inserted
without a scope. -/
def Call.apply (t : SymbolTable) : Call → SymbolTable
  | push => t.pushScope
  | pop => t.popScope
  | clear => t.clear
  | insert name kind scalar typeText detail node =>
    t.insert name kind scalar typeText detail node

def after (t : SymbolTable) (calls : List Call) : SymbolTable := calls.foldl Call.apply t

@[simp]
theorem after_cons (t : SymbolTable) (call : Call) (calls : List Call) :
    t.after (call :: calls) = (call.apply t).after calls := rfl

@[simp]
theorem after_append (t : SymbolTable) (calls calls' : List Call) :
    t.after (calls ++ calls') = (t.after calls).after calls' := foldl_append

/-- What one step preserves, a run preserves. -/
theorem after_induction {P : SymbolTable → Prop} (h : P t)
    (hstep : ∀ t call, P t → P (Call.apply t call)) (calls : List Call) : P (t.after calls) := by
  induction calls generalizing t with
  | nil => exact h
  | cons call calls ih => exact ih (hstep t call h)

/-! ### The stack -/

/-- One call on a stack of scopes, innermost first, that hold their symbols, newest first. -/
def Call.onStack (stack : Context) : Call → Context
  | push => [] :: stack
  | pop => stack.tail
  | clear => []
  | insert name kind scalar typeText detail node => stack.modifyHead
      (⟨stack.level?.getD 0, name, kind, scalar, typeText, detail, node⟩ :: ·)

variable {stack : Context}

theorem Holds.apply (h : t.Holds stack) (call : Call) :
    (call.apply t).Holds (call.onStack stack) := by
  cases call with
  | push => exact h.pushScope
  | pop => exact h.popScope
  | clear => exact holds_nil rfl
  | insert name kind scalar typeText detail node =>
    exact h.insert name kind scalar typeText detail node

theorem Holds.after (h : t.Holds stack) (calls : List Call) :
    (t.after calls).Holds (calls.foldl Call.onStack stack) := by
  induction calls generalizing t stack with
  | nil => exact h
  | cons call calls ih => exact ih (h.apply call)

theorem Holds.liveCount (h : t.Holds stack) :
    t.liveCount = stack.flatten.length := by
  have hlengths := congrArg (map length) h
  simp only [map_map, Function.comp_def, length_map] at hlengths
  rw [SymbolTable.liveCount, live, List.length_flatten, List.length_flatten, hlengths]

/-! ### Numbers -/

/-- Every open scope holds symbols of its own level, the scope inside `k` others those of level `k`.
Numbers of symbols that can be found stand for symbols, and they grow from the outermost scope to
the innermost one and, in a scope, from the oldest symbol to the newest one. -/
structure Stacked (t : SymbolTable) : Prop where
  level : ∀ inner scope outer, t.scopes = inner ++ scope :: outer → ∀ id ∈ scope,
    ∃ symbol, t.symbol? id = some symbol ∧ symbol.level = outer.length
  bound : ∀ id ∈ t.live, id < t.nextId
  increasing : (t.scopes.reverse.map reverse).flatten.Pairwise (· < ·)

theorem outward_eq (t : SymbolTable) :
    (t.scopes.reverse.map reverse).flatten = t.live.reverse := by
  rw [live, reverse_flatten, map_reverse]

theorem Stacked.newestFirst (h : t.Stacked) : t.live.Pairwise (· > ·) := by
  have hincreasing := h.increasing
  rwa [outward_eq, pairwise_reverse] at hincreasing

theorem stacked_of_newestFirst
    (hlevel : ∀ inner scope outer, t.scopes = inner ++ scope :: outer → ∀ id ∈ scope,
      ∃ symbol, t.symbol? id = some symbol ∧ symbol.level = outer.length)
    (hbound : ∀ id ∈ t.live, id < t.nextId) (hlive : t.live.Pairwise (· > ·)) : t.Stacked :=
  ⟨hlevel, hbound, by rwa [outward_eq, pairwise_reverse]⟩

theorem stacked_of_scopes_nil (h : t.scopes = []) : t.Stacked := by
  refine stacked_of_newestFirst ?_ ?_ ?_ <;> simp [live, h]

theorem Stacked.pushScope (h : t.Stacked) : t.pushScope.Stacked := by
  refine stacked_of_newestFirst ?_ h.bound h.newestFirst
  intro inner scope outer hscopes id hid
  cases inner with
  | nil =>
    obtain rfl := (cons.inj hscopes).1
    cases hid
  | cons first inner => exact h.level inner scope outer (cons.inj hscopes).2 id hid

theorem Stacked.popScope (h : t.Stacked) : t.popScope.Stacked := by
  cases hscopes : t.scopes with
  | nil => exact stacked_of_scopes_nil (by simp [SymbolTable.popScope, hscopes])
  | cons first rest =>
    have hpop : t.popScope.scopes = rest := by simp [SymbolTable.popScope, hscopes]
    have hlive : t.live = first ++ t.popScope.live := by simp [live, hpop, hscopes]
    have hnewest := h.newestFirst
    rw [hlive, pairwise_append] at hnewest
    refine stacked_of_newestFirst ?_ ?_ hnewest.2.1
    · intro inner scope outer heq
      exact h.level (first :: inner) scope outer (by rw [hscopes, ← hpop, heq]; rfl)
    · intro id hid
      exact h.bound id (hlive ▸ mem_append_right first hid)

theorem Stacked.insert (h : t.Stacked) (name : String) (kind : SymbolKind)
    (scalar : Option ScalarType) (typeText detail : String) (node : NodeId) :
    (t.insert name kind scalar typeText detail node).Stacked := by
  cases hscopes : t.scopes with
  | nil => exact stacked_of_scopes_nil (by simp [SymbolTable.insert, hscopes])
  | cons first rest =>
    have hinsert : (t.insert name kind scalar typeText detail node).scopes =
        (t.nextId :: first) :: rest := scopes_insert hscopes
    have hlive : (t.insert name kind scalar typeText detail node).live = t.nextId :: t.live := by
      simp [live, hinsert, hscopes]
    have hnext : (t.insert name kind scalar typeText detail node).nextId = t.nextId + 1 := by
      simp [nextId, SymbolTable.insert]
    refine stacked_of_newestFirst ?_ ?_ ?_
    · intro inner scope outer heq id hid
      have hkeep : ∀ symbol, t.symbol? id = some symbol ∧ symbol.level = outer.length →
          ∃ symbol, (t.insert name kind scalar typeText detail node).symbol? id = some symbol ∧
            symbol.level = outer.length :=
        fun symbol hsymbol => ⟨symbol, symbol?_insert_of_some hsymbol.1, hsymbol.2⟩
      rw [hinsert] at heq
      cases inner with
      | nil =>
        obtain ⟨rfl, rfl⟩ := List.cons.inj heq
        by_cases hnew : id = t.nextId
        · subst hnew
          exact ⟨_, symbol?_insert_self, by simp [level?, hscopes]⟩
        · have hold : id ∈ first := (List.mem_cons.1 hid).resolve_left hnew
          obtain ⟨symbol, hsymbol⟩ := h.level [] first rest hscopes id hold
          exact hkeep symbol hsymbol
      | cons scope' inner =>
        obtain ⟨symbol, hsymbol⟩ := h.level (first :: inner) scope outer
          (by rw [hscopes, (List.cons.inj heq).2]; rfl) id hid
        exact hkeep symbol hsymbol
    · intro id hid
      rw [hlive, List.mem_cons] at hid
      have hold := h.bound id
      rw [hnext]
      rcases hid with rfl | hid
      · exact Nat.lt_succ_self _
      · exact Nat.lt_succ_of_lt (hold hid)
    · rw [hlive, List.pairwise_cons]
      exact ⟨h.bound, h.newestFirst⟩

theorem Stacked.apply (h : t.Stacked) (call : Call) : (call.apply t).Stacked := by
  cases call with
  | push => exact h.pushScope
  | pop => exact h.popScope
  | clear => exact stacked_of_scopes_nil rfl
  | insert name kind scalar typeText detail node =>
    exact h.insert name kind scalar typeText detail node

theorem stacked_after (calls : List Call) : (empty.after calls).Stacked :=
  after_induction (stacked_of_scopes_nil rfl) (fun _ call h => h.apply call) calls

/-! ### Looking up -/

/-- In a list from the newest number to the oldest one, the first of a kind is the newest one. -/
theorem find?_newest {l : List Nat} (h : l.Pairwise (· > ·)) (p : Nat → Bool) :
    l.find? p = some id ↔ id ∈ l ∧ p id = true ∧ ∀ other ∈ l, p other = true → other ≤ id := by
  induction l with
  | nil => simp
  | cons first l ih =>
    rw [pairwise_cons] at h
    by_cases hfirst : p first = true
    · rw [find?_cons_of_pos hfirst]
      constructor
      · intro heq
        cases heq
        refine ⟨.head _, hfirst, ?_⟩
        intro other hother _
        rcases mem_cons.1 hother with rfl | hother
        · exact .refl
        · exact Nat.le_of_lt (h.1 other hother)
      · rintro ⟨hmem, -, hnewest⟩
        have hle := hnewest first (.head _) hfirst
        rcases mem_cons.1 hmem with rfl | hmem
        · rfl
        · exact absurd (h.1 id hmem) (Nat.not_lt_of_le hle)
    · rw [find?_cons_of_neg hfirst, ih h.2]
      constructor
      · rintro ⟨hmem, hid, hnewest⟩
        refine ⟨mem_cons_of_mem first hmem, hid, ?_⟩
        intro other hother hp
        rcases mem_cons.1 hother with rfl | hother
        · exact absurd hp hfirst
        · exact hnewest other hother hp
      · rintro ⟨hmem, hid, hnewest⟩
        rcases mem_cons.1 hmem with rfl | hmem
        · exact absurd hid hfirst
        · exact ⟨hmem, hid, fun other hother => hnewest other (mem_cons_of_mem first hother)⟩

/-- A name stands for the newest symbol of that name that is in an open scope. -/
theorem Stacked.lookupId_eq_newest (h : t.Stacked) : t.lookupId name = some id ↔
    id ∈ t.live ∧ t.hasName name id = true ∧
      ∀ other ∈ t.live, t.hasName name other = true → other ≤ id :=
  find?_newest h.newestFirst (t.hasName name)

/-- The newest symbol of a name in the innermost open scope that has one. -/
def Innermost (t : SymbolTable) (name : String) (id : SymbolId) : Prop :=
  ∃ inner scope outer, t.scopes = inner ++ scope :: outer ∧
    (∀ scope' ∈ inner, ∀ other ∈ scope', t.hasName name other = false) ∧
    id ∈ scope ∧ t.hasName name id = true ∧
      ∀ other ∈ scope, t.hasName name other = true → other ≤ id

/-- A name stands for the newest symbol of that name in the innermost scope that has one. -/
theorem Stacked.lookupId_eq_innermost (h : t.Stacked) :
    t.lookupId name = some id ↔ t.Innermost name id := by
  have hscope : ∀ inner scope outer, t.scopes = inner ++ scope :: outer →
      scope.Pairwise (· > ·) := by
    intro inner scope outer hscopes
    exact (pairwise_flatten.1 h.newestFirst).1 scope (by rw [hscopes]; simp)
  constructor
  · intro hfind
    obtain ⟨hid, inner, newer, older, outer, hscopes, hinner, hnewer⟩ :=
      find?_flatten_eq_some_iff.1 hfind
    refine ⟨inner, newer ++ id :: older, outer, hscopes, by simpa using hinner, ?_⟩
    refine (find?_newest (hscope _ _ _ hscopes) (t.hasName name)).1 ?_
    exact find?_eq_some_iff_append.2 ⟨hid, newer, older, rfl, hnewer⟩
  · rintro ⟨inner, scope, outer, hscopes, hinner, hmem⟩
    have hfind := (find?_newest (hscope _ _ _ hscopes) (t.hasName name)).2 hmem
    obtain ⟨hid, newer, older, rfl, hnewer⟩ := find?_eq_some_iff_append.1 hfind
    exact find?_flatten_eq_some_iff.2
      ⟨hid, inner, newer, older, outer, hscopes, by simpa using hinner, hnewer⟩

theorem lookupId_eq_none_iff :
    t.lookupId name = none ↔ ∀ scope ∈ t.scopes, ∀ id ∈ scope, t.hasName name id = false := by
  simp [lookupId, live, find?_eq_none]

/-! ### Calls between the ends of a scope -/

/-- Calls that close exactly the scopes that they open. -/
inductive Balanced : List Call → Prop
  | nil : Balanced []
  | insert {name : String} {kind : SymbolKind} {scalar : Option ScalarType}
      {typeText detail : String} {node : NodeId} {rest : List Call} :
    Balanced rest → Balanced (.insert name kind scalar typeText detail node :: rest)
  | scope {inside rest : List Call} :
    Balanced inside → Balanced rest → Balanced (.push :: inside ++ .pop :: rest)

/-- Symbols keep their numbers. -/
def Keeps (t t' : SymbolTable) : Prop := ∀ id symbol, t.symbol? id = some symbol →
  t'.symbol? id = some symbol

theorem Call.keeps {call : Call} (h : call ≠ .clear) (t : SymbolTable) :
    t.Keeps (call.apply t) := by
  intro id symbol hsymbol
  cases call with
  | push | pop => exact hsymbol
  | clear => exact absurd rfl h
  | insert => exact symbol?_insert_of_some hsymbol

variable {calls : List Call}

theorem keeps_after (h : .clear ∉ calls) (t : SymbolTable) :
    t.Keeps (t.after calls) := by
  induction calls generalizing t with
  | nil => exact fun _ _ hsymbol => hsymbol
  | cons call calls ih =>
    rw [mem_cons, not_or] at h
    intro id symbol hsymbol
    exact ih h.2 _ id symbol (Call.keeps (Ne.symm h.1) t id symbol hsymbol)

/-- The fields of a symbol stay until the table is cleared, also when its scope is closed. -/
theorem symbol?_after_insert {later : List Call} (h : .clear ∉ later) (t : SymbolTable)
    (name : String) (kind : SymbolKind) (scalar : Option ScalarType) (typeText detail : String)
    (node : NodeId) :
    ((t.insert name kind scalar typeText detail node).after later).symbol? t.nextId =
      some ⟨t.level?.getD 0, name, kind, scalar, typeText, detail, node⟩ :=
  keeps_after h _ _ _ symbol?_insert_self

theorem Balanced.clear_not_mem (h : Balanced calls) : .clear ∉ calls := by
  induction h with
  | nil => simp
  | insert _ ih => simpa using ih
  | scope _ _ ihInside ihRest => simp [ihInside, ihRest]

/-- Balanced calls leave the scopes around the innermost one alone. -/
theorem Balanced.scopes_after (h : Balanced calls) {scope : List SymbolId}
    {outer : List (List SymbolId)} (ht : t.scopes = scope :: outer) :
    ∃ scope', (t.after calls).scopes = scope' :: outer := by
  induction h generalizing t scope outer with
  | nil => exact ⟨scope, ht⟩
  | insert _ ih => exact ih (scopes_insert ht)
  | scope _ _ ihInside ihRest =>
    obtain ⟨inner, hinner⟩ := ihInside (t := t.pushScope) (congrArg (cons []) ht)
    rw [after_append, after_cons, after_cons]
    exact ihRest (congrArg tail hinner)

/-- Once a scope is closed again, all is as before it was opened, whatever was done inside. -/
theorem Stacked.scope_closed (h : t.Stacked) {inside : List Call} (hinside : Balanced inside) :
    (t.pushScope.after inside).popScope.scopes = t.scopes ∧
      ∀ name, (t.pushScope.after inside).popScope.lookupId name = t.lookupId name ∧
        (t.pushScope.after inside).popScope.lookup name = t.lookup name := by
  obtain ⟨scope, hscope⟩ := hinside.scopes_after (t := t.pushScope) rfl
  have hscopes : (t.pushScope.after inside).popScope.scopes = t.scopes := congrArg tail hscope
  have hkeep : ∀ id ∈ t.live,
      (t.pushScope.after inside).popScope.symbol? id = t.symbol? id := by
    intro id hid
    obtain ⟨symbol, hsymbol⟩ : ∃ symbol, t.symbol? id = some symbol :=
      ⟨_, Array.getElem?_eq_getElem (h.bound id hid)⟩
    rw [hsymbol]
    exact keeps_after hinside.clear_not_mem t.pushScope id symbol hsymbol
  have hlookupId : ∀ name,
      (t.pushScope.after inside).popScope.lookupId name = t.lookupId name := by
    intro name
    rw [lookupId, lookupId, live, hscopes, ← head?_filter, ← head?_filter]
    refine congrArg head? (filter_congr fun id hid => ?_)
    rw [hasName, hasName, hkeep id hid]
  refine ⟨hscopes, fun name => ⟨hlookupId name, ?_⟩⟩
  rw [lookup, lookup, hlookupId]
  cases hid : t.lookupId name with
  | none => rfl
  | some id => exact hkeep id (mem_of_find?_eq_some hid)

/-! ### All calls -/

/-- A symbol table is a stack of scopes. Whatever has been called on it, it shows what the stack
shows, and its numbers are in order; a name stands for the newest symbol of that name that can be
found, which is the newest one in the innermost scope that has one. A scope that is closed again
leaves all as it was, and a symbol keeps its fields until the table is cleared. -/
theorem after_refines_stack (ht : empty.after calls = t)
    (hstack : calls.foldl Call.onStack [] = stack) :
    (t.Holds stack ∧ t.level? = stack.level? ∧ t.liveCount = stack.flatten.length ∧
      ∀ name, t.lookup name = firstNamed stack.flatten name) ∧
    t.Stacked ∧
    (∀ name id, (t.lookupId name = some id ↔ t.Innermost name id) ∧
      (t.Innermost name id ↔ id ∈ t.live ∧ t.hasName name id = true ∧
        ∀ other ∈ t.live, t.hasName name other = true → other ≤ id)) ∧
    (∀ name, t.lookupId name = none ↔
      ∀ scope ∈ t.scopes, ∀ id ∈ scope, t.hasName name id = false) ∧
    (∀ inside t', Balanced inside → t.after (.push :: inside ++ [.pop]) = t' →
      (∀ name, t'.lookupId name = t.lookupId name ∧ t'.lookup name = t.lookup name) ∧
      t'.level? = t.level? ∧ t'.liveCount = t.liveCount) ∧
    ∀ name kind scalar typeText detail node later, .clear ∉ later →
      (t.after (.insert name kind scalar typeText detail node :: later)).symbol? t.nextId =
        some ⟨t.level?.getD 0, name, kind, scalar, typeText, detail, node⟩ := by
  subst ht hstack
  have hholds : (empty.after calls).Holds (calls.foldl Call.onStack []) :=
    Holds.after (holds_nil rfl) calls
  have hstacked := stacked_after calls
  refine ⟨⟨hholds, hholds.level?, hholds.liveCount, hholds.lookup⟩, hstacked, ?_,
    fun name => lookupId_eq_none_iff, ?_, ?_⟩
  · intro name id
    exact ⟨hstacked.lookupId_eq_innermost,
      hstacked.lookupId_eq_innermost.symm.trans hstacked.lookupId_eq_newest⟩
  · intro inside t' hinside ht'
    obtain rfl : ((empty.after calls).pushScope.after inside).popScope = t' := by
      rw [← ht', after_append]
      rfl
    obtain ⟨hscopes, hlookup⟩ := hstacked.scope_closed hinside
    refine ⟨hlookup, ?_, ?_⟩
    · rw [level?, level?, hscopes]
    · rw [liveCount, liveCount, live, live, hscopes]
  · intro name kind scalar typeText detail node later hlater
    exact symbol?_after_insert hlater ..

/-- A symbol without a scope, a scope closed where none is open, and a name declared in two scopes
and twice in the inner one. -/
def shadowing : List Call :=
  [.insert "a" .program none "" "" 0, .pop, .push, .insert "a" .var (some .real) "real" "" 1,
    .push, .insert "b" .var (some .integer) "integer" "" 2,
    .insert "a" .constant (some .integer) "integer" "7" 3,
    .insert "a" .var (some .string) "string" "" 4]

/-- Inside of another scope the name is declared once more, and that scope is closed. -/
def shadowingInside : List Call :=
  [.insert "a" .loopVar (some .integer) "integer" "" 5, .push,
    .insert "c" .var (some .real) "real" "" 6, .pop]

theorem after_refines_stack_shadowing :
    (empty.after shadowing).lookupId "a" = some 4 ∧ (empty.after shadowing).Innermost "a" 4 ∧
      Balanced shadowingInside ∧
      ((empty.after shadowing).after (.push :: shadowingInside ++ [.pop])).lookupId "a" = some 4 ∧
      ((empty.after shadowing).after
        (.insert "d" .function none "" "" 7 :: [.pop, .pop])).symbol? 5 =
        some ⟨1, "d", .function, none, "", "", 7⟩ := by
  obtain ⟨-, -, hlookup, -, hscope, hinsert⟩ :=
    after_refines_stack (rfl : empty.after shadowing = _) rfl
  have hfound : (empty.after shadowing).lookupId "a" = some 4 := by decide
  have hbalanced : Balanced shadowingInside :=
    .insert (@Balanced.scope [.insert "c" .var (some .real) "real" "" 6] [] (.insert .nil) .nil)
  refine ⟨hfound, (hlookup "a" 4).1.1 hfound, hbalanced, ?_, ?_⟩
  · rw [((hscope shadowingInside _ hbalanced rfl).1 "a").1, hfound]
  · exact hinsert "d" .function none "" "" 7 [.pop, .pop] (by decide)

end SymbolTable

end PLang
