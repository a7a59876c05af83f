import PLang.Proofs.Checking.Annotation
import PLang.Proofs.Typing

/-!
# Symbol tables and environments

The open scopes of a symbol table hold what an environment says. Looking up, declaring and opening
and closing scopes do the same on both sides.
-/

namespace PLang

open Syntax Typing List

variable {m : Meaning} {x : String} {Γ : Env}

/-- The kind of the symbols of objects. -/
def Typing.Role.kind : Role → SymbolKind
  | parameter => .parameter
  | var => .var
  | loopVariable => .loopVar
  | constant => .constant

/-- A node holds a type, up to its list of dimensions. -/
def TypeNodeOf (s : Store) (id : NodeId) (t : DataType) : Prop :=
  ∃ node, s.type? id = some node ∧ node.scalar = t.scalar ∧ node.text = t.text ∧
    (node.dimensions = none ↔ t.dimensions = [])

/-- A symbol stands for what an environment says. -/
def Denotes (s : Store) (symbol : Symbol) : Meaning → Prop
  | .program => symbol.kind = .program
  | .function ps result => symbol.kind = .function ∧ symbol.scalar = some result ∧
      ∃ f, s.function? symbol.node = some f ∧
        List.Forall₂ (TypeNodeOf s) (s.siblings f.parameterTypes) ps
  | .object role t => symbol.kind = role.kind ∧ symbol.scalar = some t.scalar ∧
      s.dimensions symbol.node = t.dimensions

namespace Denotes

variable {s : Store} {symbol : Symbol} {m : Meaning}

/-- The names of variables are those of objects. -/
theorem isVariable_iff (h : Denotes s symbol m) :
    symbol.kind.isVariable = true ↔ ∃ role t, m = .object role t := by
  cases m with
  | program =>
    rw [show symbol.kind = .program from h]
    exact iff_of_false (by decide) (by rintro ⟨role, t, ⟨⟩⟩)
  | function ps result =>
    rw [h.1]
    exact iff_of_false (by decide) (by rintro ⟨role, t, ⟨⟩⟩)
  | object role t =>
    rw [h.1]
    exact iff_of_true (by cases role <;> rfl) ⟨role, t, rfl⟩

theorem isFunction_iff (h : Denotes s symbol m) :
    symbol.kind = .function ↔ ∃ ps result, m = .function ps result := by
  cases m with
  | program =>
    rw [show symbol.kind = .program from h]
    exact iff_of_false (by decide) (by rintro ⟨ps, result, ⟨⟩⟩)
  | function ps result => exact iff_of_true h.1 ⟨ps, result, rfl⟩
  | object role t =>
    rw [h.1]
    exact iff_of_false (by cases role <;> decide) (by rintro ⟨ps, result, ⟨⟩⟩)

theorem isLoopVariable_iff (h : Denotes s symbol m) :
    symbol.kind = .loopVar ↔ ∃ t, m = .object .loopVariable t := by
  cases m with
  | program =>
    rw [show symbol.kind = .program from h]
    exact iff_of_false (by decide) (by rintro ⟨t, ⟨⟩⟩)
  | function ps result =>
    rw [h.1]
    exact iff_of_false (by decide) (by rintro ⟨t, ⟨⟩⟩)
  | object role t =>
    rw [h.1]
    cases role with
    | loopVariable => exact iff_of_true rfl ⟨t, rfl⟩
    | parameter | var | constant => exact iff_of_false (by decide) (by rintro ⟨t, ⟨⟩⟩)

end Denotes

/-- A number is that of a symbol for a declared name. -/
def EntryMatches (t : SymbolTable) (s : Store) (level : Nat) (id : SymbolId)
    (entry : String × Meaning) : Prop :=
  ∃ symbol, t.symbol? id = some symbol ∧ symbol.name = entry.1 ∧ symbol.level = level ∧
    Denotes s symbol entry.2

/-- Scopes of a symbol table hold what an environment says. -/
inductive ScopesMatch (t : SymbolTable) (s : Store) : List (List SymbolId) → Env → Prop
  | nil : ScopesMatch t s [] []
  | cons {ids : List SymbolId} {outer : List (List SymbolId)} {scope : Scope} {Γ : Env} :
      List.Forall₂ (EntryMatches t s outer.length) ids scope → ScopesMatch t s outer Γ →
      ScopesMatch t s (ids :: outer) (scope :: Γ)

namespace EntryMatches

variable {t t' : SymbolTable} {s : Store} {level : Nat} {id : SymbolId} {entry : String × Meaning}

theorem lt (h : EntryMatches t s level id entry) : id < t.nextId := by
  obtain ⟨symbol, hsymbol, -⟩ := h
  by_contra hlt
  rw [SymbolTable.symbol?_eq_none (Nat.le_of_not_lt hlt)] at hsymbol
  cases hsymbol

theorem hasName_iff (h : EntryMatches t s level id entry) (x : String) :
    t.hasName x id = (x == entry.1) := by
  obtain ⟨symbol, hsymbol, hname, -⟩ := h
  rw [SymbolTable.hasName, hsymbol, Option.any_some, hname]
  exact Bool.beq_comm

end EntryMatches

/-! ### Looking up -/

section Lookup

variable {t : SymbolTable} {s : Store} {x : String}

/-- A name that is not in a scope is found nowhere there, and one that is in it is found. -/
theorem find?_scope {level : Nat} {ids : List SymbolId} {scope : Scope}
    (h : List.Forall₂ (EntryMatches t s level) ids scope) :
    (scope.lookup x = none → ids.find? (t.hasName x) = none) ∧
      ∀ m, scope.lookup x = some m → ∃ id symbol, ids.find? (t.hasName x) = some id ∧
        t.symbol? id = some symbol ∧ symbol.level = level ∧ Denotes s symbol m := by
  induction h with
  | nil => exact ⟨fun _ => rfl, fun m hm => nomatch hm⟩
  | @cons id entry ids scope hentry _ ih =>
    obtain ⟨y, m1⟩ := entry
    rw [find?_cons, hentry.hasName_iff x, lookup_cons]
    cases hxy : x == y with
    | true =>
      obtain ⟨symbol, hsymbol, -, hlevel, hdenotes⟩ := hentry
      exact ⟨fun h => (nomatch h), fun m hm =>
        ⟨id, symbol, rfl, hsymbol, hlevel, Option.some.inj hm ▸ hdenotes⟩⟩
    | false => exact ih

theorem mem_here_iff {scope : Scope} : x ∈ Env.here (scope :: Γ) ↔ scope.lookup x ≠ none := by
  rw [ne_eq, lookup_eq_none_iff, Env.here, headD_cons, mem_map]
  constructor
  · rintro ⟨entry, hmem, rfl⟩ hnone
    exact absurd (hnone entry hmem) (by simp)
  · intro h
    by_contra hnone
    refine h fun entry hmem => ?_
    by_contra hx
    exact hnone ⟨entry, hmem, (by simpa using hx : x = entry.1).symm⟩

/-- The same for all scopes. A symbol of the innermost scope has the innermost level. -/
theorem ScopesMatch.find? {scopes : List (List SymbolId)} (h : ScopesMatch t s scopes Γ) :
    (Γ.lookup x = none → scopes.flatten.find? (t.hasName x) = none) ∧
      ∀ m, Γ.lookup x = some m → ∃ id symbol, scopes.flatten.find? (t.hasName x) = some id ∧
        t.symbol? id = some symbol ∧ Denotes s symbol m ∧ symbol.level < scopes.length ∧
        (symbol.level + 1 = scopes.length ↔ x ∈ Γ.here) := by
  induction h with
  | nil => exact ⟨fun _ => rfl, fun m hm => nomatch hm⟩
  | @cons ids outer scope Γ hscope _ ih =>
    have hhere : x ∈ Env.here (scope :: Γ) ↔ scope.lookup x ≠ none := mem_here_iff
    obtain ⟨hnone, hsome⟩ := find?_scope (x := x) hscope
    rw [Env.lookup, flatten_cons, lookup_append, flatten_cons, find?_append]
    cases hx : scope.lookup x with
    | none =>
      rw [hnone hx, hhere, hx]
      refine ⟨ih.1, fun m hm => ?_⟩
      obtain ⟨id, symbol, hid, hsymbol, hdenotes, hlevel, -⟩ := ih.2 m hm
      refine ⟨id, symbol, hid, hsymbol, hdenotes, ?_, ?_⟩
      · rw [length_cons]
        omega
      · rw [length_cons]
        exact ⟨fun h => by omega, fun h => absurd rfl h⟩
    | some m1 =>
      refine ⟨fun h => (nomatch h), fun m hm => ?_⟩
      obtain ⟨id, symbol, hid, hsymbol, hlevel, hdenotes⟩ := hsome m1 hx
      rw [hid, hhere, hx]
      refine ⟨id, symbol, rfl, hsymbol, Option.some.inj hm ▸ hdenotes, ?_, ?_⟩
      · rw [hlevel]
        exact Nat.lt_succ_self _
      · rw [hlevel]
        exact ⟨fun _ => Option.some_ne_none _, fun _ => rfl⟩

theorem ScopesMatch.lookup_none (h : ScopesMatch t s t.scopes Γ) (hx : Γ.lookup x = none) :
    t.lookup x = none := by
  rw [SymbolTable.lookup, SymbolTable.lookupId, SymbolTable.live, h.find?.1 hx]
  rfl

theorem ScopesMatch.lookup_some (h : ScopesMatch t s t.scopes Γ) (hx : Γ.lookup x = some m) :
    ∃ symbol, t.lookup x = some symbol ∧ Denotes s symbol m ∧
      (some symbol.level = t.level? ↔ x ∈ Γ.here) := by
  obtain ⟨id, symbol, hid, hsymbol, hdenotes, hlt, hhere⟩ := h.find?.2 m hx
  refine ⟨symbol, ?_, hdenotes, Iff.trans ?_ hhere⟩
  · rw [SymbolTable.lookup, SymbolTable.lookupId, SymbolTable.live, hid]
    exact hsymbol
  · rw [SymbolTable.level?]
    cases hscopes : t.scopes with
    | nil =>
      rw [hscopes] at hlt
      exact absurd hlt (Nat.not_lt_zero _)
    | cons scope outer => rw [Option.some_inj, length_cons, Nat.add_right_cancel_iff]

end Lookup

/-! ### Declaring, opening and closing -/

namespace ScopesMatch

variable {t t' : SymbolTable} {s : Store} {scopes : List (List SymbolId)} {Γ : Env}

/-- New symbols leave the scopes alone. -/
theorem keep (h : ScopesMatch t s scopes Γ)
    (hkeep : ∀ id, id < t.nextId → t'.symbol? id = t.symbol? id) : ScopesMatch t' s scopes Γ := by
  induction h with
  | nil => exact .nil
  | cons hscope _ ih =>
    refine .cons (hscope.imp fun id entry hentry => ?_) ih
    have hlt := hentry.lt
    obtain ⟨symbol, hsymbol, hname, hlevel, hdenotes⟩ := hentry
    exact ⟨symbol, (hkeep id hlt).trans hsymbol, hname, hlevel, hdenotes⟩

/-- Inserting a symbol declares its name. -/
theorem insert {kind : SymbolKind} {scalar : Option ScalarType} {typeText detail : String}
    {node : NodeId} (h : ScopesMatch t s t.scopes Γ)
    (hm : ∀ level, Denotes s ⟨level, x, kind, scalar, typeText, detail, node⟩ m) :
    ScopesMatch (t.insert x kind scalar typeText detail node) s
      (t.insert x kind scalar typeText detail node).scopes (Γ.declare x m) := by
  have hkeep : ∀ id, id < t.nextId →
      (t.insert x kind scalar typeText detail node).symbol? id = t.symbol? id :=
    fun id hid => SymbolTable.symbol?_insert_of_lt hid ..
  have hnew : (t.insert x kind scalar typeText detail node).symbol? t.nextId =
      some ⟨t.level?.getD 0, x, kind, scalar, typeText, detail, node⟩ := by
    simp [SymbolTable.symbol?, SymbolTable.insert, SymbolTable.nextId]
  have hall := h.keep hkeep
  rw [SymbolTable.insert] at hall hnew ⊢
  cases hscopes : t.scopes with
  | nil =>
    rw [hscopes] at hall
    cases hall
    exact .nil
  | cons ids outer =>
    rw [hscopes] at hall hnew
    have hlevel : t.level?.getD 0 = outer.length := by rw [SymbolTable.level?, hscopes]; rfl
    cases hall with
    | cons hscope houter =>
      refine .cons (.cons ⟨_, hnew, rfl, hlevel, hm _⟩ hscope) houter

end ScopesMatch

/-! ### Loop variables are visible -/

namespace Typing.Env

/-- The variables of the loops around are not hidden. -/
def Guarded (Γ : Env) : Prop :=
  ∀ x, Γ.LoopVariable x → ∃ t, Γ.lookup x = some (.object .loopVariable t)

theorem loopVariable_nil_cons : Env.LoopVariable ([] :: Γ) x ↔ Γ.LoopVariable x := by
  constructor
  · rintro ⟨scope, hmem, t, ht⟩
    rcases mem_cons.1 hmem with rfl | hmem
    · exact absurd ht not_mem_nil
    · exact ⟨scope, hmem, t, ht⟩
  · rintro ⟨scope, hmem, t, ht⟩
    exact ⟨scope, .tail _ hmem, t, ht⟩

theorem Guarded.push (h : Γ.Guarded) : Env.Guarded ([] :: Γ) :=
  fun x hx => h x (loopVariable_nil_cons.1 hx)

theorem loopVariable_declare {y : String} (h : (Γ.declare x m).LoopVariable y) :
    (y = x ∧ Γ ≠ [] ∧ ∃ t, m = .object .loopVariable t) ∨ Γ.LoopVariable y := by
  cases Γ with
  | nil => exact .inr h
  | cons scope outer =>
    obtain ⟨scope', hmem, t, ht⟩ := h
    rcases mem_cons.1 hmem with rfl | hmem
    · rcases mem_cons.1 ht with heq | ht
      · obtain ⟨rfl, rfl⟩ := Prod.mk.inj heq
        exact .inl ⟨rfl, cons_ne_nil _ _, t, rfl⟩
      · exact .inr ⟨scope, .head _, t, ht⟩
    · exact .inr ⟨scope', .tail _ hmem, t, ht⟩

theorem lookup_declare_of_ne {y : String} (h : y ≠ x) : (Γ.declare x m).lookup y = Γ.lookup y := by
  cases Γ with
  | nil => rfl
  | cons scope outer =>
    show ((x, m) :: (scope ++ outer.flatten)).lookup y = _
    rw [lookup_cons, beq_eq_false_iff_ne.2 h]
    rfl

theorem lookup_declare_self (h : Γ ≠ []) : (Γ.declare x m).lookup x = some m := by
  cases Γ with
  | nil => exact absurd rfl h
  | cons scope outer =>
    show ((x, m) :: (scope ++ outer.flatten)).lookup x = _
    rw [lookup_cons, beq_self_eq_true]

/-- A name that is free hides no loop variable. -/
theorem Guarded.declare (h : Γ.Guarded) (hx : ¬Γ.LoopVariable x) : (Γ.declare x m).Guarded := by
  intro y hy
  rcases loopVariable_declare hy with ⟨rfl, hΓ, t, rfl⟩ | hy
  · exact ⟨t, lookup_declare_self hΓ⟩
  · have hne : y ≠ x := fun heq => hx (heq ▸ hy)
    rw [lookup_declare_of_ne hne]
    exact h y hy

end Typing.Env

end PLang
