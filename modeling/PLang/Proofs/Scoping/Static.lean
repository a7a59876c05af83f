import PLang.Proofs.Tree.Paths
import PLang.Symbol.Table

/-!
# Lexical scoping

What a name stands for at a node of a tree, read off the tree alone. Programs, functions with a
body, blocks and counting loops declare names for the nodes inside of them. The context of a node
lists the constructs around it, and what each of them has declared before the node. A name stands
for the first declaration of it in the innermost construct that has one, but the variables of the
loops around are not to be declared again.
-/

namespace PLang

/-- The constructs around a node, innermost first, and in each of them the symbols that it has
declared, oldest first. -/
abbrev Context := List (List Symbol)

/-- The first symbol of a name. -/
def firstNamed (symbols : List Symbol) (x : String) : Option Symbol :=
  symbols.find? fun symbol => symbol.name == x

namespace Context

/-- Whether a loop has a variable of a name. -/
def loops (Γ : Context) (x : String) : Bool :=
  Γ.any fun symbols => (firstNamed symbols x).any fun symbol => symbol.kind == .loopVar

/-- Whether a declaration counts inside of other constructs: those of programs and functions always
do, all others do unless a loop around has a variable of that name. -/
def accepts (outer : Context) (symbol : Symbol) : Bool :=
  symbol.kind == .program || symbol.kind == .function || !outer.loops symbol.name

/-- What a name stands for: the first symbol of that name in the innermost construct that has one
which counts. -/
def resolve : Context → String → Option Symbol
  | [], _ => none
  | symbols :: outer, x => ((firstNamed symbols x).filter (accepts outer)).or (resolve outer x)

/-- The level of the innermost construct; the outermost one has level zero. -/
def level? : Context → Option Nat
  | [] => none
  | _ :: outer => some outer.length

/-- More symbols declared in the innermost construct. -/
def declare : Context → List Symbol → Context
  | [], _ => []
  | here :: outer, symbols => (here ++ symbols) :: outer

/-- Symbols have the level of their construct, and those of programs and functions are in the
outermost one. -/
def Ok : Context → Prop
  | [] => True
  | symbols :: outer => (∀ symbol ∈ symbols, symbol.level = outer.length ∧
      (outer ≠ [] → symbol.kind ≠ .program ∧ symbol.kind ≠ .function)) ∧ Ok outer

end Context

/-! ### What nodes declare -/

/-- The symbol of a program. -/
def ProgramNode.symbol (p : ProgramNode) (level : Nat) (id : NodeId) : Symbol :=
  ⟨level, p.name, .program, some .void, "void", "", id⟩

/-- The symbol of a function. -/
def FunctionNode.symbol (f : FunctionNode) (level : Nat) (id : NodeId) : Symbol :=
  ⟨level, f.name, .function, some f.result, f.result.text, f.parameterText, id⟩

namespace Store

variable (s : Store)

/-- The name that a node declares. -/
def called (id : NodeId) : String :=
  match s.kind? id with
  | some (.name text) => text
  | some (.function f) => f.name
  | _ => ""

/-- The text of the literal of a declaration. -/
def detail (d : DeclarationNode) : String :=
    ((d.literal.bind s.literal?).map LiteralNode.text).getD ""

/-- The symbol of a name in a declaration. -/
def nameSymbol (level : Nat) (d : DeclarationNode) (type : TypeNode) (name : NodeId) : Symbol :=
  ⟨level, s.called name, d.kind, some type.scalar, type.text, s.detail d, d.type⟩

/-- What a node declares in the construct around it. -/
def declared (level : Nat) (id : NodeId) : List Symbol :=
  match s.kind? id with
  | some (.declaration d) =>
    match s.type? d.type with
    | some type => (s.siblings (some d.names)).map (s.nameSymbol level d type)
    | none => []
  | some (.function f) => [f.symbol level id]
  | _ => []

/-- What a list of nodes declares. -/
def declaredList (level : Nat) (head : Option NodeId) : List Symbol :=
  (s.siblings head).flatMap (s.declared level)

/-- The context of the first node in a slot. The parts of a node that are in no context, such as the
names in a declaration and the parameters of a function without a body, are not visited. -/
def opened (id : NodeId) (Γ : Context) : NodeKind → Slot → Option Context
  | .program p, .declarations => some ([p.symbol Γ.length id] :: Γ)
  | .program p, .functions =>
    some ((p.symbol Γ.length id :: s.declaredList Γ.length p.declarations) :: Γ)
  | .program p, .body => some ((p.symbol Γ.length id :: (s.declaredList Γ.length p.declarations ++
      s.declaredList Γ.length p.functions)) :: Γ)
  | .function f, .parameters =>
    if f.body.isSome then some ([] :: Γ.declare (s.declared (Γ.length - 1) id)) else none
  | .function f, .body =>
    some (s.declaredList Γ.length f.parameters :: Γ.declare (s.declared (Γ.length - 1) id))
  | .compound _, .declarations => some ([] :: Γ)
  | .compound b, .statements => some (s.declaredList Γ.length b.declarations :: Γ)
  | .forLoop _, .declaration => some ([] :: Γ)
  | .forLoop f, .body => some (s.declaredList Γ.length (some f.declaration) :: Γ)
  | .program _, _ | .function _, _ | .forLoop _, _ | .declaration _, _ | .type _, _ => none
  | _, _ => some Γ

/-- The context of the node to which a link leads. -/
def entered (id : NodeId) (Γ : Context) : Link → Option Context
  | .slot slot => (s.kind? id).bind fun k => s.opened id Γ k slot
  | .next => some (Γ.declare (s.declared (Γ.length - 1) id))

/-- The node to which a path leads from a node in a context, and the context there. -/
def along : NodeId → Context → List Link → Option (NodeId × Context)
  | id, Γ, [] => some (id, Γ)
  | id, Γ, link :: path =>
    (s.follow? id link).bind fun child => (s.entered id Γ link).bind fun Γ => along child Γ path

/-- The context of a node in the tree under a root. -/
def InContext (root id : NodeId) (Γ : Context) : Prop :=
  ∃ path, s.along root [] path = some (id, Γ)

/-- The places at which a node redeclares a name. A name in a declaration is redeclared if its
construct has declared it before, the names before it in the declaration included, or if a loop
around has it. The name of a function is redeclared if its construct has declared it before. -/
def Redeclares (id : NodeId) (Γ : Context) (site : NodeId) : Prop :=
  match s.kind? id with
  | some (.declaration d) => ∃ before after, s.siblings (some d.names) = before ++ site :: after ∧
      (s.called site ∈ (Γ.headD []).map Symbol.name ++ before.map s.called ∨
        Context.loops Γ.tail (s.called site) = true)
  | some (.function f) => site = id ∧ f.name ∈ (Γ.headD []).map Symbol.name
  | _ => False

end Store

/-! ### Looking up names -/

variable {symbols here more : List Symbol} {outer Γ : Context} {symbol : Symbol} {x : String}

theorem firstNamed_append :
    firstNamed (here ++ more) x = (firstNamed here x).or (firstNamed more x) :=
  List.find?_append

theorem name_of_firstNamed (h : firstNamed symbols x = some symbol) :
    symbol.name = x ∧ symbol ∈ symbols :=
  ⟨by simpa using List.find?_some h, List.mem_of_find?_eq_some h⟩

theorem firstNamed_eq_none : firstNamed symbols x = none ↔ x ∉ symbols.map Symbol.name := by
  simp [firstNamed]

namespace Context

theorem loops_cons : loops (symbols :: outer) x =
    ((firstNamed symbols x).any (fun symbol => symbol.kind == .loopVar) || loops outer x) := rfl

theorem resolve_cons_of_accepts (h : firstNamed symbols x = some symbol)
    (haccepts : accepts outer symbol = true) : resolve (symbols :: outer) x = some symbol := by
  rw [resolve, h, Option.filter_some, if_pos haccepts, Option.some_or]

theorem resolve_cons_of_rejects
    (h : ∀ symbol, firstNamed symbols x = some symbol → accepts outer symbol = false) :
    resolve (symbols :: outer) x = resolve outer x := by
  cases hx : firstNamed symbols x with
  | none => rw [resolve, hx, Option.filter_none, Option.none_or]
  | some symbol =>
    rw [resolve, hx, Option.filter_some, h symbol hx, if_neg Bool.false_ne_true, Option.none_or]

/-- A construct has a declaration of a name that counts, or the name means what it means around. -/
theorem resolve_cons_cases (symbols : List Symbol) (outer : Context) (x : String) :
    (∃ symbol, firstNamed symbols x = some symbol ∧ accepts outer symbol = true ∧
      resolve (symbols :: outer) x = some symbol) ∨
    (∀ symbol, firstNamed symbols x = some symbol → accepts outer symbol = false) ∧
      resolve (symbols :: outer) x = resolve outer x := by
  cases hx : firstNamed symbols x with
  | none => exact .inr ⟨nofun, resolve_cons_of_rejects (by rw [hx]; nofun)⟩
  | some symbol =>
    cases haccepts : accepts outer symbol with
    | true => exact .inl ⟨symbol, rfl, haccepts, resolve_cons_of_accepts hx haccepts⟩
    | false =>
      have hrejects : ∀ other, some symbol = some other → accepts outer other = false := by
        rintro _ ⟨⟩
        exact haccepts
      exact .inr ⟨hrejects, resolve_cons_of_rejects (hx ▸ hrejects)⟩

theorem level_lt_of_resolve (hΓ : Ok Γ) (h : resolve Γ x = some symbol) :
    symbol.level < Γ.length := by
  induction Γ with
  | nil => cases h
  | cons symbols outer ih =>
    rw [List.length_cons]
    rcases resolve_cons_cases symbols outer x with ⟨symbol', hfirst, -, hresolve⟩ | ⟨-, hresolve⟩
    · obtain rfl := Option.some.inj (hresolve.symm.trans h)
      rw [(hΓ.1 symbol' (name_of_firstNamed hfirst).2).1]
      exact Nat.lt_succ_self _
    · exact Nat.lt_succ_of_lt (ih hΓ.2 (hresolve.symm.trans h))

/-- The names of loop variables stand for them. -/
theorem exists_resolve_of_loops (hΓ : Ok Γ) (h : loops Γ x = true) :
    ∃ symbol, resolve Γ x = some symbol ∧ symbol.kind = .loopVar := by
  induction Γ with
  | nil => cases h
  | cons symbols outer ih =>
    rcases resolve_cons_cases symbols outer x with
      ⟨symbol, hfirst, haccepts, hresolve⟩ | ⟨hrejects, hresolve⟩
    · refine ⟨symbol, hresolve, ?_⟩
      obtain ⟨rfl, hmem⟩ := name_of_firstNamed hfirst
      rw [loops_cons, hfirst, Option.any_some, Bool.or_eq_true, beq_iff_eq] at h
      rcases h with h | h
      · exact h
      · -- inside of a loop only loop variables of other names are declared
        have hne : outer ≠ [] := by
          rintro rfl
          cases h
        obtain ⟨-, hkind⟩ := hΓ.1 symbol hmem
        simp [accepts, hkind hne, h] at haccepts
    · rw [hresolve]
      refine ih hΓ.2 ?_
      rw [loops_cons, Bool.or_eq_true] at h
      rcases h with h | h
      · obtain ⟨symbol, hfirst, hkind⟩ := (Option.any_eq_true _ _).1 h
        have hreject := hrejects symbol hfirst
        obtain ⟨rfl, -⟩ := name_of_firstNamed hfirst
        by_contra hloops
        simp [accepts, hloops] at hreject
      · exact h

theorem loops_of_resolve (h : resolve Γ x = some symbol) (hkind : symbol.kind = .loopVar) :
    loops Γ x = true := by
  induction Γ with
  | nil => cases h
  | cons symbols outer ih =>
    rw [loops_cons, Bool.or_eq_true]
    rcases resolve_cons_cases symbols outer x with ⟨symbol', hfirst, -, hresolve⟩ | ⟨-, hresolve⟩
    · cases hresolve.symm.trans h
      left
      rw [hfirst, Option.any_some, hkind]
      rfl
    · exact .inr (ih (hresolve.symm.trans h))

/-- A name stands for something of this construct or for a loop variable just if the construct has
declared it already or a loop around has it. -/
theorem resolve_clashes_iff (hΓ : Ok (here :: outer)) :
    ((resolve (here :: outer) x).any fun symbol =>
      some symbol.level == level? (here :: outer) || symbol.kind == .loopVar) = true ↔
      x ∈ here.map Symbol.name ∨ loops outer x = true := by
  rcases resolve_cons_cases here outer x with ⟨symbol, hfirst, -, hresolve⟩ | ⟨hrejects, hresolve⟩
  · obtain ⟨hname, hmem⟩ := name_of_firstNamed hfirst
    rw [hresolve, Option.any_some, (hΓ.1 symbol hmem).1]
    exact iff_of_true (by simp [level?]) (.inl (hname ▸ List.mem_map_of_mem hmem))
  · rw [hresolve]
    constructor
    · intro h
      obtain ⟨symbol, hsymbol, h⟩ := (Option.any_eq_true _ _).1 h
      have hlt := level_lt_of_resolve hΓ.2 hsymbol
      have hlevel : (some symbol.level == level? (here :: outer)) = false := by
        simpa [level?] using Nat.ne_of_lt hlt
      rw [hlevel, Bool.false_or, beq_iff_eq] at h
      exact .inr (loops_of_resolve hsymbol h)
    · intro h
      have hloops : loops outer x = true := by
        rcases h with h | h
        · cases hfirst : firstNamed here x with
          | none => exact absurd h (firstNamed_eq_none.1 hfirst)
          | some symbol =>
            have hreject := hrejects symbol hfirst
            obtain ⟨rfl, -⟩ := name_of_firstNamed hfirst
            by_contra hloops
            simp [accepts, hloops] at hreject
        · exact h
      obtain ⟨symbol, hsymbol, hkind⟩ := exists_resolve_of_loops hΓ.2 hloops
      rw [hsymbol, Option.any_some, hkind]
      simp

/-- In the outermost construct, a name stands for something just if it is declared there. -/
theorem resolve_here_iff (hΓ : Ok [here]) :
    ((resolve [here] x).any fun symbol => some symbol.level == level? [here]) = true ↔
      x ∈ here.map Symbol.name := by
  rcases resolve_cons_cases here [] x with ⟨symbol, hfirst, -, hresolve⟩ | ⟨hrejects, hresolve⟩
  · obtain ⟨hname, hmem⟩ := name_of_firstNamed hfirst
    rw [hresolve, Option.any_some, (hΓ.1 symbol hmem).1]
    exact iff_of_true (by simp [level?]) (hname ▸ List.mem_map_of_mem hmem)
  · have hnone : firstNamed here x = none := by
      cases hfirst : firstNamed here x with
      | none => rfl
      | some symbol =>
        have hreject := hrejects symbol hfirst
        simp [accepts, loops] at hreject
    rw [hresolve]
    exact iff_of_false (by simp [resolve]) (firstNamed_eq_none.1 hnone)

/-! ### Declaring names -/

@[simp]
theorem declare_nil (Γ : Context) : Γ.declare [] = Γ := by
  cases Γ with
  | nil => rfl
  | cons here outer => rw [declare, List.append_nil]

@[simp]
theorem declare_declare (Γ : Context) (a b : List Symbol) :
    (Γ.declare a).declare b = Γ.declare (a ++ b) := by
  cases Γ with
  | nil => rfl
  | cons here outer => rw [declare, declare, declare, List.append_assoc]

@[simp]
theorem length_declare (Γ : Context) (a : List Symbol) : (Γ.declare a).length = Γ.length := by
  cases Γ <;> rfl

theorem Ok.declare (hΓ : Ok (here :: outer)) (h : ∀ symbol ∈ more, symbol.level = outer.length ∧
    (outer ≠ [] → symbol.kind ≠ .program ∧ symbol.kind ≠ .function)) :
    Ok (Context.declare (here :: outer) more) :=
  ⟨fun symbol hmem => (List.mem_append.1 hmem).elim (hΓ.1 symbol) (h symbol), hΓ.2⟩

end Context

end PLang
