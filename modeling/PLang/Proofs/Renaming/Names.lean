import Mathlib.Logic.Function.Basic
import PLang.Checker.Visit
import PLang.Proofs.Checking.Annotation
import PLang.Proofs.Tree.Links

/-!
# Renaming the names of a program

A renaming replaces names by names, wherever identifiers of the source text have gone: in tokens,
trees, symbols and errors. The node in which a counting loop keeps its assignment sign is a name as
well, but not one that the program chose, and stays as it is. What is read off a tree, but for the
names, is the same in the renamed tree.
-/

namespace PLang

variable (ρ : String → String)

/-- A token with its name renamed, if it is an identifier. -/
def Token.rename (t : Token) : Token :=
  if t.kind = .identifier then { t with value := ρ t.value } else t

def ReferenceNode.rename (r : ReferenceNode) : ReferenceNode := { r with name := ρ r.name }

def CallNode.rename (c : CallNode) : CallNode := { c with name := ρ c.name }

def FunctionNode.rename (f : FunctionNode) : FunctionNode := { f with name := ρ f.name }

/-- What a node holds, with its name renamed. -/
def NodeKind.rename : NodeKind → NodeKind
  | .program p => .program { p with name := ρ p.name }
  | .reference r => .reference (r.rename ρ)
  | .call c => .call (c.rename ρ)
  | .forLoop f => .forLoop { f with loopVariable := ρ f.loopVariable }
  | .function f => .function (f.rename ρ)
  | .name text => .name (ρ text)
  | kind => kind

/-- A node with its name renamed. -/
def Node.rename (n : Node) : Node := { n with kind := n.kind.rename ρ }

/-- A node that keeps the text of a counting loop's assignment sign. -/
def Node.keepsSign (n : Node) (id : NodeId) : Bool :=
  match n.kind with
  | .forLoop f => f.assignNode == id
  | _ => false

namespace Store

/-- Whether a node is that of a counting loop's assignment sign. -/
def isSign (s : Store) (id : NodeId) : Bool := s.nodes.any fun n => n.keepsSign id

/-- A store with all names renamed but those in some nodes. -/
def renameBut (kept : NodeId → Bool) (s : Store) : Store :=
  ⟨s.nodes.mapIdx fun id n => if kept id then n else n.rename ρ⟩

/-- A store with all names renamed that stand for something. -/
def rename (s : Store) : Store := s.renameBut ρ s.isSign

end Store

/-- A symbol with its name renamed. -/
def Symbol.rename (symbol : Symbol) : Symbol := { symbol with name := ρ symbol.name }

/-- A symbol table with all names renamed. -/
def SymbolTable.rename (t : SymbolTable) : SymbolTable :=
  { t with entries := t.entries.map (Symbol.rename ρ) }

/-- What is wrong with a tree, with the names in it renamed. -/
def Cause.rename : Cause → Cause
  | redeclared name => redeclared (ρ name)
  | nonPositiveDimension name => nonPositiveDimension (ρ name)
  | undeclared name => undeclared (ρ name)
  | notVariable name => notVariable (ρ name)
  | notFunction name => notFunction (ρ name)
  | overSubscript name => overSubscript (ρ name)
  | assignToConstant name => assignToConstant (ρ name)
  | returnFromProcedure function => returnFromProcedure (ρ function)
  | missingReturnValue function expected => missingReturnValue (ρ function) expected
  | argumentCount function => argumentCount (ρ function)
  | cause => cause

/-- An error found in a tree, with the names in it renamed. -/
def Error.rename (e : Error) : Error := { e with cause := e.cause.rename ρ }

variable {ρ}

/-! ### Tokens -/

namespace Token

variable (t : Token)

@[simp]
theorem kind_rename : (t.rename ρ).kind = t.kind := by
  unfold rename
  split <;> rfl

@[simp]
theorem span_rename : (t.rename ρ).span = t.span := by
  unfold rename
  split <;> rfl

@[simp]
theorem location_rename : (t.rename ρ).location = t.location :=
  congrArg Span.start (span_rename t)

variable {t}

theorem value_rename (h : t.kind = .identifier) : (t.rename ρ).value = ρ t.value := by
  rw [rename, if_pos h]

theorem rename_of_ne (h : t.kind ≠ .identifier) : t.rename ρ = t := by
  rw [rename, if_neg h]

end Token

/-! ### Stores -/

namespace Store

variable {kept : NodeId → Bool} {s : Store}

variable {id : NodeId}

theorem isSign_iff :
    s.isSign id = true ↔ ∃ loop f, s.kind? loop = some (.forLoop f) ∧ f.assignNode = id := by
  rw [isSign, Array.any_eq_true]
  constructor
  · rintro ⟨loop, hlt, hsign⟩
    have hkind : s.kind? loop = some s.nodes[loop].kind := by simp [kind?, node?, hlt]
    unfold Node.keepsSign at hsign
    split at hsign
    next f hf => exact ⟨loop, f, by rw [hkind, hf], by simpa using hsign⟩
    next => cases hsign
  · rintro ⟨loop, f, hkind, rfl⟩
    obtain ⟨n, hn, hf⟩ := Option.map_eq_some_iff.1 hkind
    obtain ⟨hlt, hget⟩ := Array.getElem?_eq_some_iff.1 hn
    exact ⟨loop, hlt, by rw [hget, Node.keepsSign, hf]; simp⟩

theorem node?_renameBut (id : NodeId) :
    (s.renameBut ρ kept).node? id =
      (s.node? id).map fun n => if kept id then n else n.rename ρ := by
  simp [node?, renameBut]

@[simp]
theorem size_renameBut : (s.renameBut ρ kept).size = s.size := by
  simp [size, renameBut]

theorem kind?_renameBut (id : NodeId) :
    (s.renameBut ρ kept).kind? id =
      (s.kind? id).map fun k => if kept id then k else k.rename ρ := by
  rw [kind?, node?_renameBut, kind?]
  cases s.node? id with
  | none => rfl
  | some n => cases kept id <;> rfl

@[simp]
theorem next?_renameBut : (s.renameBut ρ kept).next? = s.next? := by
  funext id
  rw [next?, node?_renameBut, next?]
  cases s.node? id with
  | none => rfl
  | some n => cases kept id <;> rfl

@[simp]
theorem location_renameBut : (s.renameBut ρ kept).location = s.location := by
  funext id
  rw [location, node?_renameBut, location]
  cases s.node? id with
  | none => rfl
  | some n => cases kept id <;> rfl

@[simp]
theorem siblings_renameBut : (s.renameBut ρ kept).siblings = s.siblings :=
  funext fun _ => siblings_eq_of_next? size_renameBut fun _ _ => by rw [next?_renameBut]

/-- A view of a node that is kept or renamed, and that a renaming changes by `φ`. -/
theorem view_renameBut {β : Type} {g : Store → NodeId → β} {f : Option NodeKind → β} {φ : β → β}
    (hg : ∀ t id o, t.kind? id = o → g t id = f o) (hnone : f none = φ (f none))
    (hf : ∀ k, f (some (k.rename ρ)) = φ (f (some k)))
    (hkept : kept id = true → φ (g s id) = g s id) :
    g (s.renameBut ρ kept) id = φ (g s id) := by
  have hkind : (s.renameBut ρ kept).kind? id = _ := kind?_renameBut id
  rw [hg _ id _ hkind]
  cases hid : kept id with
  | true =>
    rw [hkept hid, hg s id _ rfl]
    cases s.kind? id <;> rfl
  | false =>
    rw [hg s id _ rfl]
    cases s.kind? id with
    | none => exact hnone
    | some k => exact hf k

@[simp]
theorem number?_renameBut : (s.renameBut ρ kept).number? = s.number? :=
  funext fun _ => view_renameBut (φ := id) (fun _ _ _ ho => by rw [number?, ho]) rfl
    (fun k => by cases k <;> rfl) fun _ => rfl

@[simp]
theorem type?_renameBut : (s.renameBut ρ kept).type? = s.type? :=
  funext fun _ => view_renameBut (φ := id) (fun _ _ _ ho => by rw [type?, ho]) rfl
    (fun k => by cases k <;> rfl) fun _ => rfl

@[simp]
theorem literal?_renameBut : (s.renameBut ρ kept).literal? = s.literal? :=
  funext fun _ => view_renameBut (φ := id) (fun _ _ _ ho => by rw [literal?, ho]) rfl
    (fun k => by cases k <;> rfl) fun _ => rfl

@[simp]
theorem declaration?_renameBut : (s.renameBut ρ kept).declaration? = s.declaration? :=
  funext fun _ => view_renameBut (φ := id) (fun _ _ _ ho => by rw [declaration?, ho]) rfl
    (fun k => by cases k <;> rfl) fun _ => rfl

@[simp]
theorem expression?_renameBut : (s.renameBut ρ kept).expression? = s.expression? :=
  funext fun _ => view_renameBut (φ := id) (fun _ _ _ ho => by rw [expression?, ho]) rfl
    (fun k => by cases k <;> rfl) fun _ => rfl

@[simp]
theorem resultType?_renameBut : (s.renameBut ρ kept).resultType? = s.resultType? := by
  funext id
  simp [resultType?]

@[simp]
theorem dimensions_renameBut : (s.renameBut ρ kept).dimensions = s.dimensions := by
  funext id
  simp [dimensions, numbers]

theorem modify_renameBut {f : Node → Node}
    (hf : ∀ n, f (n.rename ρ) = (f n).rename ρ) :
    (s.renameBut ρ kept).modify id f = (s.modify id f).renameBut ρ kept := by
  have hnode : ∀ other, ((s.renameBut ρ kept).modify id f).node? other =
      ((s.modify id f).renameBut ρ kept).node? other := by
    intro other
    rw [node?_modify, node?_renameBut, node?_renameBut, node?_modify]
    split
    · cases s.node? other with
      | none => rfl
      | some n =>
        cases kept other with
        | true => rfl
        | false => exact congrArg some (hf n)
    · rfl
  exact congrArg Store.mk (Array.ext_getElem? hnode)

@[simp]
theorem append_renameBut (head node : NodeId) :
    (s.renameBut ρ kept).append head node = (s.append head node).renameBut ρ kept := by
  rw [append, siblings_renameBut]
  exact modify_renameBut fun _ => rfl

end Store

/-! ### Symbols -/

namespace SymbolTable

variable (t : SymbolTable)

theorem rename_empty (shown : Bool) :
    (empty.withShowing shown).rename ρ = empty.withShowing shown := by
  simp [rename, withShowing, empty]

theorem symbol?_rename (id : SymbolId) :
    (t.rename ρ).symbol? id = (t.symbol? id).map (Symbol.rename ρ) := by
  simp [symbol?, rename]

theorem insert_rename (name : String) (kind : SymbolKind) (scalar : Option ScalarType)
    (typeText detail : String) (node : NodeId) :
    (t.rename ρ).insert (ρ name) kind scalar typeText detail node =
      (t.insert name kind scalar typeText detail node).rename ρ := by
  simp [insert, rename, Symbol.rename, level?, nextId]

/-- A renaming that keeps names apart keeps what they stand for. -/
theorem lookup_rename (hρ : Function.Injective ρ) (name : String) :
    (t.rename ρ).lookup (ρ name) = (t.lookup name).map (Symbol.rename ρ) := by
  have hname : (t.rename ρ).hasName (ρ name) = t.hasName name := by
    funext id
    rw [hasName, symbol?_rename, hasName]
    cases t.symbol? id with
    | none => rfl
    | some symbol =>
      rw [Option.map_some, Option.any_some, Option.any_some, Bool.eq_iff_iff, beq_iff_eq,
        beq_iff_eq]
      exact hρ.eq_iff
  have hid : (t.rename ρ).lookupId (ρ name) = t.lookupId name :=
    congrArg (t.live.find? ·) hname
  rw [lookup, hid, lookup]
  cases t.lookupId name with
  | none => rfl
  | some id => exact t.symbol?_rename id

end SymbolTable

end PLang
