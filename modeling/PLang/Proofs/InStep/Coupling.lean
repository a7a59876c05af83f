import PLang.Parser.Basic
import PLang.Proofs.InStep.Building

/-!
# What two runs of the parser keep

Two runs are coupled by a relation between their tokens and a relation between their stores. The
rules of the parser build trees by a few builders. A coupling is lawful if these builders, given
tokens that go together, make stores that go together. The rules themselves then need no more than
these laws.
-/

namespace PLang

/-- Two runs that are compared: which tokens of the one go with which of the other, which stores do,
and the nesting limit of each. -/
structure Coupling where
  token : Token → Token → Prop
  store : Store → Store → Prop
  limit : Nat
  limit' : Nat
  le : limit ≤ limit'

/-- Nodes without a name. A counting loop carries the name of its variable. -/
def NodeKind.isNameless : NodeKind → Bool
  | .program _ | .reference _ | .call _ | .function _ | .forLoop _ | .name _ => false
  | _ => true

/-- The nodes that carry a name, as functions of it. -/
inductive NodeKind.Naming : (String → NodeKind) → Prop
  | name : Naming .name
  | reference (indices : Option NodeId) : Naming fun x => .reference ⟨x, indices, none⟩
  | call (arguments : Option NodeId) : Naming fun x => .call ⟨x, arguments, none⟩
  | function (result : ScalarType) (resultType : NodeId) (parameters types : Option NodeId)
      (text : String) (body : Option NodeId) :
    Naming fun x => .function ⟨x, result, resultType, parameters, types, text, body⟩
  | program (declarations functions : Option NodeId) (body : NodeId) :
    Naming fun x => .program ⟨x, declarations, functions, body⟩

/-- A counting loop with its header, which is added after its body. -/
def Build.loopWithHeader (token name assign lower upper : Token) (low high : Int) (body : NodeId) :
    Build NodeId := do
  let variableNode ← Build.name name.location name.value
  let assignNode ← Build.name assign.location assign.value
  let lowerNode ← Build.number lower.location low
  let upperNode ← Build.number upper.location high
  Build.forLoop token.location variableNode assignNode lowerNode upperNode body

variable {t t' : Token}

namespace Coupling

/-- The locations of tokens that go together. -/
inductive Place (C : Coupling) : Location → Location → Prop
  | of {t t' : Token} (h : C.token t t') : Place C t.location t'.location

/-- Tokens of a kind that go together. -/
structure TokenOf (C : Coupling) (kind : TokenKind) (t t' : Token) : Prop where
  token : C.token t t'
  kind : t.kind = kind

theorem TokenOf.place {C : Coupling} {kind : TokenKind} (h : C.TokenOf kind t t') :
    C.Place t.location t'.location :=
  .of h.token

/-- Tokens that go together have the same kind and, but for names, the same text. Stores that go
together look the same to builders and stay together. -/
class Lawful (C : Coupling) : Prop where
  kind_eq {t t' : Token} : C.token t t' → t'.kind = t.kind
  value_eq {t t' : Token} : C.token t t' → t.kind ≠ .identifier → t'.value = t.value
  siblings_eq {s s' : Store} : C.store s s' → s'.siblings = s.siblings
  number?_eq {s s' : Store} : C.store s s' → s'.number? = s.number?
  type?_eq {s s' : Store} : C.store s s' → s'.type? = s.type?
  literal?_eq {s s' : Store} : C.store s s' → s'.literal? = s.literal?
  declaration?_eq {s s' : Store} : C.store s s' → s'.declaration? = s.declaration?
  append {s s' : Store} (head node : NodeId) :
    C.store s s' → C.store (s.append head node) (s'.append head node)
  add {l l' : Location} {kind : NodeKind} : C.Place l l' → kind.isNameless = true →
    Build.InStep C.store (Build.add l kind) (Build.add l' kind)
  /-- A missing return type stands at the start of a line. -/
  addVoid {l l' : Location} : C.Place l l' →
    Build.InStep C.store (Build.scalarType ⟨l.line, 0⟩ .void) (Build.scalarType ⟨l'.line, 0⟩ .void)
  /-- Types of declarations are copied. -/
  duplicate {s s' : Store} {id : NodeId} {d : DeclarationNode} : C.store s s' →
    s.kind? id = some (.declaration d) →
    Build.SameResult C.store (Build.duplicate d.type s) (Build.duplicate d.type s')
  addNamed {t t' : Token} {kind : String → NodeKind} : C.TokenOf .identifier t t' →
    NodeKind.Naming kind →
    Build.InStep C.store (Build.add t.location (kind t.value))
      (Build.add t'.location (kind t'.value))
  addLoop {t t' name name' assign assign' lower lower' upper upper' : Token} : C.token t t' →
    C.TokenOf .identifier name name' → C.TokenOf .assignment assign assign' →
    C.token lower lower' → C.token upper upper' → ∀ (low high : Int) (body : NodeId),
    Build.InStep C.store (Build.loopWithHeader t name assign lower upper low high body)
      (Build.loopWithHeader t' name' assign' lower' upper' low high body)

end Coupling

/-! ### Builders of more than one node -/

namespace Build

variable {s : Store} {id : NodeId} {k : NodeKind}

theorem kind?_duplicate (h : s.kind? id = some k) (type : NodeId) :
    (duplicate type s).2.kind? id = some k := by
  unfold duplicate
  cases s.node? type with
  | none => exact h
  | some node =>
    have hlt := Store.lt_size_of_kind? h
    exact ((added_add node.location node.kind s).same.kind? hlt).trans h

theorem kind?_appendTo (list : Option NodeId) (node : NodeId) :
    (appendTo list node s).2.kind? id = s.kind? id := by
  cases list with
  | none => rfl
  | some head => exact Store.kind?_setNext id

theorem kind?_copies (h : s.kind? id = some k) (type : NodeId) (n : Nat) (list : Option NodeId) :
    (copies type n list s).2.kind? id = some k := by
  induction n generalizing s list with
  | zero => exact h
  | succ n ih => exact ih ((kind?_appendTo _ _).trans (kind?_duplicate h type)) _

/-- The nodes of a counting loop, in order: its header, the declaration of its variable where the
header names it, and the loop. -/
theorem loopWithHeader_eq (token name assign lower upper : Token) (low high : Int) (body : NodeId) :
    loopWithHeader token name assign lower upper low high body = (do
      let variableNode ← Build.name name.location name.value
      let assignNode ← Build.name assign.location assign.value
      let lowerNode ← number lower.location low
      let upperNode ← number upper.location high
      let declared ← Build.name name.location name.value
      let type ← scalarType name.location .integer
      let declaration ← declaration name.location declared type .loopVar
      add token.location (.forLoop ⟨name.value, low, high, variableNode, assignNode, lowerNode,
        upperNode, declaration, body⟩)) := by
  funext s
  obtain ⟨s1, hs1⟩ : ∃ t, t = (Build.name name.location name.value s).2 := ⟨_, rfl⟩
  obtain ⟨s2, hs2⟩ : ∃ t, t = (Build.name assign.location assign.value s1).2 := ⟨_, rfl⟩
  obtain ⟨s3, hs3⟩ : ∃ t, t = (number lower.location low s2).2 := ⟨_, rfl⟩
  obtain ⟨s4, hs4⟩ : ∃ t, t = (number upper.location high s3).2 := ⟨_, rfl⟩
  have a2 : Added s1 _ s2 := hs2 ▸ added_add ..
  have a3 : Added s2 _ s3 := hs3 ▸ added_add ..
  have a4 : Added s3 _ s4 := hs4 ▸ added_add ..
  have hvariable : s4.node? s.size = some ⟨name.location, .name name.value, none⟩ := by
    have hlt : s.size < s1.size := by rw [hs1, Build.name, size_add]; exact Nat.lt_succ_self _
    rw [(a2.same_trans (a3.same_trans a4.same)) s.size hlt, hs1, Build.name, node?_add, if_pos rfl]
  have hlower : s4.number? s2.size = some low := by
    rw [Store.number?, a3.kind_later a4.same]
  have hupper : s4.number? s3.size = some high := by rw [Store.number?, a4.kind]
  have hname : s4.name? s.size = some name.value := by rw [Store.name?, Store.kind?, hvariable]; rfl
  have hplace : s4.location s.size = name.location := by rw [Store.location, hvariable]; rfl
  have hcopy : duplicate s.size s4 = Build.name name.location name.value s4 := by
    rw [duplicate, hvariable]
    rfl
  have hloop : forLoop token.location s.size s1.size s2.size s3.size body s4 = (do
      let type ← scalarType (s4.location s.size) .integer
      let declaration ← declaration (s4.location s.size) (duplicate s.size s4).1 type .loopVar
      add token.location (.forLoop ⟨(s4.name? s.size).getD "", (s4.number? s2.size).getD 0,
        (s4.number? s3.size).getD 0, s.size, s1.size, s2.size, s3.size, declaration, body⟩) :
        Build NodeId) (duplicate s.size s4).2 := rfl
  rw [hname, hlower, hupper, hplace, hcopy] at hloop
  subst hs4 hs3 hs2 hs1
  exact hloop

variable {C : Coupling} [C.Lawful] {l l' : Location} {s' : Store}

open Coupling

theorem appendTo_coupled (list : Option NodeId) (node : NodeId) :
    InStep C.store (appendTo list node) (appendTo list node) := by
  cases list with
  | none => exact .pure node
  | some head => exact fun s s' h => ⟨rfl, Lawful.append head node h⟩

theorem arrayType_coupled (hl : C.Place l l') (dimensions : NodeId) (scalar : ScalarType) :
    InStep C.store (arrayType l dimensions scalar) (arrayType l' dimensions scalar) := by
  apply InStep.bind
  · apply InStep.view
    intro s s' h
    rw [Store.numbers, Store.numbers, Lawful.siblings_eq h, Lawful.number?_eq h]
  · intro sizes
    exact Lawful.add hl rfl

theorem constant_coupled (hl : C.Place l l') (names literal : NodeId) :
    InStep C.store (constant l names literal) (constant l' names literal) := by
  apply InStep.bind
  · apply InStep.view
    intro s s' h
    rw [Lawful.literal?_eq h]
  · intro value
    apply InStep.bind
    · exact Lawful.add hl rfl
    · intro type
      exact Lawful.add hl rfl

theorem copies_coupled {d : DeclarationNode} (h : C.store s s')
    (hd : s.kind? id = some (.declaration d)) (n : Nat) (list : Option NodeId) :
    SameResult C.store (copies d.type n list s) (copies d.type n list s') := by
  induction n generalizing s s' list with
  | zero => exact ⟨rfl, h⟩
  | succ n ih =>
    have hcopy := Lawful.duplicate h hd
    refine SameResult.bind hcopy (SameResult.bind (appendTo_coupled list _ _ _ hcopy.2) ?_)
    refine ih (appendTo_coupled list _ _ _ hcopy.2).2 ?_ _
    exact (kind?_appendTo _ _).trans (kind?_duplicate hd _)

theorem parameterTypes_coupled {parameters : List DeclarationNode} (h : C.store s s')
    (hds : ∀ d ∈ parameters, ∃ id, s.kind? id = some (.declaration d)) (list : Option NodeId) :
    SameResult C.store (parameterTypes parameters list s) (parameterTypes parameters list s') := by
  induction parameters generalizing s s' list with
  | nil => exact ⟨rfl, h⟩
  | cons d parameters ih =>
    obtain ⟨id, hd⟩ := hds d (.head _)
    have hcount : InStep C.store (view fun s => s.listLength (some d.names))
        (view fun s => s.listLength (some d.names)) := by
      apply InStep.view
      intro s s' h
      rw [Store.listLength, Store.listLength, Lawful.siblings_eq h]
    have hcopies := copies_coupled h hd (s.listLength (some d.names)) list
    refine SameResult.bind (hcount s s' h) (SameResult.bind hcopies ?_)
    refine ih hcopies.2 (fun d' hd' => ?_) _
    obtain ⟨id', hkind⟩ := hds d' (.tail _ hd')
    exact ⟨id', kind?_copies hkind _ _ _⟩

theorem typedFunction_coupled (ht : C.TokenOf .identifier t t')
    (parameters body : Option NodeId) (type : NodeId) :
    InStep C.store (function t.location t.value parameters (some type) body)
      (function t'.location t'.value parameters (some type) body) := by
  apply (InStep.pure type).bind
  intro type
  apply InStep.bind
  · apply InStep.view
    intro s s' h
    rw [Lawful.type?_eq h]
  intro scalar s s' h
  have hdeclared : InStep C.store (view fun s => (s.siblings parameters).filterMap s.declaration?)
      (view fun s => (s.siblings parameters).filterMap s.declaration?) := by
    apply InStep.view
    intro s s' h
    rw [Lawful.siblings_eq h, Lawful.declaration?_eq h]
  have htypes : SameResult C.store
      (parameterTypes ((s.siblings parameters).filterMap s.declaration?) none s)
      (parameterTypes ((s.siblings parameters).filterMap s.declaration?) none s') := by
    refine parameterTypes_coupled h (fun d hd => ?_) none
    obtain ⟨id, -, hid⟩ := List.mem_filterMap.1 hd
    exact ⟨id, Store.declaration?_eq_some.1 hid⟩
  refine SameResult.bind (hdeclared s s' h) (SameResult.bind htypes ?_)
  refine InStep.bind (InStep.view fun s s' h => ?_) (fun texts => ?_) _ _ htypes.2
  · rw [Lawful.siblings_eq h, Lawful.type?_eq h]
  · exact Lawful.addNamed ht (.function ..)

theorem function_coupled (ht : C.TokenOf .identifier t t')
    (parameters result body : Option NodeId) :
    InStep C.store (function t.location t.value parameters result body)
      (function t'.location t'.value parameters result body) := by
  cases result with
  | some type => exact typedFunction_coupled ht parameters body type
  | none =>
    -- the missing return type is added first
    exact (Lawful.addVoid ht.place).bind fun type => typedFunction_coupled ht parameters body type

end Build

end PLang
