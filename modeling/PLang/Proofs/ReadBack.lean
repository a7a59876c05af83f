import PLang.Proofs.Layout

/-!
# Reading a tree back

`Store.readProgram` follows the slots of the nodes and the links between them from a root, and gives
the program that it finds. Where a store holds the tree of a program, this is the program.
-/

namespace PLang

open Syntax BinaryOperator Store

/-! ### Following slots and links -/

namespace Syntax

/-- The unary operator that an expression node holds. -/
def UnaryOperator.ofOperator? : Operator → Option UnaryOperator
  | .negate => some .negate
  | .not => some .not
  | _ => none

/-- The binary operator that an expression node holds. -/
def BinaryOperator.ofOperator? : Operator → Option BinaryOperator
  | .or => some .or
  | .and => some .and
  | .less => some .less
  | .lessEqual => some .lessEqual
  | .equal => some .equal
  | .greaterEqual => some .greaterEqual
  | .greater => some .greater
  | .notEqual => some .notEqual
  | .add => some .add
  | .subtract => some .subtract
  | .multiply => some .multiply
  | .divide => some .divide
  | .modulo => some .modulo
  | _ => none

end Syntax

namespace Store

variable {α : Type} (s : Store)

/-- The members of a list. -/
def readList (read : NodeId → Option α) (head : Option NodeId) : Option (List α) :=
  (s.siblings head).mapM read

/-- What an optional slot holds. -/
def readSlot (read : NodeId → Option α) : Option NodeId → Option (Option α)
  | none => some none
  | some id => (read id).map some

/-- The names of a list that is not empty. -/
def readNames (first : NodeId) : Option Names :=
  (s.readList s.name? (some first)).bind fun names =>
    match names with
    | [] => none
    | name :: others => some ⟨name, others⟩

/-- A type with its dimensions. -/
def readType (id : NodeId) : Option DataType := do
  let node ← s.type? id
  let dimensions ← s.readList s.number? node.dimensions
  return ⟨node.scalar, dimensions⟩

/-- The value of a literal. -/
def readLiteral (id : NodeId) : Option LiteralValue := (s.literal? id).map LiteralNode.value

/-- A declaration of variables or constants. -/
def readDeclaration (id : NodeId) : Option Declaration := do
  let node ← s.declaration? id
  let names ← s.readNames node.names
  match node.kind, node.literal with
  | .var, none => (s.readType node.type).map (.vars names)
  | .constant, some literal => (s.readLiteral literal).map (.constants names)
  | _, _ => none

/-- A declaration of parameters. -/
def readParameter (id : NodeId) : Option Parameter := do
  let node ← s.declaration? id
  let names ← s.readNames node.names
  match node.kind with
  | .parameter => (s.readType node.type).map (Parameter.mk names)
  | _ => none

/-- A variable with its subscripts. -/
def readReference (read : NodeId → Option Expr) (id : NodeId) : Option (String × List Expr) := do
  let node ← s.reference? id
  let indices ← s.readList read node.indices
  return (node.name, indices)

/-- A call with its arguments. -/
def readCall (read : NodeId → Option Expr) (id : NodeId) : Option (String × List Expr) := do
  let node ← s.call? id
  let arguments ← s.readList read node.arguments
  return (node.name, arguments)

/-- The expression of a node, if its parts can be read. -/
def readOperator (read : NodeId → Option Expr) (node : ExpressionNode) : Option Expr :=
  match node.operator, node.left, node.right with
  | .constant, some part, none => (s.readLiteral part).map .literal
  | .reference, some part, none => (s.readReference read part).map fun r => .reference r.1 r.2
  | .call, some part, none => (s.readCall read part).map fun c => .call c.1 c.2
  | operator, none, some part => do
    let o ← UnaryOperator.ofOperator? operator
    let e ← read part
    return .unary o e
  | operator, some left, some right => do
    let o ← ofOperator? operator
    let e1 ← read left
    let e2 ← read right
    return .binary o e1 e2
  | _, _, _ => none

/-- An expression that is at most so many levels deep. -/
def readExprUpTo : Nat → NodeId → Option Expr
  | 0, _ => none
  | n + 1, id => (s.expression? id).bind (s.readOperator (readExprUpTo n))

/-- An expression. It has no more levels than there are nodes. -/
def readExpr : NodeId → Option Expr := s.readExprUpTo s.size

/-- A block, if its statements can be read. -/
def readBlock (read : NodeId → Option Statement) (id : NodeId) : Option Block :=
  match s.kind? id with
  | some (.compound node) => do
    let declarations ← s.readList s.readDeclaration node.declarations
    let statements ← s.readList read node.statements
    return .mk declarations statements
  | _ => none

/-- The statement of a node, if the statements in it can be read. -/
def readKind (read : NodeId → Option Statement) (id : NodeId) : Option Statement :=
  match s.kind? id with
  | some (.compound _) => (s.readBlock read id).map .block
  | some (.assign target value) => do
    let r ← s.readReference s.readExpr target
    let e ← s.readExpr value
    return .assign r.1 r.2 e
  | some (.print value) => (s.readExpr value).map .print
  | some (.read target) => (s.readReference s.readExpr target).map fun r => .read r.1 r.2
  | some (.condition node) => do
    let guard ← s.readExpr node.guard
    let thenBody ← s.readBlock read node.thenBody
    let elseBody ← readSlot (s.readBlock read) node.elseBody
    return .condition guard thenBody elseBody
  | some (.whileLoop guard body) => do
    let guard ← s.readExpr guard
    let body ← s.readBlock read body
    return .whileLoop guard body
  | some (.forLoop node) => (s.readBlock read node.body).map
      (.forLoop node.loopVariable node.lower node.upper)
  | some (.returnValue value) => (readSlot s.readExpr value).map .returnValue
  | some (.call _) => (s.readCall s.readExpr id).map fun c => .call c.1 c.2
  | _ => none

/-- A statement that is at most so many levels deep. -/
def readStatementUpTo : Nat → NodeId → Option Statement
  | 0, _ => none
  | n + 1, id => s.readKind (readStatementUpTo n) id

/-- A statement. It has no more levels than there are nodes. -/
def readStatement : NodeId → Option Statement := s.readStatementUpTo s.size

/-- A function. -/
def readFunction (id : NodeId) : Option Function := do
  let node ← s.function? id
  let parameters ← s.readList s.readParameter node.parameters
  let body ← readSlot (s.readBlock s.readStatement) node.body
  return ⟨node.name, parameters, node.result, body⟩

/-- A program. -/
def readProgram (id : NodeId) : Option Program := do
  let node ← s.program? id
  let declarations ← s.readList s.readDeclaration node.declarations
  let functions ← s.readList s.readFunction node.functions
  let body ← s.readBlock s.readStatement node.body
  return ⟨node.name, declarations, functions, body⟩

end Store

/-! ### What a layout reads back as -/

section

variable {α : Type} {s : Store} {lo hi root : Nat} {head : Option NodeId}

variable {read : NodeId → Option α}

theorem mapM_eq_some {ids : List NodeId} {as : List α}
    (h : List.Forall₂ (fun id a => read id = some a) ids as) : ids.mapM read = some as := by
  induction h with
  | nil => rfl
  | cons h _ ih => simp [h, ih]

variable {At : Nat → NodeId → α → Prop}

/-- A list is read back, if its members are. -/
theorem ListAt.readList {as : List α}
    (h : ListAt s At lo hi head as) (le : ∀ a ∈ as, ∀ lo root, At lo root a → lo ≤ root)
    (hhi : hi ≤ s.size) (elem : ∀ a ∈ as, ∀ lo' id, id < hi → At lo' id a → read id = some a) :
    s.readList read head = some as := by
  have hread : ListAt s (fun lo id a => lo ≤ id ∧ read id = some a) lo hi head as :=
    h.transfer le (fun _ _ _ => rfl) fun a ha lo' id _ hid hAt =>
      ⟨le a ha lo' id hAt, elem a ha lo' id hid hAt⟩
  apply mapM_eq_some
  refine (hread.siblings_forall₂ (fun _ _ _ _ h => h.1) hhi).imp ?_
  rintro id a ⟨_, _, _, _, hid⟩
  exact hid

/-- An optional part is read back, if the part is. -/
theorem ListAt.readSlot {a : Option α}
    (h : ListAt s At lo hi head a.toList)
    (elem : ∀ x ∈ a, ∀ lo' id, id < hi → At lo' id x → read id = some x) :
    readSlot read head = some a := by
  cases a with
  | none =>
    cases h
    rfl
  | some x =>
    cases h with
    | cons hx _ htail =>
      cases htail
      rw [readSlot, elem x rfl _ _ (Nat.lt_succ_self _) hx]
      rfl

theorem ListAt.readNames {mid : Nat} {first : NodeId} {names : Names}
    (h : ListAt s (NameAt s) lo mid (some first) names.toList) (hmid : mid ≤ s.size) :
    s.readNames first = some names := by
  have hlist : s.readList s.name? (some first) = some names.toList := by
    refine h.readList nameAt_local.le_of_mem hmid fun name _ lo' id _ hname => ?_
    rw [name?, hname.2]
  rw [Store.readNames, hlist]
  rfl

theorem TypeAt.readType {t : DataType} (h : TypeAt s lo root t) (hroot : root < s.size) :
    s.readType root = some t := by
  obtain ⟨head, hdimensions, hkind⟩ := h
  have hlist : s.readList s.number? head = some t.dimensions := by
    refine hdimensions.readList numberAt_local.le_of_mem (Nat.le_of_lt hroot)
      fun n _ lo' id _ hn => ?_
    rw [number?, hn.2]
  simp [Store.readType, Store.type?, hkind, hlist]

theorem DeclarationAt.readDeclaration {d : Declaration} (h : DeclarationAt s lo root d)
    (hroot : root < s.size) : s.readDeclaration root = some d := by
  cases d with
  | vars names t =>
    obtain ⟨first, mid, type, hnames, htype, _, rfl, hkind⟩ := h
    have hmid := typeAt_local.le htype
    have hread := hnames.readNames (by omega)
    have hread' := htype.readType (by omega)
    simp [readDeclaration, declaration?, hkind, hread, hread']
  | constants names value =>
    obtain ⟨first, literal, hnames, hliteral, _, _, _, rfl, hkind⟩ := h
    have hread := hnames.readNames (by omega)
    simp [readDeclaration, declaration?, readLiteral, literal?, hkind, hread,
      hliteral]

theorem ParameterAt.readParameter {p : Parameter} (h : ParameterAt s lo root p)
    (hroot : root < s.size) : s.readParameter root = some p := by
  obtain ⟨first, mid, type, hnames, htype, _, rfl, hkind⟩ := h
  have hmid := typeAt_local.le htype
  have hread := hnames.readNames (by omega)
  have hread' := htype.readType (by omega)
  simp [readParameter, declaration?, hkind, hread, hread']

/-! ### Expressions and statements -/

/-- The parts of an expression have smaller numbers, so its number bounds its levels. -/
theorem ExprAt.readExprUpTo {e : Expr} {n : Nat} (h : ExprAt s lo root e) (hroot : root < s.size)
    (hn : root < n) : s.readExprUpTo n root = some e := by
  induction e generalizing lo root n with
  | literal value =>
    obtain ⟨n, rfl⟩ : ∃ m, n = m + 1 := ⟨n - 1, by omega⟩
    cases h with
    | literal hliteral _ hkind =>
      simp [readExprUpTo, expression?, readOperator, readLiteral,
        literal?, hkind, hliteral]
  | reference name es ih =>
    obtain ⟨n, rfl⟩ : ∃ m, n = m + 1 := ⟨n - 1, by omega⟩
    cases h with
    | @reference _ part head _ _ hes hpart _ hkind =>
      have hlist : s.readList (s.readExprUpTo n) head = some es :=
        hes.readList exprAt_local.le_of_mem (by omega)
          fun e he lo' id hid hAt => ih e he hAt (by omega) (by omega)
      simp [readExprUpTo, expression?, readOperator, readReference,
        reference?, hkind, hpart, hlist]
  | call name es ih =>
    obtain ⟨n, rfl⟩ : ∃ m, n = m + 1 := ⟨n - 1, by omega⟩
    cases h with
    | @call _ part head _ _ hes hpart _ hkind =>
      have hlist : s.readList (s.readExprUpTo n) head = some es :=
        hes.readList exprAt_local.le_of_mem (by omega)
          fun e he lo' id hid hAt => ih e he hAt (by omega) (by omega)
      simp [readExprUpTo, expression?, readOperator, readCall,
        call?, hkind, hpart, hlist]
  | unary o e ih =>
    obtain ⟨n, rfl⟩ : ∃ m, n = m + 1 := ⟨n - 1, by omega⟩
    cases h with
    | @unary _ part _ _ he _ hkind =>
      have hread : s.readExprUpTo n part = some e := ih he (by omega) (by omega)
      cases o <;> simp [readExprUpTo, expression?, readOperator, hkind, hread,
        UnaryOperator.operator, UnaryOperator.ofOperator?]
  | binary o e1 e2 ih1 ih2 =>
    obtain ⟨n, rfl⟩ : ∃ m, n = m + 1 := ⟨n - 1, by omega⟩
    cases h with
    | @binary _ left right _ _ _ he1 _ he2 _ hkind =>
      have hle := exprAt_local.le he2
      have hleft : s.readExprUpTo n left = some e1 := ih1 he1 (by omega) (by omega)
      have hright : s.readExprUpTo n right = some e2 := ih2 he2 (by omega) (by omega)
      cases o <;> simp [readExprUpTo, expression?, readOperator, hkind, hleft,
        hright, operator, ofOperator?]

theorem ExprAt.readExpr {e : Expr} (h : ExprAt s lo root e) (hroot : root < s.size) :
    s.readExpr root = some e := h.readExprUpTo hroot hroot

theorem ReferenceAt.readReference {r : String × List Expr} (h : ReferenceAt s lo root r)
    (hroot : root < s.size) : s.readReference s.readExpr root = some r := by
  obtain ⟨head, hes, hkind⟩ := h
  have hlist : s.readList s.readExpr head = some r.2 :=
    hes.readList exprAt_local.le_of_mem (Nat.le_of_lt hroot)
      fun e _ lo' id hid hAt => hAt.readExpr (by omega)
  simp [Store.readReference, Store.reference?, hkind, hlist]

theorem CallAt.readCall {c : String × List Expr} (h : CallAt s lo root c)
    (hroot : root < s.size) : s.readCall s.readExpr root = some c := by
  obtain ⟨head, hes, hkind⟩ := h
  have hlist : s.readList s.readExpr head = some c.2 :=
    hes.readList exprAt_local.le_of_mem (Nat.le_of_lt hroot)
      fun e _ lo' id hid hAt => hAt.readExpr (by omega)
  simp [Store.readCall, Store.call?, hkind, hlist]

theorem BlockAt.readBlock {read : NodeId → Option Statement} {ds : List Declaration}
    {ss : List Statement} (h : BlockAt s lo root (.mk ds ss)) (hroot : root < s.size)
    (elem : ∀ st ∈ ss, ∀ lo' id, id < root → StatementAt s lo' id st → read id = some st) :
    s.readBlock read root = some (.mk ds ss) := by
  cases h with
  | @mk _ mid _ declarations statements _ _ hds hss hkind =>
    have hle := hss.le statementAt_local.le_of_mem
    have hdeclarations : s.readList s.readDeclaration declarations = some ds :=
      hds.readList declarationAt_local.le_of_mem (by omega)
        fun d _ lo' id hid hAt => hAt.readDeclaration (by omega)
    have hstatements : s.readList read statements = some ss :=
      hss.readList statementAt_local.le_of_mem (by omega) elem
    simp [Store.readBlock, hkind, hdeclarations, hstatements]

/-- The parts of a statement have smaller numbers, so its number bounds its levels. -/
theorem readStatementUpTo_and_readBlock :
    (∀ st (lo root n : Nat), StatementAt s lo root st → root < s.size → root < n →
      s.readStatementUpTo n root = some st) ∧
    ∀ b (lo root n : Nat), BlockAt s lo root b → root < s.size → root ≤ n →
      s.readBlock (s.readStatementUpTo n) root = some b := by
  have level : ∀ {st : Statement} {root n : Nat}, root < n →
      (∀ m, root ≤ m → s.readKind (s.readStatementUpTo m) root = some st) →
      s.readStatementUpTo n root = some st := by
    intro st root n hn hkind
    obtain ⟨n, rfl⟩ : ∃ m, n = m + 1 := ⟨n - 1, by omega⟩
    exact hkind n (by omega)
  apply Statement.induction
  case ofBlock =>
    intro b hb lo root n h hroot hn
    refine level hn fun m hm => ?_
    cases h with
    | block h =>
      have hread := hb lo root m h hroot hm
      cases h with
      | mk hds hss hkind => simp [readKind, hkind, hread]
  case assign =>
    intro name es e lo root n h hroot hn
    refine level hn fun m hm => ?_
    cases h with
    | assign htarget _ hvalue _ hkind =>
      have hle := exprAt_local.le hvalue
      have hread := htarget.readReference (by omega)
      have hread' := hvalue.readExpr (by omega)
      simp [readKind, hkind, hread, hread']
  case print =>
    intro e lo root n h hroot hn
    refine level hn fun m hm => ?_
    cases h with
    | print hvalue _ hkind =>
      have hread := hvalue.readExpr (by omega)
      simp [readKind, hkind, hread]
  case read =>
    intro name es lo root n h hroot hn
    refine level hn fun m hm => ?_
    cases h with
    | read htarget _ hkind =>
      have hread := htarget.readReference (by omega)
      simp [readKind, hkind, hread]
  case condition =>
    intro e b b' hb hb' lo root n h hroot hn
    refine level hn fun m hm => ?_
    cases h with
    | @condition _ guard thenBody _ elseBody _ _ _ hguard _ hthen _ helse hkind =>
      have hle := blockAt_local.le hthen
      have hle' := helse.le blockAt_local.le_of_mem
      have hread := hguard.readExpr (by omega)
      have hread' := hb _ _ m hthen (by omega) (by omega)
      have hslot : readSlot (s.readBlock (s.readStatementUpTo m)) elseBody = some b' :=
        helse.readSlot fun x hx lo' id hid hAt => hb' x hx lo' id m hAt (by omega) (by omega)
      simp [readKind, hkind, hread, hread', hslot]
  case whileLoop =>
    intro e b hb lo root n h hroot hn
    refine level hn fun m hm => ?_
    cases h with
    | whileLoop hguard _ hbody _ hkind =>
      have hle := blockAt_local.le hbody
      have hread := hguard.readExpr (by omega)
      have hread' := hb _ _ m hbody (by omega) (by omega)
      simp [readKind, hkind, hread, hread']
  case forLoop =>
    intro x lower upper b hb lo root n h hroot hn
    refine level hn fun m hm => ?_
    cases h with
    | forLoop hbody _ _ hkind =>
      have hread := hb _ _ m hbody (by omega) (by omega)
      simp [readKind, hkind, hread]
  case returnValue =>
    intro e lo root n h hroot hn
    refine level hn fun m hm => ?_
    cases h with
    | @returnValue _ _ value _ hvalue hkind =>
      have hslot : readSlot s.readExpr value = some e :=
        hvalue.readSlot fun x _ lo' id hid hAt => hAt.readExpr (by omega)
      simp [readKind, hkind, hslot]
  case call =>
    intro name es lo root n h hroot hn
    refine level hn fun m hm => ?_
    cases h with
    | call h =>
      have hread := h.readCall hroot
      obtain ⟨head, _, hkind⟩ := h
      simp [readKind, hkind, hread]
  case mk =>
    intro ds ss hss lo root n h hroot hn
    exact h.readBlock hroot fun st hst lo' id hid hAt =>
      hss st hst lo' id n hAt (by omega) (by omega)

theorem BlockAt.readBody {b : Block} (h : BlockAt s lo root b) (hroot : root < s.size) :
    s.readBlock s.readStatement root = some b :=
  readStatementUpTo_and_readBlock.2 b lo root s.size h hroot (Nat.le_of_lt hroot)

/-! ### Functions and programs -/

theorem RestAt.readSlot {type : Nat} {body : Option NodeId} {result : ScalarType} {b : Option Block}
    (h : RestAt s lo hi type body result b) (hhi : hi ≤ s.size) :
    readSlot (s.readBlock s.readStatement) body = some b := by
  cases h with
  | typed _ hb => exact hb.readSlot fun x _ lo' id hid hAt => hAt.readBody (by omega)
  | untyped hb => exact hb.readSlot fun x _ lo' id hid hAt => hAt.readBody (by omega)

theorem FunctionAt.readFunction {f : Function} (h : FunctionAt s lo root f)
    (hroot : root < s.size) : s.readFunction root = some f := by
  obtain ⟨mid, last, type, parameters, body, types, hparameters, hrest, _, _, htypes, hkind⟩ := h
  have hle : last ≤ root := htypes.le fun _ _ _ _ h => Nat.le_of_eq h.1.symm
  have hmid : mid ≤ last := Nat.le_of_lt (Nat.lt_of_le_of_lt (hrest.kept s).1.1 (hrest.kept s).1.2)
  have hlist : s.readList s.readParameter parameters = some f.parameters :=
    hparameters.readList parameterAt_local.le_of_mem (by omega)
      fun p _ lo' id hid hAt => hAt.readParameter (by omega)
  have hslot : readSlot (s.readBlock s.readStatement) body = some f.body :=
    hrest.readSlot (by omega)
  simp [Store.readFunction, Store.function?, hkind, hlist, hslot]

/-- A program is read back from its root. -/
theorem ProgramAt.readProgram {P : Program} (h : ProgramAt s lo root P) (hroot : root < s.size) :
    s.readProgram root = some P := by
  obtain ⟨mid, last, body, declarations, functions, hds, hfs, hb, _, rfl, hkind⟩ := h
  have hle := hfs.le functionAt_local.le_of_mem
  have hle' := blockAt_local.le hb
  have hdeclarations : s.readList s.readDeclaration declarations = some P.declarations :=
    hds.readList declarationAt_local.le_of_mem (by omega)
      fun d _ lo' id hid hAt => hAt.readDeclaration (by omega)
  have hfunctions : s.readList s.readFunction functions = some P.functions :=
    hfs.readList functionAt_local.le_of_mem (by omega)
      fun f _ lo' id hid hAt => hAt.readFunction (by omega)
  have hbody := hb.readBody (by omega)
  simp [readProgram, program?, hkind, hdeclarations, hfunctions, hbody]

end

end PLang
