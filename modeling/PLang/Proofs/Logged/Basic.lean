import PLang.Proofs.Checking.Outcomes

/-!
# Logged checks

A logged check does what a check does and lists what happens: which nodes are visited, in which
function, what is noted in the tree and what is reported. The log leaves nothing out (`Tells`): the
tree and the reports after the check are those before it, with what the log says. There is a logged
form of every check, and without its log it is that check (`run_visit`).
-/

namespace PLang

variable {α β : Type} {c c1 c2 : Checker}

/-! ### Events -/

/-- What checking writes into a node. -/
inductive Note where
  | result (id : NodeId) (type : Option ScalarType)
  | operator (id : NodeId) (operator : Operator)
  | reference (id : NodeId) (type : Option ScalarType)
  | call (id : NodeId) (type : Option ScalarType)
deriving DecidableEq

def Note.apply (s : Store) : Note → Store
  | result id type => s.setResult id type
  | operator id meant => s.setOperator id meant
  | reference id type => s.setReferenceType id type
  | call id type => s.setCallType id type

/-- What happens in a check. -/
inductive Event where
  /-- The check of a node begins, in the body of a function or outside of all functions. -/
  | visit (id : NodeId) (function : Option NodeId)
  | note (note : Note)
  | report (cause : Cause) (node : NodeId)
deriving DecidableEq

namespace Event

/-- The tree after an event. -/
def write (s : Store) : Event → Store
  | note n => n.apply s
  | _ => s

/-- The error that is reported. -/
def error? (s : Store) : Event → Option Error
  | report cause node => some ⟨cause, s.location node⟩
  | _ => none

end Event

@[simp]
theorem Event.location_write (s : Store) (e : Event) (id : NodeId) :
    (e.write s).location id = s.location id := by
  cases e with
  | note n => cases n <;> exact Store.location_modifyKind ..
  | _ => rfl

theorem location_foldl_write (log : List Event) (s : Store) (id : NodeId) :
    (log.foldl Event.write s).location id = s.location id := by
  induction log generalizing s with
  | nil => rfl
  | cons e log ih => rw [List.foldl_cons, ih, Event.location_write]

/-- From one state to another, a log tells all that has changed in the tree and in the reports. -/
structure Tells (c : Checker) (log : List Event) (c' : Checker) : Prop where
  store : c'.store = log.foldl Event.write c.store
  errors : c'.diagnostics.errors = c.diagnostics.errors ++ log.filterMap (Event.error? c.store)
  function : c'.function = c.function

theorem Tells.refl (c : Checker) : Tells c [] c := ⟨rfl, (List.append_nil _).symm, rfl⟩

theorem Tells.trans {log log' : List Event} (h : Tells c log c1) (h' : Tells c1 log' c2) :
    Tells c (log ++ log') c2 where
  store := by rw [h'.store, h.store, List.foldl_append]
  errors := by
    have hplace : Event.error? c1.store = Event.error? c.store := by
      funext e
      cases e with
      | report cause node => rw [Event.error?, Event.error?, h.store, location_foldl_write]
      | _ => rfl
    rw [h'.errors, h.errors, hplace, List.filterMap_append, List.append_assoc]
  function := h'.function.trans h.function

/-- The state in which a check ends. -/
def Check.reached : EStateM.Result Error Checker α → Checker
  | .ok _ c => c
  | .error _ c => c

/-! ### Logged actions -/

/-- A check with a log that tells all. -/
@[ext]
structure Logged (α : Type) where
  run : Check α
  log : Checker → List Event
  tells : ∀ c, Tells c (log c) (Check.reached (run c))

namespace Logged

/-- The log of what comes after a check. -/
def logAfter (f : α → Logged β) : EStateM.Result Error Checker α → List Event
  | .ok a c => (f a).log c
  | .error _ _ => []

theorem tells_bind (x : Logged α) (f : α → Logged β) (c : Checker) :
    Tells c (x.log c ++ logAfter f (x.run c))
      (Check.reached ((x.run >>= fun a => (f a).run) c)) := by
  have hx := x.tells c
  cases hrun : x.run c with
  | ok a c1 =>
    rw [hrun] at hx
    rw [Check.bind_of_ok hrun]
    exact hx.trans ((f a).tells c1)
  | error e c1 =>
    rw [hrun] at hx
    rw [Check.bind_of_error hrun]
    exact hx.trans (.refl c1)

instance : Monad Logged where
  pure a := ⟨pure a, fun _ => [], fun c => .refl c⟩
  bind x f := ⟨x.run >>= fun a => (f a).run, fun c => x.log c ++ logAfter f (x.run c),
    tells_bind x f⟩

@[simp]
theorem run_pure (a : α) : (pure a : Logged α).run = pure a := rfl

@[simp]
theorem run_bind (x : Logged α) (f : α → Logged β) :
    (x >>= f).run = x.run >>= fun a => (f a).run := rfl

@[simp]
theorem run_ite (p : Prop) [Decidable p] (x y : Logged α) :
    (if p then x else y).run = if p then x.run else y.run := by
  split <;> rfl

theorem bind_pure_eq (x : Logged α) : (x >>= fun a => pure a) = x := by
  refine Logged.ext (by simp) (funext fun c => ?_)
  show _ ++ logAfter _ (x.run c) = _
  cases x.run c <;> exact List.append_nil _

variable {x : Logged α}

theorem tells_of_ok {a : α} (h : x.run c = .ok a c1) : Tells c (x.log c) c1 := by
  have htells := x.tells c
  rwa [h] at htells

theorem log_bind_of_ok {f : α → Logged β} {a : α} (h : x.run c = .ok a c1) :
    (x >>= f).log c = x.log c ++ (f a).log c1 := by
  show _ ++ logAfter f (x.run c) = _
  rw [h]
  rfl

theorem log_bind_of_error {f : α → Logged β} {err : Error}
    (h : x.run c = .error err c1) : (x >>= f).log c = x.log c := by
  show _ ++ logAfter f (x.run c) = _
  rw [h]
  exact List.append_nil _

theorem bind_assoc_eq {γ : Type} (x : Logged α) (f : α → Logged β) (g : β → Logged γ) :
    (x >>= f >>= g) = x >>= fun a => f a >>= g := by
  refine Logged.ext (bind_assoc ..) (funext fun c => ?_)
  cases hrun : x.run c with
  | ok a c1 =>
    have hlog := log_bind_of_ok (f := f) hrun
    have hrest : logAfter g ((x >>= f).run c) = logAfter g ((f a).run c1) :=
      congrArg (logAfter g) (Check.bind_of_ok hrun)
    rw [log_bind_of_ok hrun]
    show (x >>= f).log c ++ logAfter g ((x >>= f).run c) = _ ++ ((f a).log c1 ++ _)
    rw [hlog, hrest, List.append_assoc]
  | error e c1 => rw [log_bind_of_error hrun, log_bind_of_error (Check.bind_of_error hrun),
    log_bind_of_error hrun]

instance : LawfulMonad Logged := .mk' Logged bind_pure_eq (fun _ _ => rfl) bind_assoc_eq

/-- An action that neither writes into the tree nor reports anything. -/
def silent (x : Check α) (h : ∀ c, Tells c [] (Check.reached (x c))) :
    Logged α := ⟨x, fun _ => [], h⟩

def view (f : Checker → α) : Logged α := silent (Check.view f) .refl

def inStore (f : Store → α) : Logged α := view fun c => f c.store

def lookup (name : String) : Logged (Option Symbol) := view fun c => c.symbols.lookup name

def declare (name : String) (kind : SymbolKind) (scalar : Option ScalarType)
    (typeText detail : String) (node : NodeId) : Logged Unit :=
  silent (Check.declare name kind scalar typeText detail node) fun _ =>
    ⟨rfl, (List.append_nil _).symm, rfl⟩

def note (n : Note) : Logged Unit where
  run := Check.write n.apply
  log _ := [.note n]
  tells _ := ⟨rfl, (List.append_nil _).symm, rfl⟩

def report (cause : Cause) (node : NodeId) : Logged Nat where
  run := Check.report cause node
  log _ := [.report cause node]
  tells _ := ⟨rfl, rfl, rfl⟩

/-- Logs that the check of a node begins. -/
def enter (id : NodeId) : Logged Unit where
  run := pure ()
  log c := [.visit id c.function]
  tells _ := ⟨rfl, (List.append_nil _).symm, rfl⟩

def inScope (x : Logged Nat) : Logged Nat where
  run := Check.inScope x.run
  log c := x.log c.pushScope
  tells c := by
    have h := x.tells c.pushScope
    unfold Check.inScope
    cases hrun : x.run c.pushScope <;> rw [hrun] at h <;> exact ⟨h.store, h.errors, h.function⟩

def within (function : NodeId) (x : Logged Nat) : Logged Nat where
  run := Check.within function x.run
  log c := x.log { c with function := some function }
  tells c := by
    have h := x.tells { c with function := some function }
    unfold Check.within
    cases hrun : x.run { c with function := some function } <;> rw [hrun] at h <;>
      exact ⟨h.store, h.errors, rfl⟩

def deeper (x : Logged Nat) : Logged Nat where
  run := Check.deeper x.run
  log c := x.log { c with depth := c.depth + 1 }
  tells c := by
    have h := x.tells { c with depth := c.depth + 1 }
    unfold Check.deeper
    cases hrun : x.run { c with depth := c.depth + 1 } <;> rw [hrun] at h <;>
      exact ⟨h.store, h.errors, h.function⟩

def overstep (id : NodeId) : Logged Nat :=
  silent (Check.overstep id) fun _ => ⟨rfl, (List.append_nil _).symm, rfl⟩

def andThen (first second : Logged Nat) : Logged Nat := do
  let found ← first
  if found = 0 then second else pure found

def listUpTo (visit : NodeId → Logged Nat) (policy : ListPolicy) :
    Nat → Option NodeId → Logged Nat
  | 0, _ => pure 0
  | _ + 1, none => pure 0
  | n + 1, some id => do
    let found ← visit id
    if found > 0 ∧ policy = .stopAtFirst then
      pure found
    else
      let next ← inStore fun s => s.next? id
      let more ← listUpTo visit policy n next
      pure (found + more)

def list (visit : NodeId → Logged Nat) (policy : ListPolicy) (head : Option NodeId) :
    Logged Nat := do
  let size ← inStore Store.size
  listUpTo visit policy ((size + 2) * size) head

/-- One element of a list, and what is found in the ones after it. -/
theorem listUpTo_succ (visit : NodeId → Logged Nat) (policy : ListPolicy) (n : Nat) (id : NodeId) :
    listUpTo visit policy (n + 1) (some id) = (do
      let m ← visit id
      let k ← (if m > 0 ∧ policy = .stopAtFirst then pure 0
        else inStore (fun s => s.next? id) >>= listUpTo visit policy n)
      pure (m + k)) := by
  rw [listUpTo]
  refine congrArg (visit id >>= ·) (funext fun m => ?_)
  split <;> simp

def optional (visit : NodeId → Logged Nat) : Option NodeId → Logged Nat
  | some id => visit id
  | none => pure 0

/-! ### Expressions -/

section

variable (visit : NodeId → Logged Nat)

/-- Notes the type of an operator, or reports its operands. -/
def operatorResult (id : NodeId) (e : ExpressionNode) (meant : Operator) :
    Option ScalarType → Logged Nat
  | some type => do
    note (.result id (some type))
    pure 0
  | none => do
    let cause ← view fun c => c.operandCause meant e.left e.right
    report cause id

def operator (id : NodeId) (e : ExpressionNode) : Logged Nat := do
  let left ← inStore fun s => e.left.bind s.resultType?
  let right ← inStore fun s => e.right.bind s.resultType?
  let meant := e.operator.resolve left right
  if meant ≠ e.operator then
    note (.operator id meant)
  operatorResult id e meant (meant.result? left right)

def resolved (id : NodeId) (e : ExpressionNode) : Logged Nat := do
  if e.operator.isTerminal then
    let type ← inStore (Check.wrappedType e.operator e.left)
    note (.result id type)
    pure 0
  else
    operator id e

def operands (e : ExpressionNode) : Logged Nat := do
  let left ← optional visit e.left
  let right ← optional visit e.right
  pure (left + right)

def expression (id : NodeId) (e : ExpressionNode) : Logged Nat :=
  andThen (operands visit e) (resolved id e)

def index (id : NodeId) : Logged Nat :=
  andThen (visit id) do
    if (← inStore fun s => s.resultType? id) = some .integer then pure 0
    else report .nonIntegerIndex id

def subscripted (id : NodeId) (r : ReferenceNode) (symbol : Symbol) : Logged Nat := do
  let declared ← inStore fun s => (s.dimensions symbol.node).length
  let used ← inStore fun s => s.listLength r.indices
  if declared < used then
    report (.overSubscript r.name) id
  else
    note (.reference id (if used = declared then symbol.scalar else none))
    pure 0

def reference (id : NodeId) (r : ReferenceNode) : Logged Nat := do
  match ← lookup r.name with
  | none => report (.undeclared r.name) id
  | some symbol =>
    if symbol.kind.isVariable then
      andThen (list (index visit) .reportAll r.indices) (subscripted id r symbol)
    else
      report (.notVariable r.name) id

def passed : List (NodeId × NodeId) → Logged Nat
  | [] => pure 0
  | (argument, parameter) :: pairs => do
    match ← inStore fun s => s.type? parameter with
    | none => passed pairs
    | some type =>
      if ← view fun c => c.passes argument type then
        passed pairs
      else
        let name ← view fun c => c.argumentName argument
        report (.incompatibleArgument name type.text) argument

def passing (id : NodeId) (call : CallNode) (symbol : Symbol) : Logged Nat := do
  let arguments ← inStore fun s => s.siblings call.arguments
  let parameters ← inStore fun s =>
    s.siblings ((s.function? symbol.node).bind FunctionNode.parameterTypes)
  if arguments.length = parameters.length then
    passed (arguments.zip parameters)
  else
    report (.argumentCount call.name) id

def call (id : NodeId) (call : CallNode) : Logged Nat := do
  match ← lookup call.name with
  | none => report (.undeclared call.name) id
  | some symbol =>
    if symbol.kind = .function then
      note (.call id symbol.scalar)
      andThen (list visit .stopAtFirst call.arguments) (passing id call symbol)
    else
      report (.notFunction call.name) id

/-! ### Declarations and statements -/

def declareName (d : DeclarationNode) (type : TypeNode) (detail : String) (id : NodeId) :
    Logged Nat := do
  let name ← inStore fun s => (s.name? id).getD ""
  if ← view fun c => Check.clashes c name then
    report (.redeclared name) id
  else
    declare name d.kind (some type.scalar) type.text detail d.type
    pure 0

def positive (d : DeclarationNode) : Logged Nat := do
  if ← inStore fun s => (s.dimensions d.type).any (· ≤ 0) then
    let name ← inStore fun s => (s.name? d.names).getD ""
    report (.nonPositiveDimension name) d.names
  else
    pure 0

def declaration (d : DeclarationNode) : Logged Nat := do
  match ← inStore fun s => s.type? d.type with
  | none => pure 0
  | some type =>
    let detail ← inStore fun s => ((d.literal.bind s.literal?).map LiteralNode.text).getD ""
    let redeclared ← list (declareName d type detail) .reportAll (some d.names)
    let misshapen ← positive d
    pure (redeclared + misshapen)

def program (id : NodeId) (p : ProgramNode) : Logged Nat :=
  inScope do
    declare p.name .program (some .void) "void" "" id
    let declarations ← list visit .reportAll p.declarations
    let functions ← list visit .reportAll p.functions
    let body ← visit p.body
    pure (declarations + functions + body)

def compound (b : CompoundNode) : Logged Nat :=
  inScope do
    let declarations ← list visit .reportAll b.declarations
    let statements ← list visit .reportAll b.statements
    pure (declarations + statements)

def print (value : NodeId) : Logged Nat :=
  andThen (visit value) do
    match ← inStore fun s => s.resultType? value with
    | none => report .printNonScalar value
    | some .void => report .printNonScalar value
    | some _ => pure 0

def assignable (id value : NodeId) (target : ScalarType) : Logged Nat := do
  match ← inStore fun s => s.resultType? value with
  | none => report .arrayAssignment value
  | some type =>
    if type.coercesTo target then pure 0
    else report (.incompatibleAssignment target.text type.text) id

def assigned (id target value : NodeId) : Logged Nat := do
  match ← inStore fun s => s.reference? target with
  | none => pure 0
  | some reference =>
    match reference.result with
    | none => report .arrayAssignment target
    | some type =>
      match (← lookup reference.name).bind fun symbol =>
          Check.protection? reference.name symbol.kind with
      | some cause => report cause target
      | none => andThen (visit value) (assignable id value type)

def assign (id target value : NodeId) : Logged Nat :=
  andThen (visit target) (assigned visit id target value)

def read (target : NodeId) : Logged Nat :=
  andThen (visit target) do
    match ← inStore fun s => s.reference? target with
    | none => pure 0
    | some reference =>
      if reference.result.isNone then
        report .readNonScalar target
      else if (← lookup reference.name).any fun symbol =>
          symbol.kind == .constant || symbol.kind == .loopVar then
        report .readProtected target
      else
        pure 0

def guard (id : NodeId) : Logged Nat :=
  andThen (visit id) do
    if (← inStore fun s => s.resultType? id) = some .boolean then pure 0
    else report .nonBooleanGuard id

def condition (c : ConditionNode) : Logged Nat := do
  let inGuard ← guard visit c.guard
  let inThen ← visit c.thenBody
  let inElse ← optional visit c.elseBody
  pure (inGuard + inThen + inElse)

def whileLoop (guardNode body : NodeId) : Logged Nat := do
  let inGuard ← guard visit guardNode
  let inBody ← visit body
  pure (inGuard + inBody)

def forLoop (id : NodeId) (f : ForNode) : Logged Nat :=
  inScope do
    let bounds ← if f.upper < f.lower then report .decreasingBounds id else pure 0
    let declaration ← visit f.declaration
    let body ← visit f.body
    pure (bounds + declaration + body)

def returnable (value : NodeId) (expected : ScalarType) : Logged Nat := do
  if (← inStore fun s => s.resultType? value).any (·.coercesTo expected) then
    pure 0
  else
    let name ← view fun c => c.typeName value
    report (.incompatibleReturn name expected.text) value

def returnValue (id : NodeId) (value : Option NodeId) : Logged Nat := do
  match ← view fun c => c.function.bind c.store.function? with
  | none => report .returnOutsideFunction id
  | some function =>
    match function.result, value with
    | .void, none => pure 0
    | .void, some _ => report (.returnFromProcedure function.name) id
    | expected, none => report (.missingReturnValue function.name expected.text) id
    | expected, some value => andThen (visit value) (returnable value expected)

def declareFunction (id : NodeId) (f : FunctionNode) : Logged Nat := do
  let redeclared ← view fun c =>
    (c.symbols.lookup f.name).any fun symbol => some symbol.level == c.symbols.level?
  if redeclared then
    report (.redeclared f.name) id
  else
    declare f.name .function (some f.result) f.result.text f.parameterText id
    pure 0

def function (id : NodeId) (f : FunctionNode) : Logged Nat := do
  let header ← declareFunction id f
  match f.body with
  | none => pure header
  | some body =>
    let inside ← within id <| inScope do
      let parameters ← list visit .reportAll f.parameters
      let statements ← list visit .reportAll (some body)
      pure (parameters + statements)
    pure (header + inside)

/-! ### Nodes -/

def kind (id : NodeId) : NodeKind → Logged Nat
  | .program p => program visit id p
  | .declaration d => declaration d
  | .expression e => expression visit id e
  | .compound b => compound visit b
  | .print value => print visit value
  | .reference r => reference visit id r
  | .assign target value => assign visit id target value
  | .read target => read visit target
  | .condition c => condition visit c
  | .whileLoop guardNode body => whileLoop visit guardNode body
  | .returnValue value => returnValue visit id value
  | .forLoop f => forLoop visit id f
  | .call c => call visit id c
  | .function f => function visit id f
  | .literal _ | .type _ | .name _ | .number _ | .epsilon _ _ => pure 0

def node (id : NodeId) : Logged Nat := do
  match ← inStore fun s => s.kind? id with
  | some k => kind visit id k
  | none => pure 0

end

def visitUpTo : Nat → NodeId → Logged Nat
  | 0, id => overstep id
  | n + 1, id => do
    enter id
    deeper (node (visitUpTo n) id)

/-- A logged check of a node, as far as the nesting limit allows. -/
def visit (id : NodeId) : Logged Nat where
  run c := (visitUpTo (c.limit - c.depth) id).run c
  log c := (visitUpTo (c.limit - c.depth) id).log c
  tells c := (visitUpTo (c.limit - c.depth) id).tells c

/-! ### Without the log -/

theorem run_look {g : Checker → α} {f : α → Logged β} {f' : α → Check β}
    (h : ∀ a, (f a).run = f' a) : (view g >>= f).run = Check.view g >>= f' :=
  congrArg (Check.view g >>= ·) (funext h)

section

variable (visit : NodeId → Logged Nat)

/-- A way of checking nodes without its log. -/
abbrev plain : NodeId → Check Nat := fun id => (visit id).run

theorem run_andThen (x y : Logged Nat) : (andThen x y).run = Check.andThen x.run y.run := by
  simp [andThen, Check.andThen]

theorem run_listUpTo (policy : ListPolicy) (n : Nat) (head : Option NodeId) :
    (listUpTo visit policy n head).run = Check.listUpTo (plain visit) policy n head := by
  induction n generalizing head with
  | zero => rfl
  | succ n ih =>
    cases head with
    | none => rfl
    | some id =>
      simp only [listUpTo, Check.listUpTo, run_bind, run_ite, ih]
      rfl

theorem run_list (policy : ListPolicy) (head : Option NodeId) :
    (list visit policy head).run = Check.list (plain visit) policy head := by
  simp only [list, Check.list, run_bind, run_listUpTo]
  rfl

theorem run_optional (head : Option NodeId) :
    (optional visit head).run = Check.optional (plain visit) head := by
  cases head <;> rfl

theorem run_operator (id : NodeId) (e : ExpressionNode) :
    (operator id e).run = Check.operator id e := by
  refine run_look fun left => run_look fun right => ?_
  dsimp only
  cases (e.operator.resolve left right).result? left right <;>
    by_cases hmeant : e.operator.resolve left right = e.operator <;> simp [hmeant] <;> rfl

theorem run_expression (id : NodeId) (e : ExpressionNode) :
    (expression visit id e).run = Check.expression (plain visit) id e := by
  simp only [expression, Check.expression, run_andThen, operands, run_bind, run_optional, resolved,
    Check.resolved, run_ite, run_operator]
  rfl

theorem plain_index : plain (index visit) = Check.index (plain visit) := by
  funext id
  simp only [plain, index, Check.index, run_andThen, run_bind, run_ite]
  rfl

theorem run_reference (id : NodeId) (r : ReferenceNode) :
    (reference visit id r).run = Check.reference (plain visit) id r := by
  refine run_look fun symbol => ?_
  cases symbol with
  | none => rfl
  | some symbol =>
    simp only [run_ite, run_andThen, run_list, plain_index, subscripted, run_bind]
    rfl

theorem run_passed (pairs : List (NodeId × NodeId)) :
    (passed pairs).run = Check.passed pairs := by
  induction pairs with
  | nil => rfl
  | cons pair pairs ih =>
    refine run_look fun type => ?_
    cases type with
    | none => exact ih
    | some type =>
      refine run_look fun passes => ?_
      cases passes with
      | true => exact ih
      | false => rfl

theorem run_call (id : NodeId) (node : CallNode) :
    (call visit id node).run = Check.call (plain visit) id node := by
  refine run_look fun symbol => ?_
  cases symbol with
  | none => rfl
  | some symbol =>
    simp only [run_bind, run_ite, run_andThen, run_list, passing, run_passed]
    rfl

theorem plain_declareName (d : DeclarationNode) (type : TypeNode) (detail : String) :
    plain (declareName d type detail) = Check.declareName d type detail := by
  funext id
  simp only [plain, declareName, Check.declareName, run_bind, run_ite]
  rfl

theorem run_declaration (d : DeclarationNode) : (declaration d).run = Check.declaration d := by
  refine run_look fun type => ?_
  cases type with
  | none => rfl
  | some type =>
    simp only [run_bind, run_list, plain_declareName, positive, run_ite]
    rfl

theorem run_program (id : NodeId) (p : ProgramNode) :
    (program visit id p).run = Check.program (plain visit) id p := by
  refine congrArg Check.inScope ?_
  simp only [run_bind, run_list]
  rfl

theorem run_compound (b : CompoundNode) :
    (compound visit b).run = Check.compound (plain visit) b := by
  refine congrArg Check.inScope ?_
  simp only [run_bind, run_list]
  rfl

theorem run_print (value : NodeId) : (print visit value).run = Check.print (plain visit) value := by
  refine (run_andThen ..).trans (congrArg _ (run_look fun type => ?_))
  cases type with
  | none => rfl
  | some type => cases type <;> rfl

theorem run_assignable (id value : NodeId) (target : ScalarType) :
    (assignable id value target).run = Check.assignable id value target := by
  refine run_look fun type => ?_
  cases type with
  | none => rfl
  | some type => exact run_ite ..

theorem run_assign (id target value : NodeId) :
    (assign visit id target value).run = Check.assign (plain visit) id target value := by
  refine (run_andThen ..).trans (congrArg _ (run_look fun r => ?_))
  cases r with
  | none => rfl
  | some r =>
    obtain ⟨name, indices, type⟩ := r
    cases type with
    | none => rfl
    | some type =>
      refine run_look fun symbol => ?_
      dsimp only
      cases symbol.bind fun symbol => Check.protection? name symbol.kind with
      | some cause => rfl
      | none => simp only [run_andThen, run_assignable]

theorem run_read (target : NodeId) : (read visit target).run = Check.read (plain visit) target := by
  refine (run_andThen ..).trans (congrArg _ (run_look fun r => ?_))
  cases r with
  | none => rfl
  | some r =>
    simp only [run_ite, run_bind]
    rfl

theorem run_guard (id : NodeId) : (guard visit id).run = Check.guard (plain visit) id := by
  simp only [guard, Check.guard, run_andThen, run_bind, run_ite]
  rfl

theorem run_condition (c : ConditionNode) :
    (condition visit c).run = Check.condition (plain visit) c := by
  simp only [condition, Check.condition, run_bind, run_guard, run_optional, run_pure]

theorem run_whileLoop (guardNode body : NodeId) :
    (whileLoop visit guardNode body).run = Check.whileLoop (plain visit) guardNode body := by
  simp only [whileLoop, Check.whileLoop, run_bind, run_guard, run_pure]

theorem run_forLoop (id : NodeId) (f : ForNode) :
    (forLoop visit id f).run = Check.forLoop (plain visit) id f := by
  refine congrArg Check.inScope ?_
  simp only [run_bind, run_ite]
  rfl

theorem run_returnable (value : NodeId) (expected : ScalarType) :
    (returnable value expected).run = Check.returnable value expected := by
  simp only [returnable, Check.returnable, run_bind, run_ite]
  rfl

theorem run_returnValue (id : NodeId) (value : Option NodeId) :
    (returnValue visit id value).run = Check.returnValue (plain visit) id value := by
  refine run_look fun function => ?_
  cases function with
  | none => rfl
  | some function =>
    dsimp only
    cases value with
    | none => cases function.result <;> rfl
    | some value =>
      cases function.result with
      | void => rfl
      | _ => exact (run_andThen ..).trans (congrArg _ (run_returnable value _))

theorem run_declareFunction (id : NodeId) (f : FunctionNode) :
    (declareFunction id f).run = Check.declareFunction id f := by
  simp only [declareFunction, Check.declareFunction, run_bind, run_ite]
  rfl

theorem run_function (id : NodeId) (f : FunctionNode) :
    (function visit id f).run = Check.function (plain visit) id f := by
  simp only [function, Check.function, run_bind, run_declareFunction]
  refine congrArg (Check.declareFunction id f >>= ·) (funext fun header => ?_)
  cases f.body with
  | none => rfl
  | some body =>
    simp only [within, inScope, run_bind, run_list]
    rfl

/-! ### Nodes without the log -/

theorem run_kind (id : NodeId) (k : NodeKind) :
    (kind visit id k).run = Check.kind (plain visit) id k := by
  cases k with
  | program p => exact run_program visit id p
  | declaration d => exact run_declaration d
  | expression e => exact run_expression visit id e
  | compound b => exact run_compound visit b
  | print value => exact run_print visit value
  | reference r => exact run_reference visit id r
  | assign target value => exact run_assign visit id target value
  | read target => exact run_read visit target
  | condition c => exact run_condition visit c
  | whileLoop guardNode body => exact run_whileLoop visit guardNode body
  | returnValue value => exact run_returnValue visit id value
  | forLoop f => exact run_forLoop visit id f
  | call c => exact run_call visit id c
  | function f => exact run_function visit id f
  | literal | type | name | number | epsilon => rfl

theorem run_node (id : NodeId) : (node visit id).run = Check.node (plain visit) id := by
  refine run_look fun k => ?_
  cases k with
  | none => rfl
  | some k => exact run_kind visit id k

end

theorem plain_visitUpTo (n : Nat) : plain (visitUpTo n) = Check.visitUpTo n := by
  induction n with
  | zero => rfl
  | succ n ih =>
    funext id
    exact congrArg Check.deeper ((run_node ..).trans (by rw [ih]))

theorem run_visitUpTo (n : Nat) (id : NodeId) : (visitUpTo n id).run = Check.visitUpTo n id :=
  congrFun (plain_visitUpTo n) id

/-- Without its log, a logged check is the check. -/
theorem run_visit (id : NodeId) : (visit id).run = Check.visit id := by
  funext c
  exact congrFun (run_visitUpTo (c.limit - c.depth) id) c

end Logged

end PLang
