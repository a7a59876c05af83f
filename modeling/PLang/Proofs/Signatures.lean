import Mathlib.Algebra.GroupWithZero.Nat
import PLang.Proofs.Logged.Walk
import PLang.Proofs.Tree.Copies

/-!
# One type for every parameter name

A function lists a copy of the declared type for every parameter name, in the order of the names. A
call compares its arguments with these types, one by one.
-/

namespace PLang

open List Store

variable {s s' : Store} {parameters : Option NodeId} {ids copies : List NodeId}
  {groups : List (Nat × NodeId)} {types : List TypeNode} {node : FunctionNode} {f : NodeId}

/-- A function was added to a store, with a list of types: a new copy of the type of every parameter
name. No node that was there has changed. -/
structure Signed (s : Store) (groups : List (Nat × NodeId)) (node : FunctionNode) (f : NodeId)
    (copies : List NodeId) (s' : Store) : Prop where
  same : SameBelow s.size s s'
  function : s'.kind? f = some (.function node)
  text : node.parameterText = "(" ++
    ", ".intercalate (((signature groups).filterMap s.type?).map TypeNode.text) ++ ")"
  listed : s'.IsList node.parameterTypes copies
  length : copies.length = (groups.map Prod.fst).sum
  fresh : ∀ id ∈ copies, s.size ≤ id
  members : List.Forall₂ (IsCopy s s') copies (signature groups)

theorem Copied.signed {start : Nat} {s₁ : Store}
    (h : Copied s start (signature groups) node.parameterTypes s₁)
    (htext : node.parameterText = "(" ++
      ", ".intercalate (((signature groups).filterMap s.type?).map TypeNode.text) ++ ")")
    (location : Location) : Signed s groups node s₁.size (range' start (signature groups).length)
      (Build.add location (.function node) s₁).2 := by
  have hold := SameBelow.add location (.function node) s₁
  have hsize := h.size
  have hfresh := h.fresh
  refine ⟨h.same.trans (hold.mono (by omega)), ?_, htext, hold.isList h.listed, ?_,
    fun id hid => ?_,
    h.later hold⟩
  · rw [kind?, Build.node?_add, if_pos rfl]
    rfl
  · rw [length_range', signature, length_flatMap]
    simp
  · exact Nat.le_trans hfresh (mem_range'_1.1 hid).1

/-- A function is added with the types of its parameters. -/
theorem Build.exists_signed (hlist : s.IsList parameters ids)
    (hgroups : List.Forall₂ s.Declares ids groups) (location : Location) (name : String)
    (result body : Option NodeId) :
    ∃ node f copies s', Build.function location name parameters result body s = (f, s') ∧
      node.name = name ∧ node.parameters = parameters ∧ node.body = body ∧
      Signed s groups node f copies s' := by
  have hadd : ∀ s₀ type, SameBelow s.size s s₀ → s.size ≤ s₀.size → ∃ node f copies s',
      Build.function location name parameters (some type) body s₀ = (f, s') ∧ node.name = name ∧
        node.parameters = parameters ∧ node.body = body ∧ Signed s groups node f copies s' := by
    intro s₀ type hsame hle
    obtain ⟨list, s₁, hcopied, hrun⟩ :=
      exists_copied_function hlist hgroups hsame hle location name type body
    exact ⟨⟨name, _, _, parameters, list, _, body⟩, _, _, _, hrun, rfl, rfl, rfl,
      Copied.signed hcopied rfl location⟩
  cases result with
  | some type => exact hadd s type (.refl _ _) .refl
  | none =>
    -- the type of a function that returns nothing comes before the copies
    have hsize := size_add ⟨location.line, 0⟩ (.type ⟨.void, none, ScalarType.void.text⟩) s
    exact hadd _ s.size (SameBelow.add _ _ s) (Nat.le_of_lt (hsize ▸ Nat.lt_succ_self _))

/-- The types that are declared for the parameter names. -/
theorem exists_types (hgroups : List.Forall₂ s.Declares ids groups) :
    ∃ types : List TypeNode, (signature groups).map s.type? = types.map some := by
  induction hgroups with
  | nil => exact ⟨[], rfl⟩
  | @cons id group ids groups hdeclares _ ih =>
    obtain ⟨d, names, type, -, -, -, -, htype⟩ := hdeclares
    obtain ⟨types, htypes⟩ := ih
    refine ⟨replicate group.1 type ++ types, ?_⟩
    rw [signature, flatMap_cons, map_append, map_append, map_replicate,
      map_replicate, htype, ← htypes, signature]

namespace Check

/-- The arguments of a call are compared with types, each with the one at the same place, and the
first one that does not pass is reported. -/
def compared (id : NodeId) (call : CallNode) (types : List TypeNode) : Check Nat := fun c =>
  if (c.store.siblings call.arguments).length = types.length then
    (((c.store.siblings call.arguments).zip types).find? fun pair =>
      !c.passes pair.1 pair.2).elim (.ok 0 c) fun pair =>
        report (.incompatibleArgument (c.argumentName pair.1) pair.2.text) pair.1 c
  else report (.argumentCount call.name) id c

/-- A call of a function is begun, and its arguments turn out to be right. The function and its list
of types are in the tree. -/
structure Calls (s' : Store) (f : NodeId) (copies : List NodeId) (n : Nat) (id : NodeId)
    (call : CallNode) (c c' : Checker) : Prop where
  arguments : ∃ symbol, c.symbols.lookup call.name = some symbol ∧ symbol.kind = .function ∧
    symbol.node = f ∧ list (visitUpTo n) .stopAtFirst call.arguments
      { c with store := c.store.setCallType id symbol.scalar } = .ok 0 c'
  function : c.store.kind? f = s'.kind? f
  types : ∀ copy ∈ copies, c.store.node? copy = s'.node? copy

theorem passed_zip {c : Checker} {parameters : List NodeId}
    (h : parameters.map c.store.type? = types.map some) (arguments : List NodeId) :
    passed (arguments.zip parameters) c =
      ((arguments.zip types).find? fun pair => !c.passes pair.1 pair.2).elim (.ok 0 c) fun pair =>
        report (.incompatibleArgument (c.argumentName pair.1) pair.2.text) pair.1 c := by
  induction arguments generalizing parameters types with
  | nil => rfl
  | cons argument arguments ih =>
    cases parameters with
    | nil =>
      obtain rfl := map_eq_nil_iff.1 h.symm
      rfl
    | cons parameter parameters =>
      cases types with
      | nil => cases h
      | cons type types =>
        obtain ⟨htype, htypes⟩ := cons.inj h
        have hread : inStore (fun s => s.type? parameter) c = .ok (some type) c := by
          rw [inStore, view, htype]
        have hpasses : view (fun c => c.passes argument type) c =
          .ok (c.passes argument type) c := rfl
        rw [zip_cons_cons, zip_cons_cons, passed, bind_of_ok hread]
        dsimp only
        rw [bind_of_ok hpasses]
        cases hpass : c.passes argument type with
        | true =>
          rw [find?_cons_of_neg (by simp [hpass])]
          exact ih htypes
        | false =>
          rw [find?_cons_of_pos (by simp [hpass])]
          rfl

theorem call_eq_compared {c c' : Checker} {n : Nat} {id : NodeId} {call : CallNode}
    (h : Signed s groups node f copies s')
    (htypes : (signature groups).map s.type? = types.map some)
    (hcalls : Calls s' f copies n id call c c') :
    Check.call (visitUpTo n) id call c = compared id call types c' := by
  obtain ⟨⟨symbol, hlookup, hkind, rfl, hrun⟩, hfunction, hcopies⟩ := hcalls
  have hsame : Alike c.store c'.store := by
    have hlogged := hrun
    rw [← Logged.plain_visitUpTo, ← Logged.run_list] at hlogged
    have hobeys := Obeys.listToFirst (fun argument => Logged.obeys_visitUpTo
      (c.store.setCallType id symbol.scalar) n argument c.function) call.arguments
      { c with store := c.store.setCallType id symbol.scalar } (.refl _) rfl
    rw [(Logged.tells_of_ok hlogged).store]
    exact (setCallType_alike _).trans ((Annotated.refl _).writeAll hobeys.sound).alike
  have hnode : c'.store.function? symbol.node = some node := by
    rw [hsame.function?_eq, function?_eq_some, hfunction, h.function]
  have hparameters : inStore (fun s => s.siblings ((s.function? symbol.node).bind
      FunctionNode.parameterTypes)) c' = .ok copies c' := by
    have hkept := h.listed.keep fun copy hcopy => by rw [hcopies copy hcopy]
    rw [inStore, view, hnode, Option.bind_some, hsame.siblings_eq, hkept.siblings_eq]
  have hread : copies.map c'.store.type? = types.map some := by
    have hkept : copies.map c'.store.type? = copies.map s'.type? :=
      map_congr_left fun copy hcopy => by
        rw [hsame.type?_eq, type?, kind?, hcopies copy hcopy]
        rfl
    rw [hkept, ← htypes, ← forall₂_eq_eq_eq, forall₂_map_left_iff,
      forall₂_map_right_iff]
    exact h.members.imp fun copy original hcopy => by rw [type?, hcopy.kind?, type?]
  have hlength : copies.length = types.length := by
    simpa using congrArg length hread
  have harguments : inStore (fun s => s.siblings call.arguments) c' =
      .ok (c'.store.siblings call.arguments) c' := rfl
  have hsymbol : lookup call.name c = .ok (some symbol) c := by rw [lookup, view, hlookup]
  rw [Check.call, bind_of_ok hsymbol]
  dsimp only
  rw [if_pos hkind]
  show andThen (list (visitUpTo n) .stopAtFirst call.arguments) (passing id call symbol)
    { c with store := c.store.setCallType id symbol.scalar } = _
  rw [andThen, bind_of_ok hrun, if_pos rfl, passing, bind_of_ok harguments, bind_of_ok hparameters,
    hlength, compared]
  split
  · exact passed_zip hread _
  · rfl

end Check

/-- Functions list one type for every parameter name, in order. Whatever declarations a function
gets as its parameters, the function that is added has a list of new copies of their types, each as
often as its declaration has names, and no node that was there changes. A call of the function whose
arguments are right compares each of them with the type that is declared for the name at the same
place, and complains about their number exactly if it is not that of the names. -/
theorem Build.function_signature (hlist : s.IsList parameters ids)
    (hgroups : List.Forall₂ s.Declares ids groups) (location : Location) (name : String)
    (result body : Option NodeId) :
    ∃ types node f copies s', (signature groups).map s.type? = types.map some ∧
      types.length = (groups.map Prod.fst).sum ∧
      Build.function location name parameters result body s = (f, s') ∧
      node.name = name ∧ node.parameters = parameters ∧ node.body = body ∧
      Signed s groups node f copies s' ∧ ∀ n id call c c', Check.Calls s' f copies n id call c c' →
        Check.call (Check.visitUpTo n) id call c = Check.compared id call types c' := by
  obtain ⟨types, htypes⟩ := exists_types hgroups
  obtain ⟨node, f, copies, s', hrun, hname, hparameters, hbody, hsigned⟩ :=
    exists_signed hlist hgroups location name result body
  have hlength : types.length = (groups.map Prod.fst).sum := by
    rw [← hsigned.length, hsigned.members.length_eq]
    simpa using (congrArg length htypes).symm
  exact ⟨types, node, f, copies, s', htypes, hlength, hrun, hname, hparameters, hbody, hsigned,
    fun n id call c c' => Check.call_eq_compared hsigned htypes⟩

/-- Two parameters of one type and one of another type, and a call with three arguments. -/
def parameterStore : Store :=
  ⟨#[⟨.nowhere, .name "a", some 1⟩, ⟨.nowhere, .name "b", none⟩,
    ⟨.nowhere, .type ⟨.integer, none, "integer"⟩, none⟩,
    ⟨.nowhere, .declaration ⟨.parameter, 0, 2, none⟩, some 6⟩, ⟨.nowhere, .name "c", none⟩,
    ⟨.nowhere, .type ⟨.real, none, "real"⟩, none⟩,
    ⟨.nowhere, .declaration ⟨.parameter, 4, 5, none⟩, none⟩,
    ⟨.nowhere, .literal ⟨.integer 1, "1"⟩, none⟩,
    ⟨.nowhere, .expression ⟨.constant, some 7, none, none⟩, some 10⟩,
    ⟨.nowhere, .literal ⟨.integer 2, "2"⟩, none⟩,
    ⟨.nowhere, .expression ⟨.constant, some 9, none, none⟩, some 12⟩,
    ⟨.nowhere, .literal ⟨.boolean true, "true"⟩, none⟩,
    ⟨.nowhere, .expression ⟨.constant, some 11, none, none⟩, none⟩,
    ⟨.nowhere, .call ⟨"f", some 8, none⟩, none⟩]⟩

/-- The third argument is compared with the type of the third name. -/
theorem Build.function_signature_parameterStore : ∃ node f copies s' c c',
    Build.function .nowhere "f" (some 3) none none parameterStore = (f, s') ∧
      node.parameterText = "(integer, integer, real)" ∧ copies.length = 3 ∧
      Signed parameterStore [(2, 2), (1, 5)] node f copies s' ∧
      s'.siblings (some 8) = [8, 10, 12] ∧ c.store = s' ∧
      Check.call (Check.visitUpTo 2) 13 ⟨"f", some 8, none⟩ c =
        Check.report (.incompatibleArgument "boolean" "real") 12 c' := by
  have hlist : parameterStore.IsList (some 3) [3, 6] := .cons rfl (.cons rfl .nil)
  have hgroups : List.Forall₂ parameterStore.Declares [3, 6] [(2, 2), (1, 5)] :=
    .cons ⟨_, [0, 1], _, rfl, .cons rfl (.cons rfl .nil), rfl, rfl, rfl⟩
      (.cons ⟨_, [4], _, rfl, .cons rfl .nil, rfl, rfl, rfl⟩ .nil)
  obtain ⟨types, node, f, copies, s', htypes, -, hrun, -, -, -, hsigned, hcalls⟩ :=
    function_signature hlist hgroups .nowhere "f" none none
  obtain ⟨rfl, rfl⟩ := Prod.mk.inj hrun
  obtain rfl : [⟨.integer, none, "integer"⟩, ⟨.integer, none, "integer"⟩, ⟨.real, none, "real"⟩] =
      types := map_injective_iff.2 (Option.some_injective _) htypes
  let c : Checker := ⟨(Build.function .nowhere "f" (some 3) none none parameterStore).2,
    SymbolTable.empty.pushScope.insert "f" .function none "" "" 18, .silent, "", none, 0, 0⟩
  let arguments : Check Nat := fun c => Check.list (Check.visitUpTo 2) .stopAtFirst (some 8)
    { c with store := c.store.setCallType 13 none }
  have hargs : (Check.ending (arguments c)).toOption = some 0 ∧
      (arguments.after c).store.siblings (some 8) = [8, 10, 12] ∧
      (arguments.after c).passes 8 ⟨.integer, none, "integer"⟩ = true ∧
      (arguments.after c).passes 10 ⟨.integer, none, "integer"⟩ = true ∧
      (arguments.after c).passes 12 ⟨.real, none, "real"⟩ = false ∧
      (arguments.after c).argumentName 12 = "boolean" := by decide +kernel
  obtain ⟨hcount, hsiblings, hfirst, hsecond, hthird, hname⟩ := hargs
  obtain ⟨c', hok⟩ := Check.exists_ok_of_ending hcount
  rw [Check.after_of_ok hok] at hsiblings hfirst hsecond hthird hname
  have hcall := hcalls 2 13 ⟨"f", some 8, none⟩ c c' ⟨⟨_, rfl, rfl, rfl, hok⟩, rfl, fun _ _ => rfl⟩
  refine ⟨node, _, copies, _, c, c', rfl, hsigned.text.trans (by decide), hsigned.length, hsigned,
    by decide +kernel, rfl, hcall.trans ?_⟩
  simp [Check.compared, hsiblings, hfirst, hsecond, hthird, hname]

end PLang
