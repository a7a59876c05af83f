import Mathlib.Data.List.Forall2
import PLang.Proofs.Syntax
import PLang.Proofs.Tree.Lists

/-!
# How a store holds a tree

A piece of syntax takes a stretch of consecutive nodes, the last of which is its root. `ExprAt s lo
r e` says that the nodes from `lo` to `r` of the store `s` hold the expression `e`, and so on for
the other kinds of syntax. The node after the root in a list is not the root's own business:
`ListAt` says how the members of a list follow each other. All types that checking finds are still
missing.
-/

namespace PLang

open Syntax

variable {α β : Type}

variable {hi lo : Nat} {s s' : Store}

/-- The list that starts at `head` takes the nodes from `lo` up to `hi`, its members one after
another. -/
inductive ListAt (s : Store) (At : Nat → NodeId → α → Prop) :
    Nat → Nat → Option NodeId → List α → Prop
  | nil {lo : Nat} : ListAt s At lo lo none []
  | cons {lo hi root : Nat} {head : Option NodeId} {a : α} {as : List α} :
      At lo root a → s.next? root = head → ListAt s At (root + 1) hi head as →
      ListAt s At lo hi (some root) (a :: as)

/-- A name. -/
def NameAt (s : Store) (lo root : Nat) (name : String) : Prop :=
  root = lo ∧ s.kind? root = some (.name name)

/-- A whole number. -/
def NumberAt (s : Store) (lo root : Nat) (value : Int) : Prop :=
  root = lo ∧ s.kind? root = some (.number value)

/-- A literal. -/
def LiteralAt (s : Store) (lo root : Nat) (value : LiteralValue) : Prop :=
  root = lo ∧ s.kind? root = some (.literal ⟨value, value.text⟩)

/-- A type after its dimensions. -/
def TypeAt (s : Store) (lo root : Nat) (t : DataType) : Prop :=
  ∃ head, ListAt s (NumberAt s) lo root head t.dimensions ∧
    s.kind? root = some (.type ⟨t.scalar, head, t.text⟩)

/-- Names declared with a type. -/
def DeclaredAt (s : Store) (kind : SymbolKind) (lo root : Nat) (names : Names) (t : DataType) :
    Prop :=
  ∃ first mid type, ListAt s (NameAt s) lo mid (some first) names.toList ∧
    TypeAt s mid type t ∧ s.next? type = none ∧ root = type + 1 ∧
    s.kind? root = some (.declaration ⟨kind, first, type, none⟩)

/-- Names declared as constants: after the names come the literal and its type. -/
def ConstantsAt (s : Store) (lo root : Nat) (names : Names) (value : LiteralValue) : Prop :=
  ∃ first literal, ListAt s (NameAt s) lo literal (some first) names.toList ∧
    s.kind? literal = some (.literal ⟨value, value.text⟩) ∧ s.next? literal = none ∧
    s.kind? (literal + 1) = some (.type ⟨value.scalarType, none, value.scalarType.text⟩) ∧
    s.next? (literal + 1) = none ∧ root = literal + 2 ∧
    s.kind? root = some (.declaration ⟨.constant, first, literal + 1, some literal⟩)

/-- A declaration. -/
def DeclarationAt (s : Store) (lo root : Nat) : Declaration → Prop
  | .vars names t => DeclaredAt s .var lo root names t
  | .constants names value => ConstantsAt s lo root names value

/-- A declaration of parameters. -/
def ParameterAt (s : Store) (lo root : Nat) (p : Parameter) : Prop :=
  DeclaredAt s .parameter lo root p.names p.type

/-- An expression. -/
inductive ExprAt (s : Store) : Nat → NodeId → Expr → Prop
  | literal {lo : Nat} {value : LiteralValue} :
      s.kind? lo = some (.literal ⟨value, value.text⟩) → s.next? lo = none →
      s.kind? (lo + 1) = some (.expression ⟨.constant, some lo, none, none⟩) →
      ExprAt s lo (lo + 1) (.literal value)
  | reference {lo part : Nat} {head : Option NodeId} {name : String} {es : List Expr} :
      ListAt s (ExprAt s) lo part head es →
      s.kind? part = some (.reference ⟨name, head, none⟩) → s.next? part = none →
      s.kind? (part + 1) = some (.expression ⟨.reference, some part, none, none⟩) →
      ExprAt s lo (part + 1) (.reference name es)
  | call {lo part : Nat} {head : Option NodeId} {name : String} {es : List Expr} :
      ListAt s (ExprAt s) lo part head es →
      s.kind? part = some (.call ⟨name, head, none⟩) → s.next? part = none →
      s.kind? (part + 1) = some (.expression ⟨.call, some part, none, none⟩) →
      ExprAt s lo (part + 1) (.call name es)
  | unary {lo part : Nat} {o : UnaryOperator} {e : Expr} :
      ExprAt s lo part e → s.next? part = none →
      s.kind? (part + 1) = some (.expression ⟨o.operator, none, some part, none⟩) →
      ExprAt s lo (part + 1) (.unary o e)
  | binary {lo left right : Nat} {o : BinaryOperator} {e1 e2 : Expr} :
      ExprAt s lo left e1 → s.next? left = none →
      ExprAt s (left + 1) right e2 → s.next? right = none →
      s.kind? (right + 1) = some (.expression ⟨o.operator, some left, some right, none⟩) →
      ExprAt s lo (right + 1) (.binary o e1 e2)

/-- A variable with its subscripts. -/
def ReferenceAt (s : Store) (lo root : Nat) (r : String × List Expr) : Prop :=
  ∃ head, ListAt s (ExprAt s) lo root head r.2 ∧ s.kind? root = some (.reference ⟨r.1, head, none⟩)

/-- A call with its arguments. -/
def CallAt (s : Store) (lo root : Nat) (c : String × List Expr) : Prop :=
  ∃ head, ListAt s (ExprAt s) lo root head c.2 ∧ s.kind? root = some (.call ⟨c.1, head, none⟩)

/-- The header of a counting loop: the nodes of its variable, of the assignment sign and of its
bounds, and the declaration of the variable. -/
structure LoopHeaderAt (s : Store) (lo : Nat) (loopVariable : String) (lower upper : Int) :
    Prop where
  variableNode : s.kind? lo = some (.name loopVariable) ∧ s.next? lo = none
  assignNode : ∃ text, s.kind? (lo + 1) = some (.name text) ∧ s.next? (lo + 1) = none
  lowerNode : s.kind? (lo + 2) = some (.number lower) ∧ s.next? (lo + 2) = none
  upperNode : s.kind? (lo + 3) = some (.number upper) ∧ s.next? (lo + 3) = none
  declaration : DeclaredAt s .loopVar (lo + 4) (lo + 6) ⟨loopVariable, []⟩ (.ofScalar .integer)
  alone : s.next? (lo + 6) = none

mutual

/-- A statement. -/
inductive StatementAt (s : Store) : Nat → NodeId → Statement → Prop
  | block {lo root : Nat} {b : Block} : BlockAt s lo root b → StatementAt s lo root (.block b)
  | assign {lo target value : Nat} {name : String} {es : List Expr} {e : Expr} :
      ReferenceAt s lo target (name, es) → s.next? target = none →
      ExprAt s (target + 1) value e → s.next? value = none →
      s.kind? (value + 1) = some (.assign target value) →
      StatementAt s lo (value + 1) (.assign name es e)
  | print {lo value : Nat} {e : Expr} : ExprAt s lo value e → s.next? value = none →
      s.kind? (value + 1) = some (.print value) → StatementAt s lo (value + 1) (.print e)
  | read {lo target : Nat} {name : String} {es : List Expr} :
      ReferenceAt s lo target (name, es) → s.next? target = none →
      s.kind? (target + 1) = some (.read target) → StatementAt s lo (target + 1) (.read name es)
  | condition {lo guard thenBody root : Nat} {elseBody : Option NodeId} {e : Expr} {b : Block}
      {b' : Option Block} :
      ExprAt s lo guard e → s.next? guard = none →
      BlockAt s (guard + 1) thenBody b → s.next? thenBody = none →
      ListAt s (BlockAt s) (thenBody + 1) root elseBody b'.toList →
      s.kind? root = some (.condition ⟨guard, thenBody, elseBody⟩) →
      StatementAt s lo root (.condition e b b')
  | whileLoop {lo guard body : Nat} {e : Expr} {b : Block} :
      ExprAt s lo guard e → s.next? guard = none →
      BlockAt s (guard + 1) body b → s.next? body = none →
      s.kind? (body + 1) = some (.whileLoop guard body) →
      StatementAt s lo (body + 1) (.whileLoop e b)
  | forLoop {lo body : Nat} {x : String} {m n : Int} {b : Block} :
      BlockAt s lo body b → s.next? body = none → LoopHeaderAt s (body + 1) x m n →
      s.kind? (body + 8) = some (.forLoop ⟨x, m, n, body + 1, body + 2, body + 3, body + 4,
        body + 7, body⟩) →
      StatementAt s lo (body + 8) (.forLoop x m n b)
  | returnValue {lo root : Nat} {value : Option NodeId} {e : Option Expr} :
      ListAt s (ExprAt s) lo root value e.toList → s.kind? root = some (.returnValue value) →
      StatementAt s lo root (.returnValue e)
  | call {lo root : Nat} {name : String} {es : List Expr} :
      CallAt s lo root (name, es) → StatementAt s lo root (.call name es)

/-- A block. -/
inductive BlockAt (s : Store) : Nat → NodeId → Block → Prop
  | mk {lo mid root : Nat} {declarations statements : Option NodeId} {ds : List Declaration}
      {ss : List Statement} :
      ListAt s (DeclarationAt s) lo mid declarations ds →
      ListAt s (StatementAt s) mid root statements ss →
      s.kind? root = some (.compound ⟨declarations, statements⟩) →
      BlockAt s lo root (.mk ds ss)

end

/-- A copy of the type of a parameter that is declared between `start` and the copy. The copy has
the dimensions of the type it was made from. -/
def CopyAt (s : Store) (start lo root : Nat) (t : DataType) : Prop :=
  root = lo ∧ ∃ first mid type, start ≤ mid ∧ type + 1 < lo ∧ TypeAt s mid type t ∧
    s.kind? (type + 1) = some (.declaration ⟨.parameter, first, type, none⟩) ∧
    s.kind? root = s.kind? type

/-- The return type of a function and its body, if it has one. A type that the source gives stands
before the body, the type of a function that returns nothing after it. -/
inductive RestAt (s : Store) : Nat → Nat → NodeId → Option NodeId → ScalarType → Option Block → Prop
  | typed {lo hi : Nat} {body : Option NodeId} {result : ScalarType} {b : Option Block} :
      result ≠ .void → ListAt s (BlockAt s) (lo + 1) hi body b.toList →
      RestAt s lo hi lo body result b
  | untyped {lo mid : Nat} {body : Option NodeId} {b : Option Block} :
      ListAt s (BlockAt s) lo mid body b.toList → RestAt s lo (mid + 1) mid body .void b

/-- A function. -/
def FunctionAt (s : Store) (lo root : Nat) (f : Function) : Prop :=
  ∃ (mid last type : Nat) (parameters body types : Option NodeId),
    ListAt s (ParameterAt s) lo mid parameters f.parameters ∧
    RestAt s mid last type body f.result f.body ∧
    s.kind? type = some (.type ⟨f.result, none, f.result.text⟩) ∧ s.next? type = none ∧
    ListAt s (CopyAt s lo) last root types (parameterTypes f.parameters) ∧
    s.kind? root = some (.function
      ⟨f.name, f.result, type, parameters, types, parameterText f.parameters, body⟩)

/-- A program. -/
def ProgramAt (s : Store) (lo root : Nat) (P : Program) : Prop :=
  ∃ (mid last body : Nat) (declarations functions : Option NodeId),
    ListAt s (DeclarationAt s) lo mid declarations P.declarations ∧
    ListAt s (FunctionAt s) mid last functions P.functions ∧
    BlockAt s last body P.body ∧ s.next? body = none ∧ root = body + 1 ∧
    s.kind? root = some (.program ⟨P.name, declarations, functions, body⟩)

/-! ### Keeping a layout -/

/-- Two stores agree on the nodes from `lo` up to `hi`, apart from locations. -/
structure Same (s s' : Store) (lo hi : Nat) : Prop where
  kind : ∀ i, lo ≤ i → i < hi → s'.kind? i = s.kind? i
  next : ∀ i, lo ≤ i → i < hi → s'.next? i = s.next? i

theorem Same.mono {lo' hi' : Nat} (h : Same s s' lo hi) (hlo : lo ≤ lo') (hhi : hi' ≤ hi) :
    Same s s' lo' hi' where
  kind i h1 h2 := h.kind i (Nat.le_trans hlo h1) (Nat.lt_of_lt_of_le h2 hhi)
  next i h1 h2 := h.next i (Nat.le_trans hlo h1) (Nat.lt_of_lt_of_le h2 hhi)

/-- Where a layout is found in one store, it is found in another one that has the same nodes there.
What follows the root does not count. -/
def Kept (s s' : Store) (At : Store → Nat → NodeId → α → Prop) (a : α) : Prop :=
  ∀ lo root, At s lo root a →
    lo ≤ root ∧ (Same s s' lo root → s'.kind? root = s.kind? root → At s' lo root a)

theorem Same.node {i : Nat} {kind : Option NodeKind} {next : Option NodeId}
    (h : Same s s' lo hi) (hlo : lo ≤ i) (hhi : i < hi) (hkind : s.kind? i = kind)
    (hnext : s.next? i = next) : s'.kind? i = kind ∧ s'.next? i = next :=
  ⟨(h.kind i hlo hhi).trans hkind, (h.next i hlo hhi).trans hnext⟩

/-- A part of a larger layout that has nothing behind it. -/
theorem Kept.part {At : Store → Nat → NodeId → α → Prop} {a : α} {lo' root : Nat}
    (h : Kept s s' At a) (hAt : At s lo' root a) (hnext : s.next? root = none) :
    lo' ≤ root ∧ (∀ {lo hi}, Same s s' lo hi → lo ≤ lo' → root < hi →
      At s' lo' root a ∧ s'.next? root = none) := by
  obtain ⟨hle, keep⟩ := h lo' root hAt
  refine ⟨hle, fun same hlo hhi => ⟨?_, ?_⟩⟩
  · exact keep (same.mono hlo (Nat.le_of_lt hhi)) (same.kind root (Nat.le_trans hlo hle) hhi)
  · exact (same.next root (Nat.le_trans hlo hle) hhi).trans hnext

/-- A layout that depends on its own nodes only. -/
def Local (At : Store → Nat → NodeId → α → Prop) : Prop := ∀ s s' a, Kept s s' At a

namespace Local

variable {At : Store → Nat → NodeId → α → Prop} {s s' : Store} {lo root : Nat} {a : α}

theorem le (hAt : Local At) (h : At s lo root a) : lo ≤ root := (hAt s s a lo root h).1

theorem le_of_mem {as : List α} (hAt : Local At) :
    ∀ a ∈ as, ∀ lo root, At s lo root a → lo ≤ root := fun _ _ _ _ => hAt.le

theorem keep (hAt : Local At) (h : At s lo root a) (same : Same s s' lo root)
    (kind : s'.kind? root = s.kind? root) : At s' lo root a :=
  (hAt s s' a lo root h).2 same kind

end Local

namespace ListAt

variable {s s' : Store} {lo hi root : Nat} {head : Option NodeId} {a : α} {as : List α}

theorem of_none {At : Nat → NodeId → α → Prop} (h : ListAt s At lo hi none as) :
    as = [] ∧ lo = hi := by
  cases h
  exact ⟨rfl, rfl⟩

theorem le {At : Nat → NodeId → α → Prop} (h : ListAt s At lo hi head as)
    (elem : ∀ a ∈ as, ∀ lo root, At lo root a → lo ≤ root) : lo ≤ hi := by
  induction h with
  | nil => exact .refl
  | cons ha _ _ ih =>
    have h1 := elem _ (.head _) _ _ ha
    have h2 := ih fun b hb => elem b (.tail _ hb)
    omega

/-- Where the first member of a list and the ones after it are. -/
theorem cons_le {At : Nat → NodeId → α → Prop} (ha : At lo root a)
    (ht : ListAt s At (root + 1) hi head as)
    (elem : ∀ b ∈ a :: as, ∀ lo root, At lo root b → lo ≤ root) :
    (∀ b ∈ as, ∀ lo root, At lo root b → lo ≤ root) ∧ lo ≤ root ∧ root + 1 ≤ hi := by
  have helem := fun b hb => elem b (.tail _ hb)
  exact ⟨helem, elem a (.head _) _ _ ha, ht.le helem⟩

/-- A list in another store, if its links are the same there and its members are there. -/
theorem transfer {At At' : Nat → NodeId → α → Prop} (h : ListAt s At lo hi head as)
    (le : ∀ a ∈ as, ∀ lo root, At lo root a → lo ≤ root)
    (next : ∀ i, lo ≤ i → i < hi → s'.next? i = s.next? i)
    (elem : ∀ a ∈ as, ∀ lo' root, lo ≤ lo' → root < hi → At lo' root a → At' lo' root a) :
    ListAt s' At' lo hi head as := by
  induction h with
  | nil => exact .nil
  | @cons lo hi root head a as ha hn ht ih =>
    obtain ⟨le', h1, h2⟩ := cons_le ha ht le
    refine .cons (elem a (.head _) _ _ .refl h2 ha) ?_ (ih le' ?_ ?_)
    · rw [next root h1 h2, hn]
    · exact fun i hi1 hi2 => next i (by omega) hi2
    · exact fun b hb lo' root' hl => elem b (.tail _ hb) lo' root' (by omega)

/-- A list stays where it is, if its members do. -/
theorem kept {At : Store → Nat → NodeId → α → Prop} (h : ListAt s (At s) lo hi head as)
    (elem : ∀ a ∈ as, Kept s s' At a) :
    lo ≤ hi ∧ (Same s s' lo hi → ListAt s' (At s') lo hi head as) := by
  have le : ∀ a ∈ as, ∀ lo root, At s lo root a → lo ≤ root :=
    fun a ha lo root h => (elem a ha lo root h).1
  refine ⟨h.le le, fun same => h.transfer le same.next fun a ha lo' root' hlo hhi hAt => ?_⟩
  have hle := le a ha _ _ hAt
  exact (elem a ha lo' root' hAt).2 (same.mono hlo (Nat.le_of_lt hhi))
    (same.kind root' (by omega) hhi)

/-- The last member gets a successor: the list grows by one. -/
theorem snoc {At At' : Nat → NodeId → α → Prop} {first : NodeId}
    (h : ListAt s At lo hi (some first) as)
    (le : ∀ a ∈ as, ∀ lo root, At lo root a → lo ≤ root)
    (elem : ∀ a ∈ as, ∀ lo' root, lo ≤ lo' → root < hi → At lo' root a → At' lo' root a)
    (next : ∀ i, lo ≤ i → i + 1 < hi → s'.next? i = s.next? i)
    (link : s'.next? (hi - 1) = some root) (ha : At' hi root a) (last : s'.next? root = none) :
    ListAt s' At' lo (root + 1) (some first) (as ++ [a]) := by
  generalize hf : some first = head at h
  induction h generalizing first with
  | nil => cases hf
  | @cons lo hi root1 head b as hb hn ht ih =>
    obtain ⟨le', h1, h2⟩ := cons_le hb ht le
    have hb' : At' lo root1 b := elem b (.head _) _ _ .refl h2 hb
    cases ht with
    | nil => exact .cons hb' link (.cons ha last .nil)
    | @cons _ _ root2 head2 c cs hc hn2 ht2 =>
      obtain ⟨-, h3, h4⟩ := cons_le hc ht2 le'
      refine .cons hb' (next root1 h1 (by omega) ▸ hn) (ih le' ?_ ?_ link ha rfl)
      · exact fun b hb lo' root' hl => elem b (.tail _ hb) lo' root' (by omega)
      · exact fun i hi1 hi2 => next i (by omega) hi2

/-- The nodes of a list. -/
theorem exists_isList {At : Nat → NodeId → α → Prop} (h : ListAt s At lo hi head as)
    (le : ∀ a ∈ as, ∀ lo root, At lo root a → lo ≤ root) (hhi : hi ≤ s.size) :
    ∃ ids, s.IsList head ids ∧
      List.Forall₂ (fun id a => ∃ lo', lo ≤ lo' ∧ id < hi ∧ At lo' id a) ids as := by
  induction h with
  | nil => exact ⟨[], .nil, .nil⟩
  | @cons lo hi root head a as ha hnext ht ih =>
    obtain ⟨le', h1, h2⟩ := cons_le ha ht le
    obtain ⟨ids, hlist, hids⟩ := ih le' hhi
    obtain ⟨node, hnode⟩ : ∃ node, s.node? root = some node :=
      Option.ne_none_iff_exists'.1 fun hnone =>
        Nat.not_le_of_lt (Nat.lt_of_lt_of_le h2 hhi) ((s.node?_eq_none_iff root).1 hnone)
    rw [Store.next?, hnode, Option.bind_some] at hnext
    refine ⟨root :: ids, .cons hnode (hnext ▸ hlist), .cons ⟨lo, .refl, h2, ha⟩ (hids.imp ?_)⟩
    rintro id b ⟨lo', hlo, hhi, hb⟩
    exact ⟨lo', by omega, hhi, hb⟩

theorem siblings_forall₂ {At : Nat → NodeId → α → Prop} (h : ListAt s At lo hi head as)
    (le : ∀ a ∈ as, ∀ lo root, At lo root a → lo ≤ root) (hhi : hi ≤ s.size) :
    List.Forall₂ (fun id a => ∃ lo', lo ≤ lo' ∧ id < hi ∧ At lo' id a) (s.siblings head) as := by
  obtain ⟨ids, hlist, hids⟩ := h.exists_isList le hhi
  rwa [hlist.siblings_eq]

/-- The last node of a list is the last one of its stretch. -/
theorem chain_getLastD {At : Nat → NodeId → α → Prop} {first : NodeId}
    (h : ListAt s At lo hi (some first) as)
    (le : ∀ a ∈ as, ∀ lo root, At lo root a → lo ≤ root) {n : Nat} (hn : hi - lo ≤ n)
    (d : NodeId) : ∃ last : Nat, (s.chain n (some first)).getLastD d = last ∧ last + 1 = hi := by
  generalize hf : some first = head at h
  induction h generalizing n d first with
  | nil => cases hf
  | @cons lo hi root head a as ha hnext ht ih =>
    obtain ⟨le', h1, h2⟩ := cons_le ha ht le
    obtain ⟨n, rfl⟩ : ∃ m, n = m + 1 := ⟨n - 1, by omega⟩
    rw [Store.chain, hnext, List.getLastD_cons]
    cases ht with
    | nil => exact ⟨root, by rw [Store.chain_none]; rfl, rfl⟩
    | cons hb hn2 ht2 => exact ih le' (by omega) root rfl

end ListAt

/-! ### Every layout is local -/

section Local

theorem nameAt_local : Local NameAt := by
  rintro s s' name lo root ⟨rfl, h⟩
  exact ⟨.refl, fun _ kind => ⟨rfl, kind.trans h⟩⟩

theorem numberAt_local : Local NumberAt := by
  rintro s s' value lo root ⟨rfl, h⟩
  exact ⟨.refl, fun _ kind => ⟨rfl, kind.trans h⟩⟩

theorem literalAt_local : Local LiteralAt := by
  rintro s s' value lo root ⟨rfl, h⟩
  exact ⟨.refl, fun _ kind => ⟨rfl, kind.trans h⟩⟩

theorem typeAt_local : Local TypeAt := by
  rintro s s' t lo root ⟨head, dims, h⟩
  obtain ⟨hle, keep⟩ := dims.kept fun a _ => numberAt_local s s' a
  exact ⟨hle, fun same kind => ⟨head, keep same, kind.trans h⟩⟩

theorem declaredAt_local (kind : SymbolKind) :
    Local fun s lo root (d : Names × DataType) => DeclaredAt s kind lo root d.1 d.2 := by
  rintro s s' ⟨names, t⟩ lo root ⟨first, mid, type, hnames, htype, hnext, rfl, h⟩
  obtain ⟨hle1, keep1⟩ := hnames.kept fun a _ => nameAt_local s s' a
  obtain ⟨hle2, keep2⟩ := (typeAt_local s s' t).part htype hnext
  refine ⟨by omega, fun same hkind => ?_⟩
  obtain ⟨htype', hnext'⟩ := keep2 same hle1 (Nat.lt_succ_self _)
  exact ⟨first, mid, type, keep1 (same.mono .refl (by omega)), htype', hnext', rfl, hkind.trans h⟩

theorem constantsAt_local :
    Local fun s lo root (d : Names × LiteralValue) => ConstantsAt s lo root d.1 d.2 := by
  rintro s s' ⟨names, value⟩ lo root ⟨first, lit, hnames, hlit, hn1, htype, hn2, rfl, h⟩
  obtain ⟨hle, keep⟩ := hnames.kept fun a _ => nameAt_local s s' a
  refine ⟨by omega, fun same hkind => ?_⟩
  obtain ⟨hlit', hn1'⟩ := same.node hle (by omega) hlit hn1
  obtain ⟨htype', hn2'⟩ := same.node (by omega) (by omega) htype hn2
  exact ⟨first, lit, keep (same.mono .refl (by omega)), hlit', hn1', htype', hn2', rfl,
    hkind.trans h⟩

theorem declarationAt_local : Local DeclarationAt := by
  rintro s s' (⟨names, t⟩ | ⟨names, value⟩) lo root h
  · exact declaredAt_local .var s s' (names, t) lo root h
  · exact constantsAt_local s s' (names, value) lo root h

theorem parameterAt_local : Local ParameterAt := by
  rintro s s' ⟨names, t⟩ lo root h
  exact declaredAt_local .parameter s s' (names, t) lo root h

theorem exprAt_local : Local ExprAt := by
  intro s s' e
  induction e with
  | literal value =>
    rintro lo root ⟨hlit, hn, h⟩
    refine ⟨by omega, fun same kind => ?_⟩
    obtain ⟨hlit', hn'⟩ := same.node .refl (by omega) hlit hn
    exact .literal hlit' hn' (kind.trans h)
  | reference name es ih =>
    intro lo root h
    cases h with
    | reference hes hpart hn h =>
      obtain ⟨hle, keep⟩ := hes.kept ih
      refine ⟨by omega, fun same kind => ?_⟩
      obtain ⟨hpart', hn'⟩ := same.node hle (by omega) hpart hn
      exact .reference (keep (same.mono .refl (by omega))) hpart' hn' (kind.trans h)
  | call name es ih =>
    intro lo root h
    cases h with
    | call hes hpart hn h =>
      obtain ⟨hle, keep⟩ := hes.kept ih
      refine ⟨by omega, fun same kind => ?_⟩
      obtain ⟨hpart', hn'⟩ := same.node hle (by omega) hpart hn
      exact .call (keep (same.mono .refl (by omega))) hpart' hn' (kind.trans h)
  | unary o e ih =>
    intro lo root h
    cases h with
    | unary he hn h =>
      obtain ⟨hle, keep⟩ := Kept.part ih he hn
      refine ⟨by omega, fun same kind => ?_⟩
      obtain ⟨he', hn'⟩ := keep same .refl (by omega)
      exact .unary he' hn' (kind.trans h)
  | binary o e1 e2 ih1 ih2 =>
    intro lo root h
    cases h with
    | binary he1 hn1 he2 hn2 h =>
      obtain ⟨hle1, keep1⟩ := Kept.part ih1 he1 hn1
      obtain ⟨hle2, keep2⟩ := Kept.part ih2 he2 hn2
      refine ⟨by omega, fun same kind => ?_⟩
      obtain ⟨he1', hn1'⟩ := keep1 same .refl (by omega)
      obtain ⟨he2', hn2'⟩ := keep2 same (by omega) (by omega)
      exact .binary he1' hn1' he2' hn2' (kind.trans h)

theorem referenceAt_local : Local ReferenceAt := by
  rintro s s' ⟨name, es⟩ lo root ⟨head, hes, h⟩
  obtain ⟨hle, keep⟩ := hes.kept fun e _ => exprAt_local s s' e
  exact ⟨hle, fun same kind => ⟨head, keep same, kind.trans h⟩⟩

theorem callAt_local : Local CallAt := by
  rintro s s' ⟨name, es⟩ lo root ⟨head, hes, h⟩
  obtain ⟨hle, keep⟩ := hes.kept fun e _ => exprAt_local s s' e
  exact ⟨hle, fun same kind => ⟨head, keep same, kind.trans h⟩⟩

theorem LoopHeaderAt.keep {x : String} {m n : Int} (h : LoopHeaderAt s lo x m n)
    (same : Same s s' lo (lo + 7)) : LoopHeaderAt s' lo x m n where
  variableNode := by
    rw [same.kind lo (by omega) (by omega), same.next lo (by omega) (by omega)]
    exact h.variableNode
  assignNode := by
    rw [same.kind (lo + 1) (by omega) (by omega), same.next (lo + 1) (by omega) (by omega)]
    exact h.assignNode
  lowerNode := by
    rw [same.kind (lo + 2) (by omega) (by omega), same.next (lo + 2) (by omega) (by omega)]
    exact h.lowerNode
  upperNode := by
    rw [same.kind (lo + 3) (by omega) (by omega), same.next (lo + 3) (by omega) (by omega)]
    exact h.upperNode
  declaration :=
    (declaredAt_local .loopVar s s' (⟨x, []⟩, .ofScalar .integer) _ _ h.declaration).2
      (same.mono (by omega) (by omega)) (same.kind (lo + 6) (by omega) (by omega))
  alone := (same.next (lo + 6) (by omega) (by omega)).trans h.alone

theorem statementAt_local_and_blockAt_local : Local StatementAt ∧ Local BlockAt := by
  suffices h : ∀ s s', (∀ x, Kept s s' StatementAt x) ∧ ∀ b, Kept s s' BlockAt b from
    ⟨fun s s' => (h s s').1, fun s s' => (h s s').2⟩
  intro s s'
  refine Statement.induction ?_ ?_ ?_ ?_ ?_ ?_ ?_ ?_ ?_ ?_
  · rintro b ih lo root (⟨hb⟩ : StatementAt s lo root (.block b))
    exact ⟨(ih lo root hb).1, fun same kind => .block ((ih lo root hb).2 same kind)⟩
  · intro name es e lo root h
    cases h with
    | assign ht hn1 he hn2 h =>
      obtain ⟨hle1, keep1⟩ := (referenceAt_local s s' _).part ht hn1
      obtain ⟨hle2, keep2⟩ := (exprAt_local s s' _).part he hn2
      refine ⟨by omega, fun same kind => ?_⟩
      obtain ⟨ht', hn1'⟩ := keep1 same .refl (by omega)
      obtain ⟨he', hn2'⟩ := keep2 same (by omega) (by omega)
      exact .assign ht' hn1' he' hn2' (kind.trans h)
  · intro e lo root h
    cases h with
    | print he hn h =>
      obtain ⟨hle, keep⟩ := (exprAt_local s s' _).part he hn
      refine ⟨by omega, fun same kind => ?_⟩
      obtain ⟨he', hn'⟩ := keep same .refl (by omega)
      exact .print he' hn' (kind.trans h)
  · intro name es lo root h
    cases h with
    | read ht hn h =>
      obtain ⟨hle, keep⟩ := (referenceAt_local s s' _).part ht hn
      refine ⟨by omega, fun same kind => ?_⟩
      obtain ⟨ht', hn'⟩ := keep same .refl (by omega)
      exact .read ht' hn' (kind.trans h)
  · intro e b b' ihb ihb' lo root h
    cases h with
    | condition he hn1 hb hn2 hb' h =>
      obtain ⟨hle1, keep1⟩ := (exprAt_local s s' _).part he hn1
      obtain ⟨hle2, keep2⟩ := ihb.part hb hn2
      obtain ⟨hle3, keep3⟩ := hb'.kept fun x hx => ihb' x (Option.mem_toList.1 hx)
      refine ⟨by omega, fun same kind => ?_⟩
      obtain ⟨he', hn1'⟩ := keep1 same .refl (by omega)
      obtain ⟨hthen, hn2'⟩ := keep2 same (by omega) (by omega)
      exact .condition he' hn1' hthen hn2' (keep3 (same.mono (by omega) .refl)) (kind.trans h)
  · intro e b ih lo root h
    cases h with
    | whileLoop he hn1 hb hn2 h =>
      obtain ⟨hle1, keep1⟩ := (exprAt_local s s' _).part he hn1
      obtain ⟨hle2, keep2⟩ := ih.part hb hn2
      refine ⟨by omega, fun same kind => ?_⟩
      obtain ⟨he', hn1'⟩ := keep1 same .refl (by omega)
      obtain ⟨hb', hn2'⟩ := keep2 same (by omega) (by omega)
      exact .whileLoop he' hn1' hb' hn2' (kind.trans h)
  · intro x m n b ih lo root h
    cases h with
    | forLoop hb hn hheader h =>
      obtain ⟨hle, keep⟩ := ih.part hb hn
      refine ⟨by omega, fun same kind => ?_⟩
      obtain ⟨hb', hn'⟩ := keep same .refl (by omega)
      exact .forLoop hb' hn' (hheader.keep (same.mono (by omega) (by omega))) (kind.trans h)
  · intro e lo root h
    cases h with
    | returnValue he h =>
      obtain ⟨hle, keep⟩ := he.kept fun e _ => exprAt_local s s' e
      exact ⟨hle, fun same kind => .returnValue (keep same) (kind.trans h)⟩
  · intro name es lo root h
    cases h with
    | call hc =>
      obtain ⟨hle, keep⟩ := callAt_local s s' _ _ _ hc
      exact ⟨hle, fun same kind => .call (keep same kind)⟩
  · intro ds ss ih lo root h
    cases h with
    | @mk _ mid _ _ _ _ _ hds hss h =>
      obtain ⟨hle1, keep1⟩ := hds.kept fun d _ => declarationAt_local s s' d
      obtain ⟨hle2, keep2⟩ := hss.kept ih
      refine ⟨by omega, fun same kind =>
        .mk (keep1 (same.mono .refl hle2)) (keep2 (same.mono hle1 .refl))
          (kind.trans h)⟩

theorem statementAt_local : Local StatementAt := statementAt_local_and_blockAt_local.1

theorem blockAt_local : Local BlockAt := statementAt_local_and_blockAt_local.2

theorem RestAt.kept {type : Nat} {body : Option NodeId} {result : ScalarType} {b : Option Block}
    (h : RestAt s lo hi type body result b) (s' : Store) :
    (lo ≤ type ∧ type < hi) ∧ (Same s s' lo hi → RestAt s' lo hi type body result b) := by
  cases h with
  | typed hr hb =>
    obtain ⟨hle, keep⟩ := hb.kept fun x _ => blockAt_local s s' x
    exact ⟨⟨.refl, by omega⟩, fun same =>
      .typed hr (keep (same.mono (by omega) .refl))⟩
  | untyped hb =>
    obtain ⟨hle, keep⟩ := hb.kept fun x _ => blockAt_local s s' x
    exact ⟨⟨hle, Nat.lt_succ_self _⟩, fun same =>
      .untyped (keep (same.mono .refl (by omega)))⟩

theorem CopyAt.keep {start root : Nat} {t : DataType} (h : CopyAt s start lo root t)
    (same : Same s s' start lo) (kind : s'.kind? root = s.kind? root) :
    CopyAt s' start lo root t := by
  obtain ⟨rfl, first, mid, type, h1, h2, htype, hdecl, h⟩ := h
  have hle := typeAt_local.le htype
  have hkind : s'.kind? type = s.kind? type := same.kind type (by omega) (by omega)
  refine ⟨rfl, first, mid, type, h1, h2, ?_, ?_, by rw [kind, hkind, h]⟩
  · exact typeAt_local.keep htype (same.mono h1 (by omega)) hkind
  · exact (same.kind (type + 1) (by omega) h2).trans hdecl

theorem functionAt_local : Local FunctionAt := by
  rintro s s' f lo root ⟨mid, last, type, parameters, body, types, hps, hrest, htype, hn, hts, h⟩
  obtain ⟨hle1, keep1⟩ := hps.kept fun p _ => parameterAt_local s s' p
  obtain ⟨⟨hle2, hle3⟩, keep2⟩ := hrest.kept s'
  have hle4 : last ≤ root := hts.le fun _ _ _ _ h => Nat.le_of_eq h.1.symm
  refine ⟨by omega, fun same kind => ?_⟩
  obtain ⟨htype', hn'⟩ := same.node (by omega) (by omega) htype hn
  refine ⟨mid, last, type, parameters, body, types, ?_, ?_, htype', hn', ?_, kind.trans h⟩
  · exact keep1 (same.mono .refl (by omega))
  · exact keep2 (same.mono hle1 hle4)
  · refine hts.transfer (fun _ _ _ _ h => Nat.le_of_eq h.1.symm) ?_ ?_
    · exact fun i h1 h2 => same.next i (by omega) h2
    · intro t _ lo' root' h1 h2 hcopy
      have h3 : root' = lo' := hcopy.1
      exact hcopy.keep (same.mono .refl (by omega)) (same.kind root' (by omega) h2)

end Local

/-- The whole numbers of a list. -/
theorem ListAt.numbers {head : Option NodeId} {ns : List Int}
    (h : ListAt s (NumberAt s) lo hi head ns) (hhi : hi ≤ s.size) : s.numbers head = ns := by
  have members := h.siblings_forall₂ numberAt_local.le_of_mem hhi
  clear h
  rw [Store.numbers]
  generalize s.siblings head = ids at members
  induction members with
  | nil => rfl
  | cons hn _ ih =>
    obtain ⟨_, _, _, -, hkind⟩ := hn
    rw [List.filterMap_cons_some (by rw [Store.number?, hkind]), ih]

/-- The dimensions of a type. -/
theorem TypeAt.dimensions {root : Nat} {t : DataType} (h : TypeAt s lo root t)
    (hroot : root < s.size) : s.dimensions root = t.dimensions := by
  obtain ⟨head, hds, hk⟩ := h
  rw [Store.dimensions, Store.type?, hk]
  exact hds.numbers (Nat.le_of_lt hroot)

end PLang
