import PLang.Proofs.Tree.Copies
import PLang.Proofs.Tree.Growth

/-!
# What builders add to a store

A builder that gets the numbers of the parts of a construct, each laid out right after the one
before, adds the construct's root after the last of them. Nodes that were there before stay as they
are, but for the last node of a list, which learns what follows it.
-/

namespace PLang

open Syntax Build List Store

variable {α : Type} {At : Store → Nat → NodeId → α → Prop}

variable {body head list parameters : Option NodeId} {first hi i id lo start type : Nat}
  {names : Names} {ps : List Parameter} {s s0 : Store} {t : DataType} {ts : List DataType}

theorem SameBelow.same {n : Nat} {s s' : Store} (h : SameBelow n s s') (hn : hi ≤ n) :
    Same s s' lo hi where
  kind _ _ h2 := h.kind? (Nat.lt_of_lt_of_le h2 hn)
  next _ _ h2 := h.next? (Nat.lt_of_lt_of_le h2 hn)

/-- One node was added. -/
structure Added (s : Store) (kind : NodeKind) (s' : Store) : Prop where
  same : SameBelow s.size s s'
  size : s'.size = s.size + 1
  kind : s'.kind? s.size = some kind
  next : s'.next? s.size = none

theorem Build.added_add (location : Location) (kind : NodeKind) (s : Store) :
    Added s kind (add location kind s).2 where
  same := .add location kind s
  size := size_add ..
  kind := by rw [Store.kind?, node?_add, if_pos rfl]; rfl
  next := by rw [Store.next?, node?_add, if_pos rfl]; rfl

/-- A construct was added, and nothing after it. -/
structure Adds (At : Store → Nat → NodeId → α → Prop) (s : Store) (a : α) (id : Nat)
    (s' : Store) : Prop where
  same : SameBelow s.size s s'
  layout : At s' s.size id a
  size : s'.size = id + 1
  last : s'.next? id = none

namespace Adds

variable {s s1 s2 : Store} {a : α} {id : Nat}

/-- A construct stays when more is added. -/
theorem later (h : Adds At s a id s1) (hAt : Local At) (more : SameBelow s1.size s1 s2) :
    At s2 s.size id a := by
  have hsize := h.size
  exact hAt.keep h.layout (more.same (by omega)) (more.kind? (by omega))

theorem last_later (h : Adds At s a id s1) (more : SameBelow s1.size s1 s2) :
    s2.next? id = none := by
  have hsize := h.size
  rw [more.next? (by omega), h.last]

theorem size_le (h : Adds At s a id s1) (hAt : Local At) : s.size ≤ s1.size := by
  have hle := hAt.le h.layout
  have hsize := h.size
  omega

/-- Nodes from before a construct stay when more is added after it. -/
theorem same_trans (h : Adds At s a id s1) (hAt : Local At) (more : SameBelow s1.size s1 s2) :
    SameBelow s.size s s2 :=
  h.same.trans (more.mono (h.size_le hAt))

end Adds

/-- A list was added, and nothing after it. -/
structure AddsList (At : Store → Nat → NodeId → α → Prop) (s : Store) (as : List α)
    (head : Option NodeId) (s' : Store) : Prop where
  same : SameBelow s.size s s'
  layout : ListAt s' (At s') s.size s'.size head as

namespace AddsList

variable {s s1 s2 : Store} {as : List α} {head : Option NodeId}

theorem later (h : AddsList At s as head s1) (hAt : Local At) (more : SameBelow s1.size s1 s2) :
    ListAt s2 (At s2) s.size s1.size head as :=
  (h.layout.kept fun a _ => hAt s1 s2 a).2 (more.same .refl)

theorem size_le (h : AddsList At s as head s1) (hAt : Local At) : s.size ≤ s1.size :=
  h.layout.le fun _ _ _ _ => hAt.le

theorem same_trans (h : AddsList At s as head s1) (hAt : Local At)
    (more : SameBelow s1.size s1 s2) : SameBelow s.size s s2 :=
  h.same.trans (more.mono (h.size_le hAt))

theorem nil (s : Store) : AddsList At s [] none s := ⟨SameBelow.refl _ _, .nil⟩

theorem singleton {a : α} (h : Adds At s a id s1) : AddsList At s [a] (some id) s1 :=
  ⟨h.same, .cons h.layout h.last (h.size ▸ .nil)⟩

end AddsList

/-! ### Appending -/

section Append

variable {s : Store} {id node : Nat}

theorem Store.kind?_setNext (i : Nat) :
    (s.modify id fun last => { last with next := some node }).kind? i = s.kind? i := by
  rw [kind?, node?_modify]
  split
  · rw [Option.map_map]; rfl
  · rfl

theorem Store.next?_setNext_of_ne (h : i ≠ id) :
    (s.modify id fun last => { last with next := some node }).next? i = s.next? i := by
  rw [next?, node?_modify, if_neg (Ne.symm h)]
  rfl

theorem Store.next?_setNext_self (h : id < s.size) :
    (s.modify id fun last => { last with next := some node }).next? id = some node := by
  obtain ⟨old, hold⟩ : ∃ old, s.node? id = some old :=
    Option.ne_none_iff_exists'.1 fun hnone =>
      Nat.not_le_of_lt h ((s.node?_eq_none_iff id).1 hnone)
  rw [next?, node?_modify, if_pos rfl, hold]
  rfl

/-- A construct that was added after a list becomes the last member of the list. -/
theorem Build.appendTo_spec {s1 : Store} {as : List α} {a : α} (hAt : Local At)
    (h : ListAt s (At s) lo s.size list as) (ha : Adds At s a id s1) :
    (appendTo list id s1).2.size = s1.size ∧ SameBelow lo s1 (appendTo list id s1).2 ∧
      ListAt (appendTo list id s1).2 (At (appendTo list id s1).2) lo s1.size
        (some (appendTo list id s1).1) (as ++ [a]) := by
  have hid := hAt.le ha.layout
  have hsize := ha.size
  have h1 : ListAt s1 (At s1) lo s.size list as :=
    (h.kept fun a _ => hAt s s1 a).2 (ha.same.same .refl)
  cases list with
  | none =>
    cases h1
    exact ⟨rfl, SameBelow.refl _ _, .cons ha.layout ha.last (ha.size ▸ .nil)⟩
  | some first =>
    have le : ∀ b ∈ as, ∀ lo root, At s1 lo root b → lo ≤ root := fun _ _ _ _ => hAt.le
    obtain ⟨link, hlink, hlast⟩ := h1.chain_getLastD le (show s.size - lo ≤ s1.size by omega) first
    have hlo : lo < s.size := by
      cases h1 with
      | cons hb _ ht =>
        have h1 := hAt.le hb
        have h2 := ht.le fun _ _ _ _ => hAt.le
        omega
    have hstore : (appendTo (some first) id s1).2 =
        s1.modify link fun last => { last with next := some id } := by
      rw [← hlink]
      rfl
    rw [hstore]
    -- the link leaves a stretch that starts after the list or ends in the list as it is
    have keep : ∀ b lo' root, link < lo' ∨ root ≤ link → At s1 lo' root b →
        At (s1.modify link fun last => { last with next := some id }) lo' root b := by
      intro b lo' root hside hb
      refine hAt.keep hb ⟨fun i _ _ => kind?_setNext i, fun i hi1 hi2 => ?_⟩
        (kind?_setNext root)
      exact next?_setNext_of_ne (show i ≠ link by omega)
    refine ⟨size_modify .., ?_, ?_⟩
    · intro i hi
      rw [node?_modify, if_neg (show link ≠ i by omega)]
    · rw [hsize]
      refine h1.snoc le ?_ ?_ ?_ ?_ ?_
      · exact fun b _ lo' root _ hroot hb => keep b lo' root (by omega) hb
      · exact fun i _ hi => next?_setNext_of_ne (show i ≠ link by omega)
      · rw [show s.size - 1 = link by omega]
        exact next?_setNext_self (show link < s1.size by omega)
      · exact keep a s.size id (by omega) ha.layout
      · rw [next?_setNext_of_ne (show id ≠ link by omega), ha.last]

end Append

/-! ### Leaves and roots -/

section Roots

variable {s s1 s2 s3 : Store}

variable {v : LiteralValue} {x : String}

namespace Added

variable {kind : NodeKind}

/-- A node stays when more is added. -/
theorem kind_later (h : Added s kind s1) (more : SameBelow s1.size s1 s2) :
    s2.kind? s.size = some kind := by
  have hsize := h.size
  rw [more.kind? (by omega), h.kind]

theorem next_later (h : Added s kind s1) (more : SameBelow s1.size s1 s2) :
    s2.next? s.size = none := by
  have hsize := h.size
  rw [more.next? (by omega), h.next]

theorem same_trans (h : Added s kind s1) (more : SameBelow s1.size s1 s2) :
    SameBelow s.size s s2 := by
  have hsize := h.size
  exact h.same.trans (more.mono (by omega))

/-- The node is the root of a construct whose parts were there. -/
theorem root {a : α} (h : Added s1 kind s2) (same : SameBelow s.size s s2)
    (layout : At s2 s.size s1.size a) : Adds At s a s1.size s2 :=
  ⟨same, layout, h.size, h.next⟩

theorem name (h : Added s (.name x) s1) : Adds NameAt s x s.size s1 :=
  h.root h.same ⟨rfl, h.kind⟩

theorem number {n : Int} (h : Added s (.number n) s1) : Adds NumberAt s n s.size s1 :=
  h.root h.same ⟨rfl, h.kind⟩

theorem literal (h : Added s (.literal ⟨v, v.text⟩) s1) :
    Adds LiteralAt s v s.size s1 :=
  h.root h.same ⟨rfl, h.kind⟩

theorem scalarType {t : ScalarType} (h : Added s (.type ⟨t, none, t.text⟩) s1) :
    Adds TypeAt s (.ofScalar t) s.size s1 :=
  h.root h.same ⟨none, .nil, h.kind⟩

end Added

/-! ### Types and declarations -/

theorem AddsList.arrayType {ds : List Int} {t : ScalarType}
    (hds : AddsList NumberAt s ds (some first) s1)
    (h : Added s1 (.type ⟨t, some first, arrayTypeText t (s1.numbers (some first))⟩) s2) :
    Adds TypeAt s ⟨t, ds⟩ s1.size s2 := by
  refine h.root (hds.same_trans numberAt_local h.same) ⟨some first, ?_, ?_⟩
  · exact hds.later numberAt_local h.same
  · rw [h.kind, hds.layout.numbers (Nat.le_refl _)]
    rfl

section

variable (hnames : AddsList NameAt s names.toList (some first) s1)
  (htype : Adds TypeAt s1 t type s2)

include hnames htype

/-- Names and their type. -/
theorem AddsList.declared {kind : SymbolKind}
    (h : Added s2 (.declaration ⟨kind, first, type, none⟩) s3) :
    Adds (fun s lo root (d : Names × DataType) => DeclaredAt s kind lo root d.1 d.2) s (names, t)
      s2.size s3 := by
  have more2 : SameBelow s1.size s1 s3 := htype.same_trans typeAt_local h.same
  refine h.root (hnames.same_trans nameAt_local more2) ⟨first, s1.size, type, ?_, ?_, ?_, ?_, ?_⟩
  · exact hnames.later nameAt_local more2
  · exact htype.later typeAt_local h.same
  · exact htype.last_later h.same
  · exact htype.size
  · exact h.kind

theorem AddsList.vars (h : Added s2 (.declaration ⟨.var, first, type, none⟩) s3) :
    Adds DeclarationAt s (.vars names t) s2.size s3 :=
  have hd := hnames.declared htype h
  ⟨hd.same, hd.layout, hd.size, hd.last⟩

theorem AddsList.parameter (h : Added s2 (.declaration ⟨.parameter, first, type, none⟩) s3) :
    Adds ParameterAt s ⟨names, t⟩ s2.size s3 :=
  have hd := hnames.declared htype h
  ⟨hd.same, hd.layout, hd.size, hd.last⟩

end

/-- Names and their literal. -/
theorem AddsList.constants {literal : Nat} (location : Location)
    (hnames : AddsList NameAt s names.toList (some first) s1)
    (hliteral : Adds LiteralAt s1 v literal s2) :
    Adds DeclarationAt s (.constants names v) (constant location first literal s2).1
      (constant location first literal s2).2 := by
  obtain ⟨hlit, hkind⟩ := hliteral.layout
  have htype := added_add location
    (.type ⟨v.scalarType, none, v.scalarType.text⟩) s2
  have hroot := added_add location (.declaration ⟨.constant, first, s2.size, some literal⟩)
    (scalarType location v.scalarType s2).2
  rw [constant_eq hkind]
  generalize hs3 : (scalarType location v.scalarType s2).2 = s3 at hroot
  have htype : Added s2 (.type ⟨v.scalarType, none, v.scalarType.text⟩) s3 := hs3 ▸ htype
  have more2 := htype.same_trans hroot.same
  have more1 := hliteral.same_trans literalAt_local more2
  have hsize : s2.size = s1.size + 1 := by rw [hliteral.size, hlit]
  refine hroot.root (hnames.same_trans nameAt_local more1)
    ⟨first, s1.size, ?_, ?_, ?_, ?_, ?_, ?_, ?_⟩
  · exact hnames.later nameAt_local more1
  · exact hlit ▸ (hliteral.later literalAt_local more2).2
  · exact hlit ▸ hliteral.last_later more2
  · exact hsize ▸ htype.kind_later hroot.same
  · exact hsize ▸ htype.next_later hroot.same
  · rw [htype.size, hsize]
  · rw [hroot.kind, hsize, hlit]

/-! ### Expressions -/

/-- A node is added behind its only part. -/
theorem Added.behindPart {kind : NodeKind} {At : Store → Nat → NodeId → α → Prop}
    {RootAt : Store → Nat → NodeId → β → Prop} {a : α} {b : β} {part : Nat} (h : Added s1 kind s2)
    (hAt : Local At) (ha : Adds At s a part s1) (hroot : At s2 s.size part a →
      s2.next? part = none → s2.kind? (part + 1) = some kind → RootAt s2 s.size (part + 1) b) :
    Adds RootAt s b s1.size s2 := by
  refine h.root (ha.same_trans hAt h.same) ?_
  have hkind := h.kind
  rw [ha.size] at hkind ⊢
  exact hroot (ha.later hAt h.same) (ha.last_later h.same) hkind

/-- A node is added behind its two parts. -/
theorem Added.behindParts {kind : NodeKind} {At : Store → Nat → NodeId → α → Prop}
    {At' : Store → Nat → NodeId → β → Prop} {RootAt : Store → Nat → NodeId → γ → Prop} {a : α}
    {b : β} {root : γ} {first second : Nat} (h : Added s2 kind s3) (hAt : Local At)
    (hAt' : Local At') (ha : Adds At s a first s1) (hb : Adds At' s1 b second s2)
    (hroot : At s3 s.size first a → s3.next? first = none → At' s3 (first + 1) second b →
      s3.next? second = none → s3.kind? (second + 1) = some kind →
      RootAt s3 s.size (second + 1) root) : Adds RootAt s root s2.size s3 := by
  have more1 := hb.same_trans hAt' h.same
  refine h.root (ha.same_trans hAt more1) ?_
  have hsecond := hb.later hAt' h.same
  have hkind := h.kind
  rw [ha.size] at hsecond
  rw [hb.size] at hkind ⊢
  exact hroot (ha.later hAt more1) (ha.last_later more1) hsecond (hb.last_later h.same) hkind

theorem Adds.literalExpr (hv : Adds LiteralAt s v id s1)
    (h : Added s1 (.expression ⟨.constant, some id, none, none⟩) s2) :
    Adds ExprAt s (.literal v) s1.size s2 := by
  refine h.behindPart literalAt_local hv ?_
  rintro ⟨rfl, hkind⟩ hnext hroot
  exact .literal hkind hnext hroot

variable {name : String}

theorem AddsList.reference {es : List Expr} {head : Option NodeId}
    (hes : AddsList ExprAt s es head s1) (h : Added s1 (.reference ⟨name, head, none⟩) s2) :
    Adds ReferenceAt s (name, es) s1.size s2 :=
  h.root (hes.same_trans exprAt_local h.same) ⟨head, hes.later exprAt_local h.same, h.kind⟩

theorem AddsList.call {es : List Expr} {head : Option NodeId}
    (hes : AddsList ExprAt s es head s1) (h : Added s1 (.call ⟨name, head, none⟩) s2) :
    Adds CallAt s (name, es) s1.size s2 :=
  h.root (hes.same_trans exprAt_local h.same) ⟨head, hes.later exprAt_local h.same, h.kind⟩

variable {r : String × List Expr}

theorem Adds.referenceExpr (hr : Adds ReferenceAt s r id s1)
    (h : Added s1 (.expression ⟨.reference, some id, none, none⟩) s2) :
    Adds ExprAt s (.reference r.1 r.2) s1.size s2 := by
  refine h.behindPart referenceAt_local hr ?_
  rintro ⟨head, hes, hkind⟩ hnext hroot
  exact .reference hes hkind hnext hroot

variable {c : String × List Expr}

theorem Adds.callExpr (hc : Adds CallAt s c id s1)
    (h : Added s1 (.expression ⟨.call, some id, none, none⟩) s2) :
    Adds ExprAt s (.call c.1 c.2) s1.size s2 := by
  refine h.behindPart callAt_local hc ?_
  rintro ⟨head, hes, hkind⟩ hnext hroot
  exact .call hes hkind hnext hroot

variable {e : Expr}

theorem Adds.unaryExpr {o : UnaryOperator} (he : Adds ExprAt s e id s1)
    (h : Added s1 (.expression ⟨o.operator, none, some id, none⟩) s2) :
    Adds ExprAt s (.unary o e) s1.size s2 :=
  h.behindPart exprAt_local he .unary

theorem Adds.binaryExpr {o : BinaryOperator} {e1 e2 : Expr} {left right : Nat}
    (he1 : Adds ExprAt s e1 left s1) (he2 : Adds ExprAt s1 e2 right s2)
    (h : Added s2 (.expression ⟨o.operator, some left, some right, none⟩) s3) :
    Adds ExprAt s (.binary o e1 e2) s2.size s3 :=
  h.behindParts exprAt_local exprAt_local he1 he2 .binary

/-! ### Statements -/

theorem Adds.assign {target value : Nat}
    (hr : Adds ReferenceAt s r target s1) (he : Adds ExprAt s1 e value s2)
    (h : Added s2 (.assign target value) s3) :
    Adds StatementAt s (.assign r.1 r.2 e) s2.size s3 :=
  h.behindParts referenceAt_local exprAt_local hr he .assign

theorem Adds.print {value : Nat} (he : Adds ExprAt s e value s1)
    (h : Added s1 (.print value) s2) : Adds StatementAt s (.print e) s1.size s2 :=
  h.behindPart exprAt_local he .print

theorem Adds.read {target : Nat} (hr : Adds ReferenceAt s r target s1)
    (h : Added s1 (.read target) s2) : Adds StatementAt s (.read r.1 r.2) s1.size s2 :=
  h.behindPart referenceAt_local hr .read

variable {b : Block}

theorem Adds.whileLoop {guard body : Nat} (he : Adds ExprAt s e guard s1)
    (hb : Adds BlockAt s1 b body s2) (h : Added s2 (.whileLoop guard body) s3) :
    Adds StatementAt s (.whileLoop e b) s2.size s3 :=
  h.behindParts exprAt_local blockAt_local he hb .whileLoop

theorem Adds.condition {b' : Option Block} {guard thenBody : Nat}
    {elseBody : Option NodeId} {s4 : Store} (he : Adds ExprAt s e guard s1)
    (hb : Adds BlockAt s1 b thenBody s2) (hb' : AddsList BlockAt s2 b'.toList elseBody s3)
    (h : Added s3 (.condition ⟨guard, thenBody, elseBody⟩) s4) :
    Adds StatementAt s (.condition e b b') s3.size s4 := by
  have more2 := hb'.same_trans blockAt_local h.same
  have more1 := hb.same_trans blockAt_local more2
  refine h.root (he.same_trans exprAt_local more1) ?_
  have hthen := hb.later blockAt_local more2
  have helse := hb'.later blockAt_local h.same
  rw [he.size] at hthen
  rw [hb.size] at helse
  exact .condition (he.later exprAt_local more1) (he.last_later more1) hthen
    (hb.last_later more2) helse h.kind

theorem AddsList.returnValue {e : Option Expr} {value : Option NodeId}
    (he : AddsList ExprAt s e.toList value s1) (h : Added s1 (.returnValue value) s2) :
    Adds StatementAt s (.returnValue e) s1.size s2 :=
  h.root (he.same_trans exprAt_local h.same)
    (.returnValue (he.later exprAt_local h.same) h.kind)

theorem Adds.callStatement (hc : Adds CallAt s c id s1) :
    Adds StatementAt s (.call c.1 c.2) id s1 :=
  ⟨hc.same, .call hc.layout, hc.size, hc.last⟩

theorem Adds.blockStatement (hb : Adds BlockAt s b id s1) :
    Adds StatementAt s (.block b) id s1 :=
  ⟨hb.same, .block hb.layout, hb.size, hb.last⟩

variable {declarations : Option NodeId}

theorem AddsList.compound {ds : List Declaration} {ss : List Statement}
    {statements : Option NodeId} (hds : AddsList DeclarationAt s ds declarations s1)
    (hss : AddsList StatementAt s1 ss statements s2)
    (h : Added s2 (.compound ⟨declarations, statements⟩) s3) :
    Adds BlockAt s (.mk ds ss) s2.size s3 := by
  have more1 := hss.same_trans statementAt_local h.same
  refine h.root (hds.same_trans declarationAt_local more1) ?_
  exact .mk (hds.later declarationAt_local more1) (hss.later statementAt_local h.same) h.kind

/-- A copy of a node, and nothing else, is added. -/
theorem Build.duplicate_spec {kind : NodeKind} (h : s.kind? id = some kind) :
    (duplicate id s).1 = s.size ∧ Added s kind (duplicate id s).2 := by
  obtain ⟨node, hnode, rfl⟩ := Option.map_eq_some_iff.1 h
  have hrun : duplicate id s = add node.location node.kind s := by rw [duplicate, hnode]
  rw [hrun]
  exact ⟨rfl, added_add ..⟩

/-- A counting loop adds a copy of its variable's name, a type, a declaration and itself. -/
theorem Build.forLoop_spec {v low high : Nat} {m n : Int} (location : Location)
    (a body : Nat) (hv : s.kind? v = some (.name x)) (hlow : s.kind? low = some (.number m))
    (hhigh : s.kind? high = some (.number n)) :
    ∃ s1 s2 s3, Added s (.name x) s1 ∧
      Added s1 (.type ⟨.integer, none, ScalarType.integer.text⟩) s2 ∧
      Added s2 (.declaration ⟨.loopVar, s.size, s1.size, none⟩) s3 ∧
      (forLoop location v a low high body s).1 = s3.size ∧
      Added s3 (.forLoop ⟨x, m, n, v, a, low, high, s2.size, body⟩)
        (forLoop location v a low high body s).2 := by
  obtain ⟨hid, hcopy⟩ := duplicate_spec hv
  have hx : s.name? v = some x := by rw [Store.name?, hv]
  have hm : s.number? low = some m := by rw [Store.number?, hlow]
  have hn : s.number? high = some n := by rw [Store.number?, hhigh]
  have hrun : forLoop location v a low high body s =
      (do
        let type ← scalarType (s.location v) .integer
        let declaration ← declaration (s.location v) (duplicate v s).1 type .loopVar
        add location (.forLoop ⟨(s.name? v).getD "", (s.number? low).getD 0,
          (s.number? high).getD 0, v, a, low, high, declaration, body⟩) : Build NodeId)
        (duplicate v s).2 := rfl
  rw [hrun, hid, hx, hm, hn]
  exact ⟨_, _, _, hcopy, added_add .., added_add .., rfl, added_add ..⟩

/-- A counting loop with its header, which is added after its body. -/
theorem Adds.forLoop {text : String} {m n : Int} {body : Nat}
    (location l1 l2 l3 l4 : Location) (hb : Adds BlockAt s b body s1) {action : Build NodeId}
    (hrun : action = do
      let variableNode ← Build.name l1 x
      let assignNode ← Build.name l2 text
      let lowerNode ← Build.number l3 m
      let upperNode ← Build.number l4 n
      Build.forLoop location variableNode assignNode lowerNode upperNode body) :
    Adds StatementAt s (.forLoop x m n b) (action s1).1 (action s1).2 := by
  obtain ⟨t1, ht1⟩ : ∃ t, t = (Build.name l1 x s1).2 := ⟨_, rfl⟩
  obtain ⟨t2, ht2⟩ : ∃ t, t = (Build.name l2 text t1).2 := ⟨_, rfl⟩
  obtain ⟨t3, ht3⟩ : ∃ t, t = (Build.number l3 m t2).2 := ⟨_, rfl⟩
  obtain ⟨t4, ht4⟩ : ∃ t, t = (Build.number l4 n t3).2 := ⟨_, rfl⟩
  have a1 : Added s1 (.name x) t1 := ht1 ▸ Build.added_add ..
  have a2 : Added t1 (.name text) t2 := ht2 ▸ Build.added_add ..
  have a3 : Added t2 (.number m) t3 := ht3 ▸ Build.added_add ..
  have a4 : Added t3 (.number n) t4 := ht4 ▸ Build.added_add ..
  have haction : action s1 = Build.forLoop location s1.size t1.size t2.size t3.size body t4 := by
    rw [hrun, ht4, ht3, ht2, ht1]
    rfl
  have hlow : t4.kind? t2.size = some (.number m) := a3.kind_later a4.same
  have hv : t4.kind? s1.size = some (.name x) :=
    a1.kind_later (a2.same_trans (a3.same_trans a4.same))
  obtain ⟨t5, t6, t7, a5, a6, a7, hid, a8⟩ :=
    Build.forLoop_spec location t1.size body hv hlow a4.kind
  rw [haction, hid]
  generalize (Build.forLoop location s1.size t1.size t2.size t3.size body t4).2 = t8 at a8
  have more6 := a7.same_trans a8.same
  have more5 := a6.same_trans more6
  have more4 := a5.same_trans more5
  have more3 := a4.same_trans more4
  have more2 := a3.same_trans more3
  have more1 := a2.same_trans more2
  have more := a1.same_trans more1
  have h1 : s1.size = body + 1 := hb.size
  have h2 : t1.size = body + 2 := by rw [a1.size, h1]
  have h3 : t2.size = body + 3 := by rw [a2.size, h2]
  have h4 : t3.size = body + 4 := by rw [a3.size, h3]
  have h5 : t4.size = body + 5 := by rw [a4.size, h4]
  have h6 : t5.size = body + 6 := by rw [a5.size, h5]
  have h7 : t6.size = body + 7 := by rw [a6.size, h6]
  have h8 : t7.size = body + 8 := by rw [a7.size, h7]
  refine a8.root (hb.same_trans blockAt_local more) ?_
  have hroot := a8.kind
  rw [h1, h2, h3, h4, h7, h8] at hroot
  rw [h8]
  refine .forLoop (hb.later blockAt_local more) (hb.last_later more) ?_ hroot
  exact {
    variableNode := h1 ▸ ⟨a1.kind_later more1, a1.next_later more1⟩
    assignNode := ⟨text, h2 ▸ a2.kind_later more2, h2 ▸ a2.next_later more2⟩
    lowerNode := h3 ▸ ⟨a3.kind_later more3, a3.next_later more3⟩
    upperNode := h4 ▸ ⟨a4.kind_later more4, a4.next_later more4⟩
    declaration := by
      have hnames : AddsList NameAt t4 (Names.toList ⟨x, []⟩) (some t4.size) t5 :=
        .singleton a5.name
      have hlayout := (hnames.declared a6.scalarType a7).later (declaredAt_local .loopVar) a8.same
      rwa [h5, h7] at hlayout
    alone := h7 ▸ a7.next_later a8.same }

/-! ### Functions and programs -/

/-- The type of a declaration of parameters that a store holds after `start`. -/
def DeclaredType (s : Store) (start type : Nat) (t : DataType) : Prop :=
  ∃ first mid, start ≤ mid ∧ type + 1 < s.size ∧ TypeAt s mid type t ∧
    s.kind? (type + 1) = some (.declaration ⟨.parameter, first, type, none⟩)

/-- The declarations of a list of parameters, and the type of every parameter. -/
theorem ListAt.exists_declares (h : ListAt s (ParameterAt s) lo hi head ps) (hhi : hi < s.size) :
    ∃ ids groups, s.IsList head ids ∧ List.Forall₂ s.Declares ids groups ∧
      List.Forall₂ (DeclaredType s lo) (signature groups) (Syntax.parameterTypes ps) := by
  obtain ⟨ids, hlist, members⟩ :=
    h.exists_isList parameterAt_local.le_of_mem (Nat.le_of_lt hhi)
  suffices hgroups : ∃ groups, List.Forall₂ s.Declares ids groups ∧
      List.Forall₂ (DeclaredType s lo) (signature groups) (Syntax.parameterTypes ps) by
    obtain ⟨groups, hgroups⟩ := hgroups
    exact ⟨ids, groups, hlist, hgroups⟩
  clear h hlist
  induction members with
  | nil => exact ⟨[], .nil, .nil⟩
  | @cons id p ids ps hp _ ih =>
    obtain ⟨groups, hgroups, htypes⟩ := ih
    obtain ⟨lo', hlo, hid, first, mid, type, hnames, htype, -, rfl, hkind⟩ := hp
    have hle1 := hnames.le nameAt_local.le_of_mem
    have hle2 := typeAt_local.le htype
    obtain ⟨names, hlist, hmembers⟩ :=
      hnames.exists_isList nameAt_local.le_of_mem (by omega)
    obtain ⟨dimensions, -, htypeKind⟩ := id htype
    refine ⟨(p.names.toList.length, type) :: groups, .cons ⟨_, names, _,
      declaration?_eq_some.2 hkind, hlist, hmembers.length_eq, rfl,
      type?_eq_some.2 htypeKind⟩ hgroups, ?_⟩
    rw [signature, flatMap_cons, ← map_const', Syntax.parameterTypes, flatMap_cons]
    have hdeclared : DeclaredType s lo type p.type := ⟨first, mid, by omega, by omega, htype, hkind⟩
    refine rel_append ?_ htypes
    exact forall₂_map_left_iff.2 (forall₂_map_right_iff.2 (forall₂_same.2
      fun _ _ => hdeclared))

variable {types : List NodeId}

/-- The texts of declared types. -/
theorem texts_of_declared (h : List.Forall₂ (DeclaredType s start) types ts) :
    (types.filterMap s.type?).map TypeNode.text = ts.map DataType.text := by
  induction h with
  | nil => rfl
  | cons ht _ ih =>
    obtain ⟨_, _, -, -, ⟨_, -, hkind⟩, -⟩ := ht
    rw [filterMap_cons_some (type?_eq_some.2 hkind), map_cons, ih, map_cons]

/-- Copies of declared types, in a store that has got more nodes. -/
theorem listAt_of_copies {n : Nat} (same : SameBelow s0.size s0 s)
    (hlist : s.IsList list (range' lo n)) (hlo : s0.size ≤ lo)
    (hcopies : List.Forall₂ (IsCopy s0 s) (range' lo n) types)
    (hdeclared : List.Forall₂ (DeclaredType s0 start) types ts) :
    ListAt s (CopyAt s start) lo (lo + n) list ts := by
  induction n generalizing lo list types ts with
  | zero =>
    cases hlist
    cases hcopies
    cases hdeclared
    exact .nil
  | succ n ih =>
    rw [range'_succ] at hlist hcopies
    cases hlist with | cons found rest =>
    cases hcopies with | @cons _ type _ _ hcopy hcopies =>
    cases hdeclared with | cons htype hdeclared =>
    obtain ⟨first, mid, hmid, hsize, hAt, hkind⟩ := htype
    have hsame : s.kind? type = s0.kind? type := same.kind? (by omega)
    rw [Nat.add_succ, ← Nat.succ_add]
    refine .cons ⟨rfl, first, mid, type, hmid, by omega, ?_, ?_, ?_⟩ ?_
      (ih rest (by omega) hcopies hdeclared)
    · exact typeAt_local.keep hAt (same.same (by omega)) hsame
    · rw [same.kind? hsize, hkind]
    · rw [hcopy.kind?, hsame]
    · rw [Store.next?, found, Option.bind_some]

/-- A function whose return type is there. -/
theorem Build.function_spec {f : Function} (location : Location)
    (hps : AddsList ParameterAt s f.parameters parameters s1) (same : SameBelow s1.size s1 s2)
    (hrest : RestAt s2 s1.size s2.size type body f.result f.body)
    (htype : s2.kind? type = some (.type ⟨f.result, none, f.result.text⟩))
    (hnext : s2.next? type = none) :
    Adds FunctionAt s f (function location f.name parameters (some type) body s2).1
      (function location f.name parameters (some type) body s2).2 := by
  obtain ⟨⟨hle1, hle2⟩, -⟩ := hrest.kept s2
  have hps2 : ListAt s2 (ParameterAt s2) s.size s1.size parameters f.parameters :=
    hps.later parameterAt_local same
  have hresult : ((s2.type? type).map TypeNode.scalar).getD .void = f.result := by
    rw [type?, htype]
    rfl
  obtain ⟨ids, groups, hlist, hgroups, hdeclared⟩ := hps2.exists_declares (by omega)
  obtain ⟨types, s3, hcopied, hrun⟩ :=
    exists_copied_function hlist hgroups (.refl _ _) .refl location f.name type body
  rw [hresult, texts_of_declared hdeclared, ← parameterText] at hrun
  rw [hrun]
  have hroot := added_add location (.function ⟨f.name, f.result, type, parameters, types,
    parameterText f.parameters, body⟩) s3
  generalize (add location (.function ⟨f.name, f.result, type, parameters, types,
    parameterText f.parameters, body⟩) s3).2 = s4 at hroot ⊢
  have hle3 := hcopied.size
  have more2 : SameBelow s2.size s2 s4 := hcopied.same.trans (hroot.same.mono (by omega))
  have more1 : SameBelow s1.size s1 s4 := same.trans (more2.mono (by omega))
  refine hroot.root (hps.same_trans parameterAt_local more1)
    ⟨s1.size, s2.size, type, parameters, body, types, ?_, ?_, ?_, ?_, ?_, hroot.kind⟩
  · exact hps.later parameterAt_local more1
  · exact (hrest.kept s4).2 (more2.same .refl)
  · rw [more2.kind? hle2, htype]
  · rw [more2.next? hle2, hnext]
  · rw [hcopied.size]
    exact listAt_of_copies more2 (hroot.same.isList hcopied.listed) .refl
      (hcopied.later hroot.same) hdeclared

/-- A function with a return type. -/
theorem AddsList.typedFunction {f : Function} (location : Location)
    (hps : AddsList ParameterAt s f.parameters parameters s1) (hvoid : f.result ≠ .void)
    (htype : Adds TypeAt s1 (.ofScalar f.result) type s2)
    (hbody : AddsList BlockAt s2 f.body.toList body s3) :
    Adds FunctionAt s f (function location f.name parameters (some type) body s3).1
      (function location f.name parameters (some type) body s3).2 := by
  have more1 := htype.same_trans typeAt_local hbody.same
  obtain ⟨head, hdims, hkind⟩ := htype.later typeAt_local hbody.same
  have hsize := htype.size
  have hlast := htype.last_later hbody.same
  cases hdims
  refine function_spec location hps more1 ?_ hkind hlast
  exact .typed hvoid (hsize ▸ hbody.layout)

/-- A function without a return type. -/
theorem AddsList.untypedFunction {b : Option Block} (location : Location)
    (hps : AddsList ParameterAt s ps parameters s1) (hbody : AddsList BlockAt s1 b.toList body s2) :
    Adds FunctionAt s ⟨name, ps, .void, b⟩ (function location name parameters none body s2).1
      (function location name parameters none body s2).2 := by
  have htype := added_add ⟨location.line, 0⟩
    (.type ⟨.void, none, ScalarType.void.text⟩) s2
  have hrun : function location name parameters none body s2 =
      function location name parameters (some s2.size) body
        (scalarType ⟨location.line, 0⟩ .void s2).2 := rfl
  rw [hrun]
  generalize hs3 : (scalarType ⟨location.line, 0⟩ .void s2).2 = s3
  have htype : Added s2 (.type ⟨.void, none, ScalarType.void.text⟩) s3 := hs3 ▸ htype
  have more1 := hbody.same_trans blockAt_local htype.same
  have hrest : RestAt s3 s1.size s3.size s2.size body .void b :=
    htype.size ▸ .untyped (hbody.later blockAt_local htype.same)
  exact function_spec location (f := ⟨name, ps, .void, b⟩) hps more1 hrest htype.kind
    htype.next

/-- A program. -/
theorem AddsList.program {P : Program} {functions : Option NodeId} {body : Nat}
    {s4 : Store} (hds : AddsList DeclarationAt s P.declarations declarations s1)
    (hfs : AddsList FunctionAt s1 P.functions functions s2) (hb : Adds BlockAt s2 P.body body s3)
    (h : Added s3 (.program ⟨P.name, declarations, functions, body⟩) s4) :
    Adds ProgramAt s P s3.size s4 := by
  have more2 := hb.same_trans blockAt_local h.same
  have more1 := hfs.same_trans functionAt_local more2
  refine h.root (hds.same_trans declarationAt_local more1)
    ⟨s1.size, s2.size, body, declarations, functions, ?_, ?_, ?_, ?_, hb.size, h.kind⟩
  · exact hds.later declarationAt_local more1
  · exact hfs.later functionAt_local more2
  · exact hb.later blockAt_local h.same
  · exact hb.last_later h.same

end Roots

end PLang
