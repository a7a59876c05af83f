import PLang.Proofs.Lexemes
import PLang.Proofs.Parsing.Program
import PLang.Proofs.Tree.Paths

/-!
# Parsed trees are well-formed

Everywhere in a store, syntax is laid out as a tree. Hence the store of a parsed program is in
order: all slots hold older nodes of the right kind, and one path leads from the root to every node,
apart from the dimensions that formal parameters share.
-/

namespace PLang

open Syntax NodeKind

variable {α : Type} {s : Store} {lo hi mid root : Nat}

variable {head : Option NodeId} {t : DataType}

/-! ### Rows and tilings -/

/-- The nodes from `lo` to `root` are a tree of some kind. -/
def TreeAt (s : Store) (fits : NodeKind → Bool) (lo root : Nat) : Prop :=
  ∃ k, Subtree s lo root k ∧ fits k = true

variable {slot : Slot} {fits : NodeKind → Bool}

theorem TreeAt.leaf {k : NodeKind} (hkind : s.kind? root = some k) (hparts : k.parts = [])
    (hcomplete : k.isComplete = true) (hfits : fits k = true) : TreeAt s fits root root :=
  ⟨k, .node hkind hcomplete (hparts ▸ .nil) .nil, hfits⟩

theorem TreeAt.row (h : TreeAt s fits lo root) (hnext : s.next? root = none) :
    Row s lo (root + 1) slot fits (some root) := by
  obtain ⟨k, htree, hfits⟩ := h
  exact .cons htree hfits hnext (fun _ => rfl) .nil

variable {At : Nat → NodeId → α → Prop}

theorem ListAt.row {as : List α} (h : ListAt s At lo hi head as)
    (hslot : slot.isList = false → as.length ≤ 1)
    (elem : ∀ a ∈ as, ∀ lo root, At lo root a → TreeAt s fits lo root) :
    Row s lo hi slot fits head := by
  induction h with
  | nil => exact .nil
  | cons ha hnext hrest ih =>
    obtain ⟨k, htree, hfits⟩ := elem _ (.head _) _ _ ha
    refine .cons htree hfits hnext ?_ (ih ?_ fun b hb => elem b (.tail _ hb))
    · intro hsingle
      cases hrest with
      | nil => rfl
      | cons => exact absurd (hslot hsingle) (by simp)
    · exact fun hsingle => Nat.le_of_succ_le (hslot hsingle)

/-- At most one tree. -/
theorem ListAt.optional {a : Option α}
    (h : ListAt s At lo hi head a.toList)
    (elem : ∀ b, a = some b → ∀ lo root, At lo root b → TreeAt s fits lo root) :
    Row s lo hi slot fits head :=
  h.row (fun _ => by cases a <;> simp) fun b hb => elem b (Option.mem_toList.1 hb)

/-! ### Declarations -/

theorem TypeAt.tree (h : TypeAt s lo root t) : TreeAt s isType lo root := by
  obtain ⟨head, hdims, hkind⟩ := h
  refine ⟨_, .node hkind rfl (.refl _) (.cons (hdims.row nofun ?_) .nil), rfl⟩
  rintro n - lo root ⟨rfl, hn⟩
  exact .leaf hn rfl rfl rfl

theorem ListAt.names {names : List String} (h : ListAt s (NameAt s) lo hi head names) :
    Row s lo hi .names isName head := by
  refine h.row nofun ?_
  rintro name - lo root ⟨rfl, hname⟩
  exact .leaf hname rfl rfl rfl

theorem DeclaredAt.tree {kind : SymbolKind} {names : Names} (h : DeclaredAt s kind lo root names t)
    (hkind : kind ≠ .constant) : TreeAt s (declares [kind]) lo root := by
  obtain ⟨first, mid, type, hnames, htype, hnext, rfl, h⟩ := h
  refine ⟨_,
    .node h ?_ (.refl _) (.cons hnames.names (.cons (htype.tree.row hnext) (.cons .nil .nil))),
    ?_⟩
  · simpa [isComplete] using hkind
  · simp [NodeKind.declares]

theorem ConstantsAt.tree {names : Names} {value : LiteralValue}
    (h : ConstantsAt s lo root names value) : TreeAt s (declares [.constant]) lo root := by
  obtain ⟨first, literal, hnames, hliteral, hn1, htype, hn2, rfl, h⟩ := h
  have hvalue : TreeAt s isLiteral literal literal := .leaf hliteral rfl rfl rfl
  have htype : TreeAt s isType (literal + 1) (literal + 1) :=
    ⟨_, .node htype rfl (.refl _) (.cons .nil .nil), rfl⟩
  exact ⟨_, .node h rfl (.cons _ (.swap _ _ _))
    (.cons hnames.names (.cons (hvalue.row hn1) (.cons (htype.row hn2) .nil))), rfl⟩

theorem TreeAt.mono {fits' : NodeKind → Bool} (h : TreeAt s fits lo root)
    (hfits : ∀ k, fits k = true → fits' k = true) : TreeAt s fits' lo root :=
  h.imp fun k hk => ⟨hk.1, hfits k hk.2⟩

theorem DeclarationAt.tree {d : Declaration} (h : DeclarationAt s lo root d) :
    TreeAt s (declares [.var, .constant]) lo root := by
  have hmono : ∀ kind ∈ [SymbolKind.var, .constant], ∀ k : NodeKind,
      k.declares [kind] = true → k.declares [.var, .constant] = true := by
    intro kind hmem k hk
    cases k with
    | declaration d =>
      rw [NodeKind.declares, List.contains_eq_mem, decide_eq_true_eq, List.mem_singleton] at hk
      rw [NodeKind.declares, List.contains_eq_mem, decide_eq_true_eq, hk]
      exact hmem
    | _ => cases hk
  cases d with
  | vars names t => exact (DeclaredAt.tree h nofun).mono (hmono .var (by decide))
  | constants names value => exact (ConstantsAt.tree h).mono (hmono .constant (by decide))

theorem ListAt.declarations {ds : List Declaration} (h : ListAt s (DeclarationAt s) lo hi head ds) :
    Row s lo hi .declarations (declares [.var, .constant]) head :=
  h.row nofun fun _ _ _ _ hd => hd.tree

/-! ### Expressions -/

theorem ExprAt.tree {e : Expr} (h : ExprAt s lo root e) : TreeAt s isExpression lo root := by
  induction e generalizing lo root with
  | literal value =>
    cases h with
    | literal hliteral hn h =>
      have hvalue : TreeAt s isLiteral lo lo := .leaf hliteral rfl rfl rfl
      exact ⟨_, .node h rfl (.refl _) (.cons (hvalue.row hn) (.cons .nil .nil)), rfl⟩
  | reference name es ih =>
    cases h with
    | reference hes hpart hn h =>
      have hrow : Row s lo _ .indices isExpression _ := hes.row nofun fun e he _ _ h => ih e he h
      have hpart : TreeAt s isReference lo _ :=
        ⟨_, .node hpart rfl (.refl _) (.cons hrow .nil), rfl⟩
      exact ⟨_, .node h rfl (.refl _) (.cons (hpart.row hn) (.cons .nil .nil)), rfl⟩
  | call name es ih =>
    cases h with
    | call hes hpart hn h =>
      have hrow : Row s lo _ .arguments isExpression _ := hes.row nofun fun e he _ _ h => ih e he h
      have hpart : TreeAt s isCall lo _ := ⟨_, .node hpart rfl (.refl _) (.cons hrow .nil), rfl⟩
      exact ⟨_, .node h rfl (.refl _) (.cons (hpart.row hn) (.cons .nil .nil)), rfl⟩
  | unary o e ih =>
    cases h with
    | unary he hn h =>
      refine ⟨_, .node h ?_ (.refl _) (.cons .nil (.cons ((ih he).row hn) .nil)), rfl⟩
      cases o <;> rfl
  | binary o e1 e2 ih1 ih2 =>
    cases h with
    | binary he1 hn1 he2 hn2 h =>
      have hleft : o.operator.fitsLeft = isExpression := by cases o <;> rfl
      refine ⟨_, .node h ?_ (.refl _)
        (.cons (hleft ▸ (ih1 he1).row hn1) (.cons ((ih2 he2).row hn2) .nil)), rfl⟩
      cases o <;> rfl

theorem ReferenceAt.tree {r : String × List Expr} (h : ReferenceAt s lo root r) :
    TreeAt s isReference lo root := by
  obtain ⟨head, hes, hkind⟩ := h
  exact ⟨_, .node hkind rfl (.refl _) (.cons (hes.row nofun fun _ _ _ _ h => h.tree) .nil), rfl⟩

theorem CallAt.subtree {c : String × List Expr} (h : CallAt s lo root c) :
    ∃ call, Subtree s lo root (.call call) := by
  obtain ⟨head, hes, hkind⟩ := h
  exact ⟨_, .node hkind rfl (.refl _) (.cons (hes.row nofun fun _ _ _ _ h => h.tree) .nil)⟩

/-! ### Statements -/

theorem LoopHeaderAt.tiling {x : String} {m n : Int} {f : ForNode} (h : LoopHeaderAt s lo x m n)
    (hvariable : f.variableNode = lo) (hassign : f.assignNode = lo + 1)
    (hlower : f.lowerNode = lo + 2)
    (hupper : f.upperNode = lo + 3) (hdeclaration : f.declaration = lo + 6) :
    Tiling s lo (lo + 7) f.headerParts := by
  obtain ⟨⟨hv, hv'⟩, ⟨text, ha, ha'⟩, ⟨hl, hl'⟩, ⟨hu, hu'⟩, hd, hd'⟩ := h
  rw [ForNode.headerParts, hvariable, hassign, hlower, hupper, hdeclaration]
  have hname {id : Nat} {text : String} (h : s.kind? id = some (.name text)) :
      TreeAt s isName id id := .leaf h rfl rfl rfl
  have hnumber {id : Nat} {value : Int} (h : s.kind? id = some (.number value)) :
      TreeAt s isNumber id id := .leaf h rfl rfl rfl
  exact .cons ((hname hv).row hv') (.cons ((hname ha).row ha') (.cons ((hnumber hl).row hl')
    (.cons ((hnumber hu).row hu') (.cons ((hd.tree nofun).row hd') .nil))))

theorem statementAt_tree_and_blockAt_tree :
    (∀ x, ∀ lo root, StatementAt s lo root x → TreeAt s isStatement lo root) ∧
      ∀ b, ∀ lo root, BlockAt s lo root b → TreeAt s isCompound lo root := by
  refine Statement.induction ?_ ?_ ?_ ?_ ?_ ?_ ?_ ?_ ?_ ?_
  · rintro b ih lo root ⟨hb⟩
    refine (ih lo root hb).mono fun k hk => ?_
    cases k <;> first | rfl | cases hk
  · intro name es e lo root h
    cases h with
    | assign ht hn1 he hn2 h =>
      exact ⟨_, .node h rfl (.refl _) (.cons (ht.tree.row hn1) (.cons (he.tree.row hn2) .nil)), rfl⟩
  · intro e lo root h
    cases h with
    | print he hn h => exact ⟨_, .node h rfl (.refl _) (.cons (he.tree.row hn) .nil), rfl⟩
  · intro name es lo root h
    cases h with
    | read ht hn h => exact ⟨_, .node h rfl (.refl _) (.cons (ht.tree.row hn) .nil), rfl⟩
  · intro e b b' ihb ihb' lo root h
    cases h with
    | condition he hn1 hb hn2 hb' h =>
      exact ⟨_, .node h rfl (.refl _) (.cons (he.tree.row hn1)
        (.cons ((ihb _ _ hb).row hn2) (.cons (hb'.optional ihb') .nil))), rfl⟩
  · intro e b ih lo root h
    cases h with
    | whileLoop he hn1 hb hn2 h =>
      exact ⟨_, .node h rfl (.refl _)
        (.cons (he.tree.row hn1) (.cons ((ih _ _ hb).row hn2) .nil)), rfl⟩
  · intro x m n b ih lo root h
    cases h with
    | forLoop hb hn hheader h =>
      -- the body stands before the header
      refine ⟨_, .node h rfl (List.perm_append_singleton _ _).symm ?_, rfl⟩
      exact .cons ((ih _ _ hb).row hn) (hheader.tiling rfl rfl rfl rfl rfl)
  · intro e lo root h
    cases h with
    | returnValue he h =>
      exact ⟨_, .node h rfl (.refl _) (.cons (he.optional fun _ _ _ _ h => h.tree) .nil), rfl⟩
  · intro name es lo root h
    cases h with
    | call hc =>
      obtain ⟨call, hcall⟩ := hc.subtree
      exact ⟨_, hcall, rfl⟩
  · intro ds ss ih lo root h
    cases h with
    | mk hds hss h =>
      exact ⟨_, .node h rfl (.refl _) (.cons hds.declarations (.cons (hss.row nofun ih) .nil)), rfl⟩

theorem BlockAt.tree {b : Block} (h : BlockAt s lo root b) : TreeAt s isCompound lo root :=
  statementAt_tree_and_blockAt_tree.2 b lo root h

/-! ### Programs -/

theorem CopyAt.tree {start : Nat} (h : CopyAt s start lo root t) : TreeAt s isType lo root := by
  obtain ⟨rfl, first, mid, type, -, hlt, ⟨head, -, htype⟩, hdeclaration, hkind⟩ := h
  exact ⟨_, .copy (hkind.trans htype) htype hdeclaration rfl rfl (by omega), rfl⟩

theorem FunctionAt.tree {f : Function} (h : FunctionAt s lo root f) :
    TreeAt s isFunction lo root := by
  obtain ⟨name, ps, result, b⟩ := f
  obtain ⟨mid, last, type, parameters, body, types, hparameters, hrest, htype, hn, htypes, h⟩ := h
  dsimp only at hrest
  have hps : Row s lo mid .parameters (declares [.parameter]) parameters :=
    hparameters.row nofun fun p _ _ _ hp => DeclaredAt.tree hp nofun
  have hts : Row s last root .parameterTypes isType types :=
    htypes.row nofun fun _ _ _ _ h => h.tree
  have hresult : TreeAt s isType type type :=
    ⟨_, .node htype rfl (.refl _) (.cons .nil .nil), rfl⟩
  cases hrest with
  | typed _ hbody =>
    exact ⟨_, .node h rfl (.cons _ (List.perm_append_singleton _ _))
      (.cons hps (.cons (hresult.row hn)
        (.cons (hbody.optional fun _ _ _ _ h => h.tree) (.cons hts .nil)))), rfl⟩
  | untyped hbody =>
    exact ⟨_, .node h rfl (.cons _ (List.reverse_perm _))
      (.cons hps (.cons (hbody.optional fun _ _ _ _ h => h.tree)
        (.cons (hresult.row hn) (.cons hts .nil)))), rfl⟩

theorem ProgramAt.subtree {P : Program} (h : ProgramAt s lo root P) :
    ∃ p, Subtree s lo root (.program p) := by
  obtain ⟨mid, last, body, declarations, functions, hds, hfs, hbody, hn, rfl, h⟩ := h
  have hfunctions : Row s mid last .functions isFunction functions :=
    hfs.row nofun fun _ _ _ _ h => h.tree
  exact ⟨_, .node h rfl (.refl _)
    (.cons hds.declarations (.cons hfunctions (.cons (hbody.tree.row hn) .nil)))⟩

/-! ### Parsed programs -/

theorem storeOk_of_subtree {k : NodeKind} (htree : Subtree s 0 root k) (hsize : s.size = root + 1)
    (hnext : s.next? root = none) : StoreOk s := by
  have hall : ∀ id < s.size, ∃ lo k, Subtree s lo id k :=
    fun id hid => exists_subtree.1 htree id (Nat.zero_le _) (by omega)
  refine ⟨fun id k hkind => ?_, fun id k hkind part hpart child hchild => ?_,
    fun id other hother => ?_⟩
  · obtain ⟨lo, k', htree'⟩ := hall id (Store.lt_size_of_kind? hkind)
    cases htree'.kind?.symm.trans hkind
    cases htree' with
    | node _ hcomplete => exact hcomplete
    | copy => rfl
  · have hok := partOk_of_subtrees hall id k hkind part hpart child hchild
    exact ⟨Nat.lt_trans hok.lt (Store.lt_size_of_kind? hkind), hok⟩
  · have hfollow : s.follow? id .next = some other := hother
    have hne : id ≠ root := by
      rintro rfl
      rw [hnext] at hother
      cases hother
    have hlast : id < root + 1 := hsize ▸ Store.lt_size_of_follow? hfollow
    have hid : id < root := Nat.lt_of_le_of_ne (Nat.le_of_lt_succ hlast) hne
    obtain ⟨hlt, hlt'⟩ := next_lt.1 htree id other (Nat.zero_le _) hid hother
    exact ⟨hlt, hsize ▸ Nat.lt_succ_of_lt hlt'⟩

/-- A store that holds a tree in good order: its last node is the root and holds a program, all
nodes have their parts, and paths lead from the root to all of them. -/
structure WellFormed (s : Store) (root : NodeId) : Prop where
  last : s.size = root + 1
  program : ∃ p, s.kind? root = some (.program p)
  store : StoreOk s
  paths : PathsOk s root

theorem ProgramAt.wellFormed {P : Program} (h : ProgramAt s 0 root P) (hsize : s.size = root + 1)
    (hnext : s.next? root = none) : WellFormed s root := by
  obtain ⟨p, htree⟩ := h.subtree
  have hstore := storeOk_of_subtree htree hsize hnext
  exact ⟨hsize, ⟨p, htree.kind?⟩, hstore, pathsOk_of_subtree hstore htree hsize hnext⟩

/-- The store of a parsed program is well-formed. -/
theorem wellFormed_of_parseTokens {ts : List Token} {limit : Nat} {store : Store} {root : NodeId}
    (h : parseTokens ts limit = .ok (store, root)) : WellFormed store root := by
  obtain ⟨P, -, hprogram, hsize, hnext⟩ := parseTokens_layout h
  exact hprogram.wellFormed hsize hnext

/-- A program that announces a function with two array parameters. -/
def announcedTokens : List Token :=
  tokensOf "p; f(a, b: array 3 of integer); begin end end"

/-- The two copies of the parameters' type and the type itself share a dimension. -/
theorem wellFormed_announcedTokens : ∃ store root, parseTokens announcedTokens 9 = .ok
    (store, root) ∧ store.FormalDimension 2 ∧ WellFormed store root := by
  have hnodes : ((parseTokens announcedTokens 9).toOption.map fun (s, _) =>
      (s.kind? 4, (s.type? 3).map TypeNode.dimensions, s.siblings (some 2))) =
      some (some (.declaration ⟨.parameter, 0, 3, none⟩), some (some 2), [2]) := by
    rw [announcedTokens, tokensOf_ofList]
    decide +kernel
  obtain ⟨store, root, h, hnodes⟩ := exists_parse_of_map hnodes
  simp only [Prod.mk.injEq, Option.map_eq_some_iff] at hnodes
  obtain ⟨hdeclaration, ⟨type, htype, hdimensions⟩, hsiblings⟩ := hnodes
  refine ⟨store, root, h, ⟨4, _, hdeclaration, rfl, type, Store.type?_eq_some.1 htype, ?_⟩,
    wellFormed_of_parseTokens h⟩
  rw [hdimensions, hsiblings]
  exact List.mem_singleton_self 2

end PLang
