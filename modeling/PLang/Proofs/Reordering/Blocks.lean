import PLang.Proofs.Reordering.Statements

/-!
# The order of statements makes no difference

In a parsed program, the statements of a block can be linked in any other order. The check of the
program then returns the same, it leaves the same notes in all nodes, and it reports the same
errors: those of each statement in one stretch, and these stretches in the order of the statements
(`Check.visit_reorder`).
-/

namespace PLang

open List Logged NodeKind Store

variable {s : Store} {root block id : NodeId} {b : CompoundNode} {order ids : List NodeId}
  {log log' : List Event} {c c' : Checker} {k : NodeKind} {free : Prop}

/-! ### The statements of a block -/

theorem NodeKind.isDeclaring_of_isStatement (h : k.isStatement = true) : k.isDeclaring = false := by
  cases k with
  | declaration | function => cases h
  | _ => rfl

theorem CompoundNode.statements_mem_parts (b : CompoundNode) :
    ⟨.statements, b.statements, isStatement⟩ ∈ (compound b).parts :=
  .tail _ (.head _)

variable {lo : Nat}

/-- The trees of a row take stretches that do not meet. -/
theorem Row.exists_stretches {hi : Nat} {slot : Slot} {fits : NodeKind → Bool}
    {head : Option NodeId}
    (h : Row s lo hi slot fits head) (n : Nat) : ∃ first : NodeId → Nat,
      (∀ id ∈ s.chain n head, ∃ k, Subtree s (first id) id k ∧ fits k = true ∧
        lo ≤ first id ∧ id < hi) ∧
      (s.chain n head).Pairwise fun id other =>
        Disjoint (Set.Icc (first id) id) (Set.Icc (first other) other) := by
  induction n generalizing lo head with
  | zero => exact ⟨fun _ => 0, forall_mem_nil _, .nil⟩
  | succ n ih =>
    cases h with
    | nil => exact ⟨fun _ => 0, forall_mem_nil _, .nil⟩
    | @cons _ _ top _ _ next k htree hfits hnext _ hrow =>
      obtain ⟨first, htrees, hpairwise⟩ := ih hrow
      -- the trees that follow come after the first one
      have hafter : ∀ id ∈ s.chain n next, top < first id ∧ id ≠ top := by
        intro id hid
        obtain ⟨k', htree', -, hlo, -⟩ := htrees id hid
        exact ⟨hlo, Nat.ne_of_gt (Nat.lt_of_lt_of_le hlo htree'.le)⟩
      rw [chain, hnext]
      refine ⟨Function.update first top lo, forall_mem_cons.2 ⟨?_, fun id hid => ?_⟩,
        .cons (fun id hid => ?_) (hpairwise.imp_of_mem fun {id other} hid hother hapart => ?_)⟩
      · rw [Function.update_self]
        exact ⟨k, htree, hfits, Nat.le_refl lo, hrow.le⟩
      · obtain ⟨k', htree', hfits', hlo, hlt⟩ := htrees id hid
        rw [Function.update_of_ne (hafter id hid).2]
        exact ⟨k', htree', hfits', Nat.le_trans (Nat.le_succ_of_le htree.le) hlo, hlt⟩
      · rw [Function.update_self, Function.update_of_ne (hafter id hid).2]
        refine Set.disjoint_left.2 fun node hnode hnode' => ?_
        exact absurd (Nat.le_trans hnode'.1 hnode.2) (Nat.not_le.2 (hafter id hid).1)
      · rw [Function.update_of_ne (hafter id hid).2, Function.update_of_ne (hafter other hother).2]
        exact hapart

/-- The statements of a block stand before it, in stretches that do not meet. -/
theorem Subtree.exists_stretches (h : Subtree s lo block (.compound b)) (hs : StoreOk s) :
    ∃ first, Stretches s first (s.siblings b.statements) ∧ ∀ id ∈ s.siblings b.statements,
      id < block := by
  cases h with
  | node _ _ hperm htiling =>
    obtain ⟨lo', hi', hrow, hle⟩ := htiling.row (hperm.mem_iff.2 b.statements_mem_parts)
    obtain ⟨first, htrees, hpairwise⟩ := hrow.exists_stretches s.size
    refine ⟨first, ⟨hs.nodup_siblings _, fun id hid => ?_, hpairwise⟩, fun id hid => ?_⟩
    · obtain ⟨k, htree, hfits, -⟩ := htrees id hid
      exact ⟨k, htree, isDeclaring_of_isStatement hfits⟩
    · obtain ⟨k, -, -, -, hlt⟩ := htrees id hid
      exact Nat.lt_of_lt_of_le hlt hle

section

variable (hw : WellFormed s root) (hb : s.kind? block = some (.compound b))

include hw hb

theorem exists_isStatement (hid : id ∈ s.siblings b.statements) :
    ∃ k, s.kind? id = some k ∧ k.isStatement = true :=
  hw.store.exists_kind hb _ b.statements_mem_parts hid

/-- Statements of a block stand in no other node. -/
theorem eq_block_of_mem {other : NodeId} {part : Part} (hk : s.kind? other = some k)
    (hpart : part ∈ k.parts) (hid : id ∈ s.siblings part.node)
    (hid' : id ∈ s.siblings b.statements) :
    other = block := by
  obtain ⟨k', hk', hstatement⟩ := exists_isStatement hw hb hid'
  refine hw.paths.parent_unique hw.store hk hpart hid hb b.statements_mem_parts hid'
    (lt_size_of_kind? hk') fun n hn => ?_
  cases hn.symm.trans hk'
  cases hstatement

/-- A check comes to the statements of a block. -/
theorem covered_of_mem (hid : id ∈ s.siblings b.statements) : s.Covered id := by
  obtain ⟨k, hk, hstatement⟩ := exists_isStatement hw hb hid
  refine .statement hk hstatement fun _ hwrapped => ?_
  obtain ⟨other, e, he, hleft⟩ := hwrapped
  have hpart : ⟨.left, e.left, e.operator.fitsLeft⟩ ∈ (expression e).parts :=
    (.head _)
  have hsize : 0 < s.size := Nat.zero_lt_of_lt (lt_size_of_kind? hk)
  have hmem : id ∈ s.siblings e.left := hleft ▸ StoreOk.mem_siblings_self hsize
  obtain rfl := eq_block_of_mem hw hb he hpart hmem hid
  cases hb.symm.trans he

end

/-- The program and the one with its block in another order. -/
def Relinking.ofOrder (hw : WellFormed s root) (hb : s.kind? block = some (.compound b))
    (horder : order.Perm (s.siblings b.statements)) : Relinking s where
  other := s.reorder block order
  blocks := {block}
  moved := {id | id ∈ s.siblings b.statements}
  store := hw.store
  size := size_reorder
  compound := by
    rintro id rfl
    exact ⟨b, _, hb, kind?_reorder_block hb⟩
  kind := fun id hid => kind?_reorder_of_ne hid
  next := fun id hid => next?_reorder_of_notMem fun hmem => hid (horder.mem_iff.1 hmem)
  apart := fun id hid k hk part hpart child hchild hmem =>
    hid (eq_block_of_mem hw hb hk hpart hchild hmem)

/-- Both programs are checked side by side. -/
def Pairing.ofOrder (hw : WellFormed s root) (hb : s.kind? block = some (.compound b))
    (horder : order.Perm (s.siblings b.statements)) (limit : Nat) : Pairing s :=
  (Relinking.ofOrder hw hb horder).shuffling limit (s.siblings b.statements) order

/-! ### The block in both trees -/

namespace Pairing

variable (hw : WellFormed s root) (hb : s.kind? block = some (.compound b))
  (horder : order.Perm (s.siblings b.statements)) {first : NodeId → Nat}
  (T : Stretches s first (s.siblings b.statements))
  (hbelow : ∀ id ∈ s.siblings b.statements, id < block) {limit n d : Nat}

include hw hb horder in
theorem lt_size_of_mem_order (hid : id ∈ order) : id < s.size := by
  obtain ⟨k, hk, -⟩ := exists_isStatement hw hb (horder.mem_iff.1 hid)
  exact lt_size_of_kind? hk

include T hbelow

/-- The statements keep pace. -/
theorem statements_paces (n : Nat) : (ofOrder hw hb horder limit).Paces d free
    (list (tracedUpTo n) .reportAll b.statements)
    (list (tracedUpTo n) .reportAll order.head?) := by
  have hnodup := horder.nodup_iff.2 (hw.store.nodup_siblings b.statements)
  have hblocks : ∀ id ∈ s.siblings b.statements, ∀ other ∈ (Relinking.ofOrder hw hb horder).blocks,
      id < other := by
    intro id hid other hother
    rw [Set.mem_singleton_iff.1 hother]
    exact hbelow id hid
  refine ((T.each_paces hblocks horder n d).mono False.elim).of_sameAt
    fun scopes c c' hc => ⟨?_, ?_⟩
  · have hsame := sameAt_list (tracedUpTo n) b.statements c
    rwa [hc.linked.alike.row_eq, hw.store.row_eq hb b.statements_mem_parts] at hsame
  · have hsame := sameAt_list (tracedUpTo n) order.head? c'
    have hrow : c'.store.row order.head? = order := (hc.linked.alike'.row_eq _).trans
      (row_reorder hnodup fun _ => lt_size_of_mem_order hw hb horder)
    rwa [hrow] at hsame

/-- The block keeps pace if its declarations do. -/
theorem block_paces
    (V : (ofOrder hw hb horder limit).PacesAll d (tracedUpTo n) (tracedUpTo n)) :
    (ofOrder hw hb horder limit).Paces d free (node (tracedUpTo n) block)
      (node (tracedUpTo n) block) := by
  have hpart : ⟨.declarations, b.declarations, declares [.var, .constant]⟩ ∈
      (compound b).parts := (.head _)
  have hmoved : ∀ child ∈ s.siblings b.declarations, ∃ k, s.kind? child = some k ∧
      child ∉ s.siblings b.statements := by
    intro child hchild
    obtain ⟨k, hk, hdeclares⟩ := hw.store.exists_kind hb _ hpart hchild
    refine ⟨k, hk, fun hmem => ?_⟩
    -- a declaration is no statement
    obtain ⟨k', hk', hstatement⟩ := exists_isStatement hw hb hmem
    cases hk.symm.trans hk'
    cases k with
    | declaration => cases hstatement
    | _ => cases hdeclares
  let tandem := (ofOrder hw hb horder limit).tandem d
  have hdeclarations : tandem.Rel true (list (tracedUpTo n) .reportAll b.declarations)
      (list (tracedUpTo n) .reportAll b.declarations) := by
    refine tandem.list _ ⟨Nat.zero_lt_of_lt (lt_size_of_kind? hb), fun child hchild => ?_⟩
      fun child hchild => ?_
    · exact (hmoved child hchild).choose_spec.2
    · obtain ⟨k, hk, hnot⟩ := hmoved child hchild
      exact (V child hnot k hk).mono fun _ => rfl
  have hboth := tandem.add hdeclarations fun _ => statements_paces hw hb horder T hbelow n
  refine (Paces.inScope (hboth.mono fun _ => trivial)).of_sameAt fun scopes c c' hc => ⟨?_, ?_⟩
  · exact sameAt_node _ (hc.linked.alike.kind?_plain hb rfl)
  · exact sameAt_node _ (hc.linked.alike'.kind?_plain (kind?_reorder_block hb) rfl)

end Pairing

/-! ### One stretch -/

theorem visitsIn_eq_zero_of_notMem {V : Set NodeId} (hlog : ∀ e ∈ log, e.HappensIn V)
    (hid : id ∉ V) :
    visitsIn id log = 0 :=
  visitsIn_eq_zero fun e he f heq => hid (hlog e he (.visit (id, f)) (by rw [heq]; rfl))

variable {span : NodeId → List Event}

theorem le_visitsIn_flatMap (hspan : Enclosed id (span id)) (hid : id ∈ ids) :
    2 ≤ visitsIn id (ids.flatMap span) := by
  obtain ⟨before, after, rfl⟩ := append_of_mem hid
  rw [flatMap_append, flatMap_cons, visitsIn_append, visitsIn_append]
  have htwo := hspan.le_visitsIn
  omega

/-- Logs that are the same but for one stretch, in which nodes are checked one after another. -/
def ShuffledOnce (ids order : List NodeId) (log log' : List Event) : Prop :=
  ∃ before mid mid' after, Relinking.Shuffled ids order mid mid' ∧ log = before ++ mid ++ after ∧
    log' = before ++ mid' ++ after

theorem ShuffledOnce.append_left (h : ShuffledOnce ids order log log') (more : List Event) :
    ShuffledOnce ids order (more ++ log) (more ++ log') := by
  obtain ⟨before, mid, mid', after, hshuffled, rfl, rfl⟩ := h
  exact ⟨more ++ before, mid, mid', after, hshuffled, by simp, by simp⟩

theorem ShuffledOnce.append_right (h : ShuffledOnce ids order log log') (more : List Event) :
    ShuffledOnce ids order (log ++ more) (log' ++ more) := by
  obtain ⟨before, mid, mid', after, hshuffled, rfl, rfl⟩ := h
  exact ⟨before, mid, mid', after ++ more, hshuffled, by simp, by simp⟩

namespace Relinking

variable {R : Relinking s} {limit : Nat}

/-- There is no room for two stretches in a log that names a node twice. -/
theorem eq_or_shuffledOnce (h : (R.shuffling limit ids order).Rearranged log log') (hid : id ∈ ids)
    (hmoved : id ∈ R.moved) (hle : visitsIn id log ≤ 2) :
    log' = log ∧ visitsIn id log = 0 ∨ 2 ≤ visitsIn id log ∧ ShuffledOnce ids order log log' := by
  induction h with
  | same hlog =>
    exact .inl ⟨rfl, visitsIn_eq_zero_of_notMem hlog (Set.notMem_compl_iff.2 hmoved)⟩
  | @differ log log' hdiffer =>
    have hshuffled : Shuffled ids order log log' := hdiffer
    obtain ⟨span, rfl, rfl, hspan⟩ := hdiffer
    exact .inr ⟨le_visitsIn_flatMap (hspan id hid) hid, [], _, _, [], hshuffled, by simp, by simp⟩
  | append _ _ ih ih' =>
    rw [visitsIn_append] at hle ⊢
    rcases ih (by omega) with ⟨rfl, hzero⟩ | ⟨htwo, honce⟩
    · rcases ih' (by omega) with ⟨rfl, hzero'⟩ | ⟨htwo, honce⟩
      · exact .inl ⟨rfl, by omega⟩
      · exact .inr ⟨by omega, honce.append_left _⟩
    · rcases ih' (by omega) with ⟨rfl, hzero'⟩ | ⟨htwo', -⟩
      · exact .inr ⟨by omega, honce.append_right _⟩
      · omega

theorem eq_of_nil (h : (R.shuffling limit [] []).Rearranged log log') : log' = log := by
  induction h with
  | same => rfl
  | differ hdiffer =>
    obtain ⟨span, rfl, rfl, -⟩ := hdiffer
    rfl
  | append _ _ ih ih' => rw [ih, ih']

theorem shuffledOnce (h : (R.shuffling limit ids order).Rearranged log log')
    (horder : order.Perm ids)
    (hmoved : ∀ id ∈ ids, id ∈ R.moved) (hvisits : ∀ id ∈ ids, visitsIn id log = 2) :
    ShuffledOnce ids order log log' := by
  cases ids with
  | nil =>
    obtain rfl := horder.eq_nil
    refine ⟨log, [], [], [], ⟨fun _ => [], rfl, rfl, forall_mem_nil _⟩, by simp, ?_⟩
    simp [eq_of_nil h]
  | cons id ids =>
    have htwo := hvisits id (.head _)
    rcases eq_or_shuffledOnce h (.head _) (hmoved id (.head _)) (Nat.le_of_eq htwo)
      with ⟨-, hzero⟩ | ⟨-, honce⟩
    · omega
    · exact honce

end Relinking

/-! ### Parsed programs -/

theorem visitsIn_eq_of_perm (h : log.Perm log') (id : NodeId) :
    visitsIn id log = visitsIn id log' :=
  ((h.filterMap Event.site?).map Prod.fst).count_eq id

/-- The errors that a log reports. -/
def errorsIn (s : Store) (log : List Event) : List Error := log.filterMap (Event.error? s)

theorem errorsIn_append : errorsIn s (log ++ log') = errorsIn s log ++ errorsIn s log' :=
  filterMap_append

theorem errorsIn_flatMap (span : NodeId → List Event) :
    errorsIn s (ids.flatMap span) = ids.flatMap fun id => errorsIn s (span id) :=
  filterMap_flatMap ..

theorem errorsIn_reorder : errorsIn (s.reorder block order) log = errorsIn s log := by
  refine congrArg (filterMap · log) (funext fun e => ?_)
  cases e with
  | report cause node => rw [Event.error?, Event.error?, location_reorder]
  | visit | note => rfl

/-- A trace in which nodes are checked in turn, between what comes before and what comes after. What
happens in the check of each is its span, from where the trace names it first to where it names it
last. -/
structure InTurn (ids : List NodeId) (before after : List Event) (span : NodeId → List Event)
    (trace : List Event) : Prop where
  trace_eq : trace = before ++ ids.flatMap span ++ after
  enclosed : ∀ id ∈ ids, Enclosed id (span id)
  twice : ∀ id ∈ ids, visitsIn id trace = 2

variable {before : List Event}

theorem InTurn.perm {after : List Event}
    (h : InTurn ids before after span log) (horder : order.Perm ids)
    (hlog : log' = before ++ order.flatMap span ++ after) : InTurn order before after
    span log' where
  trace_eq := hlog
  enclosed id hid := h.enclosed id (horder.mem_iff.1 hid)
  twice id hid := by
    have hperm : log'.Perm log := by
      rw [hlog, h.trace_eq]
      exact ((horder.flatMap_right span).append_left before).append_right after
    rw [visitsIn_eq_of_perm hperm, h.twice id (horder.mem_iff.1 hid)]

theorem InTurn.errorsIn_eq {after : List Event}
    (h : InTurn ids before after span log) : errorsIn s log =
      errorsIn s before ++ ids.flatMap (fun id => errorsIn s (span id)) ++ errorsIn s after := by
  rw [h.trace_eq, errorsIn_append, errorsIn_append, errorsIn_flatMap]

/-- Trees with the same notes differ in the order of the block only. -/
theorem Relinking.eq_reorder (hw : WellFormed s root) (hb : s.kind? block = some (.compound b))
    (horder : order.Perm (s.siblings b.statements)) {t t' : Store}
    (h : (Relinking.ofOrder hw hb horder).Linked Set.univ t t') : t' = t.reorder block order := by
  refine eq_of_views (fun id => ?_) (fun id => ?_) fun id => ?_
  · by_cases hid : id = block
    · subst hid
      rw [kind?_reorder_block (h.alike.kind?_plain hb rfl)]
      exact h.alike'.kind?_plain (kind?_reorder_block hb) rfl
    · rw [kind?_reorder_of_ne hid, h.kind id trivial hid]
  · by_cases hid : id ∈ order
    · have hlt := Pairing.lt_size_of_mem_order hw hb horder hid
      have hnext : (s.reorder block order).next? id = order[order.idxOf id + 1]? :=
        next?_reorder_of_mem hid hlt
      rw [next?_reorder_of_mem hid (h.alike.size ▸ hlt), ← hnext]
      exact h.alike'.next id
    · rw [next?_reorder_of_notMem hid]
      exact h.next?_eq fun hmem => hid (horder.mem_iff.2 hmem)
  · rw [location_reorder, h.location]

/-- All nodes but the statements of the block keep pace. -/
theorem Pairing.ofOrder_paces (hw : WellFormed s root) (hb : s.kind? block = some (.compound b))
    (horder : order.Perm (s.siblings b.statements)) (htree : Subtree s lo block (.compound b))
    (limit n d : Nat) :
    (ofOrder hw hb horder limit).PacesAll d (tracedUpTo n) (tracedUpTo n) := by
  obtain ⟨first, T, hbelow⟩ := htree.exists_stretches hw.store
  refine tracedUpTo_paces ?_ (fun id _ hid n d V => ?_) n d
  · rintro id hid f _ ⟨⟩
    exact hid
  · rw [Set.mem_singleton_iff.1 hid]
    exact block_paces hw hb horder T hbelow V

/-- Statements are checked independently of one another. If the statements of a block of a parsed
program are linked in another order, then the check finds as many errors as before, if it does not
fail, and leaves the same notes. Both traces are the same, but for the stretch in which the
statements of the block are checked in turn. What happens in the check of each is the same too, and
so are the errors that it reports. -/
theorem Check.visit_reorder {ts : List Token} {limit n : Nat} {diagnostics : Diagnostics}
    {options : CheckOptions} (h : parseTokens ts limit = .ok (s, root))
    (hb : s.kind? block = some (.compound b)) (horder : order.Perm (s.siblings b.statements))
    (hok : Check.visit root (.start s .empty diagnostics options) = .ok n c) :
    (s.reorder block order).kind? block = some (.compound { b with statements := order.head? }) ∧
    (s.reorder block order).siblings order.head? = order ∧
    (Logged.traced root).run = Check.visit root ∧
    ∃ c' before after span,
      Check.visit root (.start (s.reorder block order) .empty diagnostics options) = .ok n c' ∧
      c'.store = c.store.reorder block order ∧
      InTurn (s.siblings b.statements) before after span
        ((Logged.traced root).log (.start s .empty diagnostics options)) ∧
      InTurn order before after span
        ((Logged.traced root).log (.start (s.reorder block order) .empty diagnostics options)) ∧
      c.diagnostics.errors = diagnostics.errors ++ (errorsIn s before ++
        (s.siblings b.statements).flatMap (fun id => errorsIn s (span id)) ++ errorsIn s after) ∧
      c'.diagnostics.errors = diagnostics.errors ++ (errorsIn s before ++
        order.flatMap (fun id => errorsIn s (span id)) ++ errorsIn s after) := by
  have hw := wellFormed_of_parseTokens h
  obtain ⟨P, -, hprogram, -, -⟩ := parseTokens_layout h
  obtain ⟨p, hroot⟩ := hprogram.subtree
  obtain ⟨lo, k, htree⟩ := exists_subtree.1 hroot block (Nat.zero_le block) (hw.le_root hb)
  obtain rfl := Option.some.inj (htree.kind?.symm.trans hb)
  have hvisited : root ∉ s.siblings b.statements := by
    intro hmem
    obtain ⟨k, hk, hstatement⟩ := exists_isStatement hw hb hmem
    obtain rfl := Option.some.inj (hroot.kind?.symm.trans hk)
    cases hstatement
  have hstart : (Pairing.ofOrder hw hb horder options.limit).Abreast 0 []
      (.start s .empty diagnostics options)
        (.start (s.reorder block order) .empty diagnostics options) :=
    ⟨⟨.refl _, .refl _, location_reorder, fun id _ => kind?_reorder_of_ne⟩,
      SymbolTable.holds_nil rfl, SymbolTable.holds_nil rfl, rfl, rfl, rfl, rfl, rfl⟩
  have hvisits : ∀ id ∈ s.siblings b.statements,
      visitsIn id ((traced root).log (.start s .empty diagnostics options)) = 2 := by
    intro id hid
    rw [visitsIn_traced hw.store (SymbolTable.holds_nil rfl) hroot.kind? hok,
      visitsIn_of_covered h rfl rfl hok (covered_of_mem hw hb hid)]
  rw [← run_traced] at hok
  obtain ⟨c', scopes, hok', hend, -, -, hlog⟩ := Pairing.ofOrder_paces hw hb horder
    htree options.limit
    options.limit 0 root hvisited _ hroot.kind? [] _ _ hstart n c hok
  obtain ⟨before, _, _, after, ⟨span, rfl, rfl, hspan⟩, htrace, htrace'⟩ :=
    Relinking.shuffledOnce hlog horder (fun _ hid => hid) hvisits
  have hturn : InTurn (s.siblings b.statements) before after span
      ((traced root).log (.start s .empty diagnostics options)) := ⟨htrace, hspan, hvisits⟩
  have hturn' : InTurn order before after span
      ((traced root).log (.start (s.reorder block order) .empty diagnostics options)) :=
    hturn.perm horder htrace'
  have hstatements : (s.reorder block order).siblings order.head? = order :=
    siblings_reorder (horder.nodup_iff.2 (hw.store.nodup_siblings _)) fun _ =>
      Pairing.lt_size_of_mem_order hw hb horder
  refine ⟨kind?_reorder_block hb, hstatements, run_traced root, c', before, after, span,
    ?_, Relinking.eq_reorder hw hb horder hend.linked, hturn, hturn', ?_, ?_⟩
  · rw [← run_traced]
    exact hok'
  · rw [(tells_of_ok hok).errors]
    exact congrArg (diagnostics.errors ++ ·) hturn.errorsIn_eq
  · rw [(tells_of_ok hok').errors]
    exact congrArg (diagnostics.errors ++ ·) (errorsIn_reorder.trans hturn'.errorsIn_eq)

/-- A block of three statements: a block that declares a variable and puts two strings together, a
statement that uses the name of the variable where it is not declared, and one that adds a truth
value. -/
def blockTokens : List Token :=
  tokensOf ("p; begin begin var x: integer; read x; print \"a\" + \"b\"; end print x; " ++
    "print 1 + true; end end")

/-- With the statements the other way round, the errors are too. -/
theorem Check.visit_reorder_blockTokens : ∃ (s : Store) (root : NodeId) (c c' : Checker)
    (before after : List Event) (span : NodeId → List Event),
    parseTokens blockTokens 9 = .ok (s, root) ∧ s.kind? 21 = some (.compound ⟨none, some 11⟩) ∧
      s.siblings (some 11) = [11, 14, 20] ∧
      Check.visit root (.start s .empty .silent ⟨false, 9⟩) = .ok 2 c ∧
      Check.visit root (.start (s.reorder 21 [20, 14, 11]) .empty .silent ⟨false, 9⟩) = .ok 2 c' ∧
      c'.store = c.store.reorder 21 [20, 14, 11] ∧
      InTurn [11, 14, 20] before after span
        ((Logged.traced root).log (.start s .empty .silent ⟨false, 9⟩)) ∧
      InTurn [20, 14, 11] before after span
        ((Logged.traced root).log (.start (s.reorder 21 [20, 14, 11]) .empty .silent ⟨false, 9⟩)) ∧
      c.diagnostics.errors.map Error.cause =
        [.undeclared "x", .invalidOperands "+" "integer" "boolean"] ∧
      c'.diagnostics.errors.map Error.cause =
        [.invalidOperands "+" "integer" "boolean", .undeclared "x"] := by
  have hrun : ((parseTokens blockTokens 9).toOption.map fun tree =>
      let c := Checker.start tree.1 .empty .silent ⟨false, 9⟩
      let c' := Checker.start (tree.1.reorder 21 [20, 14, 11]) .empty .silent ⟨false, 9⟩
      ((tree.1.kind? 21, tree.1.siblings (some 11)), (Check.ending (Check.visit tree.2 c)).toOption,
        ((Check.visit tree.2).after c).diagnostics.errors.map Error.cause,
        ((Check.visit tree.2).after c').diagnostics.errors.map Error.cause)) =
      some ((some (.compound ⟨none, some 11⟩), [11, 14, 20]), some 2,
        [.undeclared "x", .invalidOperands "+" "integer" "boolean"],
        [.invalidOperands "+" "integer" "boolean", .undeclared "x"]) := by
    rw [blockTokens, ← String.ofList_append, tokensOf_ofList]
    decide +kernel
  obtain ⟨s, root, h, hrun⟩ := exists_parse_of_map hrun
  simp only [Prod.mk.injEq] at hrun
  obtain ⟨⟨hb, hstatements⟩, hcount, herrors, herrors'⟩ := hrun
  obtain ⟨c, hok⟩ := Check.exists_ok_of_ending hcount
  have horder : [20, 14, 11].Perm (s.siblings (some 11)) := by
    rw [hstatements]
    decide
  obtain ⟨-, -, -, c', before, after, span, hok', hstore, hturn, hturn', -, -⟩ :=
    Check.visit_reorder h hb horder hok
  rw [hstatements] at hturn
  rw [Check.after_of_ok hok] at herrors
  rw [Check.after_of_ok hok'] at herrors'
  exact ⟨s, root, c, c', before, after, span, h, hb, hstatements, hok, hok', hstore, hturn, hturn',
    herrors, herrors'⟩

end PLang
