import Mathlib.Algebra.GroupWithZero.Nat
import Mathlib.Data.List.Pairwise
import PLang.Proofs.Reordering.Trace

/-!
# Statements one after another

The trees of some statements take stretches of nodes that do not meet (`Stretches`). What a check
notes in one of them cannot be seen from another one, and a statement declares nothing for those
after it. So every statement is checked as if it came first (`Stretches.each_ok`), in whichever
order they are checked, and the notes are the same in the end (`Stretches.each_paces`).
-/

namespace PLang

open Check Event List Logged Set Store

variable {s t t' : Store} {V W : Set NodeId} {id : NodeId} {e : Event} {log log' : List Event}
  {c c' c1 c1' : Checker}

/-! ### Events at nodes -/

/-- An event takes place at a node of a set. Reports take place anywhere. -/
def Event.HappensIn (V : Set NodeId) (e : Event) : Prop :=
  ∀ key, e.key? = some key → key.place.2 ∈ V

theorem Store.modifyKind_comm {other : NodeId} (h : id ≠ other) (f g : NodeKind → NodeKind) :
    (s.modifyKind id f).modifyKind other g = (s.modifyKind other g).modifyKind id f := by
  refine eq_of_views (fun node => ?_) (fun node => ?_) fun node => ?_
  · simp only [kind?_modifyKind]
    split
    next hother =>
      subst hother
      simp only [if_neg h]
    next => rfl
  · simp only [next?_modifyKind]
  · simp only [location_modifyKind]

namespace Event

/-- An event changes nothing in the tree, or what one node holds. -/
theorem write_cases (he : e.HappensIn V) :
    (∀ t, e.write t = t) ∨ ∃ id ∈ V, ∃ f, ∀ t, e.write t = t.modifyKind id f := by
  cases e with
  | visit | report => exact .inl fun _ => rfl
  | note n =>
    obtain ⟨f, hf⟩ := n.exists_modifyKind
    exact .inr ⟨n.place.2, he (.note n.place) rfl, f, hf⟩

theorem write_comm {e' : Event} (he : e.HappensIn V) (he' : e'.HappensIn W) (hapart : Disjoint V W)
    (t : Store) : e'.write (e.write t) = e.write (e'.write t) := by
  rcases e.write_cases he with hsame | ⟨id, hid, f, hf⟩
  · rw [hsame, hsame]
  rcases e'.write_cases he' with hsame | ⟨other, hother, g, hg⟩
  · rw [hsame, hsame]
  have hne : id ≠ other := fun heq => disjoint_left.1 hapart hid (heq ▸ hother)
  rw [hf, hg, hg, hf, modifyKind_comm hne]

theorem kind?_write_of_notMem (he : e.HappensIn V) (hid : id ∉ V) :
    (e.write t).kind? id = t.kind? id := by
  rcases e.write_cases he with hsame | ⟨other, hother, f, hf⟩
  · rw [hsame]
  · have hne : id ≠ other := fun heq => hid (heq ▸ hother)
    rw [hf, kind?_modifyKind_of_ne hne]

/-- An event makes the same of nodes that hold the same. -/
theorem kind?_write_congr (h : t'.kind? id = t.kind? id) :
    (e.write t').kind? id = (e.write t).kind? id := by
  have he : e.HappensIn univ := fun _ _ => trivial
  rcases e.write_cases he with hsame | ⟨other, -, f, hf⟩
  · rw [hsame, hsame, h]
  · rw [hf, hf, kind?_modifyKind, kind?_modifyKind, h]

theorem next?_write : (e.write t).next? id = t.next? id := by
  have he : e.HappensIn univ := fun _ _ => trivial
  rcases e.write_cases he with hsame | ⟨other, -, f, hf⟩
  · rw [hsame]
  · rw [hf, next?_modifyKind]

end Event

theorem kind?_foldl_write_of_notMem (hlog : ∀ e ∈ log, e.HappensIn V) (hid : id ∉ V) :
    (log.foldl write t).kind? id = t.kind? id := by
  induction log generalizing t with
  | nil => rfl
  | cons e log ih =>
    rw [foldl_cons, ih fun e' he' => hlog e' (mem_cons_of_mem _ he'),
      kind?_write_of_notMem (hlog e (.head _)) hid]

theorem kind?_foldl_write_congr (h : t'.kind? id = t.kind? id) (log : List Event) :
    (log.foldl write t').kind? id = (log.foldl write t).kind? id := by
  induction log generalizing t t' with
  | nil => exact h
  | cons e log ih => exact ih (kind?_write_congr h)

theorem next?_foldl_write (log : List Event) (id : NodeId) :
    (log.foldl write t).next? id = t.next? id := by
  induction log generalizing t with
  | nil => rfl
  | cons e log ih => rw [foldl_cons, ih, next?_write]

theorem chain_foldl_write (log : List Event) (n : Nat) (head : Option NodeId) :
    (log.foldl write t).chain n head = t.chain n head :=
  chain_eq_of_next? fun id _ => next?_foldl_write log id

theorem foldl_write_comm (hlog : ∀ e ∈ log, e.HappensIn V) (hlog' : ∀ e ∈ log', e.HappensIn W)
    (hapart : Disjoint V W) (t : Store) :
    log'.foldl write (log.foldl write t) =
      log.foldl write (log'.foldl write t) := by
  have hone : ∀ e : Event, e.HappensIn V → ∀ t,
      log'.foldl write (e.write t) = e.write (log'.foldl write t) := by
    intro e he t
    induction log' generalizing t with
    | nil => rfl
    | cons e' log' ih =>
      have hfirst := write_comm he (hlog' e' (.head _)) hapart t
      rw [foldl_cons, hfirst, ih fun e'' he'' => hlog' e'' (mem_cons_of_mem _ he''),
        foldl_cons]
  induction log generalizing t with
  | nil => rfl
  | cons e log ih =>
    rw [foldl_cons, ih fun e' he' => hlog e' (mem_cons_of_mem _ he'),
      hone e (hlog e (.head _)), foldl_cons]

/-! ### Lists -/

variable {k : NodeKind}

namespace Logged

variable {α β : Type}

/-- Checks the nodes of a list one after another. -/
def each (visit : NodeId → Logged Nat) : List NodeId → Logged Nat
  | [] => pure 0
  | id :: ids => do
    let found ← visit id
    let more ← each visit ids
    pure (found + more)

/-- Two checks do the same from a state on. -/
def SameAt (c : Checker) (x y : Logged α) : Prop := x.run c = y.run c ∧ x.log c = y.log c

variable {f : α → Logged β}

theorem SameAt.bind {x y : Logged α} {g : α → Logged β} (h : SameAt c x y)
    (hf : ∀ a c1, x.run c = .ok a c1 → SameAt c1 (f a) (g a)) : SameAt c (x >>= f) (y >>= g) := by
  obtain ⟨hrun, hlog⟩ := h
  cases hx : x.run c with
  | ok a c1 =>
    have hy := hrun.symm.trans hx
    obtain ⟨hrun', hlog'⟩ := hf a c1 hx
    refine ⟨?_, by rw [log_bind_of_ok hx, log_bind_of_ok hy, hlog, hlog']⟩
    rw [run_bind, run_bind, bind_of_ok hx, bind_of_ok hy, hrun']
  | error err c1 =>
    have hy := hrun.symm.trans hx
    refine ⟨?_, by rw [log_bind_of_error hx, log_bind_of_error hy, hlog]⟩
    rw [run_bind, run_bind, bind_of_error hx, bind_of_error hy]

theorem SameAt.view {g : Checker → α} {y : Logged β} (h : SameAt c (f (g c)) y) :
    SameAt c (view g >>= f) y := h

theorem sameAt_listUpTo (visit : NodeId → Logged Nat) (n : Nat) (head : Option NodeId)
    (c : Checker) :
    SameAt c (listUpTo visit .reportAll n head) (each visit (c.store.chain n head)) := by
  induction n generalizing head c with
  | zero => exact ⟨rfl, rfl⟩
  | succ n ih =>
    cases head with
    | none => exact ⟨rfl, rfl⟩
    | some id =>
      rw [chain]
      refine SameAt.bind ⟨rfl, rfl⟩ fun found c1 hrun => ?_
      rw [if_neg fun hstop => by cases hstop.2]
      -- checking the first node leaves the links alone
      have hrest := ih (c1.store.next? id) c1
      rw [(tells_of_ok hrun).store, chain_foldl_write, next?_foldl_write] at hrest
      refine SameAt.view (SameAt.bind ?_ fun _ _ _ => ⟨rfl, rfl⟩)
      dsimp only
      rw [(tells_of_ok hrun).store, next?_foldl_write]
      exact hrest

theorem sameAt_list (visit : NodeId → Logged Nat) (head : Option NodeId) (c : Checker) :
    SameAt c (list visit .reportAll head) (each visit (c.store.row head)) :=
  SameAt.view (sameAt_listUpTo visit _ head c)

theorem sameAt_node (visit : NodeId → Logged Nat) (hk : c.store.kind? id = some k) :
    SameAt c (node visit id) (kind visit id k) := by
  refine SameAt.view ?_
  dsimp only
  rw [hk]
  exact ⟨rfl, rfl⟩

end Logged

theorem Pairing.Paces.of_sameAt {α : Type} {P : Pairing s} {d : Nat} {free : Prop}
    {x x' y y' : Logged α} (h : P.Paces d free y y')
    (hsame : ∀ scopes c c', P.Abreast d scopes c c' →
      Logged.SameAt c x y ∧ Logged.SameAt c' x' y') : P.Paces d free x x' := by
  intro scopes c c' hc a c1 hrun
  obtain ⟨⟨hrunEq, hlogEq⟩, hrunEq', hlogEq'⟩ := hsame scopes c c' hc
  rw [hrunEq] at hrun
  rw [hrunEq', hlogEq, hlogEq']
  exact h scopes c c' hc a c1 hrun

/-! ### Checks of some nodes -/

namespace Relinking

variable {R : Relinking s} {limit d n : Nat} {scopes : List (List Symbol)}

/-- A set of nodes with all that stands in their parts. -/
def Closed (R : Relinking s) (V : Set NodeId) : Prop :=
  ∀ id ∈ V, id ∉ R.blocks → ∀ k, s.kind? id = some k → k.isType = false →
    ∀ part ∈ k.parts, ∀ child ∈ s.siblings part.node, child ∈ V

theorem closed_empty : R.Closed ∅ := fun _ hid => hid.elim

/-- The nodes of a set are checked side by side, with the same log. -/
def on (R : Relinking s) (limit : Nat) (hV : R.Closed V) : Pairing s where
  toRelinking := R
  limit := limit
  agreed := V
  visited := V
  Common := Event.HappensIn V
  Differ := fun _ _ => False
  subset := subset_rfl
  parts := hV
  reports := by rintro _ _ _ ⟨⟩
  notes := by
    rintro n hn _ ⟨⟩
    exact hn

variable {hV : R.Closed V}

theorem log_of_rearranged (h : (R.on limit hV).Rearranged log log') :
    log' = log ∧ ∀ e ∈ log, e.HappensIn V := by
  induction h with
  | same hlog => exact ⟨rfl, hlog⟩
  | differ hdiffer => exact hdiffer.elim
  | append _ _ ih ih' =>
    refine ⟨by rw [ih.1, ih'.1], fun e he => ?_⟩
    exact (mem_append.1 he).elim (ih.2 e) (ih'.2 e)

theorem on_paces (hV : R.Closed V) (hblocks : ∀ id ∈ V, id ∉ R.blocks) (n d : Nat) :
    (R.on limit hV).PacesAll d (tracedUpTo n) (tracedUpTo n) := by
  refine Pairing.tracedUpTo_paces ?_ (fun id hid hblock => absurd hblock (hblocks id hid)) n d
  rintro id hid f _ ⟨⟩
  exact hid

/-- What the first check does to other nodes makes no difference. -/
theorem abreast_left {hW : R.Closed W} (h : (R.on limit hV).Abreast d scopes c c')
    (h1 : (R.on limit hW).Abreast d scopes c1 c1') (htells : Tells c log c1)
    (hlog : ∀ e ∈ log, e.HappensIn W) (hapart : Disjoint W V) :
    (R.on limit hV).Abreast d scopes c1 c' where
  linked := {
    alike := h1.linked.alike
    alike' := h.linked.alike'
    location := fun id => by rw [htells.store, location_foldl_write, h.linked.location]
    kind := fun id hid hblock => by
      rw [htells.store, kind?_foldl_write_of_notMem hlog (disjoint_right.1 hapart hid),
        h.linked.kind id hid hblock] }
  symbols := h1.symbols
  symbols' := h.symbols'
  function := h.function.trans htells.function.symm
  depth := h1.depth
  depth' := h.depth'
  limit := h1.limit
  limit' := h.limit'

/-- What the second check does to other nodes makes no difference. -/
theorem abreast_right {hW : R.Closed W} (h : (R.on limit hV).Abreast d scopes c c')
    (h1 : (R.on limit hW).Abreast d scopes c1 c1') (htells : Tells c' log c1')
    (hlog : ∀ e ∈ log, e.HappensIn W) (hapart : Disjoint W V) :
    (R.on limit hV).Abreast d scopes c c1' where
  linked := {
    alike := h.linked.alike
    alike' := h1.linked.alike'
    location := fun id => by rw [htells.store, location_foldl_write, h.linked.location]
    kind := fun id hid hblock => by
      rw [htells.store, kind?_foldl_write_of_notMem hlog (disjoint_right.1 hapart hid),
        h.linked.kind id hid hblock] }
  symbols := h.symbols
  symbols' := h1.symbols'
  function := htells.function.trans h.function
  depth := h.depth
  depth' := h1.depth'
  limit := h.limit
  limit' := h1.limit'

/-- Logs of nodes that are checked one after another, in one order and in another one. -/
def Shuffled (ids order : List NodeId) (log log' : List Event) : Prop :=
  ∃ span : NodeId → List Event, log = ids.flatMap span ∧ log' = order.flatMap span ∧
    ∀ id ∈ ids, Enclosed id (span id)

/-- All nodes but those that have been moved are checked side by side. -/
def shuffling (R : Relinking s) (limit : Nat) (ids order : List NodeId) : Pairing s where
  toRelinking := R
  limit := limit
  agreed := univ
  visited := R.movedᶜ
  Common := Event.HappensIn R.movedᶜ
  Differ := Shuffled ids order
  subset := subset_univ _
  parts := fun id _ hblock k hk _ => R.apart id hblock k hk
  reports := by rintro _ _ _ ⟨⟩
  notes := by
    rintro n hn _ ⟨⟩
    exact hn

/-- Where checks are abreast, they are so as far as the nodes of a set go. -/
theorem abreast_on {ids order : List NodeId}
    (h : (R.shuffling limit ids order).Abreast d scopes c c')
    (hV : R.Closed V) : (R.on limit hV).Abreast d scopes c c' :=
  { h with linked := { h.linked with kind := fun id _ => h.linked.kind id trivial } }

/-- Every state is abreast of itself. -/
theorem abreast_refl {ids order : List NodeId}
    (h : (R.shuffling limit ids order).Abreast d scopes c c')
    (hV : (refl R.store).Closed V) : ((refl R.store).on limit hV).Abreast d scopes c c :=
  ⟨⟨h.linked.alike, h.linked.alike, fun _ => rfl, fun _ _ _ => rfl⟩, h.symbols, h.symbols, rfl,
    h.depth, h.depth, h.limit, h.limit⟩

end Relinking

/-! ### Stretches -/

/-- Every node of a stretch is the root of a tree inside of it. -/
theorem Subtree.exists_inside {lo root : Nat} (h : Subtree s lo root k) {id : Nat}
    (hlo : lo ≤ id) (hle : id ≤ root) : ∃ lo' k', Subtree s lo' id k' ∧ lo ≤ lo' := by
  induction root using Nat.strongRecOn generalizing lo k with
  | ind root ih =>
    rcases Nat.lt_or_eq_of_le hle with hlt | rfl
    · obtain ⟨part, hpart, lo', child, k', hstands, hlo', hle'⟩ := h.exists_standsIn hlo hlt
      obtain ⟨lo'', k'', htree, hle''⟩ := ih child hstands.lt hstands.tree hlo' hle'
      exact ⟨lo'', k'', htree, Nat.le_trans hstands.le hle''⟩
    · exact ⟨lo, k, h, Nat.le_refl lo⟩

theorem Subtree.closed {lo root : Nat} (h : Subtree s lo root k) (R : Relinking s) :
    R.Closed (Set.Icc lo root) := by
  intro id hid _ k' hk' htype part hpart child hchild
  obtain ⟨lo', k'', htree, hlo⟩ := h.exists_inside hid.1 hid.2
  cases htree.kind?.symm.trans hk'
  obtain ⟨first, k1, hstands⟩ := htree.standsIn htype hpart hchild
  exact ⟨Nat.le_trans hlo (Nat.le_trans hstands.le hstands.tree.le),
    Nat.le_trans (Nat.le_of_lt hstands.lt) hid.2⟩

/-- Nodes that declare nothing, in trees that take stretches which do not meet. -/
structure Stretches (s : Store) (first : NodeId → Nat) (ids : List NodeId) : Prop where
  nodup : ids.Nodup
  tree : ∀ id ∈ ids, ∃ k, Subtree s (first id) id k ∧ k.isDeclaring = false
  pairwise : ids.Pairwise fun id other =>
    Disjoint (Set.Icc (first id) id) (Set.Icc (first other) other)

namespace Stretches

variable {first : NodeId → Nat} {ids rest order : List NodeId} (T : Stretches s first ids)
  {R : Relinking s} (hbelow : ∀ id ∈ ids, ∀ block ∈ R.blocks, id < block)
  {limit d n m : Nat} {scopes : List (List Symbol)}

include T

theorem closed (R : Relinking s) (hid : id ∈ ids) : R.Closed (Set.Icc (first id) id) := by
  obtain ⟨k, htree, -⟩ := T.tree id hid
  exact htree.closed R

theorem apart {other : NodeId} (hid : id ∈ ids) (hother : other ∈ ids) (hne : id ≠ other) :
    Disjoint (Set.Icc (first id) id) (Set.Icc (first other) other) := by
  have hsymm : Std.Symm fun id other : NodeId =>
      Disjoint (Set.Icc (first id) id) (Set.Icc (first other) other) := ⟨fun _ _ h => h.symm⟩
  exact T.pairwise.forall hid hother hne

/-- Logs of statements write the same in any order. -/
theorem foldl_write_eq {span : NodeId → List Event}
    (hspan : ∀ id ∈ ids, ∀ e ∈ span id, e.HappensIn (Set.Icc (first id) id))
    (horder : order.Perm ids)
    (t : Store) :
    (order.flatMap span).foldl write t = (ids.flatMap span).foldl write t := by
  rw [foldl_flatMap, foldl_flatMap]
  refine horder.foldl_eq' (fun id hid other hother t => ?_) t
  rw [horder.mem_iff] at hid hother
  by_cases heq : id = other
  · rw [heq]
  · exact foldl_write_comm (hspan id hid) (hspan other hother) (T.apart hid hother heq) t

include hbelow

/-- A statement is checked in the same way where the checks are abreast as far as it goes. -/
theorem step (hid : id ∈ ids) (h : (R.on limit (T.closed R hid)).Abreast d scopes c c')
    (hrun : (tracedUpTo n id).run c = .ok m c1) :
    ∃ c1', (tracedUpTo n id).run c' = .ok m c1' ∧
      (R.on limit (T.closed R hid)).Abreast d scopes c1 c1' ∧
      (tracedUpTo n id).log c' = (tracedUpTo n id).log c ∧
      ∀ e ∈ (tracedUpTo n id).log c, e.HappensIn (Set.Icc (first id) id) := by
  obtain ⟨k, htree, hdeclaring⟩ := T.tree id hid
  have hblocks : ∀ other ∈ Set.Icc (first id) id, other ∉ R.blocks := fun other hother hblock =>
    absurd (hbelow id hid other hblock) (Nat.not_lt.2 hother.2)
  have hself : id ∈ Set.Icc (first id) id := ⟨htree.le, Nat.le_refl id⟩
  obtain ⟨c1', scopes1, hrun', hc1, -, hscopes, hlog⟩ :=
    R.on_paces (T.closed R hid) hblocks n d id hself k htree.kind? scopes c c' h m c1 hrun
  rw [hdeclaring] at hscopes
  obtain rfl := hscopes.resolve_left Bool.false_ne_true
  exact ⟨c1', hrun', hc1, Relinking.log_of_rearranged hlog⟩

/-- If statements are checked one after another without failing, then each one could come first. -/
theorem exists_ok (hrest : ∀ id ∈ rest, id ∈ ids) (hnodup : rest.Nodup)
    (h : ∀ id (hid : id ∈ ids), id ∈ rest → (R.on limit (T.closed R hid)).Abreast d scopes c c')
    (hrun : (each (tracedUpTo n) rest).run c = .ok m c1) :
    ∀ id ∈ rest, ∃ found c1', (tracedUpTo n id).run c' = .ok found c1' := by
  induction rest generalizing c m c1 with
  | nil => exact forall_mem_nil _
  | cons id rest ih =>
    obtain ⟨found, c2, hfirst, hmore⟩ := ok_of_bind hrun
    obtain ⟨more, c3, hnext, -⟩ := ok_of_bind hmore
    have hid := hrest id (.head _)
    obtain ⟨c1', hfirst', hc2, -, hin⟩ := T.step hbelow hid (h id hid (.head _)) hfirst
    refine forall_mem_cons.2 ⟨⟨found, c1', hfirst'⟩, ?_⟩
    refine ih (fun other hother => hrest other (.tail _ hother))
      (nodup_cons.1 hnodup).2 (fun other hother hmem => ?_) hnext
    have hne : id ≠ other := fun heq => (nodup_cons.1 hnodup).1 (heq ▸ hmem)
    exact Relinking.abreast_left (h other hother (.tail _ hmem)) hc2
      (tells_of_ok hfirst) hin (T.apart hid hother hne)

/-- If statements are checked without failing from one state each, they can be checked one after
another, and every one of them has the log that it has from this state. -/
theorem each_ok {found : NodeId → Nat} (hrest : ∀ id ∈ rest, id ∈ ids) (hnodup : rest.Nodup)
    (hok : ∀ id ∈ rest, ∃ c1, (tracedUpTo n id).run c = .ok (found id) c1)
    (hbase : (R.on limit R.closed_empty).Abreast d scopes c c')
    (h : ∀ id (hid : id ∈ ids), id ∈ rest → (R.on limit (T.closed R hid)).Abreast d scopes c c') :
    ∃ c1', (each (tracedUpTo n) rest).run c' = .ok (rest.map found).sum c1' ∧
      (each (tracedUpTo n) rest).log c' =
        rest.flatMap (fun id => (tracedUpTo n id).log c) ∧
      (R.on limit R.closed_empty).Abreast d scopes c c1' := by
  induction rest generalizing c' with
  | nil => exact ⟨c', rfl, rfl, hbase⟩
  | cons id rest ih =>
    have hid := hrest id (.head _)
    obtain ⟨c1, hfirst⟩ := hok id (.head _)
    obtain ⟨c2, hfirst', hc2, hlog, hin⟩ := T.step hbelow hid (h id hid (.head _)) hfirst
    have htells := tells_of_ok hfirst'
    rw [hlog] at htells
    obtain ⟨c1', hmore, hmoreLog, hend⟩ := ih
      (fun other hother => hrest other (.tail _ hother)) (nodup_cons.1 hnodup).2
      (fun other hother => hok other (.tail _ hother))
      (Relinking.abreast_right hbase hc2 htells hin (disjoint_empty _))
      fun other hother hmem => by
        have hne : id ≠ other := fun heq => (nodup_cons.1 hnodup).1 (heq ▸ hmem)
        exact Relinking.abreast_right (h other hother (.tail _ hmem)) hc2 htells hin
          (T.apart hid hother hne)
    refine ⟨c1', ?_, ?_, hend⟩
    · show ((tracedUpTo n id).run >>= _) c' = _
      rw [bind_of_ok hfirst']
      show ((each (tracedUpTo n) rest).run >>= _) c2 = _
      rw [bind_of_ok hmore]
      rfl
    · show (tracedUpTo n id >>= _).log c' = _
      rw [log_bind_of_ok hfirst', log_bind_of_ok hmore, hmoreLog, hlog, flatMap_cons]
      exact congrArg _ (append_nil _)

/-- Statements can be checked in any order. -/
theorem each_paces (horder : order.Perm ids) (n d : Nat) :
    (R.shuffling limit ids order).Paces d False (each (tracedUpTo n) ids)
      (each (tracedUpTo n) order) := by
  intro scopes c c' hc m c1 hrun
  have hnone : ∀ id ∈ ids, ∀ block ∈ (Relinking.refl R.store).blocks, id < block :=
    fun _ _ _ hblock => hblock.elim
  have hself := fun V (hV : (Relinking.refl R.store).Closed V) => Relinking.abreast_refl hc hV
  have hsome : Nonempty Checker := ⟨c⟩
  -- every statement is checked from the state before the first one
  have hok := T.exists_ok hnone (fun _ hid => hid) T.nodup
    (fun id hid _ => hself _ (T.closed _ hid)) hrun
  choose! found last hfound using hok
  have hfound' : ∀ id ∈ ids, ∃ c1, (tracedUpTo n id).run c = .ok (found id) c1 :=
    fun id hid => ⟨last id, hfound id hid⟩
  obtain ⟨c2, hrun2, hlog, hend⟩ := T.each_ok hnone (fun _ hid => hid) T.nodup hfound'
    (hself _ Relinking.closed_empty) fun id hid _ => hself _ (T.closed _ hid)
  obtain ⟨rfl, rfl⟩ := EStateM.Result.ok.inj (hrun.symm.trans hrun2)
  obtain ⟨c1', hrun', hlog', hend'⟩ := T.each_ok hbelow (fun id hid => horder.mem_iff.1 hid)
    (horder.nodup_iff.2 T.nodup) (fun id hid => hfound' id (horder.mem_iff.1 hid))
    (Relinking.abreast_on hc Relinking.closed_empty) fun id hid _ =>
      Relinking.abreast_on hc (T.closed R hid)
  have htells := tells_of_ok hrun
  have htells' := tells_of_ok hrun'
  rw [hlog] at htells
  rw [hlog'] at htells'
  have hspan : ∀ id ∈ ids, ∀ e ∈ (tracedUpTo n id).log c,
      e.HappensIn (Set.Icc (first id) id) := by
    intro id hid
    obtain ⟨_, -, -, -, hin⟩ := T.step hnone hid (hself _ (T.closed _ hid)) (hfound id hid)
    exact hin
  have hlinked : R.Linked univ c1.store c1'.store := by
    refine ⟨hend.linked.alike', hend'.linked.alike', fun id => ?_, fun id hid hblock => ?_⟩
    · rw [htells'.store, htells.store, location_foldl_write, location_foldl_write,
        hc.linked.location]
    · rw [htells'.store, htells.store, T.foldl_write_eq hspan horder]
      exact kind?_foldl_write_congr (hc.linked.kind id hid hblock) _
  refine ⟨c1', scopes, ?_, ?_, rfl, .inr rfl, .differ ⟨_, hlog, hlog', ?_⟩⟩
  · rw [hrun', (horder.map found).sum_nat]
  · exact ⟨hlinked, hend.symbols', hend'.symbols',
      htells'.function.trans (hc.function.trans htells.function.symm), hend.depth', hend'.depth',
      hend.limit', hend'.limit'⟩
  · exact fun id hid => enclosed_tracedUpTo (hfound id hid)

end Stretches

end PLang
