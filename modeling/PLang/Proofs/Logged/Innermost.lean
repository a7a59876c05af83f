import Mathlib.Data.List.Permutation
import PLang.Proofs.Logged.Frame
import PLang.Proofs.Scoping.Lexical
import PLang.Proofs.Tree.Under

/-!
# Errors are reported at innermost nodes

A check goes on from the parts of a node to the node itself only if it has found nothing in the
parts. So of two nodes at which errors are reported in one statement, neither is in the tree of the
other one (`Store.Apart`). The proof keeps count: a check returns the number of its reports, and
what it reports is in its own stretch of nodes (`SparseAt`). Stretches that do not meet are apart.
-/

namespace PLang

open List Logged NodeKind

variable {s : Store} {lo hi lo' hi' id root m n : Nat} {k : NodeKind} {c c1 : Checker}
  {N N' : NodeId → Prop} {x y : Logged Nat}

variable {cause : Cause} {α : Type}

/-! ### Reports -/

/-- The node at which an error is reported. -/
def Event.blamed? : Event → Option NodeId
  | report _ node => some node
  | _ => none

/-- The nodes at which a log reports errors, in order. -/
def blamedIn (log : List Event) : List NodeId := log.filterMap Event.blamed?

@[simp]
theorem blamedIn_append (log log' : List Event) :
    blamedIn (log ++ log') = blamedIn log ++ blamedIn log' := filterMap_append

/-- Neither of two nodes is in the tree of the other one. -/
def Store.Apart (s : Store) (id other : NodeId) : Prop := ¬s.Under id other ∧ ¬s.Under other id

/-- A node has its tree in a stretch, and it is no dimension. -/
def Store.Sits (s : Store) (lo hi id : Nat) : Prop :=
  ∃ lo' k, Subtree s lo' id k ∧ lo ≤ lo' ∧ id < hi ∧ k.isNumber = false

theorem Store.Sits.mono (h : s.Sits lo hi id) (hlo : lo' ≤ lo) (hhi : hi ≤ hi') :
    s.Sits lo' hi' id := by
  obtain ⟨first, k, htree, hfirst, hid, hnumber⟩ := h
  exact ⟨first, k, htree, Nat.le_trans hlo hfirst, Nat.lt_of_lt_of_le hid hhi, hnumber⟩

theorem Subtree.sits (h : Subtree s lo id k) (hnumber : k.isNumber = false) :
    s.Sits lo (id + 1) id :=
  ⟨lo, k, h, Nat.le_refl lo, Nat.lt_succ_self id, hnumber⟩

/-- Trees in stretches that do not meet are apart. -/
theorem Store.Sits.apart (hs : StoreOk s) {other : Nat} (h : s.Sits lo hi id)
    (h' : s.Sits lo' hi' other) (hdisjoint : hi ≤ lo' ∨ hi' ≤ lo) : s.Apart id other := by
  obtain ⟨first, k, htree, hfirst, hid, hnumber⟩ := h
  obtain ⟨first', k', htree', hfirst', hother, hnumber'⟩ := h'
  have hle := htree.le
  have hle' := htree'.le
  have hnot : ∀ {id : Nat} {lo : Nat} {k : NodeKind}, Subtree s lo id k → k.isNumber = false →
      ∀ n, s.kind? id ≠ some (.number n) := by
    intro id lo k htree hnumber n hn
    cases htree.kind?.symm.trans hn
    cases hnumber
  constructor
  · intro hunder
    have hbetween := hunder.between hs htree (hnot htree' hnumber')
    omega
  · intro hunder
    have hbetween := hunder.between hs htree' (hnot htree hnumber)
    omega

/-- Two parts are in stretches that do not meet. -/
theorem Tiling.pair {first second : Part} {parts : List Part} (h : Tiling s lo hi parts)
    (hperm : parts.Perm [first, second]) :
    ∃ a b a' b', Row s a b first.slot first.fits first.node ∧
      Row s a' b' second.slot second.fits second.node ∧ (lo ≤ a ∧ b ≤ hi) ∧ (lo ≤ a' ∧ b' ≤ hi) ∧
      (b ≤ a' ∨ b' ≤ a) := by
  rcases perm_pair.1 hperm with rfl | rfl
  · cases h with
    | @cons _ mid _ _ _ hrow h =>
      cases h with
      | cons hrow' h =>
        cases h
        exact ⟨lo, mid, mid, hi, hrow, hrow', ⟨Nat.le_refl lo, hrow'.le⟩, ⟨hrow.le, Nat.le_refl hi⟩,
          .inl (Nat.le_refl mid)⟩
  · cases h with
    | @cons _ mid _ _ _ hrow h =>
      cases h with
      | cons hrow' h =>
        cases h
        exact ⟨mid, hi, lo, mid, hrow', hrow, ⟨hrow.le, Nat.le_refl hi⟩, ⟨Nat.le_refl lo, hrow'.le⟩,
          .inr (Nat.le_refl mid)⟩

/-- A single part takes all nodes before the root. -/
theorem Subtree.row {part : Part} (h : Subtree s lo id k) (hk : k.isType = false)
    (hparts : k.parts = [part]) : Row s lo id part.slot part.fits part.node := by
  cases h with
  | copy => cases hk
  | node hkind hcomplete hperm htiling =>
    rw [hparts] at hperm
    obtain rfl := perm_singleton.1 hperm
    cases htiling with
    | cons hrow htiling =>
      cases htiling
      exact hrow

/-! ### Sparse reports -/

/-- In a state of the checker, a check reports errors at some of the nodes in `N`. These nodes are
apart, and the check counts them, starting with `m`. -/
structure SparseAt (s : Store) (N : NodeId → Prop) (m : Nat) (x : Logged Nat)
    (c : Checker) : Prop where
  mem : ∀ id ∈ blamedIn (x.log c), N id
  apart : (blamedIn (x.log c)).Pairwise s.Apart
  count : ∀ n c', x.run c = .ok n c' → n = m + (blamedIn (x.log c)).length

/-- The same in all states with the tree, whatever has been noted in it. -/
def Sparse (s : Store) (N : NodeId → Prop) (x : Logged Nat) : Prop :=
  ∀ c, Alike s c.store → SparseAt s N 0 x c

/-- A check makes nothing but notes in the tree. -/
def KeepsTree {α : Type} (x : Logged α) : Prop := ∀ c, Alike c.store (Check.reached (x.run c)).store

theorem KeepsTree.of_obeys {x : Logged α}
    (h : ∀ c : Checker, ∃ keys own sites, ObeysAt c.store keys own sites x c) : KeepsTree x := by
  intro c
  obtain ⟨keys, own, sites, hobeys⟩ := h c
  rw [(x.tells c).store]
  exact ((Annotated.refl c.store).writeAll hobeys.sound).alike

/-- Returning a sum logs nothing. -/
theorem Logged.log_plus (x : Logged Nat) (m : Nat) (c : Checker) :
    (do let n ← x; pure (m + n) : Logged Nat).log c = x.log c := by
  have hnone : logAfter (fun n => (pure (m + n) : Logged Nat)) (x.run c) = [] := by
    cases x.run c <;> rfl
  have hlog : (do let n ← x; pure (m + n) : Logged Nat).log c =
      x.log c ++ logAfter (fun n => pure (m + n)) (x.run c) := rfl
  rw [hlog, hnone, append_nil]

namespace SparseAt

theorem mono (h : SparseAt s N m x c) (hN : ∀ id, N id → N' id) : SparseAt s N' m x c :=
  ⟨fun id hid => hN id (h.mem id hid), h.apart, h.count⟩

theorem pure (m : Nat) : SparseAt s N m (Pure.pure m) c where
  mem := by simp [blamedIn, Pure.pure]
  apart := .nil
  count := by
    rintro n c' ⟨⟩
    rfl

theorem report (h : N id) : SparseAt s N 0 (Logged.report cause id) c := by
  refine ⟨?_, List.pairwise_singleton _ _, ?_⟩
  · intro other hother
    rwa [List.mem_singleton.1 hother]
  · rintro n c' ⟨⟩
    rfl

theorem look {p : Checker → α} {g : α → Logged Nat} (h : SparseAt s N m (g (p c)) c) :
    SparseAt s N m (view p >>= g) c :=
  ⟨h.mem, h.apart, h.count⟩

theorem note {note : Note} {g : Unit → Logged Nat}
    (h : SparseAt s N m (g ()) { c with store := note.apply c.store }) :
    SparseAt s N m (Logged.note note >>= g) c :=
  ⟨h.mem, h.apart, h.count⟩

/-- What comes after a check. -/
theorem bind {g : Nat → Logged Nat} (hx : SparseAt s N m x c)
    (hg : ∀ n c1, x.run c = .ok n c1 → SparseAt s N n (g n) c1 ∧
      ∀ id ∈ blamedIn (x.log c), ∀ other ∈ blamedIn ((g n).log c1), s.Apart id other) :
    SparseAt s N m (x >>= g) c := by
  cases hx' : x.run c with
  | error e c1 =>
    have hlog := log_bind_of_error (f := g) hx'
    refine ⟨hlog ▸ hx.mem, hlog ▸ hx.apart, fun n c' hok => ?_⟩
    cases (Check.bind_of_error hx').symm.trans hok
  | ok n c1 =>
    have hlog := log_bind_of_ok (f := g) hx'
    obtain ⟨hrest, hapart⟩ := hg n c1 hx'
    refine ⟨?_, ?_, fun n' c' hok => ?_⟩
    · rw [hlog, blamedIn_append]
      intro id hid
      exact (mem_append.1 hid).elim (hx.mem id) (hrest.mem id)
    · rw [hlog, blamedIn_append, pairwise_append]
      exact ⟨hx.apart, hrest.apart, hapart⟩
    · have hcount := hx.count n c1 hx'
      have hcount' := hrest.count n' c' ((Check.bind_of_ok hx').symm.trans hok)
      rw [hlog, blamedIn_append, length_append]
      omega

/-- The sum of what has been found before and of what a check finds. -/
theorem plus (h : SparseAt s N 0 x c) (m : Nat) :
    SparseAt s N m (do let n ← x; Pure.pure (m + n)) c := by
  have hlog := log_plus x m c
  refine ⟨hlog ▸ h.mem, hlog ▸ h.apart, fun n' c' hok => ?_⟩
  obtain ⟨n, c1, hrun, hsum⟩ := Check.ok_of_bind (x := x.run) hok
  cases hsum
  rw [hlog, h.count n c' hrun, Nat.zero_add]

theorem deeper (h : SparseAt s N m x { c with depth := c.depth + 1 }) :
    SparseAt s N m (deeper x) c := by
  refine ⟨h.mem, h.apart, fun n c' hok => ?_⟩
  obtain ⟨c1, hrun, -⟩ := Check.ok_of_endIn ((congrFun (Check.deeper_eq x.run) c).symm.trans hok)
  exact h.count n c1 hrun

theorem enter (h : SparseAt s N m x c) : SparseAt s N m (do Logged.enter id; x) c :=
  ⟨h.mem, h.apart, h.count⟩

end SparseAt

namespace Sparse

theorem mono (h : Sparse s N x) (hN : ∀ id, N id → N' id) : Sparse s N' x :=
  fun c hc => (h c hc).mono hN

theorem done : Sparse s N (Pure.pure 0) := fun _ _ => .pure 0

theorem report (h : N id) : Sparse s N (report cause id) :=
  fun _ _ => .report h

theorem look {p : Checker → α} {g : α → Logged Nat} (h : ∀ a, Sparse s N (g a)) :
    Sparse s N (view p >>= g) :=
  fun c hc => .look (h (p c) c hc)

theorem ite {p : Prop} [Decidable p] (hx : Sparse s N x) (hy : Sparse s N y) :
    Sparse s N (if p then x else y) := by
  split
  · exact hx
  · exact hy

/-- A note of a type. -/
theorem note {note : Note} (halike : ∀ t, Alike t (note.apply t)) (hx : Sparse s N x) :
    Sparse s N (do Logged.note note; x) :=
  fun c hc => .note (hx _ (hc.trans (halike c.store)))

/-- The second check is only made if the first one reports nothing. -/
theorem andThen (hx : Sparse s N x) (hkeeps : KeepsTree x) (hy : Sparse s N y) :
    Sparse s N (andThen x y) := by
  intro c hc
  refine (hx c hc).bind fun n c1 hrun => ?_
  have hcount := (hx c hc).count n c1 hrun
  have hc1 := hkeeps c
  rw [hrun] at hc1
  by_cases hzero : n = 0
  · subst hzero
    have hnone : blamedIn (x.log c) = [] := length_eq_zero_iff.1 (by omega)
    rw [if_pos rfl, hnone]
    exact ⟨hy c1 (hc.trans hc1), by simp⟩
  · rw [if_neg hzero]
    exact ⟨.pure n, by simp [blamedIn, Pure.pure]⟩

/-- Two checks, the nodes of which are apart. -/
theorem add {M : NodeId → Prop} (hx : Sparse s N x) (hkeeps : KeepsTree x) (hy : Sparse s N' y)
    (hapart : ∀ id other, N id → N' other → s.Apart id other) (hN : ∀ id, N id → M id)
    (hN' : ∀ id, N' id → M id) : Sparse s M (do let m ← x; let n ← y; Pure.pure (m + n)) := by
  intro c hc
  refine ((hx c hc).mono hN).bind fun m c1 hrun => ?_
  have hc1 := hkeeps c
  rw [hrun] at hc1
  have hy1 := hy c1 (hc.trans hc1)
  refine ⟨(hy1.mono hN').plus m, fun id hid other hother => ?_⟩
  rw [log_plus] at hother
  exact hapart id other ((hx c hc).mem id hid) (hy1.mem other hother)

/-! ### Rows of trees -/

section Rows

variable {visit : NodeId → Logged Nat} {slot : Slot} {fits : NodeKind → Bool} {head : Option NodeId}
  (hs : StoreOk s) (hkeeps : ∀ id, KeepsTree (visit id))
  (hvisit : ∀ lo id k, Subtree s lo id k → fits k = true → Sparse s (s.Sits lo (id + 1)) (visit id))

include hvisit

theorem optional (hrow : Row s lo hi slot fits head) :
    Sparse s (s.Sits lo hi) (optional visit head) := by
  cases hrow with
  | nil => exact .done
  | cons htree hfits _ _ hrow =>
    exact (hvisit _ _ _ htree hfits).mono fun id hid => hid.mono (Nat.le_refl lo) hrow.le

include hs hkeeps

theorem listUpTo (hrow : Row s lo hi slot fits head) (policy : ListPolicy) (n : Nat) :
    Sparse s (s.Sits lo hi) (listUpTo visit policy n head) := by
  induction n generalizing lo head with
  | zero => exact .done
  | succ n ih =>
    cases hrow with
    | nil => exact .done
    | @cons _ _ first _ _ _ k htree hfits hnext _ hrow =>
      intro c hc
      have hfirst := hvisit _ _ _ htree hfits c hc
      have hle := htree.le
      refine (hfirst.mono fun id hid => hid.mono (Nat.le_refl lo) hrow.le).bind fun m c1 hrun => ?_
      have hc1 := hkeeps first c
      rw [hrun] at hc1
      by_cases hstop : m > 0 ∧ policy = .stopAtFirst
      · rw [if_pos hstop]
        exact ⟨.pure m, by simp [blamedIn, Pure.pure]⟩
      · rw [if_neg hstop]
        have hmore := ih hrow c1 (hc.trans hc1)
        have hnext' : c1.store.next? first = _ := ((hc.trans hc1).next first).trans hnext
        refine ⟨.look ?_, fun id hid other hother => ?_⟩
        · dsimp only
          rw [hnext']
          exact (hmore.mono fun id hid => hid.mono (by omega) (Nat.le_refl hi)).plus m
        · have hlog : (Logged.inStore (fun s => s.next? first) >>= fun next => do
              let more ← Logged.listUpTo visit policy n next
              Pure.pure (m + more)).log c1 = (listUpTo visit policy n
                (c1.store.next? first)).log c1 := log_plus _ m c1
          rw [hlog, hnext'] at hother
          exact (hfirst.mem id hid).apart hs (hmore.mem other hother) (.inl .refl)

theorem list (hrow : Row s lo hi slot fits head) (policy : ListPolicy) :
    Sparse s (s.Sits lo hi) (list visit policy head) :=
  .look fun _ => listUpTo hs hkeeps hvisit hrow policy _

end Rows

end Sparse

/-! ### Terms -/

/-- Statements without other statements in them. -/
def NodeKind.isSimple : NodeKind → Bool
  | print _ | assign _ _ | read _ | returnValue _ | call _ => true
  | _ => false

namespace Logged

/-- An operator is reported at its own node. -/
theorem sparseAt_operator (e : ExpressionNode) (h : N id) : SparseAt s N 0 (operator id e) c := by
  have hresult : ∀ meant type, ∀ c, SparseAt s N 0 (operatorResult id e meant type) c := by
    intro meant type c
    cases type with
    | none => exact .look (.report h)
    | some type => exact .note (.pure 0)
  refine .look (.look ?_)
  dsimp only
  split
  · exact .note (hresult _ _ _)
  · exact hresult _ _ _

theorem sparse_resolved (e : ExpressionNode) (h : N id) : Sparse s N (resolved id e) := by
  intro c _
  unfold resolved
  split
  · exact .look (.note (.pure 0))
  · exact sparseAt_operator e h

theorem sparse_subscripted (r : ReferenceNode) (symbol : Symbol) (h : N id) :
    Sparse s N (subscripted id r symbol) := by
  intro c _
  refine .look (.look ?_)
  dsimp only
  split
  · exact .report h
  · exact .note (.pure 0)

/-- Arguments are reported at their own nodes, and one at most. -/
theorem sparse_passed (pairs : List (NodeId × NodeId)) (h : ∀ pair ∈ pairs, N pair.1) :
    Sparse s N (passed pairs) := by
  induction pairs with
  | nil => exact .done
  | cons pair pairs ih =>
    have hrest := ih fun other hother => h other (.tail _ hother)
    refine .look fun type => ?_
    cases type with
    | none => exact hrest
    | some type => exact .look fun passes => .ite hrest (.look fun _ => .report (h pair (.head _)))

theorem sparse_passing (node : CallNode) (symbol : Symbol) (h : N id)
    (harguments : ∀ argument ∈ s.siblings node.arguments, N argument) :
    Sparse s N (passing id node symbol) := by
  intro c hc
  refine .look (.look ?_)
  dsimp only
  split
  · refine sparse_passed _ (fun pair hpair => harguments pair.1 ?_) c hc
    rw [← hc.siblings_eq]
    exact (of_mem_zip hpair).1
  · exact .report h

/-- A way of checking nodes reports terms sparsely. -/
structure Careful (s : Store) (visit : NodeId → Logged Nat) : Prop where
  scheduled : ∃ n, ∀ t, Scheduled t n visit
  terms : ∀ lo id k, Subtree s lo id k → k.isValue = true → Sparse s (s.Sits lo (id + 1)) (visit id)

namespace Careful

variable {visit : NodeId → Logged Nat} (V : Careful s visit)

include V

theorem keeps (id : NodeId) : KeepsTree (visit id) := by
  obtain ⟨n, hvisit⟩ := V.scheduled
  exact .of_obeys fun c => ⟨_, _, _, hvisit c.store id c.function c (.refl _) rfl⟩

theorem keeps_optional (head : Option NodeId) : KeepsTree (optional visit head) := by
  cases head with
  | none => exact fun c => .refl c.store
  | some id => exact V.keeps id

theorem keeps_index (id : NodeId) : KeepsTree (index visit id) := by
  obtain ⟨n, hvisit⟩ := V.scheduled
  exact .of_obeys fun c => ⟨_, _, _, obeys_index (hvisit c.store) id c (.refl _) rfl⟩

theorem keeps_indices (head : Option NodeId) : KeepsTree (list (index visit) .reportAll head) := by
  obtain ⟨n, hvisit⟩ := V.scheduled
  exact .of_obeys fun c =>
    ⟨_, _, _, Obeys.list (fun id => obeys_index (hvisit c.store) id) head c (.refl _) rfl⟩

theorem keeps_arguments (head : Option NodeId) : KeepsTree (list visit .stopAtFirst head) := by
  obtain ⟨n, hvisit⟩ := V.scheduled
  exact .of_obeys fun c =>
    ⟨_, _, _, Obeys.listToFirst (fun id => hvisit c.store id c.function) head c (.refl _) rfl⟩

/-- An expression in a part of a node. -/
theorem part (h : Subtree s lo root k) (hk : k.isType = false) {part : Part}
    (hpart : part ∈ k.parts)
    (hfits : ∀ k', part.fits k' = true → k'.isValue = true) (hnode : part.node = some id) :
    Sparse s (s.Sits lo (root + 1)) (visit id) ∧ s.Sits lo (root + 1) id := by
  have hid : id ∈ s.chain 1 part.node := by
    rw [hnode]
    exact .head _
  obtain ⟨lo', k', hstands⟩ := h.standsIn hk hpart hid
  have hterm := hfits k' hstands.fits
  have hlt := hstands.lt
  have hmono : ∀ other, s.Sits lo' (id + 1) other → s.Sits lo (root + 1) other :=
    fun other hother => hother.mono hstands.le (by omega)
  refine ⟨(V.terms lo' id k' hstands.tree hterm).mono hmono, hmono id (hstands.tree.sits ?_)⟩
  cases k' <;> first | rfl | cases hterm

/-- The operands are apart. -/
theorem operands {e e' : ExpressionNode} (hs : StoreOk s) (h : Subtree s lo id (.expression e))
    (hleft : e'.left = e.left) (hright : e'.right = e.right) :
    Sparse s (s.Sits lo (id + 1)) (Logged.operands visit e') := by
  have hpart : ∀ part ∈ (NodeKind.expression e).parts, ∀ a b,
      Row s a b part.slot part.fits part.node → Sparse s (s.Sits a b) (optional visit part.node) :=
    fun part hpart a b => Sparse.optional fun lo' id' k' htree hfits =>
      V.terms lo' id' k' htree (NodeKind.isValue_of_fits rfl hpart hfits)
  rw [Logged.operands, hleft, hright]
  cases h with
  | node hkind hcomplete hperm htiling =>
    obtain ⟨a, b, a', b', hrow, hrow', hin, hin', hdisjoint⟩ := htiling.pair hperm
    exact (hpart _ (.head _) a b hrow).add (V.keeps_optional _)
      (hpart _ (.tail _ (.head _)) a' b' hrow')
      (fun _ _ hleft hright => hleft.apart hs hright hdisjoint)
      (fun _ hleft => hleft.mono hin.1 (Nat.le_succ_of_le hin.2))
      fun _ hright => hright.mono hin'.1 (Nat.le_succ_of_le hin'.2)

theorem expression {e e' : ExpressionNode} (hs : StoreOk s) (h : Subtree s lo id (.expression e))
    (hleft : e'.left = e.left) (hright : e'.right = e.right) :
    Sparse s (s.Sits lo (id + 1)) (expression visit id e') := by
  refine (V.operands hs h hleft hright).andThen ?_ (sparse_resolved e' (h.sits rfl))
  obtain ⟨n, hvisit⟩ := V.scheduled
  exact .of_obeys fun c => ⟨_, _, _, obeys_operands (hvisit c.store) e' c (.refl _) rfl⟩

/-- A term, and a comparison that is reported at the same node. -/
theorem compared {p : Checker → α} {q : α → Prop} [DecidablePred q] (h : Subtree s lo id k)
    (hk : k.isValue = true) :
    Sparse s (s.Sits lo (id + 1)) (andThen (visit id) do
      if q (← view p) then pure 0 else report cause id) := by
  have hself : s.Sits lo (id + 1) id := h.sits (by cases k <;> first | rfl | cases hk)
  exact (V.terms lo id k h hk).andThen (V.keeps id) (.look fun _ => .ite .done (.report hself))

theorem reference {r r' : ReferenceNode} (hs : StoreOk s) (h : Subtree s lo id (.reference r))
    (hindices : r'.indices = r.indices) :
    Sparse s (s.Sits lo (id + 1)) (reference visit id r') := by
  have hself : s.Sits lo (id + 1) id := h.sits rfl
  refine .look fun symbol => ?_
  cases symbol with
  | none => exact .report hself
  | some symbol =>
    refine .ite (Sparse.andThen ?_ (V.keeps_indices _) (sparse_subscripted r' symbol hself))
      (.report hself)
    rw [hindices]
    refine (Sparse.list hs V.keeps_index (fun lo' id' k' htree hfits => ?_) (h.row rfl rfl)
      .reportAll).mono fun _ hother => hother.mono (Nat.le_refl lo) (Nat.le_succ id)
    exact V.compared htree (isValue_of_isExpression hfits)

theorem call {node node' : CallNode} (hs : StoreOk s) (h : Subtree s lo id (.call node))
    (harguments : node'.arguments = node.arguments) :
    Sparse s (s.Sits lo (id + 1)) (call visit id node') := by
  have hself : s.Sits lo (id + 1) id := h.sits rfl
  refine .look fun symbol => ?_
  cases symbol with
  | none => exact .report hself
  | some symbol =>
    refine .ite (.note (fun t => Store.setCallType_alike _) (Sparse.andThen ?_ (V.keeps_arguments _)
      (sparse_passing node' symbol hself fun argument hargument => ?_))) (.report hself)
    · rw [harguments]
      refine (Sparse.list hs V.keeps (fun lo' id' k' htree hfits => ?_) (h.row rfl rfl)
        .stopAtFirst).mono fun _ hother => hother.mono (Nat.le_refl lo) (Nat.le_succ id)
      exact V.terms lo' id' k' htree (isValue_of_isExpression hfits)
    · rw [harguments] at hargument
      obtain ⟨lo', k', hstands⟩ := h.standsIn rfl (.head _) hargument
      have hfits : k'.isExpression = true := hstands.fits
      refine (hstands.tree.sits ?_).mono hstands.le (Nat.succ_le_succ (Nat.le_of_lt hstands.lt))
      cases k' <;> first | rfl | cases hfits

/-! ### Statements -/

theorem print {value : NodeId} (h : Subtree s lo id (.print value)) :
    Sparse s (s.Sits lo (id + 1)) (print visit value) := by
  obtain ⟨hvisit, hvalue⟩ := V.part h rfl (.head _)
    (fun _ => isValue_of_isExpression) rfl
  refine hvisit.andThen (V.keeps value) (.look fun type => ?_)
  split
  · exact .report hvalue
  · exact .report hvalue
  · exact .done

theorem assign {target value : NodeId} (h : Subtree s lo id (.assign target value)) :
    Sparse s (s.Sits lo (id + 1)) (assign visit id target value) := by
  have hself : s.Sits lo (id + 1) id := h.sits rfl
  obtain ⟨hvisit, htarget⟩ := V.part h rfl (.head _)
    (fun _ => isValue_of_isReference) rfl
  obtain ⟨hvisit', hvalue⟩ := V.part h rfl (.tail _ (.head _))
    (fun _ => isValue_of_isExpression) rfl
  refine hvisit.andThen (V.keeps target) (.look fun r => ?_)
  cases r with
  | none => exact .done
  | some r =>
    dsimp only
    cases r.result with
    | none => exact .report htarget
    | some type =>
      refine .look fun symbol => ?_
      split
      · exact .report htarget
      · refine hvisit'.andThen (V.keeps value) (.look fun type' => ?_)
        cases type' with
        | none => exact .report hvalue
        | some type' => exact .ite .done (.report hself)

theorem read {target : NodeId} (h : Subtree s lo id (.read target)) :
    Sparse s (s.Sits lo (id + 1)) (read visit target) := by
  obtain ⟨hvisit, htarget⟩ := V.part h rfl (.head _)
    (fun _ => isValue_of_isReference) rfl
  refine hvisit.andThen (V.keeps target) (.look fun r => ?_)
  cases r with
  | none => exact .done
  | some r => exact .ite (.report htarget) (.look fun symbol => .ite (.report htarget) .done)

theorem returnValue {value : Option NodeId} (h : Subtree s lo id (.returnValue value)) :
    Sparse s (s.Sits lo (id + 1)) (returnValue visit id value) := by
  have hself : s.Sits lo (id + 1) id := h.sits rfl
  refine .look fun function => ?_
  cases function with
  | none => exact .report hself
  | some function =>
    dsimp only
    split
    · exact .done
    · exact .report hself
    · exact .report hself
    next value _ =>
      obtain ⟨hvisit, hvalue⟩ := V.part h rfl (.head _)
        (fun _ => isValue_of_isExpression) rfl
      exact hvisit.andThen (V.keeps value)
        (.look fun type => .ite .done (.look fun _ => .report hvalue))

theorem guard (h : Subtree s lo id k) (hk : k.isValue = true) :
    Sparse s (s.Sits lo (id + 1)) (guard visit id) :=
  V.compared h hk

theorem node (hs : StoreOk s) (h : Subtree s lo id k) (hk : k.isValue = true ∨ k.isSimple = true) :
    Sparse s (s.Sits lo (id + 1)) (node visit id) := by
  intro c hc
  obtain ⟨k', hk', hbare⟩ := hc.kind?_cases h.kind?
  refine .look ?_
  dsimp only
  rw [hk']
  suffices hkind : Sparse s (s.Sits lo (id + 1)) (kind visit id k') from hkind c hc
  cases k with
  | expression e =>
    obtain ⟨e', rfl, hleft, hright⟩ := exists_expression_of_bare hbare
    exact V.expression hs h hleft hright
  | reference r =>
    obtain ⟨r', rfl, -, hindices⟩ := exists_reference_of_bare hbare
    exact V.reference hs h hindices
  | call node =>
    obtain ⟨node', rfl, -, harguments⟩ := exists_call_of_bare hbare
    exact V.call hs h harguments
  | literal l =>
    obtain rfl := eq_of_bare_eq rfl hbare
    exact .done
  | print value =>
    obtain rfl := eq_of_bare_eq rfl hbare
    exact V.print h
  | assign target value =>
    obtain rfl := eq_of_bare_eq rfl hbare
    exact V.assign h
  | read target =>
    obtain rfl := eq_of_bare_eq rfl hbare
    exact V.read h
  | returnValue value =>
    obtain rfl := eq_of_bare_eq rfl hbare
    exact V.returnValue h
  | _ => rcases hk with hk | hk <;> cases hk

end Careful

/-! ### Visits -/

theorem sparse_overstep (id : NodeId) : Sparse s N (overstep id) := by
  refine fun c _ => ⟨by simp [overstep, silent, blamedIn], .nil, ?_⟩
  rintro n c' ⟨⟩

theorem careful_visitUpTo (hs : StoreOk s) (n : Nat) : Careful s (visitUpTo n) := by
  induction n with
  | zero => exact ⟨⟨0, fun t => obeys_visitUpTo t 0⟩, fun _ id _ _ _ => sparse_overstep id⟩
  | succ n ih =>
    exact ⟨⟨n + 1, fun t => obeys_visitUpTo t (n + 1)⟩, fun lo id k h hk c hc =>
      .enter (.deeper (ih.node hs h (.inl hk) _ hc))⟩

theorem sparse_visitUpTo (hs : StoreOk s) (n : Nat) (h : Subtree s lo id k)
    (hk : k.isSimple = true) :
    Sparse s (s.Sits lo (id + 1)) (visitUpTo n id) := by
  cases n with
  | zero => exact sparse_overstep id
  | succ n =>
    exact fun c hc => .enter (.deeper ((careful_visitUpTo hs n).node hs h (.inr hk) _ hc))

end Logged

/-! ### Statements and guards -/

/-- The guard of a conditional statement or of a loop. -/
def NodeKind.guard? : NodeKind → Option NodeId
  | condition c => some c.guard
  | whileLoop guardNode _ => some guardNode
  | _ => none

theorem NodeKind.guard_part {guardNode : NodeId} (h : k.guard? = some guardNode) :
    ⟨.guard, some guardNode, isExpression⟩ ∈ k.parts ∧ k.isType = false ∧ k.isPlain = true := by
  cases k with
  | condition | whileLoop =>
    cases h
    exact ⟨.head _, rfl, rfl⟩
  | _ => cases h

/-- A log reports errors in the tree of a node only, and none of the nodes at which it does so is in
the tree of another one. So each is the innermost one that fails. -/
structure Innermost (s : Store) (top : NodeId) (log : List Event) : Prop where
  under : ∀ id ∈ blamedIn log, s.Under top id
  apart : (blamedIn log).Pairwise s.Apart

theorem SparseAt.innermost (h : Subtree s lo id k) (hx : SparseAt s (s.Sits lo (id + 1)) m x c) :
    Innermost s id (x.log c) where
  under other hother := by
    obtain ⟨lo', k', htree, hlo, hlt, -⟩ := hx.mem other hother
    have hle := htree.le
    exact h.under (by omega) (by omega)
  apart := hx.apart

/-- Looking at the state logs nothing. -/
theorem Logged.log_look {β : Type} (p : Checker → α) (g : α → Logged β) (c : Checker) :
    (view p >>= g).log c = (g (p c)).log c := rfl

theorem Logged.log_node {visit : NodeId → Logged Nat} (hk : c.store.kind? id = some k) :
    (node visit id).log c = (kind visit id k).log c := by
  unfold node inStore
  rw [log_look]
  dsimp only
  rw [hk]

/-- The check of a statement with a guard begins with its guard. -/
theorem Logged.log_visit_guard {guardNode : NodeId} (hk : c.store.kind? id = some k)
    (hguard : k.guard? = some guardNode) (hlimit : c.depth < c.limit) :
    ∃ rest, (visit id).log c = .visit id c.function ::
      ((guard visit guardNode).log { c with depth := c.depth + 1 } ++ rest) := by
  have hlevels : c.limit - c.depth = c.limit - (c.depth + 1) + 1 := by omega
  have hlog : (visit id).log c = .visit id c.function ::
      (kind (visitUpTo (c.limit - (c.depth + 1))) id k).log { c with depth := c.depth + 1 } := by
    have hvisit : (visit id).log c = (visitUpTo (c.limit - c.depth) id).log c := rfl
    rw [hvisit, hlevels]
    exact congrArg (cons _) (log_node (c := { c with depth := c.depth + 1 }) hk)
  rw [hlog]
  cases k with
  | condition node =>
    cases hguard
    exact ⟨_, rfl⟩
  | whileLoop first body =>
    cases hguard
    exact ⟨_, rfl⟩
  | _ => cases hguard

/-- When the check of a statement begins: its errors are those of a log, and if there are no
statements inside of it, they are innermost. If it has a guard, the log begins with that of the
guard, whose errors are innermost too. -/
def ReportsInnermost (s : Store) : Moment → Checker → Prop
  | .visit id, c =>
    ((Check.visit id).after c).diagnostics.errors = c.diagnostics.errors ++
      ((Logged.visit id).log c).filterMap (Event.error? c.store) ∧
    ∀ k, s.kind? id = some k → (k.isSimple = true → Innermost s id ((Logged.visit id).log c)) ∧
      ∀ guard, k.guard? = some guard → c.depth < c.limit → ∃ inGuard rest,
        inGuard = (Logged.guard Logged.visit guard).log { c with depth := c.depth + 1 } ∧
        (Logged.visit id).log c = .visit id c.function :: (inGuard ++ rest) ∧
        Innermost s guard inGuard
  | .change, _ => True

/-- Errors do not cascade. Whenever the check of a parsed program comes to a statement, none of the
errors that are reported for it, or for its guard, is at a node around another one. -/
theorem Check.throughout_innermost {ts : List Token} {limit : Nat} {s : Store} {root : NodeId}
    (h : parseTokens ts limit = .ok (s, root)) (diagnostics : Diagnostics)
    (options : CheckOptions) :
    Check.Throughout (ReportsInnermost s) root (.start s .empty diagnostics options) := by
  obtain ⟨P, -, hprogram, hsize, hnext⟩ := parseTokens_layout h
  have hok := hprogram.wellFormed hsize hnext
  refine throughout_of_stands hok (fun id Γ c _ hc => ?_) (fun _ _ _ => trivial) diagnostics options
  have htells := ((Logged.visit id).tells c).errors
  rw [Check.reached_visit] at htells
  refine ⟨htells, fun k hk => ?_⟩
  obtain ⟨lo, k', htree⟩ : ∃ lo k', Subtree s lo id k' := by
    obtain ⟨p, hroot⟩ := hprogram.subtree
    have hid := Store.lt_size_of_kind? hk
    exact exists_subtree.1 hroot id (Nat.zero_le id) (by omega)
  obtain rfl := Option.some.inj (htree.kind?.symm.trans hk)
  have halike := hc.noted.alike
  refine ⟨fun hsimple => ?_, fun guard hguard hlimit => ?_⟩
  · have hsparse := Logged.sparse_visitUpTo hok.store (c.limit - c.depth) htree hsimple c halike
    have hinnermost := hsparse.innermost htree
    exact hinnermost
  · obtain ⟨hpart, htype, hplain⟩ := NodeKind.guard_part hguard
    obtain ⟨rest, hrest⟩ := Logged.log_visit_guard (halike.kind?_plain hk hplain) hguard hlimit
    refine ⟨_, rest, rfl, hrest, ?_⟩
    have hself : guard ∈ s.chain 1 (some guard) := List.mem_cons_self
    obtain ⟨lo', k', hstands⟩ := htree.standsIn htype hpart hself
    have hsparse :=
      (Logged.careful_visitUpTo hok.store (c.limit - (c.depth + 1))).guard hstands.tree
      (NodeKind.isValue_of_isExpression hstands.fits) { c with depth := c.depth + 1 } halike
    have hinnermost := hsparse.innermost hstands.tree
    exact hinnermost

/-- A guard and a product, both with two operands that fail. -/
def nestedTokens : List Token :=
  tokensOf "p; begin if x + y then begin print (1 + true) * z; end end if end end"

/-- Neither the sum in the guard nor the product is reported. -/
theorem Check.throughout_innermost_nestedTokens : ∃ s root,
    parseTokens nestedTokens 9 = .ok (s, root) ∧
      Check.Throughout (ReportsInnermost s) root (.start s .empty .silent ⟨false, 9⟩) ∧
      blamedIn ((Logged.visit root).log (.start s .empty .silent ⟨false, 9⟩)) = [0, 2, 9, 10] ∧
      s.kind? 4 = some (.expression ⟨.add, some 1, some 3, none⟩) ∧
      s.kind? 12 = some (.expression ⟨.multiply, some 9, some 11, none⟩) := by
  have hrun : ((parseTokens nestedTokens 9).toOption.map fun tree =>
      (blamedIn ((Logged.visit tree.2).log (.start tree.1 .empty .silent ⟨false, 9⟩)),
        tree.1.kind? 4, tree.1.kind? 12)) =
      some ([0, 2, 9, 10], some (.expression ⟨.add, some 1, some 3, none⟩),
        some (.expression ⟨.multiply, some 9, some 11, none⟩)) := by
    rw [nestedTokens, tokensOf_ofList]
    decide +kernel
  obtain ⟨s, root, h, hrun⟩ := exists_parse_of_map hrun
  simp only [Prod.mk.injEq] at hrun
  exact ⟨s, root, h, Check.throughout_innermost h .silent ⟨false, 9⟩, hrun⟩

end PLang
