import PLang.Proofs.Checking.Outcomes
import PLang.Proofs.Checking.Scopes

/-!
# What a check finds

A check counts errors. `Checks c x Good post` says of a check `x` that starts in a state `c`: if it
comes to an end, it has found no error exactly if `Good` holds, and then it leaves a state with the
property `post`. The lemmas say how this goes through sequences of checks, scopes and lists.
-/

namespace PLang

open Syntax Typing

variable {α β : Type}

/-- A check finds no error exactly if `Good` holds, and then leaves a state with the property
`post`. -/
def Checks (c : Checker) (x : Check Nat) (Good : Prop) (post : Checker → Prop) : Prop :=
  ∀ n c', x c = .ok n c' → (n = 0 ↔ Good) ∧ (n = 0 → post c')

variable {visit : NodeId → Check Nat} {policy : ListPolicy} {head : Option NodeId}

namespace Checks

variable {c : Checker} {x y z : Check Nat} {G G' G1 G2 G3 : Prop} {P P' P1 P2 P3 Q : Checker → Prop}

theorem mono (h : Checks c x G P) (hG : G ↔ G') (hP : ∀ c', P c' → P' c') : Checks c x G' P' :=
  fun n c' hx => ⟨(h n c' hx).1.trans hG, fun hn => hP c' ((h n c' hx).2 hn)⟩

theorem good (h : Checks c x G P) : Checks c x G fun c' => G ∧ P c' :=
  fun n c' hx => ⟨(h n c' hx).1, fun hn => ⟨(h n c' hx).1.1 hn, (h n c' hx).2 hn⟩⟩

/-- A check that does not depend on a choice. -/
theorem exists_and {ι : Type} {I G : ι → Prop} {P : ι → Checker → Prop} (hI : ∃ i, I i)
    (h : ∀ i, I i → Checks c x (G i) (P i)) :
    Checks c x (∃ i, I i ∧ G i) fun c' => ∀ i, I i → P i c' := by
  intro n c' hx
  refine ⟨⟨fun hn => ?_, ?_⟩, fun hn i hi => (h i hi n c' hx).2 hn⟩
  · obtain ⟨i, hi⟩ := hI
    exact ⟨i, hi, (h i hi n c' hx).1.1 hn⟩
  · rintro ⟨i, hi, hG⟩
    exact (h i hi n c' hx).1.2 hG

theorem pass (hG : G) (hP : P c) : Checks c (pure 0) G P := by
  rintro n c' ⟨⟩
  exact ⟨iff_of_true rfl hG, fun _ => hP⟩

theorem reject {cause : Cause} {node : NodeId} (hG : ¬G) :
    Checks c (Check.report cause node) G P := by
  rintro n c' ⟨⟩
  exact ⟨iff_of_false Nat.one_ne_zero hG, fun h => absurd h Nat.one_ne_zero⟩

theorem look {view : Check α} {a : α} {f : α → Check Nat} (hview : view c = .ok a c)
    (h : Checks c (f a) G P) : Checks c (view >>= f) G P := by
  intro n c' hrun
  rw [Check.bind_of_ok hview] at hrun
  exact h n c' hrun

variable {f : Unit → Check Nat}

theorem write {g : Store → Store}
    (h : Checks { c with store := g c.store } (f ()) G P) :
    Checks c (Check.write g >>= f) G P := h

theorem declare {name : String} {kind : SymbolKind} {scalar : Option ScalarType}
    {typeText detail : String} {node : NodeId}
    (h : Checks { c with symbols := c.symbols.insert name kind scalar typeText detail node } (f ())
      G P) : Checks c (Check.declare name kind scalar typeText detail node >>= f) G P := h

/-- Two checks whose errors are added up. The second one may hang on what the first one has
found. -/
theorem sum {y : Nat → Check Nat} (hx : Checks c x G1 P1)
    (hy : ∀ c1, G1 → P1 c1 → Checks c1 (y 0) G2 P) :
    Checks c (do let m ← x; let n ← y m; pure (m + n)) (G1 ∧ G2) P := by
  intro k c' hrun
  obtain ⟨m, c1, hm, hrun⟩ := Check.ok_of_bind hrun
  obtain ⟨n, c2, hn, hrun⟩ := Check.ok_of_bind hrun
  cases hrun
  obtain ⟨hG1, hP1⟩ := hx m c1 hm
  by_cases hzero : m = 0
  · subst hzero
    obtain ⟨hG2, hP⟩ := hy c1 (hG1.1 rfl) (hP1 rfl) n _ hn
    rw [Nat.zero_add]
    exact ⟨hG2.trans (and_iff_right (hG1.1 rfl)).symm, hP⟩
  · exact ⟨⟨fun h => by omega, fun h => absurd (hG1.2 h.1) hzero⟩, fun h => by omega⟩

theorem add (hx : Checks c x G1 P1) (hy : ∀ c1, G1 → P1 c1 → Checks c1 y G2 P) :
    Checks c (do let m ← x; let n ← y; pure (m + n)) (G1 ∧ G2) P :=
  hx.sum hy

theorem add₃ (hx : Checks c x G1 P1) (hy : ∀ c1, G1 → P1 c1 → Checks c1 y G2 P2)
    (hz : ∀ c2, G1 → G2 → P2 c2 → Checks c2 z G3 P) :
    Checks c (do let k ← x; let m ← y; let n ← z; pure (k + m + n)) (G1 ∧ G2 ∧ G3) P := by
  rw [Check.add₃_eq, ← and_assoc]
  exact add (add hx hy) fun c2 h => hz c2 h.1 h.2

/-- A check that is only made if the first one finds nothing. -/
theorem andThen (hx : Checks c x G1 P1) (hy : ∀ c1, G1 → P1 c1 → Checks c1 y G2 P) :
    Checks c (Check.andThen x y) (G1 ∧ G2) P := by
  rw [Check.andThen, Check.andThen_eq_add]
  exact hx.sum hy

/-- A check that starts in another state and ends in another one. -/
theorem between {c1 : Checker} {leave : Checker → Checker} (hy : y c = Check.endIn leave (x c1))
    (h : Checks c1 x G Q) (hP : ∀ c', Q c' → P (leave c')) : Checks c y G P := by
  intro n c' hrun
  obtain ⟨c2, hx, rfl⟩ := Check.ok_of_endIn (hy.symm.trans hrun)
  exact ⟨(h n c2 hx).1, fun hn => hP c2 ((h n c2 hx).2 hn)⟩

theorem inScope (h : Checks c.pushScope x G Q) (hP : ∀ c', Q c' → P c'.popScope) :
    Checks c (Check.inScope x) G P :=
  .between (congrFun (Check.inScope_eq x) c) h hP

theorem within {f : NodeId} (h : Checks { c with function := some f } x G Q)
    (hP : ∀ c', Q c' → P { c' with function := c.function }) :
    Checks c (Check.within f x) G P :=
  .between (congrFun (Check.within_eq f x) c) h hP

theorem deeper (h : Checks { c with depth := c.depth + 1 } x G Q)
    (hP : ∀ c', Q c' → P { c' with depth := c'.depth - 1 }) :
    Checks c (Check.deeper x) G P :=
  .between (congrFun (Check.deeper_eq x) c) h hP

/-- One element of a list and the ones after it. -/
theorem listUpTo_cons {n : Nat} {id : NodeId}
    (hx : Checks c (visit id) G1 P1)
    (hy : ∀ c1, G1 → P1 c1 → Checks c1 (Check.listUpTo visit policy n (c1.store.next? id)) G2 P) :
    Checks c (Check.listUpTo visit policy (n + 1) (some id)) (G1 ∧ G2) P := by
  rw [Check.listUpTo_succ]
  refine hx.sum fun c1 hG hP => ?_
  rw [if_neg fun h => Nat.lt_irrefl 0 h.1]
  exact hy c1 hG hP

/-- All of a list. There are enough steps for every list that is laid out in the store. -/
theorem list {k : Nat}
    (hk : k ≤ c.store.size)
    (h : ∀ n, k ≤ n → Checks c (Check.listUpTo visit policy n head) G P) :
    Checks c (Check.list visit policy head) G P := by
  refine look (a := c.store.size) rfl (h _ (Nat.le_trans hk ?_))
  exact Nat.le_mul_of_pos_left _ (Nat.succ_pos _)

end Checks

/-- A node is checked by what it holds. -/
theorem Check.node_checks {c : Checker} {id : NodeId} {k : NodeKind}
    {G : Prop} {P : Checker → Prop} (hk : c.store.kind? id = some k)
    (h : Checks c (kind visit id k) G P) : Checks c (node visit id) G P := by
  refine .look (a := some k) ?_ h
  rw [inStore, view, hk]

/-- A list whose members change the environment one after another. The invariant also says how far
the list has been checked. -/
theorem ListAt.checks {s : Store} {At : Nat → NodeId → α → Prop} {lo hi : Nat} {as : List α}
    (h : ListAt s At lo hi head as)
    (le : ∀ a ∈ as, ∀ lo root, At lo root a → lo ≤ root) {R : Env → α → Env → Prop}
    {I : Nat → Env → Checker → Prop}
    (hnext : ∀ pos Γ c, I pos Γ c → ∀ id, c.store.next? id = s.next? id)
    (elem : ∀ a ∈ as, ∀ (lo' root : Nat) (Γ : Env) (c : Checker), lo ≤ lo' → root < hi →
      At lo' root a → I lo' Γ c →
      Checks c (visit root) (∃ Γ', R Γ a Γ') fun c' => ∀ Γ', R Γ a Γ' → I (root + 1) Γ' c')
    {Γ : Env} {c : Checker} (hc : I lo Γ c) {n : Nat} (hn : hi - lo ≤ n) :
    Checks c (Check.listUpTo visit policy n head) (∃ Γ', Sequence R Γ as Γ')
      fun c' => ∀ Γ', Sequence R Γ as Γ' → I hi Γ' c' := by
  induction h generalizing Γ c n with
  | nil =>
    rw [Check.listUpTo_none]
    refine .pass ⟨Γ, .nil⟩ fun Γ' hseq => ?_
    cases hseq
    exact hc
  | @cons lo hi root head a as ha hroot ht ih =>
    obtain ⟨le', h1, h2⟩ := cons_le ha ht le
    obtain ⟨n, rfl⟩ : ∃ m, n = m + 1 := ⟨n - 1, by omega⟩
    have hhead := elem a (.head _) lo root Γ c .refl h2 ha hc
    have htail : ∀ c1, (∃ Γ1, R Γ a Γ1) → (∀ Γ1, R Γ a Γ1 → I (root + 1) Γ1 c1) →
        Checks c1 (Check.listUpTo visit policy n (c1.store.next? root))
          (∃ Γ1, R Γ a Γ1 ∧ ∃ Γ', Sequence R Γ1 as Γ')
          fun c' => ∀ Γ1, R Γ a Γ1 → ∀ Γ', Sequence R Γ1 as Γ' → I hi Γ' c' := by
      intro c1 hR hInv
      have hlink : c1.store.next? root = head := by
        obtain ⟨Γ1, hΓ1⟩ := hR
        rw [hnext _ Γ1 c1 (hInv Γ1 hΓ1), hroot]
      rw [hlink]
      exact .exists_and hR fun Γ1 hΓ1 =>
        ih le' (fun b hb lo' root' Γ c hlo => elem b (.tail _ hb) lo' root' Γ c (by omega))
          (hInv Γ1 hΓ1) (by omega)
    refine (Checks.listUpTo_cons hhead htail).mono ?_ ?_
    · constructor
      · rintro ⟨-, Γ1, hΓ1, Γ', hseq⟩
        exact ⟨Γ', .cons hΓ1 hseq⟩
      · rintro ⟨Γ', hseq⟩
        cases hseq with
        | cons hΓ1 hseq => exact ⟨⟨_, hΓ1⟩, _, hΓ1, Γ', hseq⟩
    · intro c' hP Γ' hseq
      cases hseq with
      | cons hΓ1 hseq => exact hP _ hΓ1 _ hseq

end PLang
