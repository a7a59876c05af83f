import PLang.Proofs.Checking.Checks

/-!
# What a check leaves alone

Checking a piece of syntax writes to the nodes of that piece only, keeps the symbols that are there
and leaves the outer scopes alone. `Sees` says that a state is ready to check the nodes of a
stretch: nothing has been written there, and the open scopes hold an environment.
-/

namespace PLang

open Syntax Typing

variable {α : Type}

variable {a b hi id lo : Nat} {c : Checker}

/-- Two stores differ at most in what checking has written to the nodes from `lo` up to `hi`. -/
structure Touches (lo hi : Nat) (s s' : Store) : Prop where
  alike : Alike s s'
  kind : ∀ id : Nat, id < lo ∨ hi ≤ id → s'.kind? id = s.kind? id

variable {f : NodeKind → NodeKind}

namespace Touches

variable {lo hi lo' hi' : Nat} {s s1 s2 : Store}

theorem refl (lo hi : Nat) (s : Store) : Touches lo hi s s := ⟨.refl s, fun _ _ => rfl⟩

theorem trans (h1 : Touches lo hi s s1) (h2 : Touches lo hi s1 s2) : Touches lo hi s s2 :=
  ⟨h1.alike.trans h2.alike, fun id hid => (h2.kind id hid).trans (h1.kind id hid)⟩

theorem mono (h : Touches lo' hi' s s1) (hlo : lo ≤ lo') (hhi : hi' ≤ hi) : Touches lo hi s s1 :=
  ⟨h.alike, fun id hid => h.kind id (by omega)⟩

theorem modifyKind (h : Alike s (s.modifyKind id f)) :
    Touches id (id + 1) s (s.modifyKind id f) :=
  ⟨h, fun _ hother => Store.kind?_modifyKind_of_ne (by rintro rfl; omega)⟩

end Touches

/-- All symbols of a table are also in another one. -/
structure SymbolTable.Grows (t t' : SymbolTable) : Prop where
  nextId : t.nextId ≤ t'.nextId
  symbol : ∀ id, id < t.nextId → t'.symbol? id = t.symbol? id

/-- What checking the nodes from `lo` up to `hi` leaves alone. -/
structure Frame (lo hi : Nat) (c c' : Checker) : Prop where
  touches : Touches lo hi c.store c'.store
  function : c'.function = c.function
  grows : c.symbols.Grows c'.symbols
  outer : c'.symbols.scopes.tail = c.symbols.scopes.tail

/-- What checking leaves alone if it has closed all scopes that it has opened and has not declared
anything. -/
structure Restores (lo hi : Nat) (c c' : Checker) : Prop extends Frame lo hi c c' where
  scopes : c'.symbols.scopes = c.symbols.scopes

namespace SymbolTable.Grows

variable {t t1 t2 : SymbolTable}

theorem refl (t : SymbolTable) : t.Grows t := ⟨.refl, fun _ _ => rfl⟩

theorem trans (h1 : t.Grows t1) (h2 : t1.Grows t2) : t.Grows t2 :=
  ⟨Nat.le_trans h1.nextId h2.nextId, fun id hid =>
    (h2.symbol id (Nat.lt_of_lt_of_le hid h1.nextId)).trans (h1.symbol id hid)⟩

theorem insert (t : SymbolTable) (name : String) (kind : SymbolKind) (scalar : Option ScalarType)
    (typeText detail : String) (node : NodeId) :
    t.Grows (t.insert name kind scalar typeText detail node) := by
  refine ⟨?_, fun id hid => symbol?_insert_of_lt hid ..⟩
  simp [SymbolTable.nextId, SymbolTable.insert]

end SymbolTable.Grows

namespace Frame

variable {lo hi lo' hi' : Nat} {c c1 c2 : Checker}

theorem refl (lo hi : Nat) (c : Checker) : Frame lo hi c c := ⟨.refl .., rfl, .refl _, rfl⟩

theorem trans (h1 : Frame lo hi c c1) (h2 : Frame lo hi c1 c2) : Frame lo hi c c2 :=
  ⟨h1.touches.trans h2.touches, h2.function.trans h1.function, h1.grows.trans h2.grows,
    h2.outer.trans h1.outer⟩

theorem mono (h : Frame lo' hi' c c1) (hlo : lo ≤ lo') (hhi : hi' ≤ hi) : Frame lo hi c c1 :=
  ⟨h.touches.mono hlo hhi, h.function, h.grows, h.outer⟩

end Frame

namespace Restores

variable {lo hi lo' hi' : Nat} {c c1 c2 : Checker}

theorem refl (lo hi : Nat) (c : Checker) : Restores lo hi c c := ⟨.refl .., rfl⟩

theorem trans (h1 : Restores lo hi c c1) (h2 : Restores lo hi c1 c2) : Restores lo hi c c2 :=
  ⟨h1.toFrame.trans h2.toFrame, h2.scopes.trans h1.scopes⟩

theorem mono (h : Restores lo' hi' c c1) (hlo : lo ≤ lo') (hhi : hi' ≤ hi) : Restores lo hi c c1 :=
  ⟨h.toFrame.mono hlo hhi, h.scopes⟩

/-- Two stretches, one after the other. -/
theorem append {mid : Nat} (h1 : Restores lo mid c c1) (h2 : Restores mid hi c1 c2) (hlo : lo ≤ mid)
    (hhi : mid ≤ hi) : Restores lo hi c c2 :=
  (h1.mono .refl hhi).trans (h2.mono hlo .refl)

theorem write (h : Alike c.store (c.store.modifyKind id f)) :
    Restores id (id + 1) c { c with store := c.store.modifyKind id f } :=
  ⟨⟨.modifyKind h, rfl, .refl _, rfl⟩, rfl⟩

theorem depth {d d' : Nat} (h : Restores lo hi { c with depth := d } c1) :
    Restores lo hi c { c1 with depth := d' } :=
  ⟨⟨h.touches, h.function, h.grows, h.outer⟩, h.scopes⟩

end Restores

/-- Closing a scope restores the ones around it. -/
theorem Frame.popScope {c' : Checker} (h : Frame lo hi c.pushScope c') :
    Restores lo hi c c'.popScope where
  touches := h.touches
  function := h.function
  grows := ⟨h.grows.nextId, h.grows.symbol⟩
  outer := congrArg List.tail h.outer
  scopes := h.outer

/-- A check in a scope of its own. -/
theorem Checks.scoped {x : Check Nat} {G : Prop}
    (h : Checks c.pushScope x G (Frame lo hi c.pushScope)) :
    Checks c (Check.inScope x) G (Restores lo hi c) :=
  .inScope h fun _ h => h.popScope

/-- A state is ready to check the nodes from `lo` up to `hi` of a tree: nothing is written there,
the open scopes hold the environment, and the function around returns the type `result`. -/
structure Sees (s : Store) (Γ : Env) (result : Option ScalarType) (lo hi : Nat) (c : Checker) :
    Prop where
  alike : Alike s c.store
  fresh : ∀ id : Nat, lo ≤ id → id < hi → c.store.kind? id = s.kind? id
  scopes : ScopesMatch c.symbols s c.symbols.scopes Γ
  result : (c.function.bind s.function?).map FunctionNode.result = result

namespace Sees

variable {s : Store} {Γ Γ' : Env} {ρ : Option ScalarType} {lo hi lo' hi' : Nat} {c c' : Checker}

section

variable (h : Sees s Γ ρ lo hi c)

include h

theorem kind {k : NodeKind} (hk : s.kind? id = some k) (hlo : lo ≤ id) (hhi : id < hi) :
    c.store.kind? id = some k :=
  (h.fresh id hlo hhi).trans hk

theorem narrow (hlo : lo ≤ lo') (hhi : hi' ≤ hi) : Sees s Γ ρ lo' hi' c :=
  ⟨h.alike, fun id h1 h2 => h.fresh id (Nat.le_trans hlo h1) (Nat.lt_of_lt_of_le h2 hhi), h.scopes,
    h.result⟩

/-- Checking some nodes leaves the state ready for others, if the scopes are right. -/
theorem frame (hf : Frame a b c c') (hscopes : ScopesMatch c'.symbols s c'.symbols.scopes Γ')
    (hlo : lo ≤ lo') (hhi : hi' ≤ hi) (hapart : b ≤ lo' ∨ hi' ≤ a) : Sees s Γ' ρ lo' hi' c' where
  alike := h.alike.trans hf.touches.alike
  fresh id h1 h2 := (hf.touches.kind id (by omega)).trans (h.fresh id (by omega) (by omega))
  scopes := hscopes
  result := by rw [hf.function]; exact h.result

theorem scopes_restores (hr : Restores a b c c') :
    ScopesMatch c'.symbols s c'.symbols.scopes Γ := by
  rw [hr.scopes]
  exact h.scopes.keep hr.grows.symbol

/-- Checking some nodes leaves the state ready for others. -/
theorem restores (hr : Restores a b c c') (hlo : lo ≤ lo') (hhi : hi' ≤ hi)
    (hapart : b ≤ lo' ∨ hi' ≤ a) : Sees s Γ ρ lo' hi' c' :=
  h.frame hr.toFrame (h.scopes_restores hr) hlo hhi hapart

/-- Opening a scope. -/
theorem pushScope : Sees s ([] :: Γ) ρ lo hi c.pushScope :=
  ⟨h.alike, h.fresh, .cons .nil (h.scopes.keep fun _ _ => rfl), h.result⟩

theorem depth {d : Nat} : Sees s Γ ρ lo hi { c with depth := d } :=
  ⟨h.alike, h.fresh, h.scopes, h.result⟩


end
end Sees

/-! ### Lists that declare nothing -/

/-- A list whose members are checked on their own, in one environment. What is found about a member
stands in its root. -/
theorem ListAt.checksEach {s : Store} {At : Nat → NodeId → α → Prop} {head : Option NodeId}
    {as : List α} (h : ListAt s At lo hi head as)
    (le : ∀ a ∈ as, ∀ lo root, At lo root a → lo ≤ root) {visit : NodeId → Check Nat}
    {policy : ListPolicy} {Γ : Env} {ρ : Option ScalarType} {G : α → Prop}
    {F : Option NodeKind → α → Prop}
    (elem : ∀ a ∈ as, ∀ (lo root : Nat) (c : Checker), At lo root a → Sees s Γ ρ lo (root + 1) c →
      Checks c (visit root) (G a) fun c' =>
        Restores lo (root + 1) c c' ∧ F (c'.store.kind? root) a) (hc : Sees s Γ ρ lo hi c)
    {m n : Nat} (hm : hi - lo ≤ m) (hn : hi - lo ≤ n) :
    Checks c (Check.listUpTo visit policy n head) (∀ a ∈ as, G a) fun c' =>
      Restores lo hi c c' ∧
        List.Forall₂ (fun id a => F (c'.store.kind? id) a) (s.chain m head) as := by
  induction h generalizing c m n with
  | nil =>
    rw [Check.listUpTo_none, Store.chain_none]
    exact .pass (fun _ h => absurd h List.not_mem_nil) ⟨.refl .., .nil⟩
  | @cons lo hi root head a as ha hroot ht ih =>
    obtain ⟨le', h1, h2⟩ := cons_le ha ht le
    obtain ⟨m, rfl⟩ : ∃ k, m = k + 1 := ⟨m - 1, by omega⟩
    obtain ⟨n, rfl⟩ : ∃ k, n = k + 1 := ⟨n - 1, by omega⟩
    rw [List.forall_mem_cons, Store.chain, hroot]
    refine .listUpTo_cons (elem a (.head _) lo root c ha (hc.narrow .refl h2)) ?_
    rintro c1 - ⟨hr1, hfound⟩
    have hlink : c1.store.next? root = head :=
      (hr1.touches.alike.next root).trans ((hc.alike.next root).trans hroot)
    have hc1 : Sees s Γ ρ (root + 1) hi c1 :=
      hc.restores hr1 (by omega) .refl (.inl .refl)
    rw [hlink]
    refine (ih le' (fun b hb => elem b (.tail _ hb)) hc1 (m := m) (by omega)
      (by omega)).mono Iff.rfl ?_
    rintro c2 ⟨hr2, hothers⟩
    refine ⟨hr1.append hr2 (by omega) h2, .cons ?_ hothers⟩
    rw [hr2.touches.kind root (.inl (Nat.lt_succ_self _))]
    exact hfound

end PLang
