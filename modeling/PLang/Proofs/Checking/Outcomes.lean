import PLang.Checker.Visit

/-!
# How the steps of checks end

A sequence of steps ends as its first part does if that one fails, and otherwise as the second part
does. A check in a scope, in a function or on another level ends as it would end elsewhere, but in
another state.
-/

namespace PLang.Check

variable {α β : Type} {x : Check α} {f : α → Check β} {c c' c1 : Checker}

/-! ### Sequences -/

theorem bind_of_ok {a : α} (h : x c = .ok a c1) : (x >>= f) c = f a c1 := by
  show EStateM.bind x f c = _
  rw [EStateM.bind, h]

theorem bind_of_error {e : Error} (h : x c = .error e c1) : (x >>= f) c = .error e c1 := by
  show EStateM.bind x f c = _
  rw [EStateM.bind, h]

/-- A sequence of actions comes to an end if both parts do. -/
theorem ok_of_bind {b : β} (h : (x >>= f) c = .ok b c') :
    ∃ a c1, x c = .ok a c1 ∧ f a c1 = .ok b c' := by
  cases hx : x c with
  | ok a c1 =>
    rw [bind_of_ok hx] at h
    exact ⟨a, c1, rfl, h⟩
  | error e c1 =>
    rw [bind_of_error hx] at h
    cases h

/-! ### Results -/

/-- The result of a check: the number of errors, or the failure. -/
def ending : EStateM.Result Error Checker Nat → Except Error Nat
  | .ok n _ => .ok n
  | .error e _ => .error e

theorem exists_ok_of_ending {r : EStateM.Result Error Checker Nat} {n : Nat}
    (h : (ending r).toOption = some n) : ∃ c, r = .ok n c := by
  cases r with
  | error e c => cases h
  | ok m c =>
    obtain rfl : m = n := Option.some.inj h
    exact ⟨c, rfl⟩

/-- The state in which a check ends, be it with a number of errors or with a failure. -/
def after (x : Check Nat) (c : Checker) : Checker :=
  match x c with
  | .ok _ c' => c'
  | .error _ c' => c'

theorem after_of_ok {x : Check Nat} {n : Nat} (h : x c = .ok n c1) : x.after c = c1 := by
  rw [after, h]

theorem after_of_error {x : Check Nat} {e : Error} (h : x c = .error e c1) : x.after c = c1 := by
  rw [after, h]

/-! ### Sums -/

section

variable {M : Type → Type} [Monad M] [LawfulMonad M]

/-- Three checks whose errors are added up. -/
theorem add₃_eq (x y z : M Nat) :
    (do let k ← x; let m ← y; let n ← z; pure (k + m + n)) = (do
      let km ← (do let k ← x; let m ← y; pure (k + m))
      let n ← z
      pure (km + n)) := by
  simp only [bind_assoc, pure_bind]

/-- A check that is only made if the first one finds nothing adds to what that one has found. -/
theorem andThen_eq_add (x y : M Nat) :
    (do let m ← x; if m = 0 then y else pure m) =
      (do let m ← x; let n ← (if m = 0 then y else pure 0); pure (m + n)) := by
  refine congrArg (x >>= ·) (funext fun m => ?_)
  split
  next hm => simp [hm]
  next => simp

end

/-- One element of a list, and what is found in the ones after it. -/
theorem listUpTo_succ (visit : NodeId → Check Nat) (policy : ListPolicy) (n : Nat) (id : NodeId) :
    listUpTo visit policy (n + 1) (some id) = (do
      let m ← visit id
      let k ← (if m > 0 ∧ policy = .stopAtFirst then pure 0
        else inStore (fun s => s.next? id) >>= listUpTo visit policy n)
      pure (m + k)) := by
  rw [listUpTo]
  refine congrArg (visit id >>= ·) (funext fun m => ?_)
  split <;> simp

/-! ### Scopes, functions and levels -/

/-- The same end of a check, in another state. -/
def endIn (f : Checker → Checker) : EStateM.Result Error Checker α → EStateM.Result Error Checker α
  | .ok a c => .ok a (f c)
  | .error e c => .error e (f c)

theorem ok_of_endIn {leave : Checker → Checker} {r : EStateM.Result Error Checker α} {a : α}
    (h : endIn leave r = .ok a c') : ∃ c1, r = .ok a c1 ∧ leave c1 = c' := by
  cases r with
  | error => cases h
  | ok b c1 =>
    cases h
    exact ⟨c1, rfl, rfl⟩

theorem inScope_eq (x : Check Nat) :
    inScope x = fun c => endIn Checker.popScope (x c.pushScope) := by
  funext c
  unfold inScope endIn
  cases x c.pushScope <;> rfl

theorem within_eq (f : NodeId) (x : Check Nat) :
    within f x = fun c =>
      endIn (fun c1 => { c1 with function := c.function }) (x { c with function := some f }) := by
  funext c
  unfold within endIn
  cases x { c with function := some f } <;> rfl

theorem deeper_eq (x : Check Nat) :
    deeper x = fun c =>
      endIn (fun c1 => { c1 with depth := c1.depth - 1 }) (x { c with depth := c.depth + 1 }) := by
  funext c
  unfold deeper endIn
  cases x { c with depth := c.depth + 1 } <;> rfl

end PLang.Check
