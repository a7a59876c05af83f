import PLang.Proofs.Checking.Discipline

/-!
# Counting errors

The number that a check returns is the number of errors that it has added to the diagnostics. None
of them is fatal. A check fails with an error that says how deeply a program may be nested, and this
error is not among those that it has added.
-/

namespace PLang

/-- The diagnostics after more errors. -/
def Diagnostics.add (d : Diagnostics) (added : List Error) : Diagnostics :=
  { d with errors := d.errors ++ added }

@[simp]
theorem Diagnostics.add_nil (d : Diagnostics) : d.add [] = d := by
  simp [add]

@[simp]
theorem Diagnostics.add_add (d : Diagnostics) (first second : List Error) :
    (d.add first).add second = d.add (first ++ second) := by
  simp [add]

/-- What the errors that a check has added have to do with what it has returned. -/
def Accounts (limit : Nat) (added : List Error) : Except Error Nat → Prop
  | .ok n => added.length = n
  | .error e => e.cause = .nestingTooDeep limit

/-- A check has only added errors that are not fatal, as many as it returns. -/
def Tallies (c : Checker) (r : Except Error Nat) (c' : Checker) : Prop :=
  c'.limit = c.limit ∧ ∃ added, c'.diagnostics = c.diagnostics.add added ∧
    (∀ e ∈ added, e.cause.isFatal = false) ∧ Accounts c.limit added r

namespace Tallies

variable {c c1 c2 : Checker} {m n : Nat} {e : Error}

/-- A step that leaves errors and limit alone adds none. -/
theorem of_eq (herrors : c1.diagnostics = c.diagnostics) (hlimit : c1.limit = c.limit) :
    Tallies c (.ok 0) c1 :=
  ⟨hlimit, [], by rw [herrors, Diagnostics.add_nil], by simp, rfl⟩

/-- The errors of a check and of what comes after it. -/
theorem append {r : Except Error Nat} {added : List Error} (h1 : Tallies c (.ok m) c1)
    (hlimit : c2.limit = c1.limit)
    (herrors : c2.diagnostics = c1.diagnostics.add added)
    (hadded : ∀ e ∈ added, e.cause.isFatal = false)
    (hr : ∀ first : List Error, first.length = m → Accounts c.limit (first ++ added) r) :
    Tallies c r c2 := by
  obtain ⟨hlimit1, first, herrors1, hfirst, hm⟩ := h1
  refine ⟨hlimit.trans hlimit1, first ++ added, ?_, ?_, hr first hm⟩
  · rw [herrors, herrors1, Diagnostics.add_add]
  · exact fun e he => (List.mem_append.1 he).elim (hfirst e) (hadded e)

theorem trans (h1 : Tallies c (.ok m) c1) (h2 : Tallies c1 (.ok n) c2) :
    Tallies c (.ok (m + n)) c2 := by
  obtain ⟨hlimit, added, herrors, hadded, hn⟩ := h2
  refine h1.append hlimit herrors hadded fun first hm => ?_
  simp only [Accounts] at hn ⊢
  rw [List.length_append, hm, hn]

theorem fail (h1 : Tallies c (.ok m) c1) (h2 : Tallies c1 (.error e) c2) :
    Tallies c (.error e) c2 := by
  obtain ⟨hlimit, added, herrors, hadded, he⟩ := h2
  refine h1.append hlimit herrors hadded fun _ _ => ?_
  rw [← h1.1]
  exact he

end Tallies

/-- Checks count the errors that they add. -/
def tally : Discipline where
  Holds := Tallies
  refl _ := .of_eq rfl rfl
  trans := .trans
  fail := .fail
  report c cause location h := ⟨rfl, [⟨cause, location⟩], rfl, by simpa using h, rfl⟩
  note _ _ := .of_eq rfl rfl
  declare _ _ _ _ _ _ _ := .of_eq rfl rfl
  scope h := h
  within h := h
  deeper h := h
  overstep c _ := ⟨rfl, [], (Diagnostics.add_nil _).symm, by simp, rfl⟩

/-- A run has added as many errors to the diagnostics as it returns, or has failed with an error
about the nesting limit that it has not added. All errors that it has added are not fatal. -/
def CountsErrors (before : Diagnostics) (limit : Nat) : EStateM.Result Error Checker Nat → Prop
  | .ok n c => ∃ added, c.diagnostics = before.add added ∧ added.length = n ∧
      ∀ e ∈ added, e.cause.isFatal = false
  | .error e c => e.cause = .nestingTooDeep limit ∧ ∃ added, c.diagnostics = before.add added ∧
      e ∉ added ∧ ∀ e ∈ added, e.cause.isFatal = false

theorem CountsErrors.of_governs {c : Checker} {x : Check Nat} (h : tally.Governs c x) :
    CountsErrors c.diagnostics c.limit (x c) := by
  unfold Discipline.Governs at h
  cases hx : x c with
  | ok n c' =>
    rw [hx] at h
    obtain ⟨-, added, herrors, hadded, hn⟩ := h
    exact ⟨added, herrors, hn, hadded⟩
  | error e c' =>
    rw [hx] at h
    obtain ⟨-, added, herrors, hadded, he⟩ := h
    refine ⟨he, added, herrors, fun hmem => ?_, hadded⟩
    -- the error that ends the run is fatal
    have hfatal := hadded e hmem
    rw [show e.cause = .nestingTooDeep c.limit from he] at hfatal
    cases hfatal

/-- Checking a node, a list of nodes or a whole program returns the number of the errors that it has
added to the diagnostics, whatever the store, the symbols, the nesting limit and the errors
before. -/
theorem visit_countsErrors :
    (∀ id c, CountsErrors c.diagnostics c.limit (Check.visit id c)) ∧
      (∀ head policy c, CountsErrors c.diagnostics c.limit (Check.visitList head policy c)) ∧
      ∀ store root symbols diagnostics options,
        CountsErrors diagnostics options.limit
          (Check.visit root (.start store symbols diagnostics options)) := by
  refine ⟨fun id c => ?_, fun head policy c => ?_, fun store root symbols diagnostics options => ?_⟩
  · exact .of_governs (tally.governs_visit id c)
  · exact .of_governs (tally.governs_visitList policy head c)
  · exact .of_governs (tally.governs_visit root (.start store symbols diagnostics options))

end PLang
