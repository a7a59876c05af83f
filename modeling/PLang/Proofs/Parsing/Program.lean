import PLang.Proofs.Parsing.Statement

/-!
# Parsing finds the program that the tokens spell

The main results: parsing succeeds exactly where the tokens spell a program, there is only one such
program, and the store holds its tree.
-/

namespace PLang

open Syntax Parse

variable {limit : Nat} {ts : List Token}

/-! ### Nesting levels -/

section Nesting

variable {α : Type} {d l k : Nat} {p : Parser} {x : Parse NodeId} {R : Reading α}
  {At : Store → Nat → NodeId → α → Prop}

/-- One nesting level down and up again. -/
theorem Simulates.deeper (h : Simulates (d + 1) l k { p with depth := p.depth + 1 } x R
      (Builds At { p with depth := p.depth + 1 })) :
    Simulates d l k p (do descend; let node ← x; leave; Pure.pure node) R
      (Builds At p) := by
  have hdescend : descend p = .ok () { p with depth := p.depth + 1 } := rfl
  unfold Simulates at h ⊢
  rw [bind_ok hdescend]
  cases hx : x { p with depth := p.depth + 1 } with
  | error e p1 =>
    rw [hx] at h
    rw [bind_error hx]
    exact ⟨⟨h.1.1, Nat.le_of_succ_le h.1.2⟩, h.2⟩
  | ok id p1 =>
    rw [hx] at h
    rw [bind_ok hx]
    obtain ⟨⟨hp1, hpassed⟩, hk, a, hread, hpost⟩ := h
    refine ⟨⟨⟨hp1.tables, ?_, hp1.limit, hp1.closed⟩,
      ⟨hpassed.onward.1, Nat.le_sub_one_of_lt hpassed.onward.2⟩, hpassed.grown,
        hpassed.noted⟩, hk, a,
      hread, hpost⟩
    show p1.depth - 1 = d
    rw [hp1.depth]
    rfl

theorem Parser.Ready.descend (hp : p.Ready d l) :
    Parser.Ready (d + 1) l { p with depth := p.depth + 1 } :=
  ⟨hp.tables, congrArg (· + 1) hp.depth, hp.limit, hp.closed⟩

/-- The nesting levels of the parser are those of the readings. -/
theorem nestedUpTo_simulates (n d l : Nat) :
    NestedSimulates d l (nestedUpTo n) (Nesting.upTo n) := by
  induction n generalizing d with
  | zero =>
    have honward (p : Parser) : p.Onward { p with depth := p.depth + 1 } :=
      ⟨List.suffix_refl _, Nat.le_succ _⟩
    exact ⟨fun p _ power => ⟨honward p, fun _ _ h => h⟩, fun p _ => ⟨honward p, fun _ _ h => h⟩⟩
  | succ n ih =>
    refine ⟨fun p hp power => ?_, fun p hp => ?_⟩
    · exact .deeper (expression_simulates (ih (d + 1)) power hp.descend)
    · exact .deeper (statement_simulates (ih (d + 1)) hp.descend)

theorem nested_simulates (d l : Nat) :
    NestedSimulates d l nested (Nesting.upTo (l - d)) := by
  have h := nestedUpTo_simulates (l - d) d l
  refine ⟨fun p hp power => .ofRun ?_ (h.expression p hp power), fun p hp =>
    .ofRun ?_ (h.statement p hp)⟩
  · rw [nested, hp.limit, hp.depth]
  · rw [nested, hp.limit, hp.depth]

end Nesting

/-! ### Whole programs -/

/-- The tokens that a parser sees: an end of the file is put after the last one, where it is
missing. -/
def closeTokens (ts : List Token) : List Token :=
  (TokenStream.ofList ts).current :: (TokenStream.ofList ts).rest

/-- Tokens that end with the end of the file stay as they are. -/
theorem closeTokens_of_closed {body : List Token} {last : Token} (h : last.kind = .endOfFile) :
    closeTokens (body ++ [last]) = body ++ [last] := by
  cases body with
  | nil => simp [closeTokens, TokenStream.ofList, h]
  | cons first rest =>
    have hlast : ((first :: rest) ++ [last]).getLastD first = last := List.getLastD_concat
    have hclosed : ((first :: (rest ++ [last])).getLastD first).kind = .endOfFile :=
      (congrArg Token.kind hlast).trans h
    rw [closeTokens, List.cons_append, TokenStream.ofList, if_pos hclosed]

theorem closeTokens_closed (ts : List Token) :
    ∃ body last, closeTokens ts = body ++ [last] ∧ last.kind = .endOfFile := by
  cases ts with
  | nil => exact ⟨[], _, rfl, rfl⟩
  | cons first rest =>
    by_cases h : ((first :: rest).getLastD first).kind = .endOfFile
    · obtain ⟨body, last, heq⟩ : ∃ body last, first :: rest = body ++ [last] :=
        ⟨_, _, (List.dropLast_append_getLast (List.cons_ne_nil first rest)).symm⟩
      have hlast : last.kind = .endOfFile := by simpa [heq] using h
      exact ⟨body, last, by rw [heq, closeTokens_of_closed hlast], hlast⟩
    · have hclose : closeTokens (first :: rest) = first :: rest ++ [.endOfFile
          ⟨((first :: rest).getLastD first).span.stop,
            ((first :: rest).getLastD first).span.stop⟩] := by
        rw [closeTokens, TokenStream.ofList, if_neg h]
        rfl
      exact ⟨first :: rest, _, hclose, rfl⟩

theorem ready_ofTokens (ts : List Token) (limit : Nat) :
    (Parser.ofTokens ts limit .standard).Ready 0 limit :=
  ⟨rfl, rfl, rfl, closeTokens_closed ts⟩

/-- How parsing can end: the tokens spell one program, which the store then holds, or none. -/
inductive ParseOutcome (ts : List Token) (limit : Nat) : Except Error (Store × NodeId) → Prop
  | ok {p : Parser} {root : NodeId} {P : Program} :
      (∀ P', Spells limit (closeTokens ts) P' ↔ P' = P) → Adds ProgramAt .empty P root p.store →
      (Parser.ofTokens ts limit .standard).Passed p → p.stream.current.kind = .endOfFile →
      ParseOutcome ts limit (.ok (p.store, root))
  | error {e : Error} : (∀ P, ¬Spells limit (closeTokens ts) P) → ParseOutcome ts limit (.error e)

variable {root : NodeId}

theorem parseTokens_of_ok {p : Parser}
    (h : wholeProgram (.ofTokens ts limit .standard) = .ok root p) :
    parseTokens ts limit = .ok (p.store, root) := by
  rw [parseTokens, h]

theorem parseTokens_of_error {e : Error} {p : Parser}
    (h : wholeProgram (.ofTokens ts limit .standard) = .error e p) :
    parseTokens ts limit = .error e := by
  rw [parseTokens, h]

theorem parseTokens_spec (ts : List Token) (limit : Nat) :
    ParseOutcome ts limit (parseTokens ts limit) := by
  have h := program_simulates (nested_simulates 0 limit) (ready_ofTokens ts limit)
  unfold Simulates at h
  cases hprogram : program nested (type nested)
      (.ofTokens ts limit .standard) with
  | error e p1 =>
    rw [hprogram] at h
    have hwhole : wholeProgram (.ofTokens ts limit .standard) = .error e p1 :=
      bind_error hprogram
    rw [parseTokens_of_error hwhole]
    refine .error ?_
    rintro P ⟨rest, hread, -⟩
    exact h.2 P rest hread
  | ok root p1 =>
    rw [hprogram] at h
    obtain ⟨⟨-, hpassed⟩, -, P, hread, hadds⟩ := h
    have hspells : ∀ P', Spells limit (closeTokens ts) P' ↔
        P' = P ∧ p1.stream.current.kind = .endOfFile := by
      intro P'
      constructor
      · rintro ⟨rest, hread', hrest⟩
        obtain ⟨rfl, rfl⟩ := (hread P' rest).1 hread'
        exact ⟨rfl, hrest⟩
      · rintro ⟨rfl, hend⟩
        exact ⟨p1.tokens, (hread P' _).2 ⟨rfl, rfl⟩, hend⟩
    have hwhole : wholeProgram (.ofTokens ts limit .standard) = (do
        let _ ← expectFor .endOfFile "expected end of file after the program"
        pure root : Parse NodeId) p1 := bind_ok hprogram
    by_cases hend : p1.stream.current.kind = .endOfFile
    · have hexpect : expectFor .endOfFile "expected end of file after the program" p1 =
          .ok p1.stream.current { p1 with stream := p1.stream.advance } := by
        rw [expectFor, expectOr, if_pos hend]
        rfl
      rw [parseTokens_of_ok (hwhole.trans (bind_ok hexpect))]
      exact .ok (p := p1) (fun P' => (hspells P').trans (and_iff_left hend)) hadds hpassed hend
    · have hexpect : expectFor .endOfFile "expected end of file after the program" p1 =
          .error (p1.unexpected "expected end of file after the program") p1 := by
        rw [expectFor, expectOr, if_neg hend]
        rfl
      rw [parseTokens_of_error (hwhole.trans (bind_error hexpect))]
      exact .error fun P' h => hend ((hspells P').1 h).2

/-- Parsing succeeds exactly where the tokens spell a program. -/
theorem parseTokens_ok_iff (ts : List Token) (limit : Nat) :
    (∃ tree, parseTokens ts limit = .ok tree) ↔ ∃ P, Spells limit (closeTokens ts) P := by
  have h := parseTokens_spec ts limit
  cases hparse : parseTokens ts limit with
  | error e =>
    rw [hparse] at h
    cases h with
    | error hnone =>
      refine iff_of_false ?_ ?_
      · rintro ⟨tree, ⟨⟩⟩
      · rintro ⟨P, hP⟩
        exact hnone P hP
  | ok tree =>
    rw [hparse] at h
    cases h with
    | @ok _ _ P hP _ => exact iff_of_true ⟨_, rfl⟩ ⟨P, (hP P).2 rfl⟩

/-- After parsing, the store holds the tree of the only program that the tokens spell. -/
theorem parseTokens_layout {store : Store}
    (h : parseTokens ts limit = .ok (store, root)) :
    ∃ P, (∀ P', Spells limit (closeTokens ts) P' ↔ P' = P) ∧ ProgramAt store 0 root P ∧
      store.size = root + 1 ∧ store.next? root = none := by
  have hspec := parseTokens_spec ts limit
  rw [h] at hspec
  cases hspec with
  | @ok _ _ P hP hadds => exact ⟨P, hP, hadds.layout, hadds.size, hadds.last⟩

/-- A value that is computed from the tree of a program is computed from some tree. -/
theorem exists_parse_of_map {α : Type} {f : Store × NodeId → α} {a : α}
    (h : (parseTokens ts limit).toOption.map f = some a) :
    ∃ s root, parseTokens ts limit = .ok (s, root) ∧ f (s, root) = a := by
  cases hparse : parseTokens ts limit with
  | error e =>
    rw [hparse] at h
    cases h
  | ok tree =>
    rw [hparse] at h
    exact ⟨tree.1, tree.2, rfl, Option.some.inj h⟩

/-- Nothing has been checked in a parsed tree. -/
theorem unchecked_of_parseTokens {s : Store} (h : parseTokens ts limit = .ok (s, root)) :
    s.Unchecked := by
  have hspec := parseTokens_spec ts limit
  rw [h] at hspec
  cases hspec with
  | ok _ _ hpassed _ => exact hpassed.grown.unchecked fun _ _ hk => (nomatch hk)

/-- Constants of a parsed tree have the type of their literal. -/
theorem constant_of_parseTokens {s : Store} {id literal : NodeId} {d : DeclarationNode}
    (h : parseTokens ts limit = .ok (s, root)) (hk : s.kind? id = some (.declaration d))
    (hliteral : d.literal = some literal) :
    ∃ value, s.kind? literal = some (.literal ⟨value, value.text⟩) ∧
      s.kind? d.type = some (.type ⟨value.scalarType, none, value.scalarType.text⟩) := by
  refine (unchecked_of_parseTokens h id _ hk).constant literal d.type ?_
  rw [NodeKind.constant?, hliteral]
  rfl

end PLang
