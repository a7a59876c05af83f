import PLang.Proofs.Grammar.Acceptance

/-!
# Parsing stops at the earliest error

Where parsing complains about a token, the tokens before it are the start of a program, and no
program goes on with that token, whatever comes behind it. The tokens before it may be a whole
program; the token then stands where the file should end, since no program is the start of another
one.
-/

namespace PLang

open Grammar Grammar.Phrase List Syntax

variable {ts : List Token} {limit : Nat} {e : Error}

/-! ### Two lists of tokens -/

/-- How parsing fails with a nesting level for every token: at a number that cannot be read, or at a
token before which the start of a program has been read. All tokens that start with the same kinds,
that one included, are rejected. -/
theorem parseTokens_error_cases (hlimit : (closeTokens ts).length ≤ limit)
    (h : parseTokens ts limit = .error e) : (∃ text, e.cause = .malformedNumber text) ∨
      ∃ front t rest v, closeTokens ts = front ++ t :: rest ∧ e.Blames t ∧
        Derives (name .program) (front.map Token.kind ++ v) ∧
        ∀ ts' limit', limit ≤ limit' → List.Forall₂ Token.Fits
            ((closeTokens ts).take (front.length + 1)) ((closeTokens ts').take (front.length + 1)) →
          ∃ e', parseTokens ts' limit' = .error e' := by
  cases parseProgram_follows (n := 0) ts (Nat.le_refl limit) (Nat.le_succ_of_le hlimit) .nil with
  | malformed before behind run split stops word start =>
    cases h.symm.trans (parseTokens_of_program_error run)
    exact .inl ⟨_, rfl⟩
  | complaint front v run split blames more word _ =>
    cases h.symm.trans (parseTokens_of_program_error run)
    refine .inr ⟨front, _, _, v, split, blames, word, fun ts' limit' hl hfits => ?_⟩
    cases parseProgram_follows ts' hl (Nat.le_succ_of_le hlimit) hfits with
    | ok _ run' => cases run.symm.trans run'
    | malformed before behind run' =>
      cases run.symm.trans run'
      obtain ⟨-, hunexpected | ⟨wanted, hunexpected⟩⟩ := blames
      · cases hunexpected
      · cases hunexpected
    | complaint front' v' run' split' _ _ _ step =>
      cases run.symm.trans run'
      obtain rfl := append_cancel_right (split.symm.trans split')
      obtain ⟨e', p', hrun⟩ := step (Nat.lt_succ_self _)
      exact ⟨e', parseTokens_of_program_error hrun⟩
  | @ok front root p run split settled word _ _ _ =>
    have hend : p.stream.current.kind ≠ .endOfFile := by
      intro hend
      rw [parseTokens_of_program_ok run, if_pos hend] at h
      cases h
    rw [parseTokens_of_program_ok run, if_neg hend] at h
    obtain rfl := Except.error.inj h
    refine .inr ⟨front, _, _, [], split, p.unexpected_blames _, ?_, fun ts' limit' hl hfits => ?_⟩
    · rwa [append_nil]
    cases parseProgram_follows ts' hl (Nat.le_succ_of_le hlimit) hfits with
    | malformed _ _ run' => cases run.symm.trans run'
    | complaint _ _ run' => cases run.symm.trans run'
    | ok front' run' split' _ _ _ _ step =>
      cases run.symm.trans run'
      obtain rfl := append_cancel_right (split.symm.trans split')
      obtain ⟨root', p', hrun, -, -, -, hrest⟩ := step (Nat.lt_succ_self _)
      -- the next token fits as well, so it does not end the file either
      rw [Nat.add_sub_cancel_left] at hrest
      have hkind := (forall₂_cons.1 hrest).1.kind
      rw [parseTokens_of_program_ok hrun, if_neg (hkind ▸ hend)]
      exact ⟨_, rfl⟩

/-- With a nesting level for every token, no construct is nested too deeply. -/
theorem parseTokens_ne_tooDeep (hlimit : (closeTokens ts).length ≤ limit)
    (h : parseTokens ts limit = .error e) (n : Nat) : e.cause ≠ .nestingTooDeep n := by
  intro hdeep
  rcases parseTokens_error_cases hlimit h with ⟨text, hcause⟩ | ⟨_, _, _, _, -, hblames, -⟩
  · cases hdeep.symm.trans hcause
  · obtain ⟨-, hcause | ⟨wanted, hcause⟩⟩ := hblames
    · cases hdeep.symm.trans hcause
    · cases hdeep.symm.trans hcause

/-! ### Sentences -/

variable {w : List TokenKind}

/-- The spelling of a program is parsed. -/
theorem parseTokens_spelling (hw : Derives (name .program) w)
    (hlimit : w.length ≤ limit) :
    ∃ tree, parseTokens ((w ++ [TokenKind.endOfFile]).map spelling) limit = .ok tree := by
  have hbody : ∀ t ∈ w.map spelling, t.kind ≠ .endOfFile := by
    intro t ht hkind
    obtain ⟨k, hk, rfl⟩ := mem_map.1 ht
    exact endOfFile_not_mem hw (hkind ▸ hk)
  rw [map_append, map_singleton, parseTokens_ok_iff, closeTokens_of_closed rfl,
    spells_iff_covers rfl hbody (by rwa [length_map])]
  exact covers_spelling hw

/-- Tokens fit the spelling of their kinds. -/
theorem fits_spelling (us : List Token) :
    List.Forall₂ Token.Fits us ((us.map Token.kind).map spelling) := by
  rw [map_map, forall₂_map_right_iff]
  exact forall₂_same.2 fun t _ => ⟨rfl, fun _ => readable_spelling t.kind⟩

/-- No program is the start of another one. -/
theorem derives_program_append {v : List TokenKind} (hw : Derives (name .program) w)
    (hwv : Derives (name .program) (w ++ v)) : v = [] := by
  have hread : ∀ u rest, Derives (name .program) u → u.length ≤ (w ++ v).length →
      ∃ P, Reading.program (Nesting.upTo (w ++ v).length) (u.map spelling ++ rest) P rest :=
    fun u rest hu hlength => Reading.program_finds (Nesting.upTo_complete _) _ rest
      (by rwa [length_map]) (covers_spelling hu) rfl
  obtain ⟨P, hP⟩ := hread w (v.map spelling ++ [spelling .endOfFile]) hw (by simp)
  obtain ⟨Q, hQ⟩ := hread (w ++ v) [spelling .endOfFile] hwv .refl
  rw [map_append, append_assoc] at hQ
  -- the parser reads one of them at most
  have hsimulates := Parse.program_simulates (nested_simulates 0 (w ++ v).length)
    (ready_ofTokens ((w ++ v).map spelling ++ [spelling .endOfFile]) (w ++ v).length)
  have htokens : (Parser.ofTokens ((w ++ v).map spelling ++ [spelling .endOfFile]) (w ++ v).length
      .standard).tokens = w.map spelling ++ (v.map spelling ++ [spelling .endOfFile]) := by
    refine (closeTokens_of_closed rfl).trans ?_
    rw [map_append, append_assoc]
  unfold Simulates at hsimulates
  rw [htokens] at hsimulates
  generalize Parse.program Parse.nested (Parse.type Parse.nested) _ = result at hsimulates
  cases result with
  | error e p => exact absurd hP (hsimulates.2 P _)
  | ok root p =>
    obtain ⟨-, -, P', honly, -⟩ := hsimulates
    have hrest := ((honly P _).1 hP).2.trans ((honly Q _).1 hQ).2.symm
    simpa using hrest

/-- No program starts with tokens that are rejected, whatever comes behind them. -/
theorem not_start_of_rejected {front rest : List Token} {t : Token}
    (hsplit : closeTokens ts = front ++ t :: rest)
    (hreject : ∀ ts' limit', limit ≤ limit' → List.Forall₂ Token.Fits
        ((closeTokens ts).take (front.length + 1)) ((closeTokens ts').take (front.length + 1)) →
      ∃ e', parseTokens ts' limit' = .error e') (hw : Derives (name .program) w) :
    ¬(front ++ [t]).map Token.kind <+: w ++ [.endOfFile] := by
  intro hstart
  obtain ⟨tree, hok⟩ := parseTokens_spelling hw (Nat.le_max_right limit w.length)
  have htake : (closeTokens ts).take (front.length + 1) = front ++ [t] := by
    rw [hsplit, append_cons]
    exact take_left' (by simp)
  have hspelled : (closeTokens ((w ++ [TokenKind.endOfFile]).map spelling)).take
    (front.length + 1) =
      ((front ++ [t]).map Token.kind).map spelling := by
    have hlength : ((front ++ [t]).map Token.kind).length = front.length + 1 := by simp
    rw [map_append, map_singleton, closeTokens_of_closed rfl, ← map_singleton,
      ← map_append, ← map_take, ← hlength, ← prefix_iff_eq_take.1 hstart]
  obtain ⟨e', herror⟩ := hreject ((w ++ [TokenKind.endOfFile]).map spelling) (max limit w.length)
    (Nat.le_max_left _ _) (by rw [htake, hspelled]; exact fits_spelling _)
  cases hok.symm.trans herror

/-! ### The token that is blamed -/

/-- Parsing with a nesting level for every token complains about the earliest token at which the
tokens stop being a program. What stands before it can be completed to a program, by nothing only if
the token is not the end of the file; and what it ends is no start of a program with the end of the
file behind it. -/
theorem parseTokens_blames_earliest {body : List Token} {last : Token}
    (hlast : last.kind = .endOfFile) (hlimit : (body ++ [last]).length ≤ limit)
    (h : parseTokens (body ++ [last]) limit = .error e)
    (hcause : (∃ text, e.cause = .unexpectedToken text) ∨
      ∃ text wanted, e.cause = .unexpectedTokenFor text wanted) :
    ∃ j t, (body ++ [last])[j]? = some t ∧ e.Blames t ∧
      (∃ v, Derives (name .program) (((body ++ [last]).take j).map Token.kind ++ v) ∧
        (v = [] → t.kind ≠ .endOfFile)) ∧
      ∀ w, Derives (name .program) w →
        ¬((body ++ [last]).take (j + 1)).map Token.kind <+: w ++ [.endOfFile] := by
  have hclose : closeTokens (body ++ [last]) = body ++ [last] := closeTokens_of_closed hlast
  have hcases := parseTokens_error_cases (by rwa [hclose]) h
  rw [hclose] at hcases
  have hunread : ¬∃ text, e.cause = .malformedNumber text := by
    rintro ⟨text, hmalformed⟩
    rcases hcause with ⟨_, hcause⟩ | ⟨_, _, hcause⟩
    · cases hmalformed.symm.trans hcause
    · cases hmalformed.symm.trans hcause
  obtain ⟨front, t, rest, v, hsplit, hblames, hderives, hreject⟩ := hcases.resolve_left hunread
  have htake : (body ++ [last]).take (front.length + 1) = front ++ [t] := by
    rw [hsplit, append_cons]
    exact take_left' (by simp)
  have hnone : ∀ w, Derives (name .program) w →
      ¬(front ++ [t]).map Token.kind <+: w ++ [.endOfFile] :=
    fun w hw => not_start_of_rejected (hclose.trans hsplit) (hclose ▸ hreject) hw
  refine ⟨front.length, t, ?_, hblames, ⟨v, ?_, ?_⟩, ?_⟩
  · rw [hsplit]
    simp
  · rwa [hsplit, take_left]
  · rintro rfl hend
    rw [append_nil] at hderives
    have hwhole : (front ++ [t]).map Token.kind = front.map Token.kind ++ [.endOfFile] := by
      rw [map_append, map_singleton, hend]
    exact hnone _ hderives (hwhole ▸ prefix_rfl)
  · rwa [htake]

/-- The error of a result that is known up to its tree. -/
theorem eq_error_of_map {r : Except Error (Store × NodeId)}
    (h : r.map (fun _ => ()) = .error e) : r = .error e := by
  cases r with
  | ok tree => cases h
  | error e' => exact congrArg Except.error (Except.error.inj h)

/-- The end of a file with one line. -/
def fileEnd (col : UInt32) : Token := .endOfFile ⟨⟨1, col⟩, ⟨1, col⟩⟩

/-- The tokens of a program that prints nothing, up to the end of the file. -/
def emptyPrint : List Token :=
  (tokensOf "p; begin print; end end").dropLast

theorem parseTokens_blames_earliest_emptyPrint :
    ∃ e, parseTokens (emptyPrint ++ [fileEnd 24]) 8 = .error e ∧ e.location = ⟨1, 15⟩ ∧
      ∃ j t, (emptyPrint ++ [fileEnd 24])[j]? = some t ∧ e.Blames t ∧
        (∃ v, Derives (name .program) (((emptyPrint ++ [fileEnd 24]).take j).map Token.kind ++ v) ∧
          (v = [] → t.kind ≠ .endOfFile)) ∧
        ∀ w, Derives (name .program) w →
          ¬((emptyPrint ++ [fileEnd 24]).take (j + 1)).map Token.kind <+: w ++ [.endOfFile] := by
  have herror : parseTokens (emptyPrint ++ [fileEnd 24]) 8 =
      .error ⟨.unexpectedTokenFor ";" "expected expression", ⟨1, 15⟩⟩ :=
    eq_error_of_map (by decide +kernel)
  exact ⟨_, herror, rfl, parseTokens_blames_earliest rfl (by decide +kernel) herror
    (.inr ⟨_, _, rfl⟩)⟩

/-- The tokens of a program with a name behind it, up to the end of the file. -/
def trailingName : List Token := (tokensOf "p; begin end end x").dropLast

/-- The tokens before the one that is blamed can be a whole program, and then they are no start of a
longer one. -/
theorem trailingName_blames_no_start :
    ∃ e, parseTokens (trailingName ++ [fileEnd 19]) 7 = .error e ∧
      (∃ text wanted, e.cause = .unexpectedTokenFor text wanted) ∧
      ∀ j t, (trailingName ++ [fileEnd 19])[j]? = some t → e.Blames t →
        ¬∃ v, v ≠ [] ∧ Derives (name .program)
          (((trailingName ++ [fileEnd 19]).take j).map Token.kind ++ v) := by
  have herror : parseTokens (trailingName ++ [fileEnd 19]) 7 =
      .error ⟨.unexpectedTokenFor "x" "expected end of file after the program", ⟨1, 18⟩⟩ :=
    eq_error_of_map (by decide +kernel)
  refine ⟨_, herror, ⟨_, _, rfl⟩, ?_⟩
  rintro j t hj ⟨hplace, -⟩ ⟨v, hne, hv⟩
  -- only the name stands at the place of the error
  have hplaces : ∀ j < 7, ((trailingName ++ [fileEnd 19])[j]?.map Token.location) = some ⟨1, 18⟩ →
      j = 5 := by decide +kernel
  have hlength : (trailingName ++ [fileEnd 19]).length = 7 := by decide +kernel
  have hlt := (List.getElem?_eq_some_iff.1 hj).1
  obtain rfl := hplaces j (hlength ▸ hlt) (by rw [hj, Option.map_some, ← hplace])
  have hkinds : ((trailingName ++ [fileEnd 19]).take 5).map Token.kind =
      [.identifier, .semicolon, .beginWord, .endWord, .endWord] := by decide +kernel
  have hwhole : Derives (name .program)
      [.identifier, .semicolon, .beginWord, .endWord, .endWord] :=
    .name (.cons (derives_token _) (.cons (derives_token _) (.cons .stop (.cons .stop
      (.cons derives_block (derives_last (derives_token _)))))))
  rw [hkinds] at hv
  exact hne (derives_program_append hwhole hv)

end PLang
