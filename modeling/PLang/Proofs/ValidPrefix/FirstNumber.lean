import PLang.Proofs.ValidPrefix.EarliestError

/-!
# The number that is reported

A sentence of the grammar with whole numbers that are too large is rejected at one of them: the
first one that is read. This need not be the first one in the file. The bounds of a counting loop
are read behind the loop, so that the numbers in its body come before them.
-/

namespace PLang

open Grammar Grammar.Phrase

/-- Whether a token is a whole number that does not fit into a word. -/
def TooLarge (t : Token) : Prop :=
  t.kind = .integer ∧ 0x7fffffff < Nat.ofDigitChars 10 t.value.toList 0

instance : DecidablePred TooLarge := fun _ => inferInstanceAs (Decidable (_ ∧ _))

variable {t : Token}

theorem Token.Lexed.readable_iff (h : t.Lexed) : Readable t ↔ ¬TooLarge t := by
  rw [Readable, and_iff_left h.real, TooLarge, not_and, Nat.not_lt]
  exact forall_congr' fun hkind => h.word_iff hkind

theorem readable_of_endOfFile (h : t.kind = .endOfFile) : Readable t :=
  .of_contains (h ▸ rfl)

variable {body : List Token} {last : Token} {limit : Nat}

/-- A sentence with a number that cannot be read is rejected where parsing stops. -/
theorem parseTokens_stops
    (hlast : last.kind = .endOfFile) (hlimit : (body ++ [last]).length ≤ limit)
    (hsentence : Derives (name .program) (body.map Token.kind))
    (hunread : ∃ t ∈ body, ¬Readable t) :
    ∃ before t behind, body ++ [last] = before ++ t :: behind ∧ Stops before t behind ∧
      parseTokens (body ++ [last]) limit = .error ⟨.malformedNumber t.value, t.location⟩ := by
  have hclose : closeTokens (body ++ [last]) = body ++ [last] := closeTokens_of_closed hlast
  have hbody : ∀ t ∈ body, t.kind ≠ .endOfFile := fun t ht hkind =>
    endOfFile_not_mem hsentence (hkind ▸ List.mem_map_of_mem ht)
  cases hparse : parseTokens (body ++ [last]) limit with
  | ok tree =>
    have hspells := (parseTokens_ok_iff _ _).1 ⟨tree, hparse⟩
    rw [hclose, spells_iff_covers hlast hbody (by simp at hlimit; omega)] at hspells
    obtain ⟨t, ht, hunread⟩ := hunread
    exact absurd (hspells.2 t ht) hunread
  | error e =>
    have hcases := parseTokens_error_cases (hclose.symm ▸ hlimit) hparse
    rcases hcases with ⟨text, hcause⟩ | ⟨front, t, rest, v, hsplit, -, -, hreject⟩
    · cases parseProgram_follows (n := 0) [] (Nat.le_refl limit)
        (Nat.le_succ_of_le (hclose.symm ▸ hlimit)) .nil with
      | malformed before behind run split stops =>
        cases hparse.symm.trans (parseTokens_of_program_error run)
        exact ⟨before, _, behind, hclose ▸ split, stops, rfl⟩
      | complaint _ _ run _ blames =>
        cases hparse.symm.trans (parseTokens_of_program_error run)
        obtain ⟨-, hunexpected | ⟨wanted, hunexpected⟩⟩ := blames
        · cases hcause.symm.trans hunexpected
        · cases hcause.symm.trans hunexpected
      | @ok _ root p run =>
        rw [parseTokens_of_program_ok run] at hparse
        split at hparse
        · cases hparse
        · cases hparse
          cases hcause
    · -- the sentence itself starts with the tokens that are rejected
      refine absurd ?_ (not_start_of_rejected hsplit hreject hsentence)
      have hkinds : body.map Token.kind ++ [.endOfFile] = (front ++ t :: rest).map Token.kind := by
        rw [← hsplit, hclose, List.map_append, List.map_singleton, hlast]
      exact ⟨rest.map Token.kind, by rw [hkinds]; simp⟩

/-- A number that ends the reading of a closed file is no end of the file. -/
theorem split_of_tooLarge {before behind : List Token}
    (hlast : last.kind = .endOfFile) (hlarge : TooLarge t)
    (hsplit : body ++ [last] = before ++ t :: behind) :
    ∃ rest, body = before ++ t :: rest ∧ behind = rest ++ [last] := by
  have hne : t ≠ last := fun heq => by cases hlast.symm.trans (heq ▸ hlarge.1)
  rcases List.append_eq_append_iff.1 hsplit with ⟨us, rfl, hus⟩ | ⟨us, rfl, hus⟩
  · have hmem : t ∈ [last] := hus ▸ List.mem_append_right us (.head _)
    exact absurd (List.mem_singleton.1 hmem) hne
  · cases us with
    | nil => exact absurd (List.cons.inj hus).1 hne
    | cons u rest =>
      obtain ⟨rfl, hbehind⟩ := List.cons.inj hus
      exact ⟨rest, rfl, hbehind⟩

/-- A sentence with numbers that are too large is rejected at the first one that is read: every one
before it is a bound of a counting loop around it, and if it is a bound itself, then the rest of its
loop holds no such number. Without such bounds it is the first one in the file. -/
theorem parseTokens_reports_first_read
    (hlast : last.kind = .endOfFile) (hlexed : ∀ t ∈ body, t.Lexed)
    (hlimit : (body ++ [last]).length ≤ limit)
    (hsentence : Derives (name .program) (body.map Token.kind)) (hlarge : ∃ t ∈ body, TooLarge t) :
    ∃ before t behind, body = before ++ t :: behind ∧ TooLarge t ∧
      parseTokens (body ++ [last]) limit = .error ⟨.malformedNumber t.value, t.location⟩ ∧
      (∀ us s vs, before = us ++ s :: vs → TooLarge s → Awaits us vs .integer) ∧
      (∀ k, BoundAt k before → ∃ head inner rest, behind ++ [last] = head ++ (inner ++ rest) ∧
        head.map Token.kind = loopHeader.drop (k + 1) ∧
        Derives loopTail (inner.map Token.kind) ∧ ∀ s ∈ inner, ¬TooLarge s) ∧
      ((∀ us s vs, body = us ++ s :: vs → TooLarge s → ∀ k, ¬BoundAt k us) →
        ∀ s ∈ before, ¬TooLarge s) := by
  have hreadable : ∀ t ∈ body ++ [last], Readable t ↔ ¬TooLarge t := by
    intro t ht
    rcases List.mem_append.1 ht with ht | ht
    · exact (hlexed t ht).readable_iff
    · obtain rfl := List.mem_singleton.1 ht
      exact iff_of_true (readable_of_endOfFile hlast) fun hlarge => by
        cases hlast.symm.trans hlarge.1
  have hunread : ∃ t ∈ body, ¬Readable t :=
    hlarge.imp fun t ht => ⟨ht.1, fun h => ((hlexed t ht.1).readable_iff.1 h) ht.2⟩
  obtain ⟨before, t, behind, hsplit, hstops, herror⟩ :=
    parseTokens_stops hlast hlimit hsentence hunread
  have hmem : ∀ s, s ∈ before ∨ s = t ∨ s ∈ behind → s ∈ body ++ [last] := by
    intro s hs
    rw [hsplit, List.mem_append, List.mem_cons]
    exact hs
  have htooLarge : TooLarge t := by
    by_contra hfits
    exact hstops.unreadable ((hreadable t (hmem t (.inr (.inl rfl)))).2 hfits)
  obtain ⟨rest, rfl, rfl⟩ := split_of_tooLarge hlast htooLarge hsplit
  have hearlier : ∀ us s vs, before = us ++ s :: vs → TooLarge s → Awaits us vs .integer := by
    rintro us s vs rfl hs
    have hunreadable : ¬Readable s := fun h =>
      (hreadable s (hmem s (.inl (List.mem_append_right _ List.mem_cons_self)))).1 h hs
    exact htooLarge.1 ▸ hstops.earlier us s vs rfl hunreadable
  refine ⟨before, t, rest, rfl, htooLarge, herror, hearlier, ?_, ?_⟩
  · intro k hk
    obtain ⟨head, inner, rest', hbehind, hhead, hcovers⟩ := hstops.later k hk
    refine ⟨head, inner, rest', hbehind, hhead, hcovers.1, fun s hs => ?_⟩
    exact (hreadable s (hmem s (.inr (.inr (by simp [hbehind, hs]))))).1 (hcovers.2 s hs)
  · intro hbounds s hs hsLarge
    obtain ⟨us, vs, rfl⟩ := List.append_of_mem hs
    obtain ⟨k, -, -, -, hk, -⟩ := hearlier us s vs rfl hsLarge
    exact hbounds us s (vs ++ t :: rest) (by simp) hsLarge k hk

/-- What is parsed with other texts can be derived. -/
theorem derives_of_parseTokens {w : List TokenKind} (hmem : .endOfFile ∉ w)
    (hlimit : w.length ≤ limit)
    (hok : (parseTokens (w.map spelling ++ [spelling .endOfFile]) limit).toOption.isSome) :
    Derives (name .program) w := by
  have hbody : ∀ t ∈ w.map spelling, t.kind ≠ .endOfFile := by
    simp only [List.forall_mem_map]
    exact fun kind hkind heq => hmem (heq ▸ hkind)
  cases hparse : parseTokens (w.map spelling ++ [spelling .endOfFile]) limit with
  | error e => rw [hparse] at hok; cases hok
  | ok tree =>
    have hspells := (parseTokens_ok_iff _ _).1 ⟨tree, hparse⟩
    rw [closeTokens_of_closed rfl, spells_iff_covers rfl hbody (by simpa)] at hspells
    exact map_kind_spelling w ▸ hspells.1

/-- The tokens of a program, up to the end of the file, in which the lower bound of a loop and a
number in the loop are too large. -/
def largeBound : List Token :=
  (tokensOf "p; begin for i := 4294967296 to 1 do begin print 2147483648; end end do end end")
    |>.dropLast

theorem parseTokens_reports_first_read_largeBound :
    ∃ before t behind, largeBound = before ++ t :: behind ∧
      parseTokens (largeBound ++ [fileEnd 80]) 20 = .error ⟨.malformedNumber t.value, t.location⟩ ∧
      t.value = "2147483648" ∧ ∃ s ∈ before, TooLarge s ∧ s.value = "4294967296" := by
  have hlast : (fileEnd 80).kind = .endOfFile := rfl
  have hlexed : ∀ t ∈ largeBound, t.Lexed := fun t ht =>
    Token.lexed_of_mem (List.dropLast_subset _ ht)
  -- the bound stands before the only token with this text
  have htokens : (largeBound ++ [fileEnd 80]).length ≤ 20 ∧ (∃ t ∈ largeBound, TooLarge t) ∧
      .endOfFile ∉ largeBound.map Token.kind ∧
      ∀ i < largeBound.length, largeBound[i]?.map Token.value = some "2147483648" →
        ∃ s ∈ largeBound.take i, TooLarge s ∧ s.value = "4294967296" := by
    rw [largeBound, tokensOf_ofList]
    decide +kernel
  obtain ⟨hlimit, hlarge, hbody, hbound⟩ := htokens
  have hsentence : Derives (name .program) (largeBound.map Token.kind) := by
    refine derives_of_parseTokens hbody (Nat.le_refl _) ?_
    rw [largeBound, tokensOf_ofList]
    decide +kernel
  have herror : parseTokens (largeBound ++ [fileEnd 80]) 20 =
      .error ⟨.malformedNumber "2147483648", ⟨1, 50⟩⟩ := by
    refine eq_error_of_map ?_
    rw [largeBound, tokensOf_ofList]
    decide +kernel
  obtain ⟨before, t, behind, hsplit, -, hreported, -⟩ := parseTokens_reports_first_read hlast
    hlexed hlimit hsentence hlarge
  have hvalue : t.value = "2147483648" := by
    injection hreported.symm.trans herror with herror
    injection herror with hcause
    injection hcause
  have hlookup : largeBound[before.length]? = some t := by simp [hsplit]
  have hearlier := hbound before.length (List.getElem?_eq_some_iff.1 hlookup).1
    (by rw [hlookup, Option.map_some, hvalue])
  rw [hsplit, List.take_left] at hearlier
  exact ⟨before, t, behind, hsplit, hreported, hvalue, hearlier⟩

end PLang
