import PLang.Proofs.Grammar.Completeness
import PLang.Proofs.Lexemes
import PLang.Proofs.ValidPrefix.Rules

/-!
# Parsing accepts the grammar

The tokens of a source are parsed without an error exactly if their kinds can be derived in the
grammar and their integers fit into 32-bit words, given as many nesting levels as there are tokens.
-/

namespace PLang

open Syntax Grammar Grammar.Phrase

/-- With enough nesting levels, tokens spell a program exactly if the grammar covers them. -/
theorem spells_iff_covers {body : List Token} {last : Token} {limit : Nat}
    (hlast : last.kind = .endOfFile) (hbody : ∀ t ∈ body, t.kind ≠ .endOfFile)
    (hlimit : body.length ≤ limit) :
    (∃ P, Spells limit (body ++ [last]) P) ↔ (name .program).Covers body := by
  constructor
  · intro hspells
    have hclose : closeTokens (body ++ [last]) = body ++ [last] := closeTokens_of_closed hlast
    obtain ⟨tree, hok⟩ := (parseTokens_ok_iff _ _).2 (hclose.symm ▸ hspells)
    have hlength : (closeTokens (body ++ [last])).length ≤ limit + 1 := by simpa [hclose]
    cases parseProgram_follows (n := 0) [] (Nat.le_refl limit) hlength .nil with
    | malformed _ _ run => cases hok.symm.trans (parseTokens_of_program_error run)
    | complaint _ _ run => cases hok.symm.trans (parseTokens_of_program_error run)
    | @ok front root p run split settled word _ _ _ =>
      have hend : p.stream.current.kind = .endOfFile := by
        by_contra hend
        rw [parseTokens_of_program_ok run, if_neg hend] at hok
        cases hok
      -- the program stops where the file does
      have hsplit : body ++ [last] = front ++ p.stream.current :: p.stream.rest := hclose ▸ split
      obtain rfl : body = front := by
        rcases List.append_eq_append_iff.1 hsplit with ⟨us, rfl, hus⟩ | ⟨us, rfl, hus⟩
        · cases us with
          | nil => exact (List.append_nil _).symm
          | cons t us => simp at hus
        · cases us with
          | nil => exact List.append_nil _
          | cons t us => exact absurd hend (hbody _ (by simp [(List.cons.inj hus).1]))
      exact ⟨word, settled.readable⟩
  · intro hcovers
    obtain ⟨P, hread⟩ := Reading.program_finds (Nesting.upTo_complete limit) body [last]
      hlimit hcovers
      rfl
    exact ⟨P, [last], hread, hlast⟩

/-- Parsing succeeds exactly if the kinds of the tokens can be derived and no integer is too
large. -/
theorem parseTokens_ok_iff_derives {body : List Token} {last : Token} {limit : Nat}
    (hlast : last.kind = .endOfFile) (hbody : ∀ t ∈ body, t.kind ≠ .endOfFile)
    (hlexed : ∀ t ∈ body, t.Lexed) (hlimit : (body ++ [last]).length ≤ limit) :
    (∃ tree, parseTokens (body ++ [last]) limit = .ok tree) ↔
      Derives (name .program) (body.map Token.kind) ∧
        ∀ t ∈ body, t.kind = .integer → Nat.ofDigitChars 10 t.value.toList 0 ≤ 0x7fffffff := by
  have hlength : body.length ≤ limit := by
    rw [List.length_append] at hlimit
    omega
  have hreadable : (∀ t ∈ body, Readable t) ↔
      ∀ t ∈ body, t.kind = .integer → Nat.ofDigitChars 10 t.value.toList 0 ≤ 0x7fffffff := by
    refine forall₂_congr fun t ht => ?_
    rw [Readable, and_iff_left (hlexed t ht).real]
    exact forall_congr' fun hkind => (hlexed t ht).word_iff hkind
  rw [parseTokens_ok_iff, closeTokens_of_closed hlast, spells_iff_covers hlast hbody hlength,
    Phrase.Covers, hreadable]

/-- A short program with operators of all strengths in one expression. -/
def flatSource : String := "p; begin print 2 - - 2147483647 * not (x[1] or y = f()); end end"

/-- Its tokens. -/
def flatTokens : List Token := tokensOf flatSource

theorem parseTokens_flatTokens :
    ∃ s root, parseTokens flatTokens flatTokens.length = .ok (s, root) := by
  have hok : ((parseTokens flatTokens flatTokens.length).toOption.map fun _ => ()) = some () := by
    rw [flatTokens, flatSource, tokensOf_ofList]
    decide +kernel
  obtain ⟨s, root, hparse, -⟩ := exists_parse_of_map hok
  exact ⟨s, root, hparse⟩

/-- The short program is parsed, so it can be derived. -/
theorem derives_flatTokens : (∃ tree, parseTokens flatTokens flatTokens.length = .ok tree) ∧
    Derives (name .program) (flatTokens.dropLast.map Token.kind) := by
  have hclosed : flatTokens ≠ [] ∧
      (∀ h : flatTokens ≠ [], (flatTokens.getLast h).kind = .endOfFile) ∧
      ∀ t ∈ flatTokens.dropLast, t.kind ≠ .endOfFile := by
    rw [flatTokens, flatSource, tokensOf_ofList]
    decide +kernel
  obtain ⟨hne, hlast, hbody⟩ := hclosed
  have hlexed : ∀ t ∈ flatTokens.dropLast, t.Lexed := fun t ht =>
    Token.lexed_of_mem (List.dropLast_subset _ ht)
  obtain ⟨s, root, hparse⟩ := parseTokens_flatTokens
  have hsplit := List.dropLast_append_getLast hne
  have htree : ∃ tree, parseTokens flatTokens flatTokens.length = .ok tree := ⟨_, hparse⟩
  refine ⟨htree, ?_⟩
  rw [← hsplit] at htree
  exact ((parseTokens_ok_iff_derives (hlast hne) hbody hlexed (Nat.le_refl _)).1 htree).1

end PLang
