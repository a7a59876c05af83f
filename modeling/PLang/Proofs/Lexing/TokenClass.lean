import PLang.Proofs.Lexing.Pieces

/-!
# The class of a token

Every token of a source is the longest match in its place, and its class is the only one that has
its lexeme. So the order in which patterns are tried does not show. A token has the kind of a
reserved word exactly if the whole word in its place is that word.
-/

namespace PLang

open TokenKind

variable {text after l : List Char} {t : Token}

/-! ### Reserved words -/

theorem reserved?_eq_some_iff {word : String} {kind : TokenKind} :
    reserved? word = some kind ↔ (word, kind) ∈ reservedWords := by
  have hlookup : ∀ entry ∈ reservedWords, reserved? entry.1 = some entry.2 := by decide
  refine ⟨fun h => ?_, hlookup (word, kind)⟩
  obtain ⟨l1, l2, heq, -⟩ := List.lookup_eq_some_iff.1 h
  rw [heq]
  exact List.mem_append_right _ (.head _)

/-- A word has the kind of a reserved word exactly if it is that word. -/
theorem wordKind_eq_iff {word : String} {entry : String × TokenKind} (h : entry ∈ reservedWords) :
    wordKind word = entry.2 ↔ word = entry.1 := by
  have hother : ∀ entry ∈ reservedWords, entry.2 ≠ identifier ∧
      ∀ entry' ∈ reservedWords, entry'.2 = entry.2 → entry'.1 = entry.1 := by
    decide
  constructor
  · intro hkind
    cases hreserved : reserved? word with
    | none =>
      rw [wordKind, hreserved] at hkind
      exact absurd hkind.symm (hother entry h).1
    | some kind =>
      rw [wordKind, hreserved] at hkind
      exact (hother entry h).2 _ (reserved?_eq_some_iff.1 hreserved) hkind
  · rintro rfl
    rw [wordKind, reserved?_eq_some_iff.2 h]
    rfl

theorem wordKind_eq_identifier_iff {word : String} :
    wordKind word = identifier ↔ ∀ entry ∈ reservedWords, word ≠ entry.1 := by
  have hother : ∀ entry ∈ reservedWords, entry.2 ≠ identifier := by decide
  constructor
  · rintro hkind entry h rfl
    exact hother entry h (((wordKind_eq_iff h).2 rfl).symm.trans hkind)
  · intro h
    cases hreserved : reserved? word with
    | none => rw [wordKind, hreserved, Option.getD_none]
    | some kind => exact absurd rfl (h _ (reserved?_eq_some_iff.1 hreserved))

/-- The kinds of words. -/
def TokenKind.isWord (kind : TokenKind) : Bool :=
  kind == identifier || reservedWords.any (·.2 == kind)

/-- Only words make tokens of the kinds of words. -/
theorem Pattern.eq_word_of_token? {p : Pattern} (hp : p ∈ tokenPatterns) {kind : TokenKind}
    {value : String} (h : p.token? l = some (kind, value)) (hkind : kind.isWord = true) :
    p = .word := by
  -- but for a word, the kind does not depend on the lexeme
  have hkinds : ∀ p ∈ tokenPatterns, p ≠ .word →
      ((p.token? []).all fun v => !v.1.isWord) = true := by
    decide
  cases p with
  | blanks | lineComment | blockComment => cases h
  | word => rfl
  | string | real | integer | symbol =>
    obtain ⟨rfl, -⟩ := Prod.mk.inj (Option.some.inj h)
    have hnot := hkinds _ hp (by simp)
    rw [token?, Option.all_some, hkind] at hnot
    cases hnot

/-- A match in front of a text that starts with a word is that word. -/
theorem Munch.eq_word {piece : Piece} {word rest : List Char} (h : Munch text piece)
    (hword : LongestCut IsWord text (word, rest)) :
    piece.pattern = .word ∧ piece.lexeme = word := by
  obtain ⟨c, hc, hc'⟩ := Pattern.starts_common (q := .word) ⟨_, h.append⟩ h.lexeme
    ⟨_, hword.append⟩ hword.mem
  have hpattern := eq_of_starts_sole h.mem (by decide) hc hc' (.inr rfl)
  have hcut := h.longestCut
  rw [hpattern] at hcut
  exact ⟨hpattern, (Prod.mk.inj (hword.eq hcut)).1⟩

/-! ### Tokens -/

/-- A token is the longest match in front of a text. It is what the first matching pattern cuts off,
no class of tokens has a longer lexeme there, and its own class is the only one with its lexeme. It
has the kind of a reserved word exactly if the whole word there is that word, and it is an
identifier exactly if the whole word there is not reserved. -/
structure Token.IsLongest (t : Token) (after : List Char) : Prop where
  first : ∃ p ∈ tokenPatterns, firstPiece? (t.lexeme ++ after) = some ⟨p, t.lexeme, after⟩ ∧
    p.token? t.lexeme = some (t.kind, t.value) ∧ p.Class t.lexeme ∧
      ∀ q ∈ tokenPatterns, q.Class t.lexeme → q = p
  longest : ∀ q ∈ tokenPatterns, ∀ l, l <+: t.lexeme ++ after → q.Class l →
    l.length ≤ t.lexeme.length
  reserved : ∀ entry ∈ reservedWords, t.kind = entry.2 ↔
    ∃ rest, LongestCut IsWord (t.lexeme ++ after) (entry.1.toList, rest)
  identifier : t.kind = .identifier ↔ ∃ word rest,
    LongestCut IsWord (t.lexeme ++ after) (word, rest) ∧
      ∀ entry ∈ reservedWords, word ≠ entry.1.toList

/-- A token has a kind of words exactly if there is a word in its place, and then its kind is the
kind of that word. -/
theorem Token.Heads.kind_iff (h : t.Heads after) {kind : TokenKind} (hkind : kind.isWord = true) :
    t.kind = kind ↔ ∃ word rest, LongestCut IsWord (t.lexeme ++ after) (word, rest) ∧
      wordKind (String.ofList word) = kind := by
  obtain ⟨-, p, hmunch, htoken⟩ := h
  constructor
  · rintro rfl
    obtain rfl := Pattern.eq_word_of_token? hmunch.mem htoken hkind
    exact ⟨t.lexeme, after, hmunch.longestCut, (Prod.mk.inj (Option.some.inj htoken)).1⟩
  · rintro ⟨word, rest, hword, rfl⟩
    obtain ⟨hp, hl⟩ := hmunch.eq_word hword
    obtain rfl : p = .word := hp
    rw [← hl]
    exact (Prod.mk.inj (Option.some.inj htoken)).1.symm

theorem Token.Heads.isLongest (h : t.Heads after) : t.IsLongest after := by
  have hwords : ∀ entry ∈ reservedWords, entry.2.isWord = true := by decide
  have hkind := @Token.Heads.kind_iff _ _ h
  obtain ⟨hunskipped, p, hmunch, htoken⟩ := h
  refine ⟨⟨p, hmunch.mem, (firstPiece?_iff_munch.2 ⟨hunskipped, hmunch⟩).1, htoken, hmunch.lexeme,
    hmunch.unique⟩, hmunch.longest, fun entry hentry => ?_, ?_⟩
  · rw [hkind (hwords entry hentry)]
    constructor
    · rintro ⟨word, rest, hword, heq⟩
      rw [wordKind_eq_iff hentry] at heq
      rw [← heq, String.toList_ofList]
      exact ⟨rest, hword⟩
    · rintro ⟨rest, hword⟩
      exact ⟨_, rest, hword, (wordKind_eq_iff hentry).2 (String.ofList_toList)⟩
  · rw [hkind rfl]
    refine exists_congr fun word => exists_congr fun rest => and_congr_right fun _ => ?_
    rw [wordKind_eq_identifier_iff]
    refine forall_congr' fun entry => imp_congr_right fun _ => not_congr ?_
    exact ⟨fun h => h ▸ String.toList_ofList.symm, fun h => h ▸ String.ofList_toList⟩

/-- First match is longest match: every token of a source but the last is the longest match in its
place. -/
theorem tokenize_longest {source : String} {tokens : List Token}
    (h : tokenize source = .ok tokens) : ∃ body eof, tokens = body ++ [eof] ∧
    eof.kind = .endOfFile ∧
      Pieces (fun _ t after => t.IsLongest after) [] source.toList body [] := by
  obtain ⟨body, rfl, hpieces⟩ := tokenize_eq_ok_iff.1 h
  exact ⟨body, _, rfl, rfl, hpieces.imp rfl fun _ _ _ _ ht => ht.1.isLongest⟩

/-- A source in which every token starts like a shorter one. -/
def unspaced : String := "iff<=12.5e3"

def unspacedTokens : List Token :=
  [⟨.identifier, "iff", ⟨⟨1, 1⟩, ⟨1, 4⟩⟩⟩, ⟨.lessEquals, "<=", ⟨⟨1, 4⟩, ⟨1, 6⟩⟩⟩,
    ⟨.real, "12.5e3", ⟨⟨1, 6⟩, ⟨1, 12⟩⟩⟩, .endOfFile ⟨⟨1, 12⟩, ⟨1, 12⟩⟩]

theorem tokenize_longest_unspaced : tokenize unspaced = .ok unspacedTokens ∧
    ∃ body eof, unspacedTokens = body ++ [eof] ∧ eof.kind = .endOfFile ∧
      Pieces (fun _ t after => t.IsLongest after) [] unspaced.toList body [] := by
  have htokens : tokenize unspaced = .ok unspacedTokens := eq_ok_of_toOption (by decide +kernel)
  exact ⟨htokens, tokenize_longest htokens⟩

end PLang
