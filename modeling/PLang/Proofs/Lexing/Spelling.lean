import PLang.Proofs.Lexing.TokenClass

/-!
# Spelling and reading back

Tokens that are spelled with blanks between them are read back as they were. No lexeme can be longer
than it was spelled, since only a string has blanks in it, and a string ends before a blank.
-/

namespace PLang

open TokenKind

variable {before after l rest : List Char}

variable {c : Char} {p : Pattern}

/-- The spellings of the kinds that are no words and have only one. -/
def TokenKind.symbols : List (String × TokenKind) :=
  [("[", openBracket), ("]", closeBracket), ("(", openParen), (")", closeParen),
   (":=", assignment), (":", colon), (";", semicolon), (",", comma), ("<>", notEquals),
   ("<=", lessEquals), ("<", less), (">=", greaterEquals), (">", greater), ("=", equals),
   ("+", plus), ("-", dash), ("/", slash), ("*", star)]

/-- The values that are possible for a kind. -/
def TokenKind.Allows (kind : TokenKind) (value : String) : Prop :=
  match kind with
  | .endOfFile => False
  | .identifier => IsWord value.toList ∧ ∀ entry ∈ reservedWords, value ≠ entry.1
  | .integer => IsDigits value.toList
  | .real => IsReal value.toList
  | .string => '\n' ∉ value.toList
  | kind => (value, kind) ∈ reservedWords ++ symbols

/-! ### Spellings are lexemes -/

theorem isQuoted_double (h : '\n' ∉ l) : IsQuoted (double l) := by
  induction l with
  | nil => exact .nil
  | cons c l ih =>
    rw [List.mem_cons, not_or] at h
    rw [double]
    split
    · exact .pair (ih h.2)
    · rename_i hquote
      exact .char hquote (Ne.symm h.1) (ih h.2)

theorem undouble_double (l : List Char) : Pattern.undouble (double l) = l := by
  induction l with
  | nil => rfl
  | cons c l ih =>
    rw [double]
    split
    · rename_i hquote
      rw [Pattern.undouble, ih, hquote]
    · rename_i hquote
      rw [Pattern.undouble.eq_2 _ _ fun _ hc _ => hquote hc, ih]

/-- The fixed spelling of a word or a symbol is a lexeme. -/
theorem class_of_fixed {entry : String × TokenKind} (h : entry ∈ reservedWords ++ symbols) :
    ∃ p ∈ tokenPatterns, p.Class entry.1.toList ∧
      p.token? entry.1.toList = some (entry.2, entry.1) := by
  rcases List.mem_append.1 h with h | h
  · have hword : ∀ entry ∈ reservedWords,
        splitWord? entry.1.toList = some (entry.1.toList, []) := by
      decide
    refine ⟨.word, by decide, (splitWord?_cuts.some _ _ (hword entry h)).mem, ?_⟩
    rw [Pattern.token?, String.ofList_toList, (wordKind_eq_iff h).2 rfl]
  · have hsymbol : ∀ entry ∈ symbols, ∃ p ∈ tokenPatterns,
        p.split? entry.1.toList = some (entry.1.toList, []) ∧
          p.token? entry.1.toList = some (entry.2, entry.1) := by
      decide
    obtain ⟨p, hp, hsplit, htoken⟩ := hsymbol entry h
    exact ⟨p, hp, (p.cuts.some _ _ hsplit).mem, htoken⟩

/-- The spelling of a possible value is a lexeme that makes it. -/
theorem TokenKind.Allows.lexeme {kind : TokenKind} {value : String} (h : kind.Allows value) :
    ∃ p ∈ tokenPatterns, p.Class (kind.spell value) ∧
      p.token? (kind.spell value) = some (kind, value) := by
  have hplain : ∀ {kind : TokenKind}, kind ≠ .string → kind.spell value = value.toList :=
    fun hne => if_neg hne
  have hvalue : String.ofList value.toList = value := String.ofList_toList
  unfold TokenKind.Allows at h
  split at h
  · cases h
  · rw [hplain (by decide)]
    refine ⟨.word, by decide, h.1, ?_⟩
    rw [Pattern.token?, hvalue, wordKind_eq_identifier_iff.2 h.2]
  · rw [hplain (by decide)]
    exact ⟨.integer, by decide, h, by rw [Pattern.token?, hvalue]⟩
  · rw [hplain (by decide)]
    exact ⟨.real, by decide, h, by rw [Pattern.token?, hvalue]⟩
  · refine ⟨.string, by decide, ⟨_, rfl, _, rfl, isQuoted_double h⟩, ?_⟩
    rw [spell, if_pos rfl, Pattern.token?, List.tail_cons, List.dropLast_concat, undouble_double,
      hvalue]
  · rename_i hstring
    rw [hplain hstring]
    exact class_of_fixed h

/-! ### Spellings before blanks -/

/-- A string is not the beginning of a longer one, unless a quote follows. -/
theorem IsQuoted.not_isStringEnd (h : IsQuoted l) (hc : c ≠ '"') :
    ¬IsStringEnd (l ++ '"' :: c :: rest) := by
  induction h with
  | nil =>
    intro hend
    rcases isStringEnd_quote_cons hend with hnil | ⟨tail, heq, -⟩
    · cases hnil
    · exact hc (List.cons.inj heq).1
  | char hquote _ _ ih => exact fun hend => ih ((isStringEnd_cons_of_ne hquote).1 hend).2
  | pair _ ih =>
    intro hend
    rcases isStringEnd_quote_cons hend with hnil | ⟨tail, heq, hend⟩
    · cases hnil
    · obtain rfl := (List.cons.inj heq).2
      exact ih hend

theorem IsString.not_append (h : IsString l) (hc : c ≠ '"') : ¬IsString (l ++ c :: rest) := by
  obtain ⟨_, rfl, inner, rfl, hinner⟩ := h
  rintro ⟨tail, heq, hend⟩
  rw [List.cons_append, List.append_assoc] at heq
  obtain rfl := (List.cons.inj heq).2
  exact hinner.not_isStringEnd hc hend

/-- The first character of a lexeme is no blank. -/
theorem isBlank_first (hp : p ∈ tokenPatterns) (hl : p.Class (c :: l)) : isBlank c = false := by
  by_cases hstring : p = .string
  · subst hstring
    obtain ⟨_, heq, -⟩ := hl
    rw [(List.cons.inj heq).1]
    rfl
  · exact isBlank_of_class hp hstring hl (.head _)

/-- A lexeme before a blank, or before the end, is the longest match. -/
theorem munch_of_blank (hp : p ∈ tokenPatterns) (hl : p.Class l)
    (hafter : ∀ c ∈ after.head?, isBlank c = true) : Munch (l ++ after) ⟨p, l, after⟩ := by
  refine ⟨hp, rfl, hl, fun q hq l' hfront hl' => Nat.le_of_not_lt fun hlt => ?_,
    fun q hq hql => eq_of_class hq hp hql hl⟩
  -- a longer lexeme goes on with the blank, so it is a string, and then so is the shorter one
  have hshort := List.prefix_append l after
  obtain ⟨more, rfl⟩ := List.prefix_of_prefix_length_le hshort hfront (Nat.le_of_lt hlt)
  cases more with
  | nil => simp at hlt
  | cons c more =>
    obtain ⟨tail, rfl⟩ := (List.prefix_append_right_inj l).1 hfront
    have hc : isBlank c = true := hafter c rfl
    have hstring : q = .string := by
      by_contra hne
      have hblank := isBlank_of_class hq hne hl' (List.mem_append_right l (.head _))
      cases hblank.symm.trans hc
    subst hstring
    obtain ⟨first, hfirst, hfirst'⟩ := Pattern.starts_common hshort hl hfront hl'
    obtain rfl := eq_of_starts_sole hp hq hfirst hfirst' (.inl rfl)
    refine IsString.not_append hl ?_ hl'
    rintro rfl
    cases hc

/-- Nothing is skipped in front of a lexeme before a blank, or before the end. -/
theorem unskipped_of_blank (hp : p ∈ tokenPatterns) (hl : p.Class l)
    (hafter : ∀ c ∈ after.head?, isBlank c = true) : Unskipped (l ++ after) := by
  have hslash : ∀ p ∈ tokenPatterns, p.starts '/' = true → p = .symbol .slash '/' [] := by decide
  obtain ⟨c, tail, rfl, hc⟩ := Pattern.starts_of_class hl
  -- a comment would start with a slash and a character that is no blank
  have hcomment : ∀ {d : Char} {L : List Char → Prop} {l' : List Char},
      l' <+: c :: tail ++ after → Led '/' (Led d L) l' → isBlank d = true := by
    intro d L l' hfront hled
    obtain ⟨_, _, -, heq, hrest, hled⟩ := Led.of_front hled hfront
    obtain ⟨rfl, htail⟩ := List.cons.inj heq
    obtain rfl := hslash p hp hc
    obtain rfl : tail = [] := (List.cons.inj (hl : '/' :: tail = ['/'])).2
    rw [← htail] at hrest
    obtain ⟨_, rest, -, heq, -⟩ := Led.of_front hled hrest
    obtain rfl : after = d :: rest := heq
    exact hafter d rfl
  intro q _ hskip l' hfront hl'
  cases q with
  | blanks =>
    obtain ⟨d, rest, rfl, hd⟩ := Pattern.starts_of_class hl'
    obtain rfl := (List.cons_prefix_cons.1 hfront).1
    cases (isBlank_first hp hl).symm.trans hd
  | lineComment => cases hcomment hfront hl'
  | blockComment => cases hcomment hfront hl'
  | string | real | integer | word | symbol => cases hskip

/-! ### Texts of items -/

/-- A token to be spelled, with the blanks behind it. -/
structure Item where
  kind : TokenKind
  value : String
  gap : List Char

/-- An item with a possible value and nothing but blanks behind it. -/
structure Item.Proper (item : Item) : Prop where
  allows : item.kind.Allows item.value
  gap : item.gap.all isBlank = true

/-- The spelling of an item and the blanks behind it. -/
def Item.text (item : Item) : List Char := item.kind.spell item.value ++ item.gap

/-- The token that an item is read as. -/
def Item.token (item : Item) (before : List Char) : Token :=
  ⟨item.kind, item.value,
    (Position.start.afterText before).spanOf (byteLength (item.kind.spell item.value))⟩

theorem Item.Proper.scanned {item : Item} (h : item.Proper)
    (hafter : ∀ c ∈ after.head?, isBlank c = true) : (item.token before).Scanned before after := by
  obtain ⟨p, hp, hclass, htoken⟩ := h.allows.lexeme
  exact ⟨⟨unskipped_of_blank hp hclass hafter, p, munch_of_blank hp hclass hafter, htoken⟩, rfl⟩

/-- The spelling of an item does not start with a blank. -/
theorem Item.Proper.isBlank_head {item : Item} (h : item.Proper) :
    ∀ c ∈ (item.text ++ rest).head?, isBlank c = false := by
  intro c hc
  obtain ⟨p, hp, hclass, -⟩ := h.allows.lexeme
  obtain ⟨d, tail, heq, -⟩ := Pattern.starts_of_class hclass
  rw [Item.text, heq] at hc
  cases hc
  exact isBlank_first hp (heq ▸ hclass)

/-- Blanks in front, if there are any, are skipped. -/
theorem Pieces.blanks {P : List Char → Token → List Char → Prop} {ts : List Token}
    (h : Pieces P (before ++ l) after ts rest) (hl : l.all isBlank = true)
    (hafter : ∀ c ∈ after.head?, isBlank c = false) : Pieces P before (l ++ after) ts rest := by
  by_cases hnil : l = []
  · subst hnil
    rwa [List.append_nil] at h
  · exact .skip (.blanks ⟨hnil, hl⟩ hafter) h

/-- A text of items is cut into the tokens of the items. -/
theorem exists_pieces_items {items : List Item} (hitems : ∀ item ∈ items, item.Proper)
    (hgaps : ∀ item ∈ items.dropLast, item.gap ≠ []) {lead : List Char}
    (hlead : lead.all isBlank = true) (before : List Char) :
    ∃ ts, Pieces Token.Scanned before (lead ++ items.flatMap Item.text) ts [] ∧
      ts.map (fun t => (t.kind, t.value)) = items.map fun item => (item.kind, item.value) := by
  induction items generalizing lead before with
  | nil => exact ⟨[], .blanks .nil hlead (fun _ hc => by cases hc), rfl⟩
  | cons item items ih =>
    rw [List.forall_mem_cons] at hitems
    have htail : ∀ item ∈ items.dropLast, item.gap ≠ [] := by
      cases items with
      | nil => exact fun _ h => absurd h List.not_mem_nil
      | cons item' items => exact (List.forall_mem_cons.1 hgaps).2
    -- behind the spelling there is a blank, or nothing
    have hafter : ∀ c ∈ (item.gap ++ items.flatMap Item.text).head?, isBlank c = true := by
      cases hgap : item.gap with
      | nil =>
        cases items with
        | nil => exact fun _ hc => by cases hc
        | cons item' items => exact absurd hgap ((List.forall_mem_cons.1 hgaps).1)
      | cons d gap =>
        intro c hc
        cases hc
        exact List.all_eq_true.1 hitems.1.gap d (hgap ▸ (.head _))
    obtain ⟨ts, hpieces, hts⟩ := ih hitems.2 htail hitems.1.gap
      (before ++ lead ++ item.kind.spell item.value)
    refine ⟨item.token (before ++ lead) :: ts, .blanks ?_ hlead hitems.1.isBlank_head,
      congrArg ((item.kind, item.value) :: ·) hts⟩
    rw [List.flatMap_cons, Item.text, List.append_assoc]
    exact .token (hitems.1.scanned hafter) hpieces

/-- Tokens are read back as they were spelled: in a text of items with possible values and blanks
between them, and possibly in front and at the end, the tokens are those of the items, in order, and
then the end of the file. -/
theorem tokenize_spelling {items : List Item} {lead : List Char} (hlead : lead.all isBlank = true)
    (hitems : ∀ item ∈ items, item.Proper) (hgaps : ∀ item ∈ items.dropLast, item.gap ≠ []) :
    ∃ tokens, tokenize (String.ofList (lead ++ items.flatMap Item.text)) = .ok tokens ∧
      tokens.map (fun t => (t.kind, t.value)) =
        items.map (fun item => (item.kind, item.value)) ++ [(.endOfFile, "EOF")] := by
  obtain ⟨ts, hpieces, hts⟩ := exists_pieces_items hitems hgaps hlead []
  refine ⟨_, tokenize_eq_ok_iff.2 ⟨ts, rfl, ?_⟩, ?_⟩
  · rwa [String.toList_ofList]
  · rw [List.map_append, hts]
    rfl

/-- A division by a string that looks like the end of a comment. -/
def division : List Item :=
  [⟨.identifier, "x", ['\t']⟩, ⟨.slash, "/", ['\n', ' ']⟩, ⟨.string, "\"*/", [' ']⟩,
    ⟨.real, "1e2", []⟩]

theorem tokenize_spelling_division : (∀ item ∈ division, item.Proper) ∧
    (∀ item ∈ division.dropLast, item.gap ≠ []) ∧
    ∃ tokens, tokenize (String.ofList ([' '] ++ division.flatMap Item.text)) = .ok tokens ∧
      tokens.map (fun t => (t.kind, t.value)) =
        division.map (fun item => (item.kind, item.value)) ++ [(.endOfFile, "EOF")] := by
  have hword : IsWord ['x'] := ⟨'x', [], rfl, rfl, rfl⟩
  have hslash : ("/", slash) ∈ reservedWords ++ symbols := by decide
  have hstring : '\n' ∉ ['"', '*', '/'] := by decide
  have hreal : IsReal ['1', 'e', '2'] := by
    refine ⟨['1'], ['e', '2'], ⟨by decide, rfl⟩, .inr ?_, rfl⟩
    exact ⟨'e', [], ['2'], .inl rfl, .inl rfl, ⟨by decide, rfl⟩, rfl⟩
  have hitems : ∀ item ∈ division, item.Proper := by
    simp only [division, List.forall_mem_cons]
    exact ⟨⟨⟨hword, by decide⟩, rfl⟩, ⟨hslash, rfl⟩, ⟨hstring, rfl⟩, ⟨hreal, rfl⟩,
      fun _ h => absurd h List.not_mem_nil⟩
  have hgaps : ∀ item ∈ division.dropLast, item.gap ≠ [] := by
    simp [division]
  exact ⟨hitems, hgaps, tokenize_spelling rfl hitems hgaps⟩

end PLang
