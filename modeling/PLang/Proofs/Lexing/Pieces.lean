import PLang.Proofs.Lexing.LongestMatch

/-!
# A text and its pieces

A text is cut into pieces from the left: text that is skipped, and the lexemes of tokens. `Pieces`
says what such a cutting is without reference to the order in which patterns are tried, and the
tokens of a source are those of its pieces (`tokenize_eq_ok_iff`). Where the pieces end before the
text does, no pattern matches, and there the source has its error (`tokenize_eq_error_iff`).
-/

namespace PLang

open List Pattern Position

variable {before text after l rest : List Char} {t : Token} {ts : List Token}

variable {p : Pattern} {piece : Piece}

/-! ### Lexemes of tokens -/

/-- A text with every quote doubled. -/
def double : List Char → List Char
  | [] => []
  | c :: text => if c = '"' then '"' :: '"' :: double text else c :: double text

/-- The spelling of a kind with a value: a string stands in quotes, and its quotes are doubled. -/
def TokenKind.spell (kind : TokenKind) (value : String) : List Char :=
  if kind = .string then '"' :: (double value.toList ++ ['"']) else value.toList

/-- The text of a token in its source. -/
def Token.lexeme (t : Token) : List Char := t.kind.spell t.value

theorem IsQuoted.double_undouble (h : IsQuoted l) : double (undouble l) = l := by
  induction h with
  | nil => rfl
  | @char c text hquote _ _ ih =>
    have hundouble : undouble (c :: text) = c :: undouble text := by
      rw [undouble.eq_2 _ _ fun _ hc _ => hquote hc]
    rw [hundouble, double, if_neg hquote, ih]
  | pair _ ih => rw [undouble, double, if_pos rfl, ih]

/-- A lexeme is the spelling of the token that it makes. -/
theorem spell_of_token? (hp : p ∈ tokenPatterns) (hl : p.Class l) {kind : TokenKind}
    {value : String} (h : p.token? l = some (kind, value)) : kind.spell value = l := by
  have hplain : ∀ {kind' : TokenKind}, kind' ≠ .string →
      some (kind', String.ofList l) = some (kind, value) → kind.spell value = l := by
    intro kind' hne heq
    obtain ⟨rfl, rfl⟩ := Prod.mk.inj (Option.some.inj heq)
    rw [TokenKind.spell, if_neg hne, String.toList_ofList]
  cases p with
  | blanks | lineComment | blockComment => cases h
  | string =>
    obtain ⟨_, rfl, inner, rfl, hinner⟩ := hl
    obtain ⟨rfl, rfl⟩ := Prod.mk.inj (Option.some.inj h)
    rw [TokenKind.spell, if_pos rfl, String.toList_ofList, tail_cons, dropLast_concat,
      hinner.double_undouble]
  | real | integer => exact hplain (by decide) h
  | word =>
    refine hplain (fun hkind => ?_) h
    have hmem := wordKind_mem (String.ofList l)
    rw [hkind] at hmem
    exact absurd hmem (by decide)
  | symbol k first others =>
    refine hplain (fun hkind => ?_) h
    subst hkind
    simp [tokenPatterns, patterns] at hp

/-! ### Pieces -/

/-- Text that is skipped in front of other text: all blanks up to it, a comment up to the end of
its line, or a comment up to its closing mark. -/
inductive Skipped : List Char → List Char → Prop
  | blanks {l after : List Char} :
    IsRun isBlank l → (∀ c ∈ after.head?, isBlank c = false) → Skipped l after
  | lineComment {l after : List Char} :
    IsLineComment l → (∀ c ∈ after.head?, c = '\n') → Skipped l after
  | blockComment {l after : List Char} : IsBlockComment l → Skipped l after

/-- A token stands in front of a text: nothing is skipped there, and the lexeme of the token is the
longest match. -/
def Token.Heads (t : Token) (after : List Char) : Prop :=
  Unskipped (t.lexeme ++ after) ∧ ∃ p, Munch (t.lexeme ++ after) ⟨p, t.lexeme, after⟩ ∧
    p.token? t.lexeme = some (t.kind, t.value)

/-- A text behind `before` is cut into skipped text and the lexemes of tokens, up to a rest. Every
token stands in its place, between the text before it and the text after it, as `P` says. -/
inductive Pieces (P : List Char → Token → List Char → Prop) :
    List Char → List Char → List Token → List Char → Prop
  | nil {before rest : List Char} : Pieces P before rest [] rest
  | skip {before l after rest : List Char} {ts : List Token} :
    Skipped l after → Pieces P (before ++ l) after ts rest → Pieces P before (l ++ after) ts rest
  | token {before after rest : List Char} {t : Token} {ts : List Token} :
    P before t after → Pieces P (before ++ t.lexeme) after ts rest →
      Pieces P before (t.lexeme ++ after) (t :: ts) rest

/-- What holds of tokens in their places in a source may be replaced by what follows from it. -/
theorem Pieces.imp {P Q : List Char → Token → List Char → Prop} {source : List Char}
    (h : Pieces P before text ts rest) (hsource : before ++ text = source)
    (himp : ∀ before t after, before ++ t.lexeme ++ after = source → P before t after →
      Q before t after) : Pieces Q before text ts rest := by
  induction h with
  | nil => exact .nil
  | skip hskip _ ih => exact .skip hskip (ih (by rw [← hsource, append_assoc]))
  | token hP _ ih =>
    rw [← append_assoc] at hsource
    exact .token (himp _ _ _ hsource hP) (ih hsource)

/-! ### The first piece of a text -/

variable {L : List Char → Prop}

/-- A run is the longest one exactly if no character of its class follows. -/
theorem longestCut_run_iff {p : Char → Bool}
    (hL : ∀ l, L l → l.all p = true) (hsnoc : ∀ l c, L l → p c = true → L (l ++ [c])) :
    LongestCut L (l ++ after) (l, after) ↔ L l ∧ ∀ c ∈ after.head?, p c = false := by
  constructor
  · intro h
    refine ⟨h.mem, fun c hc => ?_⟩
    rw [← Bool.not_eq_true]
    intro hpc
    obtain ⟨tail, rfl⟩ := head?_eq_some_iff.1 hc
    have hle := h.longest (l ++ [c]) ⟨tail, by rw [append_assoc]; rfl⟩ (hsnoc l c h.mem hpc)
    rw [length_append] at hle
    exact Nat.not_succ_le_self _ hle
  · rintro ⟨hl, hafter⟩
    refine ⟨rfl, hl, fun l' hfront hl' => ?_⟩
    have hle := length_le_takeWhile hfront (hL l' hl')
    rw [takeWhile_append_of_pos (all_eq_true.1 (hL l hl))] at hle
    cases after with
    | nil => simpa using hle
    | cons c tail => simpa [hafter c rfl] using hle

theorem longestCut_led_iff {c : Char} :
    LongestCut (Led c L) (c :: text) (c :: l, after) ↔ LongestCut L text (l, after) := by
  refine ⟨fun h => ⟨cons_injective h.append, ?_, fun l' hfront hl' => ?_⟩, fun h => h.cons c⟩
  · obtain ⟨rest, heq, hrest⟩ := h.mem
    obtain rfl := (cons.inj heq).2
    exact hrest
  · exact Nat.le_of_succ_le_succ
      (h.longest (c :: l') (cons_prefix_cons.2 ⟨rfl, hfront⟩) ⟨l', rfl, hl'⟩)

/-- A block comment is not the beginning of another one. -/
theorem IsCommentEnd.longestCut (h : IsCommentEnd l) :
    LongestCut IsCommentEnd (l ++ after) (l, after) := by
  refine ⟨rfl, h, fun l' hfront hl' => Nat.le_of_not_lt fun hlt => ?_⟩
  obtain ⟨body, rfl, -⟩ := h
  obtain ⟨body', rfl, hfirst⟩ := hl'
  -- the shorter one ends inside the longer one, with a closing mark
  have hshort : body ++ ['*', '/'] <+: body' ++ ['*'] := by
    refine prefix_of_prefix_length_le (prefix_append _ after) ?_ ?_
    · refine List.IsPrefix.trans ?_ hfront
      exact ⟨['/'], by rw [append_assoc]; rfl⟩
    · simp only [length_append, length_cons, length_nil] at hlt ⊢
      omega
  exact hfirst ((suffix_append body _).isInfix.trans hshort.isInfix)

/-- Skipped text is the longest piece of its pattern. -/
theorem skipped_iff :
    Skipped l after ↔ ∃ p : Pattern, p.isSkipped = true ∧
      LongestCut p.Class (l ++ after) (l, after) := by
  have hblanks : LongestCut (IsRun isBlank) (l ++ after) (l, after) ↔
      IsRun isBlank l ∧ ∀ c ∈ after.head?, isBlank c = false :=
    longestCut_run_iff (fun l hl => hl.2) fun l c hl hc =>
      ⟨by simp, by rw [all_append, hl.2]; simpa using hc⟩
  have hline : ∀ {l : List Char}, LongestCut (fun body => '\n' ∉ body) (l ++ after) (l, after) ↔
      '\n' ∉ l ∧ ∀ c ∈ after.head?, c = '\n' := by
    intro l
    have h : LongestCut (fun body => '\n' ∉ body) (l ++ after) (l, after) ↔
        '\n' ∉ l ∧ ∀ c ∈ after.head?, (c != '\n') = false :=
      longestCut_run_iff
        (fun l hl => all_eq_true.2 fun c hc => bne_iff_ne.2 fun heq => hl (heq ▸ hc))
        fun l c hl hc => by simpa [hl] using Ne.symm (bne_iff_ne.1 hc)
    simpa using h
  constructor
  · intro h
    cases h with
    | blanks hl hafter => exact ⟨.blanks, rfl, hblanks.2 ⟨hl, hafter⟩⟩
    | lineComment hl hafter =>
      obtain ⟨_, rfl, body, rfl, hbody⟩ := hl
      exact ⟨.lineComment, rfl, ((hline.2 ⟨hbody, hafter⟩).cons '/').cons '/'⟩
    | blockComment hl =>
      obtain ⟨_, rfl, body, rfl, hbody⟩ := hl
      exact ⟨.blockComment, rfl, (hbody.longestCut.cons '*').cons '/'⟩
  · rintro ⟨p, hp, h⟩
    cases p with
    | blanks => exact .blanks (hblanks.1 h).1 (hblanks.1 h).2
    | lineComment =>
      have hl : IsLineComment l := h.mem
      obtain ⟨_, rfl, body, rfl, hbody⟩ := hl
      exact .lineComment h.mem (hline.1 (longestCut_led_iff.1 (longestCut_led_iff.1 h))).2
    | blockComment => exact .blockComment h.mem
    | string | real | integer | word | symbol => cases hp

/-- What is skipped in front of a text is of one class. -/
theorem eq_of_isSkipped {q : Pattern} {l' : List Char} (hp : p.isSkipped = true)
    (hq : q.isSkipped = true) (hfront : l <+: text) (hl : p.Class l) (hfront' : l' <+: text)
    (hl' : q.Class l') : q = p := by
  have hmark : ∀ {l l' : List Char}, l <+: text → l' <+: text → IsLineComment l →
      ¬IsBlockComment l' := by
    intro l l' hfront hfront' hl hl'
    obtain ⟨l, tail, -, rfl, hrest, hl⟩ := Led.of_front hl hfront
    obtain ⟨l, tail, -, rfl, -⟩ := Led.of_front hl hrest
    obtain ⟨l', _, -, heq, hrest', hl'⟩ := Led.of_front hl' hfront'
    obtain rfl := (cons.inj heq).2
    obtain ⟨l', _, -, heq, -⟩ := Led.of_front hl' hrest'
    cases heq
  obtain ⟨c, hpc, hqc⟩ := starts_common hfront hl hfront' hl'
  have hslash : (c == '/') = true → isBlank c = false := fun hc => by
    rw [eq_of_beq hc]
    rfl
  cases p with
  | blanks =>
    cases q with
    | blanks => rfl
    | lineComment | blockComment => cases (hslash hqc).symm.trans hpc
    | string | real | integer | word | symbol => cases hq
  | lineComment =>
    cases q with
    | blanks => cases (hslash hpc).symm.trans hqc
    | lineComment => rfl
    | blockComment => exact absurd hl' (hmark hfront hfront' hl)
    | string | real | integer | word | symbol => cases hq
  | blockComment =>
    cases q with
    | blanks => cases (hslash hpc).symm.trans hqc
    | lineComment => exact absurd hl (hmark hfront' hfront hl')
    | blockComment => rfl
    | string | real | integer | word | symbol => cases hq
  | string | real | integer | word | symbol => cases hp

theorem mem_patterns_of_isSkipped (hp : p.isSkipped = true) : p ∈ patterns := by
  cases p with
  | blanks | lineComment | blockComment => decide
  | string | real | integer | word | symbol => cases hp

/-- Skipped text is the first piece of a text. -/
theorem firstPiece?_of_skipped (h : Skipped l after) :
    ∃ p, firstPiece? (l ++ after) = some ⟨p, l, after⟩ ∧ p.isSkipped = true := by
  obtain ⟨p, hp, hcut⟩ := skipped_iff.1 h
  have hmem := mem_patterns_of_isSkipped hp
  refine ⟨p, ?_, hp⟩
  cases hpiece : firstPiece? (l ++ after) with
  | none => exact absurd hcut.mem (firstPiece?_eq_none_iff.1 hpiece p hmem l ⟨_, hcut.append⟩)
  | some piece =>
    cases hskip : piece.pattern.isSkipped with
    | false =>
      have hunskipped := (firstPiece?_iff_munch.1 ⟨hpiece, hskip⟩).1
      exact absurd hcut.mem (hunskipped p hmem hp l ⟨_, hcut.append⟩)
    | true =>
      obtain ⟨_, _, -, hcut', -⟩ := firstPiece?_eq_some_iff.1 hpiece
      obtain ⟨q, l', after'⟩ := piece
      obtain rfl : q = p :=
        eq_of_isSkipped hp hskip ⟨_, hcut.append⟩ hcut.mem ⟨_, hcut'.append⟩ hcut'.mem
      obtain ⟨rfl, rfl⟩ := Prod.mk.inj (hcut.eq hcut')
      rfl

theorem skipped_of_firstPiece? (h : firstPiece? text = some piece)
    (hskip : piece.pattern.isSkipped = true) : Skipped piece.lexeme piece.rest := by
  obtain ⟨_, _, -, hcut, -⟩ := firstPiece?_eq_some_iff.1 h
  obtain rfl : piece.lexeme ++ piece.rest = text := hcut.append
  exact skipped_iff.2 ⟨_, hskip, hcut⟩

/-! ### Reading a text -/

theorem Pattern.token?_eq_none_iff : p.token? l = none ↔ p.isSkipped = true := by
  cases p <;> simp [token?, isSkipped]

/-- Reading a text is reading its first piece and then what follows. -/
theorem scan_of_firstPiece? (h : firstPiece? text = some piece) (p : Position) :
    scan p text = (scan (p.afterText piece.lexeme) piece.rest).map
      (((piece.pattern.token? piece.lexeme).map fun v =>
        ⟨v.1, v.2, p.spanOf (byteLength piece.lexeme)⟩).toList ++ ·) := by
  fun_cases scan p text with
  | case1 => exact absurd (length_rest_lt h) (Nat.not_lt_zero _)
  | case2 c tail hnone => cases h.symm.trans hnone
  | case3 c tail piece' hpiece _ e hscan =>
    cases h.symm.trans hpiece
    rw [hscan]
    rfl
  | case4 c tail piece' hpiece _ tokens hscan htoken =>
    cases h.symm.trans hpiece
    rw [hscan, htoken]
    rfl
  | case5 c tail piece' hpiece _ tokens hscan kind value htoken =>
    cases h.symm.trans hpiece
    rw [hscan, htoken]
    rfl

theorem scan_nil (p : Position) : scan p [] = .ok [.endOfFile (p.spanOf 0)] := by
  rw [scan.eq_def]

theorem scan_of_firstPiece?_eq_none {c : Char} (h : firstPiece? (c :: text) = none)
    (p : Position) :
    scan p (c :: text) = .error ⟨.unrecognisedToken (String.ofList [c]), p.location⟩ := by
  generalize htext : c :: text = text' at h
  fun_cases scan p text' with
  | case1 => cases htext
  | case2 => obtain ⟨rfl, rfl⟩ := cons.inj htext; rfl
  | case3 _ _ _ hpiece => cases h.symm.trans hpiece
  | case4 _ _ _ hpiece => cases h.symm.trans hpiece
  | case5 _ _ _ hpiece => cases h.symm.trans hpiece

theorem scan_of_skipped (h : Skipped l after) (p : Position) :
    scan p (l ++ after) = scan (p.afterText l) after := by
  obtain ⟨pattern, hpiece, hskip⟩ := firstPiece?_of_skipped h
  rw [scan_of_firstPiece? hpiece, token?_eq_none_iff.2 hskip]
  exact congrFun Except.map_id _

/-- The token that stands in a place, with its span. -/
def Token.Scanned (before : List Char) (t : Token) (after : List Char) : Prop :=
  t.Heads after ∧ t.span = (start.afterText before).spanOf (byteLength t.lexeme)

theorem scan_of_scanned (h : t.Scanned before after) :
    scan (start.afterText before) (t.lexeme ++ after) =
      (scan (start.afterText (before ++ t.lexeme)) after).map (t :: ·) := by
  obtain ⟨⟨hunskipped, pattern, hmunch, htoken⟩, hspan⟩ := h
  have hpiece := (firstPiece?_iff_munch.2 ⟨hunskipped, hmunch⟩).1
  rw [scan_of_firstPiece? hpiece, htoken, ← afterText_append, Option.map_some, ← hspan]
  rfl

/-- What is read of a text is read of its pieces and of the rest. -/
theorem Pieces.scan_eq {before' : List Char} (h : Pieces Token.Scanned before text ts rest)
    (hrest : before ++ text = before' ++ rest) :
    scan (start.afterText before) text =
      (scan (start.afterText before') rest).map (ts ++ ·) := by
  induction h with
  | nil =>
    obtain rfl := append_cancel_right hrest
    exact (congrFun Except.map_id _).symm
  | skip hskip _ ih =>
    rw [scan_of_skipped hskip, ← afterText_append]
    exact ih (by rw [← hrest, append_assoc])
  | token ht _ ih =>
    rw [scan_of_scanned ht, ih (by rw [← hrest, append_assoc])]
    cases scan (start.afterText before') _ <;> rfl

/-- A lexeme that is the longest match makes the token that stands there. -/
theorem exists_scanned (before : List Char) (hpiece : firstPiece? text = some piece)
    (hskip : piece.pattern.isSkipped = false) :
    ∃ t : Token, t.lexeme = piece.lexeme ∧ t.Scanned before piece.rest := by
  obtain ⟨hunskipped, hmunch⟩ := firstPiece?_iff_munch.1 ⟨hpiece, hskip⟩
  obtain rfl := hmunch.append
  cases htoken : piece.pattern.token? piece.lexeme with
  | none =>
    rw [token?_eq_none_iff.1 htoken] at hskip
    cases hskip
  | some v =>
    have hlexeme : v.1.spell v.2 = piece.lexeme := spell_of_token? hmunch.mem hmunch.lexeme htoken
    refine ⟨⟨v.1, v.2, (start.afterText before).spanOf (byteLength piece.lexeme)⟩, hlexeme,
      ?_, ?_⟩
    · rw [Token.Heads, Token.lexeme, hlexeme]
      exact ⟨hunskipped, piece.pattern, hmunch, htoken⟩
    · rw [Token.lexeme, hlexeme]

/-- Every text can be cut into pieces up to a place where no pattern matches. -/
theorem exists_pieces (before text : List Char) : ∃ before' ts rest,
    before ++ text = before' ++ rest ∧ Pieces Token.Scanned before text ts rest ∧
      firstPiece? rest = none := by
  induction hn : text.length using Nat.strongRecOn generalizing before text with
  | ind n ih =>
    cases hpiece : firstPiece? text with
    | none => exact ⟨before, [], text, rfl, .nil, hpiece⟩
    | some piece =>
      obtain ⟨before', ts, rest, happend, hpieces, hrest⟩ :=
        ih _ (hn ▸ length_rest_lt hpiece) (before ++ piece.lexeme) piece.rest rfl
      have htext := (split?_eq_some (firstPiece?_eq_some hpiece)).2
      dsimp only at htext
      rw [← htext, ← append_assoc]
      cases hskip : piece.pattern.isSkipped with
      | true =>
        have hskipped := skipped_of_firstPiece? hpiece hskip
        exact ⟨before', ts, rest, happend, .skip hskipped hpieces, hrest⟩
      | false =>
        obtain ⟨t, hlexeme, ht⟩ := exists_scanned before hpiece hskip
        rw [← hlexeme] at happend hpieces ⊢
        exact ⟨before', t :: ts, rest, happend, .token ht hpieces, hrest⟩

/-- No pattern matches in front of a text. -/
def Unmatched (text : List Char) : Prop := ∀ p ∈ patterns, ∀ l, l <+: text → ¬p.Class l

/-- The pieces of a source and what they say of its tokens. -/
theorem tokenize_pieces (source : String) : (∃ body,
      Pieces Token.Scanned [] source.toList body [] ∧ tokenize source =
        .ok (body ++ [.endOfFile ((start.afterText source.toList).spanOf 0)])) ∨
    ∃ before body c rest, source.toList = before ++ c :: rest ∧
      Pieces Token.Scanned [] source.toList body (c :: rest) ∧ Unmatched (c :: rest) ∧
        tokenize source = .error
          ⟨.unrecognisedToken (String.ofList [c]), (start.afterText before).location⟩ := by
  obtain ⟨before, body, rest, happend, hpieces, hrest⟩ := exists_pieces [] source.toList
  have hscan := hpieces.scan_eq happend
  rw [afterText_nil, ← tokenize] at hscan
  rw [nil_append] at happend
  cases rest with
  | nil =>
    rw [append_nil] at happend
    rw [scan_nil, ← happend] at hscan
    exact .inl ⟨body, hpieces, hscan⟩
  | cons c rest =>
    rw [scan_of_firstPiece?_eq_none hrest] at hscan
    exact .inr ⟨before, body, c, rest, happend, hpieces, firstPiece?_eq_none_iff.1 hrest, hscan⟩

/-- The tokens of a source are those of its pieces, and the end of the file. -/
theorem tokenize_eq_ok_iff {source : String} {tokens : List Token} :
    tokenize source = .ok tokens ↔ ∃ body,
      tokens = body ++ [.endOfFile ((start.afterText source.toList).spanOf 0)] ∧
        Pieces Token.Scanned [] source.toList body [] := by
  constructor
  · intro h
    rcases tokenize_pieces source with ⟨body, hpieces, hok⟩ | ⟨_, _, _, _, _, _, _, herror⟩
    · exact ⟨body, Except.ok.inj (h.symm.trans hok), hpieces⟩
    · cases h.symm.trans herror
  · rintro ⟨body, rfl, hpieces⟩
    have hscan := hpieces.scan_eq (append_nil (_ ++ source.toList)).symm
    rwa [afterText_nil, ← tokenize, scan_nil] at hscan

/-- A source has an error exactly where its pieces end before it does. -/
theorem tokenize_eq_error_iff {source : String} {e : Error} :
    tokenize source = .error e ↔ ∃ before body c rest, source.toList = before ++ c :: rest ∧
      Pieces Token.Scanned [] source.toList body (c :: rest) ∧ Unmatched (c :: rest) ∧
        e =
          ⟨.unrecognisedToken (String.ofList [c]), (start.afterText before).location⟩ := by
  constructor
  · intro h
    rcases tokenize_pieces source with
      ⟨_, _, hok⟩ | ⟨before, body, c, rest, happend, hpieces, hrest, herror⟩
    · cases h.symm.trans hok
    · exact ⟨before, body, c, rest, happend, hpieces, hrest,
        Except.error.inj (h.symm.trans herror)⟩
  · rintro ⟨before, body, c, rest, happend, hpieces, hrest, rfl⟩
    have hscan := hpieces.scan_eq ((nil_append _).trans happend)
    rwa [afterText_nil, ← tokenize,
      scan_of_firstPiece?_eq_none (firstPiece?_eq_none_iff.2 hrest)] at hscan

end PLang
