import PLang.Proofs.Lexing.Lossless

/-!
# Lines are read one after another

A newline ends every piece that can stand in front of it: no lexeme has one, a comment up to the end
of its line stops there, and a run of blanks may be read in parts. So what follows a newline is read
as a source of its own, some lines further down (`tokenize_join`). The one piece that text from
another line may complete is a block comment that is still open, which reads as a slash and a star.
-/

namespace PLang

open List Position

variable {before after l text rest more : List Char} {t : Token} {ts : List Token}

/-! ### Further down -/

/-- A location some lines further down, in the same column. -/
def Location.down (l : Location) (lines : Nat) : Location :=
  { l with line := l.line + .ofNat lines }

/-- A token whose span is some lines further down, in the same columns. -/
def Token.down (t : Token) (lines : Nat) : Token :=
  { t with span := ⟨t.span.start.down lines, t.span.stop.down lines⟩ }

def Error.down (e : Error) (lines : Nat) : Error := { e with location := e.location.down lines }

/-- The position that is reached by the same steps from some lines and bytes further down. -/
def Position.down (p : Position) (lines bytes : Nat) : Position :=
  ⟨p.offset + bytes, p.line + .ofNat lines, p.lineStart + bytes⟩

/-- The tokens or the error of a text that is some lines further down. -/
def readDown (lines : Nat) : Except Error (List Token) → Except Error (List Token)
  | .ok tokens => .ok (tokens.map (·.down lines))
  | .error e => .error (e.down lines)

namespace Position

variable (p : Position) (lines bytes : Nat)

@[simp]
theorem location_down : (p.down lines bytes).location = p.location.down lines := by
  simp [location, down, Location.down, Nat.add_sub_add_right]

@[simp]
theorem spanOf_down (n : Nat) : (p.down lines bytes).spanOf n =
    ⟨(p.spanOf n).start.down lines, (p.spanOf n).stop.down lines⟩ := by
  simp [spanOf]
  rfl

theorem afterByte_down (byte : UInt8) :
    (p.down lines bytes).afterByte byte = (p.afterByte byte).down lines bytes := by
  have hline : p.line + .ofNat lines + 1 = p.line + 1 + .ofNat lines := by
    rw [UInt32.add_assoc, UInt32.add_assoc, UInt32.add_comm (.ofNat lines)]
  by_cases h : byte = 10 <;> simp [afterByte, down, h, hline, Nat.add_right_comm]

@[simp]
theorem afterText_down (text : List Char) :
    (p.down lines bytes).afterText text = (p.afterText text).down lines bytes := by
  rw [afterText, afterText, afterBytes, afterBytes]
  induction utf8Bytes text generalizing p with
  | nil => rfl
  | cons byte rest ih => simp only [foldl_cons, afterByte_down, ih]

end Position

/-- A text is read in the same way wherever it stands. -/
theorem scan_down (p : Position) (lines bytes : Nat) (text : List Char) :
    scan (p.down lines bytes) text = readDown lines (scan p text) := by
  induction hn : text.length using Nat.strongRecOn generalizing p text with
  | ind n ih =>
    cases text with
    | nil => simp [scan_nil, readDown, Token.down, Token.endOfFile]
    | cons c tail =>
      cases hpiece : firstPiece? (c :: tail) with
      | none => simp [scan_of_firstPiece?_eq_none hpiece, readDown, Error.down]
      | some piece =>
        rw [scan_of_firstPiece? hpiece, scan_of_firstPiece? hpiece, afterText_down,
          ih _ (hn ▸ length_rest_lt hpiece) _ _ rfl]
        cases scan (p.afterText piece.lexeme) piece.rest with
        | error e => rfl
        | ok tokens =>
          cases piece.pattern.token? piece.lexeme <;>
            simp [readDown, Except.map, Token.down]

theorem count_utf8Bytes (text : List Char) : (utf8Bytes text).count 10 = text.count '\n' := by
  induction text with
  | nil => rfl
  | cons c text ih =>
    have hcons : utf8Bytes (c :: text) = String.utf8EncodeChar c ++ utf8Bytes text := rfl
    rw [hcons, count_append, ih, count_cons, Nat.add_comm]
    by_cases hc : c = '\n'
    · subst hc
      rfl
    · have hzero : (String.utf8EncodeChar c).count 10 = 0 :=
        count_eq_zero_of_not_mem fun h => hc (eq_newline_of_mem h)
      simp [hzero, hc]

/-- Behind a newline a text stands as at the start, as many lines further down as have ended. -/
theorem afterText_newline (before : List Char) :
    Position.start.afterText (before ++ ['\n']) =
      Position.start.down (1 + before.count '\n') (byteLength before + 1) := by
  have hline := (afterBytes_start (utf8Bytes before)).1
  have hoffset := offset_afterBytes Position.start (utf8Bytes before)
  have hstep : ∀ p : Position, p.afterText ['\n'] = ⟨p.offset + 1, p.line + 1, p.offset + 1⟩ :=
    fun p => rfl
  rw [afterText_append, hstep, afterText, hline, hoffset, count_utf8Bytes]
  rw [UInt32.ofNat_add, UInt32.add_assoc]
  simp [Position.down, Position.start, byteLength, UInt32.ofNat_add, UInt32.add_comm]

/-! ### Blanks -/

/-- Blanks may be read in parts. -/
theorem scan_blanks (h : l.all isBlank = true) (p : Position) (text : List Char) :
    scan p (l ++ text) = scan (p.afterText l) text := by
  have hstop : ∀ c ∈ (text.dropWhile isBlank).head?, isBlank c = false := by
    intro c hc
    have hnot := head?_dropWhile_not isBlank text
    rw [hc] at hnot
    simpa using hnot
  -- up to the next character that is no blank, reading takes one step at most
  have hrun : ∀ {l : List Char} (p : Position), l.all isBlank = true →
      scan p (l ++ text.dropWhile isBlank) = scan (p.afterText l) (text.dropWhile isBlank) := by
    intro l p hl
    by_cases hnil : l = []
    · subst hnil
      rfl
    · exact scan_of_skipped (.blanks ⟨hnil, hl⟩ hstop) p
  have htake : (text.takeWhile isBlank).all isBlank = true := all_takeWhile
  have hboth : (l ++ text.takeWhile isBlank).all isBlank = true := by
    rw [all_append, h, htake]
    rfl
  calc scan p (l ++ text)
      = scan p (l ++ text.takeWhile isBlank ++ text.dropWhile isBlank) := by
        rw [append_assoc, takeWhile_append_dropWhile]
    _ = scan (p.afterText (l ++ text.takeWhile isBlank)) (text.dropWhile isBlank) := hrun p hboth
    _ = scan (p.afterText l) (text.takeWhile isBlank ++ text.dropWhile isBlank) := by
        rw [hrun (p.afterText l) htake, afterText_append]
    _ = scan (p.afterText l) text := by rw [takeWhile_append_dropWhile]

/-! ### Pieces in front of a newline -/

/-- What starts a longer text and has no newline ends before the first newline. -/
theorem front_of_newline_not_mem (h : l <+: text ++ '\n' :: more) (hl : '\n' ∉ l) :
    l <+: text := by
  rcases prefix_or_prefix_of_prefix h (prefix_append text ('\n' :: more)) with
    hfront | ⟨tail, rfl⟩
  · exact hfront
  · cases tail with
    | nil => simp
    | cons c tail =>
      rw [prefix_append_right_inj, cons_prefix_cons] at h
      exact absurd (h.1 ▸ mem_append_right _ (.head _)) hl

/-- The longest match stays the longest one. -/
theorem Munch.newline {piece : Piece} (h : Munch text piece) :
    Munch (text ++ '\n' :: more) { piece with rest := piece.rest ++ '\n' :: more } where
  mem := h.mem
  append := by rw [← h.append, append_assoc]
  lexeme := h.lexeme
  longest q hq l hfront hl :=
    h.longest q hq l (front_of_newline_not_mem hfront (newline_not_mem_of_class hq hl)) hl
  unique := h.unique

/-- Where nothing is skipped and no comment is opened, nothing is skipped in the longer text. -/
theorem Unskipped.newline (h : Unskipped text) (hne : text ≠ []) (hopen : ¬['/', '*'] <+: text) :
    Unskipped (text ++ '\n' :: more) := by
  intro p hp hskip l hfront hl
  have hnot : ∀ {l}, l <+: text → ¬p.Class l := fun hfront => h p hp hskip _ hfront
  cases p with
  | blanks =>
    obtain ⟨c, tail, rfl⟩ := exists_cons_of_ne_nil hne
    obtain ⟨c', l, rfl⟩ := exists_cons_of_ne_nil hl.1
    obtain rfl := (cons_prefix_cons.1 hfront).1
    have hblank : isBlank c' = true := all_eq_true.1 hl.2 c' (.head _)
    refine hnot (l := [c']) (by simp) ?_
    exact ⟨by simp, by simp [hblank]⟩
  | lineComment =>
    have hline : IsLineComment l := hl
    obtain ⟨_, rfl, body, rfl, hbody⟩ := hline
    exact hnot (front_of_newline_not_mem hfront (by simp [hbody])) hl
  | blockComment =>
    obtain ⟨_, rfl, body, rfl, -⟩ := hl
    have hmark : ['/', '*'] <+: text ++ '\n' :: more :=
      List.IsPrefix.trans ⟨body, rfl⟩ hfront
    exact hopen (front_of_newline_not_mem hmark (by decide))
  | string | real | integer | word | symbol => cases hskip

/-- Of the lexemes of tokens only a slash starts with one. -/
theorem Token.Heads.eq_slash (h : t.Heads after) (hslash : ['/'] <+: t.lexeme) :
    t.kind = .slash ∧ t.lexeme = ['/'] := by
  have hsole : ∀ p ∈ tokenPatterns, p.starts '/' = true → p = .symbol .slash '/' [] := by decide
  obtain ⟨-, p, hmunch, htoken⟩ := h
  obtain ⟨c, rest, hlexeme, hc⟩ := Pattern.starts_of_class hmunch.lexeme
  obtain rfl : c = '/' := by
    dsimp only at hlexeme
    rw [hlexeme, cons_prefix_cons] at hslash
    exact hslash.1.symm
  obtain rfl := hsole p hmunch.mem hc
  exact ⟨(Prod.mk.inj (Option.some.inj htoken)).1.symm, hmunch.lexeme⟩

/-- A token stays in front of a longer text, unless it is a slash with a star behind it. -/
theorem Token.Heads.newline (h : t.Heads after)
    (hopen : t.kind = .slash → t.lexeme = ['/'] → after.head? ≠ some '*') :
    t.Heads (after ++ '\n' :: more) := by
  obtain ⟨hunskipped, p, hmunch, htoken⟩ := id h
  have hne : t.lexeme ≠ [] := by
    obtain ⟨c, rest, hlexeme, -⟩ := Pattern.starts_of_class hmunch.lexeme
    dsimp only at hlexeme
    simp [hlexeme]
  rw [Token.Heads, ← append_assoc]
  refine ⟨hunskipped.newline (by simp [hne]) fun hmark => ?_, p, hmunch.newline, htoken⟩
  obtain ⟨c, rest, hlexeme⟩ := exists_cons_of_ne_nil hne
  rw [hlexeme, cons_append, cons_prefix_cons] at hmark
  obtain ⟨rfl, hmark⟩ := hmark
  obtain ⟨hkind, hslash⟩ := h.eq_slash (by simp [hlexeme])
  obtain rfl : rest = [] := by simpa [hslash] using hlexeme.symm
  refine hopen hkind hslash ?_
  cases after with
  | nil => simp at hmark
  | cons star after => simpa [eq_comm] using hmark

/-! ### Texts without an open comment -/

/-- No comment is left open: no slash ends where a star starts. -/
def Closed (ts : List Token) : Prop :=
  ∀ slash ∈ ts, ∀ star ∈ ts, slash.kind = .slash → star.kind = .star →
    slash.span.stop ≠ star.span.start

instance : DecidablePred Closed := fun ts =>
  inferInstanceAs (Decidable (∀ slash ∈ ts, ∀ star ∈ ts, slash.kind = .slash → star.kind = .star →
    slash.span.stop ≠ star.span.start))

/-- A star in front of a text is the first token of it. -/
theorem Pieces.star (h : Pieces Token.Scanned before text ts []) (hstar : text.head? = some '*') :
    ∃ star ∈ ts, star.kind = .star ∧ star.span.start = locationAfter before := by
  have hsole : ∀ p ∈ tokenPatterns, p.starts '*' = true → p = .symbol .star '*' [] := by decide
  cases h with
  | nil => cases hstar
  | skip hskip hpieces =>
    -- no skipped text starts with a star
    cases hskip with
    | blanks hrun hstop =>
      obtain ⟨c, l, rfl⟩ := exists_cons_of_ne_nil hrun.1
      have hblank : isBlank c = true := all_eq_true.1 hrun.2 c (.head _)
      obtain rfl : c = '*' := by simpa using hstar
      exact absurd hblank (by decide)
    | lineComment hline =>
      obtain ⟨_, rfl, -⟩ := hline
      simp at hstar
    | blockComment hblock =>
      obtain ⟨_, rfl, -⟩ := hblock
      simp at hstar
  | @token _ _ _ star _ hscanned hpieces =>
    obtain ⟨⟨-, p, hmunch, htoken⟩, hspan⟩ := hscanned
    obtain ⟨c, rest, hlexeme, hc⟩ := Pattern.starts_of_class hmunch.lexeme
    dsimp only at hlexeme
    obtain rfl : c = '*' := by simpa [hlexeme] using hstar
    obtain rfl := hsole p hmunch.mem hc
    refine ⟨star, .head _, (Prod.mk.inj (Option.some.inj htoken)).1.symm, ?_⟩
    rw [hspan, ← location_afterText]
    rfl

/-- What is read of a closed text and a line behind it is read of the one and then of the other. -/
theorem Pieces.scan_newline (h : Pieces Token.Scanned before text ts []) (hclosed : Closed ts)
    (more : List Char) :
    scan (Position.start.afterText before) (text ++ '\n' :: more) =
      (scan (Position.start.afterText (before ++ text ++ ['\n'])) more).map (ts ++ ·) := by
  generalize hrest : ([] : List Char) = rest at h
  induction h with
  | nil =>
    subst hrest
    rw [nil_append, append_nil, afterText_append]
    exact (scan_blanks (l := ['\n']) rfl _ more).trans (congrFun Except.map_id _).symm
  | @skip before l after _ ts hskip hpieces ih =>
    have hread : scan (Position.start.afterText before) (l ++ (after ++ '\n' :: more)) =
        scan (Position.start.afterText (before ++ l)) (after ++ '\n' :: more) := by
      rw [afterText_append]
      cases hskip with
      | blanks hrun _ => exact scan_blanks hrun.2 _ _
      | lineComment hline hstop =>
        refine scan_of_skipped (.lineComment hline ?_) _
        cases after with
        | nil => simp
        | cons c after => exact hstop
      | blockComment hblock => exact scan_of_skipped (.blockComment hblock) _
    rw [append_assoc, hread, ih hclosed hrest, append_assoc before l after]
  | @token before after _ t ts hscanned hpieces ih =>
    subst hrest
    have hopen : t.kind = .slash → t.lexeme = ['/'] → after.head? ≠ some '*' := by
      intro hslash hlexeme hhead
      obtain ⟨star, hmem, hstar, hstart⟩ := hpieces.star hhead
      refine hclosed t (.head _) star (mem_cons_of_mem t hmem) hslash hstar ?_
      rw [hstart, hscanned.2, spanOf_afterText,
        locationAfter_append (newline_not_mem_utf8Bytes hscanned.1.newline_not_mem)]
    have hclosed' : Closed ts := fun slash hslash star hstar =>
      hclosed slash (mem_cons_of_mem t hslash) star (mem_cons_of_mem t hstar)
    rw [append_assoc, scan_of_scanned ⟨hscanned.1.newline hopen, hscanned.2⟩,
      ih hclosed' rfl, append_assoc before t.lexeme after]
    cases scan (Position.start.afterText (before ++ (t.lexeme ++ after) ++ ['\n'])) more <;> rfl

/-- No piece of a text makes the end of the file. -/
theorem Token.Heads.kind_ne (h : t.Heads after) : t.kind ≠ .endOfFile := by
  obtain ⟨-, p, hmunch, htoken⟩ := h
  have hmem := hmunch.mem
  intro hkind
  rw [hkind] at htoken
  cases p with
  | blanks | lineComment | blockComment | string | real | integer => cases htoken
  | word =>
    have hword := wordKind_mem (String.ofList t.lexeme)
    rw [(Prod.mk.inj (Option.some.inj htoken)).1] at hword
    exact absurd hword (by decide)
  | symbol kind first others =>
    obtain rfl : kind = .endOfFile := (Prod.mk.inj (Option.some.inj htoken)).1
    simp [tokenPatterns, patterns] at hmem

theorem Pieces.kind_ne (h : Pieces Token.Scanned before text ts rest) (ht : t ∈ ts) :
    t.kind ≠ .endOfFile := by
  obtain ⟨_, _, -, hscanned⟩ := h.mem ht
  exact hscanned.1.kind_ne

theorem Pieces.filter_kind (h : Pieces Token.Scanned before text ts rest) (span : Span) :
    (ts ++ [Token.endOfFile span]).filter (·.kind ≠ .endOfFile) = ts := by
  have hkept : ts.filter (·.kind ≠ .endOfFile) = ts :=
    filter_eq_self.2 fun t ht => decide_eq_true (h.kind_ne ht)
  rw [filter_append, hkept]
  exact append_nil ts

/-! ### Sources of several lines -/

/-- Where the lines do not start over, a location is exactly so many lines further down. -/
theorem Location.toNat_line_down {l : Location} {lines : Nat}
    (h : l.line.toNat + lines < 0x100000000) :
    (l.down lines).line.toNat = l.line.toNat + lines := by
  have hlines : lines < UInt32.size := Nat.lt_of_le_of_lt (Nat.le_add_left _ _) h
  rw [down, UInt32.toNat_add, UInt32.toNat_ofNat_of_lt' hlines, Nat.mod_eq_of_lt h]

/-- No line is beyond the newlines of a text. -/
theorem toNat_line_locationAfter_le (h : text = before ++ rest) :
    (locationAfter before).line.toNat ≤ 1 + text.count '\n' := by
  have hcount : before.count '\n' ≤ text.count '\n' := by
    rw [h, count_append]
    exact Nat.le_add_right _ _
  have hmod : (locationAfter before).line.toNat ≤ lineAfter before := by
    rw [locationAfter, UInt32.toNat_ofNat']
    exact Nat.mod_le _ _
  rw [lineAfter, count_utf8Bytes] at hmod
  omega

/-- Every token is read behind a part of its source. -/
theorem exists_span_of_mem {source : String} (h : tokenize source = .ok ts) (ht : t ∈ ts) :
    ∃ before rest n, source.toList = before ++ rest ∧
      t.span = (Position.start.afterText before).spanOf n := by
  obtain ⟨body, rfl, hpieces⟩ := tokenize_eq_ok_iff.1 h
  rcases mem_append.1 ht with ht | ht
  · obtain ⟨middle, after, hsplit, hscanned⟩ := hpieces.mem ht
    rw [append_assoc] at hsplit
    exact ⟨_, _, _, hsplit, hscanned.2⟩
  · rw [mem_singleton.1 ht]
    exact ⟨source.toList, [], 0, (append_nil _).symm, rfl⟩

/-- A source is read line by line. Behind a source that can be read and leaves no comment open, a
newline and another source are read as the other source alone is, as many lines further down as have
ended: into its tokens behind those of the first one, or with its error. With less than `2 ^ 32 - 1`
newlines in all, no number of a line starts over. -/
theorem tokenize_join {first second : String} {tokens : List Token}
    (h : tokenize first = .ok tokens) (hclosed : Closed tokens) :
    let lines := 1 + first.toList.count '\n'
    ((∃ all, tokenize (first ++ "\n" ++ second) = .ok all) ↔
        ∃ others, tokenize second = .ok others) ∧
      (∀ others, tokenize second = .ok others → tokenize (first ++ "\n" ++ second) =
        .ok (tokens.filter (·.kind ≠ .endOfFile) ++ others.map (·.down lines))) ∧
      (∀ e, tokenize second = .error e → tokenize (first ++ "\n" ++ second) =
        .error (e.down lines)) ∧
      (lines + second.toList.count '\n' < 0xFFFFFFFF →
        (∀ others, tokenize second = .ok others → ∀ t ∈ others,
          (t.down lines).span.start.line.toNat = t.span.start.line.toNat + lines ∧
            (t.down lines).span.stop.line.toNat = t.span.stop.line.toNat + lines) ∧
        ∀ e, tokenize second = .error e →
          (e.down lines).location.line.toNat = e.location.line.toNat + lines) := by
  intro lines
  obtain ⟨body, rfl, hpieces⟩ := tokenize_eq_ok_iff.1 h
  have hbody : Closed body := fun slash hslash star hstar =>
    hclosed slash (mem_append_left _ hslash) star (mem_append_left _ hstar)
  have hjoin : tokenize (first ++ "\n" ++ second) =
      (readDown lines (tokenize second)).map (body ++ ·) := by
    have hscan := hpieces.scan_newline hbody second.toList
    rw [nil_append, afterText_newline, scan_down, afterText_nil] at hscan
    rw [tokenize, String.toList_append, String.toList_append, append_assoc]
    exact hscan
  have hexact : lines + second.toList.count '\n' < 0xFFFFFFFF → ∀ {before rest : List Char},
      second.toList = before ++ rest → ∀ {l : Location}, l.line = (locationAfter before).line →
        (l.down lines).line.toNat = l.line.toNat + lines := by
    intro hfits before rest hsplit l hl
    have hle := toNat_line_locationAfter_le hsplit
    exact Location.toNat_line_down (by rw [hl]; omega)
  rw [hpieces.filter_kind, hjoin]
  refine ⟨?_, ?_, ?_, fun hfits => ⟨fun others hothers t ht => ?_, fun e he => ?_⟩⟩
  · cases tokenize second <;> simp [readDown, Except.map]
  · intro others hothers
    rw [hothers]
    rfl
  · intro e he
    rw [he]
    rfl
  · obtain ⟨before, rest, n, hsplit, hspan⟩ := exists_span_of_mem hothers ht
    rw [spanOf_afterText] at hspan
    exact ⟨hexact hfits hsplit (by rw [hspan]), hexact hfits hsplit (by rw [hspan])⟩
  · obtain ⟨before, _, c, rest, hsplit, -, -, rfl⟩ := tokenize_eq_error_iff.1 he
    exact hexact hfits hsplit (by rw [location_afterText])

def slashTokens : List Token :=
  [⟨.identifier, "a", ⟨⟨1, 1⟩, ⟨1, 2⟩⟩⟩, ⟨.identifier, "c", ⟨⟨2, 1⟩, ⟨2, 2⟩⟩⟩,
    ⟨.slash, "/", ⟨⟨2, 3⟩, ⟨2, 4⟩⟩⟩, .endOfFile ⟨⟨2, 4⟩, ⟨2, 4⟩⟩]

def starTokens : List Token :=
  [⟨.star, "*", ⟨⟨1, 1⟩, ⟨1, 2⟩⟩⟩, ⟨.identifier, "d", ⟨⟨1, 3⟩, ⟨1, 4⟩⟩⟩,
    .endOfFile ⟨⟨1, 4⟩, ⟨1, 4⟩⟩]

/-- A slash at the end of a line and a star at the start of the next one open no comment. -/
theorem tokenize_join_slash_star :
    tokenize "a // b\nc /" = .ok slashTokens ∧ Closed slashTokens ∧
      tokenize "* d" = .ok starTokens ∧
      tokenize ("a // b\nc /" ++ "\n" ++ "* d") = .ok
        [⟨.identifier, "a", ⟨⟨1, 1⟩, ⟨1, 2⟩⟩⟩, ⟨.identifier, "c", ⟨⟨2, 1⟩, ⟨2, 2⟩⟩⟩,
          ⟨.slash, "/", ⟨⟨2, 3⟩, ⟨2, 4⟩⟩⟩, ⟨.star, "*", ⟨⟨3, 1⟩, ⟨3, 2⟩⟩⟩,
          ⟨.identifier, "d", ⟨⟨3, 3⟩, ⟨3, 4⟩⟩⟩, .endOfFile ⟨⟨3, 4⟩, ⟨3, 4⟩⟩] := by
  have hfirst : tokenize "a // b\nc /" = .ok slashTokens := eq_ok_of_toOption (by decide +kernel)
  have hsecond : tokenize "* d" = .ok starTokens := eq_ok_of_toOption (by decide +kernel)
  have hclosed : Closed slashTokens := by decide
  have hjoin := (tokenize_join hfirst hclosed).2.1 starTokens hsecond
  exact ⟨hfirst, hclosed, hsecond, hjoin.trans (congrArg Except.ok (by decide))⟩

end PLang
