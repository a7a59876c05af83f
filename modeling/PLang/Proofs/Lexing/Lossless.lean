import PLang.Proofs.Lexing.Pieces

/-!
# Nothing is lost, and positions are exact

A source is the concatenation of skipped text and the lexemes of its tokens, in order. Every token
starts where the bytes before it say and ends as many bytes later on the same line.
-/

namespace PLang

open List Position

variable {before after l text rest : List Char} {t : Token} {ts : List Token}

/-! ### Locations -/

/-- The line behind a text: one more than the number of newline bytes in it. -/
def lineAfter (before : List Char) : Nat := 1 + (utf8Bytes before).count 10

/-- The column behind a text: one more than the number of bytes since the last newline byte. -/
def columnAfter (before : List Char) : Nat :=
  1 + ((utf8Bytes before).reverse.takeWhile (· != 10)).length

/-- The location behind a text, with its line and its column as 32-bit numbers. -/
def locationAfter (before : List Char) : Location :=
  ⟨.ofNat (lineAfter before), .ofNat (columnAfter before)⟩

/-- A location is exactly the place behind a text: its line and its column did not start over. -/
structure Location.Behind (before : List Char) (l : Location) : Prop where
  line : l.line.toNat = lineAfter before
  col : l.col.toNat = columnAfter before

/-- Locations are ordered by their lines first. -/
instance : LT Location := ⟨fun a b => a.line < b.line ∨ a.line = b.line ∧ a.col < b.col⟩

instance : LE Location := ⟨fun a b => a.line < b.line ∨ a.line = b.line ∧ a.col ≤ b.col⟩

theorem afterBytes_start (bytes : List UInt8) :
    (start.afterBytes bytes).line = .ofNat (1 + bytes.count 10) ∧
      (start.afterBytes bytes).offset = (start.afterBytes bytes).lineStart +
        (bytes.reverse.takeWhile (· != 10)).length := by
  induction bytes using reverseRecOn with
  | nil => exact ⟨rfl, rfl⟩
  | append_singleton bytes byte ih =>
    have hstep : start.afterBytes (bytes ++ [byte]) =
        (start.afterBytes bytes).afterByte byte := afterBytes_append _ _ _
    rw [hstep, afterByte, count_append, reverse_append, reverse_singleton,
      singleton_append]
    by_cases hbyte : byte = 10
    · rw [if_pos hbyte, takeWhile_cons_of_neg (by simpa using hbyte), hbyte]
      exact ⟨by rw [ih.1, count_singleton_self, ← Nat.add_assoc, UInt32.ofNat_add _ 1]; rfl, rfl⟩
    · have hcount : [byte].count 10 = 0 :=
        count_eq_zero_of_not_mem (by simpa using Ne.symm hbyte)
      rw [if_neg hbyte, takeWhile_cons_of_pos (by simpa using hbyte), length_cons, hcount]
      exact ⟨ih.1, by rw [ih.2, Nat.add_assoc]⟩

theorem location_afterText (before : List Char) :
    (start.afterText before).location = locationAfter before := by
  obtain ⟨hline, hoffset⟩ := afterBytes_start (utf8Bytes before)
  rw [location, afterText, hline, hoffset, Nat.add_sub_cancel_left,
    Nat.add_comm _ 1]
  rfl

/-- No byte counts for the line and for the column. -/
theorem lineAfter_add_columnAfter_le (before : List Char) :
    lineAfter before + columnAfter before ≤ byteLength before + 2 := by
  have hlead : ((utf8Bytes before).reverse.takeWhile (· != 10)).count 10 = 0 :=
    count_eq_zero_of_not_mem fun hmem => absurd (all_eq_true.1 all_takeWhile 10 hmem) (by decide)
  have hsplit := takeWhile_append_dropWhile (p := (· != 10)) (l := (utf8Bytes before).reverse)
  have hcount := congrArg (count 10) hsplit
  have hlength := congrArg length hsplit
  have hrest : ((utf8Bytes before).reverse.dropWhile (· != 10)).count 10 ≤ _ := count_le_length
  rw [count_append, hlead, count_reverse] at hcount
  rw [length_append, length_reverse] at hlength
  rw [lineAfter, columnAfter, byteLength]
  omega

/-- Where the counts fit into 32 bits, neither of them has started over. -/
theorem behind_of_lt (hline : lineAfter before < 0x100000000)
    (hcol : columnAfter before < 0x100000000) : (locationAfter before).Behind before :=
  ⟨UInt32.toNat_ofNat_of_lt' hline, UInt32.toNat_ofNat_of_lt' hcol⟩

theorem behind_locationAfter (h : byteLength before < 0xFFFFFFFF) :
    (locationAfter before).Behind before := by
  have hle := lineAfter_add_columnAfter_le before
  have hline : 1 ≤ lineAfter before := Nat.le_add_right 1 _
  have hcol : 1 ≤ columnAfter before := Nat.le_add_right 1 _
  exact behind_of_lt (by omega) (by omega)

/-- There is one place behind a text. -/
theorem Location.Behind.eq {l : Location} (h : l.Behind before) : l = locationAfter before := by
  rw [locationAfter, ← h.line, ← h.col, UInt32.ofNat_toNat, UInt32.ofNat_toNat]

/-- Only a newline has the newline byte in its encoding. -/
theorem eq_newline_of_mem {c : Char} (h : 10 ∈ String.utf8EncodeChar c) : c = '\n' := by
  have hbyte : ∀ n : Nat, 10 = UInt8.ofNat n → n % 256 = 10 := by
    intro n heq
    have hmod := congrArg UInt8.toNat heq
    rw [UInt8.toNat_ofNat'] at hmod
    exact hmod.symm
  have hval : c.val.toNat = 10 := by
    simp only [String.utf8EncodeChar] at h
    split_ifs at h <;> simp only [mem_cons, not_mem_nil, or_false] at h
    · have := hbyte _ h
      omega
    · rcases h with h | h <;> have := hbyte _ h <;> omega
    · rcases h with h | h | h <;> have := hbyte _ h <;> omega
    · rcases h with h | h | h | h <;> have := hbyte _ h <;> omega
  exact Char.toNat_inj.1 hval

theorem newline_not_mem_utf8Bytes (h : '\n' ∉ l) : 10 ∉ utf8Bytes l := by
  intro hmem
  obtain ⟨c, hc, hbyte⟩ := mem_flatMap.1 hmem
  exact h (eq_newline_of_mem hbyte ▸ hc)

theorem utf8Bytes_append : utf8Bytes (before ++ l) = utf8Bytes before ++ utf8Bytes l :=
  flatMap_append

theorem lineAfter_append (h : 10 ∉ utf8Bytes l) : lineAfter (before ++ l) = lineAfter before := by
  rw [lineAfter, utf8Bytes_append, count_append, count_eq_zero_of_not_mem h]
  rfl

/-- Text without a newline only moves the column. -/
theorem columnAfter_append (h : 10 ∉ utf8Bytes l) :
    columnAfter (before ++ l) = columnAfter before + byteLength l := by
  have hreverse : ∀ byte ∈ (utf8Bytes l).reverse, (byte != 10) = true := by
    intro byte hbyte
    exact bne_iff_ne.2 fun heq => h (heq ▸ mem_reverse.1 hbyte)
  rw [columnAfter, utf8Bytes_append, reverse_append, takeWhile_append_of_pos hreverse,
    length_append, length_reverse, Nat.add_comm (utf8Bytes l).length,
    ← Nat.add_assoc 1 _ (utf8Bytes l).length]
  rfl

theorem locationAfter_append (h : 10 ∉ utf8Bytes l) : locationAfter (before ++ l) =
    ⟨(locationAfter before).line, (locationAfter before).col + .ofNat (byteLength l)⟩ := by
  rw [locationAfter, lineAfter_append h, columnAfter_append h, UInt32.ofNat_add]
  rfl

/-- More text never leads back. -/
theorem Location.Behind.le {a b : Location} (ha : a.Behind before) (hb : b.Behind (before ++ l)) :
    a ≤ b := by
  by_cases h : 10 ∈ utf8Bytes l
  · have hpos := count_pos_iff.2 h
    refine .inl (UInt32.lt_iff_toNat_lt.2 ?_)
    rw [ha.line, hb.line, lineAfter, lineAfter, utf8Bytes_append, count_append]
    omega
  · refine .inr ⟨UInt32.toNat_inj.1 ?_, UInt32.le_iff_toNat_le.2 ?_⟩
    · rw [ha.line, hb.line, lineAfter_append h]
    · rw [ha.col, hb.col, columnAfter_append h]
      exact Nat.le_add_right _ _

theorem byteLength_append : byteLength (before ++ l) = byteLength before + byteLength l := by
  rw [byteLength, utf8Bytes_append, length_append]
  rfl

theorem byteLength_pos (h : l ≠ []) : 0 < byteLength l := by
  obtain ⟨c, l, rfl⟩ := exists_cons_of_ne_nil h
  rw [byteLength, utf8Bytes, flatMap_cons, length_append, String.length_utf8EncodeChar]
  exact Nat.add_pos_left c.utf8Size_pos _

/-! ### Tokens in their places -/

/-- A token stands exactly where its lexeme does: it starts where the text before it says, and it
ends on the same line, as many columns later as its lexeme has bytes. -/
structure Token.Exact (before : List Char) (t : Token) (after : List Char) : Prop where
  heads : t.Heads after
  start : t.span.start.Behind before
  stop_line : t.span.stop.line = t.span.start.line
  stop_col : t.span.stop.col.toNat = t.span.start.col.toNat + byteLength t.lexeme

theorem spanOf_zero (p : Position) : p.spanOf 0 = ⟨p.location, p.location⟩ :=
  congrArg (fun col => Span.mk p.location ⟨p.line, col⟩) (UInt32.add_zero p.location.col)

theorem spanOf_afterText (n : Nat) (before : List Char) :
    (start.afterText before).spanOf n =
      ⟨locationAfter before,
        ⟨(locationAfter before).line, (locationAfter before).col + .ofNat n⟩⟩ := by
  rw [spanOf, ← location_afterText]
  rfl

theorem IsQuoted.newline_not_mem (h : IsQuoted l) : '\n' ∉ l := by
  induction h with
  | nil => exact not_mem_nil
  | char _ hline _ ih => simp [Ne.symm hline, ih]
  | pair _ ih => simp [ih]

/-- No lexeme has a newline in it. -/
theorem newline_not_mem_of_class {p : Pattern} (hp : p ∈ tokenPatterns) (h : p.Class l) :
    '\n' ∉ l := by
  intro hmem
  by_cases hstring : p = .string
  · subst hstring
    obtain ⟨_, rfl, inner, rfl, hinner⟩ := h
    simp [hinner.newline_not_mem] at hmem
  · exact absurd (isBlank_of_class hp hstring h hmem) (by decide)

theorem Token.Heads.newline_not_mem (h : t.Heads after) : '\n' ∉ t.lexeme := by
  obtain ⟨-, p, hmunch, -⟩ := h
  exact newline_not_mem_of_class hmunch.mem hmunch.lexeme

theorem Token.Heads.ne_nil (h : t.Heads after) : t.lexeme ≠ [] := by
  obtain ⟨-, p, hmunch, -⟩ := h
  obtain ⟨c, rest, heq, -⟩ := Pattern.starts_of_class hmunch.lexeme
  intro hnil
  cases hnil.symm.trans heq

/-- A token ends where the text behind it starts. -/
theorem Token.Exact.behind_stop (h : t.Exact before after) :
    t.span.stop.Behind (before ++ t.lexeme) := by
  have hnewline := newline_not_mem_utf8Bytes h.heads.newline_not_mem
  constructor
  · rw [h.stop_line, h.start.line, lineAfter_append hnewline]
  · rw [h.stop_col, h.start.col, columnAfter_append hnewline]

/-- In a source that is short enough, what is read is exact. -/
theorem scanned_iff_exact (h : byteLength (before ++ t.lexeme) < 0xFFFFFFFF) :
    t.Scanned before after ↔ t.Exact before after := by
  rw [Token.Scanned, spanOf_afterText]
  constructor
  · rintro ⟨hheads, hspan⟩
    have hnewline := newline_not_mem_utf8Bytes hheads.newline_not_mem
    have hstart : byteLength before < 0xFFFFFFFF := by
      rw [byteLength_append] at h
      omega
    have hstop := (behind_locationAfter h).col
    rw [locationAfter_append hnewline, columnAfter_append hnewline] at hstop
    refine ⟨hheads, ?_, ?_, ?_⟩ <;> rw [hspan]
    · exact behind_locationAfter hstart
    · rw [(behind_locationAfter hstart).col]
      exact hstop
  · intro hexact
    have hnewline := newline_not_mem_utf8Bytes hexact.heads.newline_not_mem
    refine ⟨hexact.heads, ?_⟩
    rw [← locationAfter_append hnewline, ← hexact.start.eq, ← hexact.behind_stop.eq]

theorem pieces_scanned_iff_exact {source : List Char} (h : byteLength source < 0xFFFFFFFF) :
    Pieces Token.Scanned [] source ts rest ↔ Pieces Token.Exact [] source ts rest := by
  have hlexeme : ∀ {before after : List Char} {t : Token},
      before ++ t.lexeme ++ after = source → byteLength (before ++ t.lexeme) < 0xFFFFFFFF := by
    rintro before after t rfl
    rw [byteLength_append] at h
    omega
  constructor
  · intro hpieces
    exact hpieces.imp (nil_append _) fun _ _ _ hsource =>
      (scanned_iff_exact (hlexeme hsource)).1
  · intro hpieces
    exact hpieces.imp (nil_append _) fun _ _ _ hsource =>
      (scanned_iff_exact (hlexeme hsource)).2

theorem Token.Exact.start_lt (h : t.Exact before after) : t.span.start < t.span.stop := by
  refine .inr ⟨h.stop_line.symm, UInt32.lt_iff_toNat_lt.2 ?_⟩
  rw [h.stop_col]
  exact Nat.lt_add_of_pos_right (byteLength_pos h.heads.ne_nil)

/-- Every token of a text stands in its place, behind the text before. -/
theorem Pieces.mem {P : List Char → Token → List Char → Prop} (h : Pieces P before text ts rest)
    (ht : t ∈ ts) : ∃ middle after, before ++ text = before ++ middle ++ t.lexeme ++ after ∧
      P (before ++ middle) t after := by
  induction h with
  | nil => exact absurd ht not_mem_nil
  | @skip before l after rest ts hskip _ ih =>
    obtain ⟨middle, after', heq, hP⟩ := ih ht
    refine ⟨l ++ middle, after', ?_, ?_⟩
    · rw [← append_assoc, heq, ← append_assoc before]
    · rwa [← append_assoc]
  | @token before after rest t' ts hP _ ih =>
    rcases mem_cons.1 ht with rfl | ht
    · exact ⟨[], after, by rw [append_nil, append_assoc], by rwa [append_nil]⟩
    · obtain ⟨middle, after', heq, hP⟩ := ih ht
      refine ⟨t'.lexeme ++ middle, after', ?_, ?_⟩
      · rw [← append_assoc, heq, ← append_assoc before]
      · rwa [← append_assoc]

/-- One token stands before another one: it starts before it, and it ends where the other one starts
or before. -/
def Token.Precedes (a b : Token) : Prop :=
  a.span.start < b.span.start ∧ a.span.stop ≤ b.span.start

theorem Location.lt_of_lt_of_le {a b c : Location} (hab : a < b) (hbc : b ≤ c) : a < c := by
  rcases hab with hab | ⟨hab, hab'⟩ <;> rcases hbc with hbc | ⟨hbc, hbc'⟩
  · exact .inl (UInt32.lt_trans hab hbc)
  · exact .inl (hbc ▸ hab)
  · exact .inl (hab ▸ hbc)
  · exact .inr ⟨hab.trans hbc, UInt32.lt_of_lt_of_le hab' hbc'⟩

theorem Token.Exact.precedes {t' : Token} {middle : List Char} (h : t.Exact before after)
    (hstart : t'.span.start.Behind (before ++ t.lexeme ++ middle)) : t.Precedes t' := by
  have hle : t.span.stop ≤ t'.span.start := h.behind_stop.le hstart
  exact ⟨Location.lt_of_lt_of_le h.start_lt hle, hle⟩

/-- The tokens of a text stand one after another. -/
theorem Pieces.pairwise (h : Pieces Token.Exact before text ts rest) :
    ts.Pairwise Token.Precedes := by
  induction h with
  | nil => exact .nil
  | skip _ _ ih => exact ih
  | token ht hpieces ih =>
    refine pairwise_cons.2 ⟨fun t' ht' => ?_, ih⟩
    obtain ⟨middle, after', -, hexact⟩ := hpieces.mem ht'
    exact ht.precedes hexact.start

/-- Reading a source loses nothing, and positions are exact. A source of less than `2 ^ 32 - 1`
bytes has the tokens `tokens` exactly if it is the concatenation, in order, of skipped text and of
their lexemes, each token in its exact place, and the end of the file behind it all. The spans of
the tokens are disjoint and increase. A source has an error exactly if such a concatenation leads to
a character where no pattern matches, and the error is about this character and its place. -/
theorem tokenize_lossless {source : String} (h : byteLength source.toList < 0xFFFFFFFF) :
    (∀ tokens, tokenize source = .ok tokens ↔ ∃ body l, l.Behind source.toList ∧
      tokens = body ++ [.endOfFile ⟨l, l⟩] ∧ Pieces Token.Exact [] source.toList body []) ∧
    (∀ tokens, tokenize source = .ok tokens → tokens.Pairwise Token.Precedes) ∧
    ∀ e, tokenize source = .error e ↔ ∃ before body c rest l, source.toList = before ++ c :: rest ∧
      Pieces Token.Exact [] source.toList body (c :: rest) ∧ Unmatched (c :: rest) ∧
        l.Behind before ∧ e = ⟨.unrecognisedToken (String.ofList [c]), l⟩ := by
  refine ⟨fun tokens => ?_, fun tokens htokens => ?_, fun e => ?_⟩
  · rw [tokenize_eq_ok_iff, spanOf_zero, location_afterText]
    simp only [pieces_scanned_iff_exact h]
    constructor
    · rintro ⟨body, htokens, hpieces⟩
      exact ⟨body, _, behind_locationAfter h, htokens, hpieces⟩
    · rintro ⟨body, l, hl, htokens, hpieces⟩
      exact ⟨body, by rw [htokens, hl.eq], hpieces⟩
  · obtain ⟨body, rfl, hpieces⟩ := tokenize_eq_ok_iff.1 htokens
    rw [pieces_scanned_iff_exact h] at hpieces
    refine pairwise_append.2 ⟨hpieces.pairwise, pairwise_singleton _ _, ?_⟩
    intro t ht eof heof
    obtain ⟨middle, after, heq, hexact⟩ := hpieces.mem ht
    have hstart : eof.span.start.Behind ([] ++ middle ++ t.lexeme ++ after) := by
      rw [mem_singleton.1 heof, spanOf_zero, location_afterText, ← heq]
      exact behind_locationAfter h
    exact hexact.precedes hstart
  · rw [tokenize_eq_error_iff]
    simp only [pieces_scanned_iff_exact h, location_afterText]
    constructor
    · rintro ⟨before, body, c, rest, hsplit, hpieces, hunmatched, he⟩
      have hbefore : byteLength before < 0xFFFFFFFF := by
        rw [hsplit, byteLength_append] at h
        omega
      exact ⟨before, body, c, rest, _, hsplit, hpieces, hunmatched,
        behind_locationAfter hbefore, he⟩
    · rintro ⟨before, body, c, rest, l, hsplit, hpieces, hunmatched, hl, he⟩
      exact ⟨before, body, c, rest, hsplit, hpieces, hunmatched, by rw [he, hl.eq]⟩

/-- A source with a comment over two lines and a string with a quote. -/
def commented : String := "x /* \n */ \"é\"\"\" // y"

def commentedTokens : List Token :=
  [⟨.identifier, "x", ⟨⟨1, 1⟩, ⟨1, 2⟩⟩⟩, ⟨.string, "é\"", ⟨⟨2, 5⟩, ⟨2, 11⟩⟩⟩,
    .endOfFile ⟨⟨2, 16⟩, ⟨2, 16⟩⟩]

theorem tokenize_lossless_commented : byteLength commented.toList < 0xFFFFFFFF ∧
    ∃ body l, l.Behind commented.toList ∧ commentedTokens = body ++ [.endOfFile ⟨l, l⟩] ∧
      Pieces Token.Exact [] commented.toList body [] := by
  have hshort : byteLength commented.toList < 0xFFFFFFFF := by decide +kernel
  have htokens : tokenize commented = .ok commentedTokens :=
    eq_ok_of_toOption (by decide +kernel)
  exact ⟨hshort, ((tokenize_lossless hshort).1 _).1 htokens⟩

theorem Location.Behind.col_ne_zero {l : Location} (h : l.Behind before) : l.col ≠ 0 := by
  intro hzero
  have hcol := h.col
  rw [hzero, columnAfter] at hcol
  exact absurd hcol.symm (Nat.ne_of_gt (Nat.le_add_right 1 _))

/-- A line of blanks. -/
def blankLine (n : Nat) : String := String.ofList (replicate n ' ')

theorem utf8Bytes_blankLine (n : Nat) : utf8Bytes (blankLine n).toList = replicate n 32 := by
  rw [blankLine, String.toList_ofList]
  induction n with
  | zero => rfl
  | succ n ih => exact congrArg (32 :: ·) ih

/-- The end of a line of blanks is behind all of them. -/
theorem tokenize_blankLine {n : Nat} (h : n ≠ 0) : tokenize (blankLine n) =
    .ok [.endOfFile ⟨⟨1, .ofNat (1 + n)⟩, ⟨1, .ofNat (1 + n)⟩⟩] := by
  have hplace : locationAfter (blankLine n).toList = ⟨1, .ofNat (1 + n)⟩ := by
    rw [locationAfter, lineAfter, columnAfter, utf8Bytes_blankLine, reverse_replicate,
      takeWhile_replicate_eq_filter, filter_replicate_of_pos (by decide), length_replicate,
      count_replicate, if_neg (by decide)]
    rfl
  have hall : (replicate n ' ').all isBlank = true := by
    rw [all_replicate]
    simp [isBlank]
  have hpieces : Pieces Token.Scanned [] (blankLine n).toList [] [] := by
    rw [blankLine, String.toList_ofList, ← append_nil (replicate n ' ')]
    exact .skip (.blanks ⟨by simpa using h, hall⟩ (by simp)) .nil
  refine tokenize_eq_ok_iff.2 ⟨[], ?_, hpieces⟩
  rw [spanOf_zero, location_afterText, hplace]
  rfl

/-- Behind `2 ^ 32 - 1` blanks the column has started over, and the end of the file is at no column.
Its value is no part of a source: the value of every other token is or tells its lexeme, but an
empty source has the value `EOF`. -/
theorem tokenize_blankLine_overruns :
    byteLength (blankLine 0xFFFFFFFF).toList < 0x100000000 ∧
      tokenize (blankLine 0xFFFFFFFF) = .ok [.endOfFile ⟨⟨1, 0⟩, ⟨1, 0⟩⟩] ∧
      ¬Location.Behind (blankLine 0xFFFFFFFF).toList ⟨1, 0⟩ ∧
      tokenize "" = .ok [.endOfFile ⟨⟨1, 1⟩, ⟨1, 1⟩⟩] ∧
      (Token.endOfFile ⟨⟨1, 1⟩, ⟨1, 1⟩⟩).lexeme = "EOF".toList := by
  have hover : UInt32.ofNat (1 + 0xFFFFFFFF) = 0 := by decide
  refine ⟨?_, ?_, fun h => h.col_ne_zero rfl, eq_ok_of_toOption (by decide +kernel),
    by decide +kernel⟩
  · rw [byteLength, utf8Bytes_blankLine, length_replicate]
    decide
  · rw [tokenize_blankLine (by decide), hover]

end PLang
